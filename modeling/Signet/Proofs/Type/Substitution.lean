import Mathlib.Data.List.Forall2
import Signet.Proofs.Type.Variables

/-!
# Laws of substitution

Two layers are alike if they differ in nothing but the types in them: in the same order they have
the same names, keys and marks, and the types at each place are related (`Layer.Alike`). A
substitution replaces variables and nothing else (`Ty.Replaced`): where a variable has a value, the
value stands as it is, and every other layer has become one that is alike. So the result of a
substitution is the one type with its variables replaced (`Ty.replaced_iff`).
-/

namespace Signet

variable {τ σ : Type}

/-! ## Layers that differ in their types only -/

section Alike

variable (R : τ → σ → Prop)

/-- Two parameters with the same name, or both without one. -/
inductive Param.Alike : Param τ → Param σ → Prop
  | mk {type : τ} {other : σ} {name : Option String} :
      R type other → Alike ⟨type, name⟩ ⟨other, name⟩

/-- Two keyword parameters with the same key. -/
inductive Keyword.Alike : Keyword τ → Keyword σ → Prop
  | mk {key : String} {param : Param τ} {other : Param σ} :
      param.Alike R other → Alike ⟨key, param⟩ ⟨key, other⟩

/-- Two parameter lists with alike parameters in each role, in the same order. -/
inductive Params.Alike : Params τ → Params σ → Prop
  | mk {required optional trailing : List (Param τ)} {rest restKeywords : Option (Param τ)}
      {requiredKeywords optionalKeywords : List (Keyword τ)}
      {required' optional' trailing' : List (Param σ)} {rest' restKeywords' : Option (Param σ)}
      {requiredKeywords' optionalKeywords' : List (Keyword σ)} :
      List.Forall₂ (Param.Alike R) required required' →
      List.Forall₂ (Param.Alike R) optional optional' →
      Option.Rel (Param.Alike R) rest rest' →
      List.Forall₂ (Param.Alike R) trailing trailing' →
      List.Forall₂ (Keyword.Alike R) requiredKeywords requiredKeywords' →
      List.Forall₂ (Keyword.Alike R) optionalKeywords optionalKeywords' →
      Option.Rel (Param.Alike R) restKeywords restKeywords' →
      Alike
        ⟨required, optional, rest, trailing, requiredKeywords, optionalKeywords, restKeywords⟩
        ⟨required', optional', rest', trailing', requiredKeywords', optionalKeywords',
          restKeywords'⟩

/-- Two functions of which both or neither have their parameters checked. -/
inductive Function.Alike : Function τ → Function σ → Prop
  | typed {a : Params τ} {b : Params σ} {result : τ} {other : σ} :
      a.Alike R b → R result other → Alike (.typed a result) (.typed b other)
  | untyped {result : τ} {other : σ} : R result other → Alike (.untyped result) (.untyped other)

/-- Two blocks that are both required or both not. -/
inductive Block.Alike : Block τ → Block σ → Prop
  | mk {function : Function τ} {other : Function σ} {required : Bool} :
      function.Alike R other → Alike ⟨function, required⟩ ⟨other, required⟩

/-- Two layers that differ in nothing but the types in them. -/
inductive Layer.Alike : Layer τ → Layer σ → Prop
  | base {keyword : BaseType} : Alike (.base keyword) (.base keyword)
  | var {name : String} : Alike (.var name) (.var name)
  | named {kind : NameKind} {name : TypeName} {args : List τ} {others : List σ} :
      List.Forall₂ R args others → Alike (.named kind name args) (.named kind name others)
  | literal {value : Literal} : Alike (.literal value) (.literal value)
  | optional {type : τ} {other : σ} : R type other → Alike (.optional type) (.optional other)
  | union {types : List τ} {others : List σ} :
      List.Forall₂ R types others → Alike (.union types) (.union others)
  | intersection {types : List τ} {others : List σ} :
      List.Forall₂ R types others → Alike (.intersection types) (.intersection others)
  | tuple {types : List τ} {others : List σ} :
      List.Forall₂ R types others → Alike (.tuple types) (.tuple others)
  | proc {a : Function τ} {b : Function σ} {block : Option (Block τ)} {other : Option (Block σ)} :
      a.Alike R b → Option.Rel (Block.Alike R) block other → Alike (.proc a block) (.proc b other)

end Alike

/-! ## What is alike to a layer

If each type in a layer is related to its image under some `f` only, then the one layer that is
alike is the layer filled with the images. -/

section Images

variable {R : τ → σ → Prop} {f : τ → σ}

theorem forall₂_iff_eq_map {α β : Type} {S : α → β → Prop} {g : α → β} (as : List α)
    (image : ∀ a ∈ as, ∀ b, S a b ↔ b = g a) (bs : List β) :
    List.Forall₂ S as bs ↔ bs = as.map g := by
  induction as generalizing bs with
  | nil => cases bs <;> simp
  | cons a as ih =>
      obtain ⟨here, later⟩ := List.forall_mem_cons.1 image
      cases bs with
      | nil => simp
      | cons b bs => simp [here b, ih later bs]

theorem rel_iff_eq_map {α β : Type} {S : α → β → Prop} {g : α → β} {a : Option α}
    (image : ∀ x, a = some x → ∀ b, S x b ↔ b = g x) (b : Option β) :
    Option.Rel S a b ↔ b = a.map g := by
  cases a <;> cases b <;> simp_all

theorem Param.alike_iff {a : Param τ} (image : ∀ type, R a.type type ↔ type = f a.type)
    (b : Param σ) : a.Alike R b ↔ b = a.map f := by
  constructor
  · rintro ⟨related⟩
    rw [(image _).1 related]
    rfl
  · rintro rfl
    exact .mk ((image _).2 rfl)

theorem Keyword.alike_iff {a : Keyword τ}
    (image : ∀ type, R a.param.type type ↔ type = f a.param.type) (b : Keyword σ) :
    a.Alike R b ↔ b = a.map f := by
  constructor
  · rintro ⟨alike⟩
    rw [(Param.alike_iff image _).1 alike]
    rfl
  · rintro rfl
    exact .mk ((Param.alike_iff image _).2 rfl)

theorem Params.alike_iff {a : Params τ}
    (image : ∀ type ∈ a.parts, ∀ other, R type other ↔ other = f type) (b : Params σ) :
    a.Alike R b ↔ b = a.map f := by
  simp only [parts, positionals, keywords, List.mem_append, List.mem_map, Option.mem_toList]
    at image
  have ofParam : ∀ param : Param τ, (∀ type, R param.type type ↔ type = f param.type) →
      ∀ other, param.Alike R other ↔ other = param.map f := fun _ => Param.alike_iff
  have ofKeyword : ∀ keyword : Keyword τ,
      (∀ type, R keyword.param.type type ↔ type = f keyword.param.type) →
        ∀ other, keyword.Alike R other ↔ other = keyword.map f := fun _ => Keyword.alike_iff
  have required := forall₂_iff_eq_map a.required fun param member =>
    ofParam param (image _ (by grind))
  have optional := forall₂_iff_eq_map a.optional fun param member =>
    ofParam param (image _ (by grind))
  have rest := rel_iff_eq_map (a := a.rest) fun param found => ofParam param (image _ (by grind))
  have trailing := forall₂_iff_eq_map a.trailing fun param member =>
    ofParam param (image _ (by grind))
  have requiredKeywords := forall₂_iff_eq_map a.requiredKeywords fun keyword member =>
    ofKeyword keyword (image _ (by grind))
  have optionalKeywords := forall₂_iff_eq_map a.optionalKeywords fun keyword member =>
    ofKeyword keyword (image _ (by grind))
  have restKeywords := rel_iff_eq_map (a := a.restKeywords) fun param found =>
    ofParam param (image _ (by grind))
  constructor
  · rintro ⟨h₁, h₂, h₃, h₄, h₅, h₆, h₇⟩
    rw [Params.map, ← (required _).1 h₁, ← (optional _).1 h₂, ← (rest _).1 h₃,
      ← (trailing _).1 h₄, ← (requiredKeywords _).1 h₅, ← (optionalKeywords _).1 h₆,
      ← (restKeywords _).1 h₇]
  · rintro rfl
    exact .mk ((required _).2 rfl) ((optional _).2 rfl) ((rest _).2 rfl) ((trailing _).2 rfl)
      ((requiredKeywords _).2 rfl) ((optionalKeywords _).2 rfl) ((restKeywords _).2 rfl)

theorem Function.alike_iff {a : Function τ}
    (image : ∀ type ∈ a.parts, ∀ other, R type other ↔ other = f type) (b : Function σ) :
    a.Alike R b ↔ b = a.map f := by
  cases a with
  | typed params result =>
      have ofParams := Params.alike_iff (R := R) (f := f) fun type member =>
        image type (List.mem_append_left _ member)
      have ofResult := image result (List.mem_append_right _ (List.mem_singleton_self result))
      constructor
      · rintro (⟨alike, related⟩ | _)
        rw [(ofParams _).1 alike, (ofResult _).1 related, Function.map]
      · rintro rfl
        exact .typed ((ofParams _).2 rfl) ((ofResult _).2 rfl)
  | untyped result =>
      have ofResult := image result (List.mem_singleton_self result)
      constructor
      · rintro (_ | related)
        rw [(ofResult _).1 related, Function.map]
      · rintro rfl
        exact .untyped ((ofResult _).2 rfl)

theorem Block.alike_iff {a : Block τ}
    (image : ∀ type ∈ a.function.parts, ∀ other, R type other ↔ other = f type) (b : Block σ) :
    a.Alike R b ↔ b = a.map f := by
  constructor
  · rintro ⟨alike⟩
    rw [(Function.alike_iff image _).1 alike]
    rfl
  · rintro rfl
    exact .mk ((Function.alike_iff image _).2 rfl)

/-- Exactly the layer that is filled with the images is alike. -/
theorem Layer.alike_iff {a : Layer τ}
    (image : ∀ type ∈ a.parts, ∀ other, R type other ↔ other = f type) (b : Layer σ) :
    a.Alike R b ↔ b = a.map f := by
  -- The layers have the same constructor, and their parts are related one by one.
  cases a with
  | base keyword | var name | literal value =>
      constructor
      · rintro ⟨⟩
        rfl
      · rintro rfl
        constructor
  | optional type =>
      have ofType := image type (List.mem_singleton_self type)
      constructor
      · rintro ⟨⟩
        rename_i other related
        rw [(ofType other).1 related, Layer.map]
      · rintro rfl
        exact .optional ((ofType _).2 rfl)
  | named _ _ types | union types | intersection types | tuple types =>
      have ofTypes := forall₂_iff_eq_map types image
      constructor
      · rintro ⟨⟩
        rename_i others related
        rw [(ofTypes others).1 related, Layer.map]
      · rintro rfl
        constructor
        exact (ofTypes _).2 rfl
  | proc function block =>
      have ofFunction := Function.alike_iff (R := R) (f := f) fun type member =>
        image type (List.mem_append_left _ member)
      have ofBlock : ∀ other, Option.Rel (Block.Alike R) block other ↔
          other = block.map (Block.map f) :=
        rel_iff_eq_map fun inner found => Block.alike_iff fun type inside =>
          image type (by simp [parts, found, inside])
      constructor
      · rintro ⟨⟩
        rename_i b other alike related
        rw [(ofFunction b).1 alike, (ofBlock other).1 related, Layer.map]
      · rintro rfl
        exact .proc ((ofFunction _).2 rfl) ((ofBlock _).2 rfl)

end Images

namespace Ty

/-! ## Replaced variables -/

/-- Variables of the first type have been replaced by their values, and the second type is the
result: variables without a value and all other layers are kept. -/
inductive Replaced (values : Substitution) : Ty → Ty → Prop
  | put {name : String} {type : Ty} : values name = some type → Replaced values ⟨.var name⟩ type
  | kept {layer other : Layer Ty} : (∀ name, layer = .var name → values name = none) →
      layer.Alike (Replaced values) other → Replaced values ⟨layer⟩ ⟨other⟩

variable {values first second : Substitution}

/-- Exactly the result of a substitution is the type with its variables replaced. -/
theorem replaced_iff (type other : Ty) :
    Replaced values type other ↔ other = type.substitute values := by
  -- A variable is put or kept; any other layer is kept, with its parts replaced.
  induction type using induction_vars generalizing other with
  | var name =>
      rw [substitute_var, Substitution.value]
      constructor
      · rintro (found | ⟨free, ⟨⟩⟩)
        · rw [found]
          rfl
        · rw [free name rfl]
          rfl
      · rintro rfl
        cases found : values name with
        | some type => exact .put found
        | none => exact .kept (fun _ same => by cases same; exact found) .var
  | other layer notVar ih =>
      have alike := Layer.alike_iff ih
      rw [substitute_of_not_var notVar]
      constructor
      · rintro (_ | ⟨-, related⟩)
        · exact (notVar _ rfl).elim
        · rw [(alike _).1 related]
      · rintro rfl
        exact .kept (fun name same => (notVar name same).elim) ((alike _).2 rfl)

/-! ## The laws -/

/-- What stands for a variable is the variable itself exactly if it has no other value. -/
theorem value_eq_var_iff {name : String} : values.value name = ⟨.var name⟩ ↔
    values name = none ∨ values name = some ⟨.var name⟩ := by
  unfold Substitution.value
  cases values name <;> simp

/-- One substitution after another is one substitution. Two substitutions have the same result
exactly if the same stands for each variable that occurs, and a substitution changes nothing
exactly if it has no variable that occurs but those that it sends to themselves. The result is the
one type that differs in the replaced variables and in nothing else. -/
theorem substitute_lawful (type : Ty) (first second : Substitution) :
    (type.substitute first).substitute second = type.substitute (first.andThen second) ∧
    (type.substitute first = type.substitute second ↔
      ∀ name ∈ type.vars, first.value name = second.value name) ∧
    (type.substitute first = type ↔
      ∀ name ∈ type.vars, first name = none ∨ first name = some ⟨.var name⟩) ∧
    ∀ other, Replaced first type other ↔ other = type.substitute first := by
  refine ⟨substitute_substitute type, substitute_eq_iff, ?_, replaced_iff type⟩
  have changes : type.substitute first = type.substitute (fun _ => none) ↔ _ := substitute_eq_iff
  rw [substitute_none] at changes
  rw [changes]
  exact forall₂_congr fun name _ => value_eq_var_iff

end Ty

end Signet

import Signet.Type.Basic

/-!
# Induction on the layers of a type

The types in a layer are smaller than the type that the layer makes, so what follows for a type
from the types in its outermost layer holds of every type (`Ty.induction`). A property of layers
holds everywhere in a type (`Ty.Everywhere`) if all its layers have it.
-/

namespace Signet

variable {τ σ ρ : Type}

/-! ## Filling a layer anew -/

theorem Param.map_map (f : τ → σ) (g : σ → ρ) (param : Param τ) :
    (param.map f).map g = param.map (g ∘ f) := rfl

theorem Keyword.map_map (f : τ → σ) (g : σ → ρ) (keyword : Keyword τ) :
    (keyword.map f).map g = keyword.map (g ∘ f) := rfl

theorem Params.map_map (f : τ → σ) (g : σ → ρ) (params : Params τ) :
    (params.map f).map g = params.map (g ∘ f) := by
  simp [Params.map, Function.comp_def, Param.map_map, Keyword.map_map]

theorem Function.map_map (f : τ → σ) (g : σ → ρ) (function : Function τ) :
    (function.map f).map g = function.map (g ∘ f) := by
  cases function <;> simp [Function.map, Params.map_map]

theorem Block.map_map (f : τ → σ) (g : σ → ρ) (block : Block τ) :
    (block.map f).map g = block.map (g ∘ f) := by
  simp [Block.map, Function.map_map]

/-- Filling a layer twice is filling it once. -/
theorem Layer.map_map (f : τ → σ) (g : σ → ρ) (layer : Layer τ) :
    (layer.map f).map g = layer.map (g ∘ f) := by
  cases layer <;> simp [Layer.map, Function.map_map, Function.comp_def, Block.map_map]

theorem Params.map_id (params : Params τ) : params.map id = params := by
  have ofParams : Param.map (id : τ → τ) = id := rfl
  have ofKeywords : Keyword.map (id : τ → τ) = id := rfl
  simp [Params.map, ofParams, ofKeywords]

theorem Function.map_id (function : Function τ) : function.map id = function := by
  cases function <;> simp [Function.map, Params.map_id]

/-- Filling a layer with what it holds changes nothing. -/
theorem Layer.map_id (layer : Layer τ) : layer.map id = layer := by
  cases layer with
  | proc function block =>
      cases block <;> simp [Layer.map, Block.map, Function.map_id]
  | _ => simp [Layer.map]

theorem Params.parts_map (f : τ → σ) (params : Params τ) :
    (params.map f).parts = params.parts.map f := by
  simp [Params.map, Params.parts, Params.positionals, Params.keywords, Param.map, Keyword.map,
    Option.toList_map, Function.comp_def]

theorem Function.parts_map (f : τ → σ) (function : Function τ) :
    (function.map f).parts = function.parts.map f := by
  cases function <;> simp [Function.map, Function.parts, Params.parts_map]

/-- The types of a layer that was filled anew are the new ones. -/
theorem Layer.parts_map (f : τ → σ) (layer : Layer τ) :
    (layer.map f).parts = layer.parts.map f := by
  cases layer with
  | proc function block =>
      cases block <;> simp [Layer.map, Layer.parts, Function.parts_map, Block.map]
  | _ => simp [Layer.map, Layer.parts]

theorem Params.map_congr {f g : τ → σ} {params : Params τ}
    (h : ∀ type ∈ params.parts, f type = g type) : params.map f = params.map g := by
  have params_eq : ∀ list : List (Param τ), (∀ param ∈ list, param.type ∈ params.parts) →
      list.map (Param.map f) = list.map (Param.map g) := by
    intro list within
    refine List.map_congr_left fun param member => ?_
    simp [Param.map, h _ (within param member)]
  have keywords_eq : ∀ list : List (Keyword τ), (∀ k ∈ list, k.param.type ∈ params.parts) →
      list.map (Keyword.map f) = list.map (Keyword.map g) := by
    intro list within
    refine List.map_congr_left fun keyword member => ?_
    simp [Keyword.map, Param.map, h _ (within keyword member)]
  have option_eq : ∀ option : Option (Param τ),
      (∀ param, option = some param → param.type ∈ params.parts) →
        option.map (Param.map f) = option.map (Param.map g) := by
    intro option within
    cases option with
    | none => rfl
    | some param => simp [Param.map, h _ (within param rfl)]
  -- Every list of parameters is among the parts.
  unfold Params.map
  rw [params_eq params.required, params_eq params.optional, option_eq params.rest,
    params_eq params.trailing, keywords_eq params.requiredKeywords,
    keywords_eq params.optionalKeywords, option_eq params.restKeywords] <;>
  · intro part member
    simp only [Params.parts, Params.positionals, Params.keywords, List.mem_append, List.mem_map,
      Option.mem_toList]
    grind

theorem Function.map_congr {f g : τ → σ} {function : Function τ}
    (h : ∀ type ∈ function.parts, f type = g type) : function.map f = function.map g := by
  cases function with
  | typed params result =>
      rw [Function.map, Function.map, Params.map_congr fun type member =>
        h type (List.mem_append_left _ member), h result (by simp [Function.parts])]
  | untyped result => rw [Function.map, Function.map, h result (by simp [Function.parts])]

/-- Only the types in a layer matter for what it is filled with. -/
theorem Layer.map_congr {f g : τ → σ} {layer : Layer τ}
    (h : ∀ type ∈ layer.parts, f type = g type) : layer.map f = layer.map g := by
  cases layer with
  | proc function block =>
      rw [Layer.map, Layer.map, Function.map_congr fun type member =>
        h type (List.mem_append_left _ member)]
      cases block with
      | none => rfl
      | some block =>
          rw [Option.map_some, Option.map_some, Block.map, Block.map,
            Function.map_congr fun type member => h type (by simp [Layer.parts, member])]
  | optional type => simp [Layer.map, h type (by simp [Layer.parts])]
  | base _ | var _ | literal _ => rfl
  | named _ _ types | union types | intersection types | tuple types =>
      have h : types.map f = types.map g := List.map_congr_left h
      simp [Layer.map, h]

/-- A layer is filled with the same twice exactly if each of its types is. -/
theorem Layer.map_eq_map_iff {f g : τ → σ} {layer : Layer τ} :
    layer.map f = layer.map g ↔ ∀ type ∈ layer.parts, f type = g type := by
  refine ⟨fun same => ?_, Layer.map_congr⟩
  have parts : layer.parts.map f = layer.parts.map g := by rw [← parts_map, same, parts_map]
  exact List.map_inj_left.1 parts

/-- Filling a layer anew changes nothing exactly if it changes none of its types. -/
theorem Layer.map_eq_self_iff {f : τ → τ} {layer : Layer τ} :
    layer.map f = layer ↔ ∀ type ∈ layer.parts, f type = type := by
  have filled : layer.map f = layer.map id ↔ ∀ type ∈ layer.parts, f type = id type :=
    Layer.map_eq_map_iff
  rwa [Layer.map_id] at filled

/-! ## Induction -/

theorem Params.sizeOf_lt [SizeOf τ] {params : Params τ} {type : τ} (member : type ∈ params.parts) :
    sizeOf type < sizeOf params := by
  obtain ⟨required, optional, rest, trailing, requiredKeywords, optionalKeywords, restKeywords⟩ :=
    params
  have ofParam : ∀ param : Param τ, sizeOf param.type < sizeOf param := by
    rintro ⟨type, name⟩
    simp
    omega
  have ofKeyword : ∀ keyword : Keyword τ, sizeOf keyword.param.type < sizeOf keyword := by
    rintro ⟨key, param⟩
    have := ofParam param
    simp
    omega
  have ofParams : ∀ list : List (Param τ), ∀ param ∈ list, sizeOf param.type < sizeOf list :=
    fun list param member => Nat.lt_trans (ofParam param) (List.sizeOf_lt_of_mem member)
  have ofKeywords : ∀ list : List (Keyword τ), ∀ k ∈ list, sizeOf k.param.type < sizeOf list :=
    fun list keyword member => Nat.lt_trans (ofKeyword keyword) (List.sizeOf_lt_of_mem member)
  have ofOption : ∀ option : Option (Param τ), ∀ param ∈ option,
      sizeOf param.type < sizeOf option := by
    rintro (_ | param) other member
    · simp at member
    · obtain rfl : param = other := by simpa using member
      have := ofParam param
      simp
      omega
  simp only [Params.parts, Params.positionals, Params.keywords, List.mem_append, List.mem_map,
    Option.mem_toList] at member
  -- The type is that of a parameter in one of the seven places.
  rcases member with (⟨param, member, rfl⟩ | ⟨keyword, member, rfl⟩) | ⟨param, member, rfl⟩
  · rcases member with ((member | member) | member) | member
    · have := ofParams _ param member
      simp
      omega
    · have := ofParams _ param member
      simp
      omega
    · have := ofOption _ param member
      simp
      omega
    · have := ofParams _ param member
      simp
      omega
  · rcases member with member | member
    · have := ofKeywords _ keyword member
      simp
      omega
    · have := ofKeywords _ keyword member
      simp
      omega
  · have := ofOption _ param member
    simp
    omega

theorem Function.sizeOf_lt [SizeOf τ] {function : Function τ} {type : τ}
    (member : type ∈ function.parts) : sizeOf type < sizeOf function := by
  cases function with
  | typed params result =>
      rcases List.mem_append.1 member with member | member
      · have := Params.sizeOf_lt member
        simp
        omega
      · obtain rfl := List.mem_singleton.1 member
        rw [Function.typed.sizeOf_spec]
        omega
  | untyped result =>
      obtain rfl := List.mem_singleton.1 member
      simp

/-- The types in a layer are smaller than it. -/
theorem Layer.sizeOf_lt [SizeOf τ] {layer : Layer τ} {type : τ} (member : type ∈ layer.parts) :
    sizeOf type < sizeOf layer := by
  cases layer with
  | base _ | var _ | literal _ => simp [Layer.parts] at member
  | named _ _ types | union types | intersection types | tuple types =>
      have : sizeOf type < sizeOf types := List.sizeOf_lt_of_mem member
      simp
      omega
  | optional other =>
      obtain rfl := List.mem_singleton.1 member
      simp
  | proc function block =>
      rcases List.mem_append.1 member with member | member
      · have := Function.sizeOf_lt member
        simp
        omega
      · cases block with
        | none => simp at member
        | some block =>
            obtain ⟨blockFunction, required⟩ := block
            have : sizeOf type < sizeOf blockFunction := Function.sizeOf_lt (by simpa using member)
            simp
            omega

namespace Ty

/-- What follows for a type from the types in its outermost layer holds of every type. -/
theorem induction {motive : Ty → Prop}
    (step : ∀ layer, (∀ type ∈ layer.parts, motive type) → motive ⟨layer⟩) (type : Ty) :
    motive type := by
  obtain ⟨layer⟩ := type
  refine step layer fun type member => ?_
  have := Layer.sizeOf_lt member
  exact induction step type
termination_by sizeOf type
decreasing_by
  simp
  omega

/-- All layers of a type have a property. -/
inductive Everywhere (kept : Layer Ty → Prop) : Ty → Prop
  | mk {layer : Layer Ty} : kept layer → (∀ type ∈ layer.parts, Everywhere kept type) →
      Everywhere kept ⟨layer⟩

variable {kept : Layer Ty → Prop} {layer : Layer Ty}

theorem everywhere_mk :
    Everywhere kept ⟨layer⟩ ↔ kept layer ∧ ∀ type ∈ layer.parts, Everywhere kept type :=
  ⟨fun | .mk h parts => ⟨h, parts⟩, fun h => .mk h.1 h.2⟩

theorem Everywhere.imp {other : Layer Ty → Prop} (weaker : ∀ layer, kept layer → other layer)
    {type : Ty} (everywhere : type.Everywhere kept) : type.Everywhere other := by
  induction everywhere with
  | mk here _ ih => exact .mk (weaker _ here) ih

end Ty

end Signet

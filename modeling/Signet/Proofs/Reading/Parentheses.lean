import Mathlib.Algebra.BigOperators.Group.List.Basic
import Mathlib.Algebra.GroupWithZero.Nat
import Signet.Proofs.Reading.Parameters

/-!
# Counting parentheses

Parentheses are what an ambiguous text lacks, so they are counted: in a text (`opens`) and in a
type, once those that are printed (`Layer.opened`) and once those that are missing around the
results of functions (`Layer.missing`). What is printed has no more of them than `Layer.opened`
says (`Ty.light_print`).
-/

namespace Signet

variable {τ σ : Type}

/-! ## In a text -/

/-- The opening parentheses of a text after which something other than a closing one stands. -/
def opens : List Char → Nat
  | [] => 0
  | c :: rest => (if c = '(' ∧ rest.head?.any (· ≠ ')') = true then 1 else 0) + opens rest

theorem opens_append_le (first second : List Char) :
    opens first + opens second ≤ opens (first ++ second) := by
  induction first with
  | nil => simp [opens]
  | cons c first ih =>
      rw [List.cons_append, opens, opens]
      cases first with
      | nil => simp [opens]
      | cons d first =>
          rw [List.cons_append, List.head?_cons, List.head?_cons] at *
          omega

theorem opens_append {first : List Char} (settled : first.getLast? ≠ some '(')
    (second : List Char) : opens (first ++ second) = opens first + opens second := by
  induction first with
  | nil => simp [opens]
  | cons c first ih =>
      rw [List.cons_append, opens, opens]
      cases first with
      | nil =>
          have other : c ≠ '(' := fun same => settled (same ▸ rfl)
          simp [opens, other]
      | cons d first =>
          rw [ih (by simpa using settled)]
          rw [List.cons_append, List.head?_cons, List.head?_cons]
          omega

/-- The text has at most so many opening parentheses, none of them at its end. -/
structure Light (count : Nat) (text : List Char) : Prop where
  opens_le : opens text ≤ count
  settled : text.getLast? ≠ some '('

namespace Light

variable {m n : Nat} {text first second : List Char}

theorem mono (light : Light m text) (le : m ≤ n) : Light n text :=
  ⟨Nat.le_trans light.opens_le le, light.settled⟩

theorem append (one : Light m first) (two : Light n second) : Light (m + n) (first ++ second) := by
  constructor
  · have := one.opens_le
    have := two.opens_le
    rw [opens_append one.settled]
    omega
  · rw [List.getLast?_append]
    cases found : second.getLast? with
    | none => exact one.settled
    | some c =>
        have := two.settled
        rwa [found] at this

theorem plain (text : List Char) (free : '(' ∉ text) : Light 0 text := by
  constructor
  · induction text with
    | nil => exact Nat.le_refl 0
    | cons c text ih =>
        rw [List.mem_cons, not_or] at free
        simpa [opens, Ne.symm free.1] using ih free.2
  · exact fun last => free (List.mem_of_getLast? last)

theorem parenthesized (light : Light n text) : Light (n + 1) (['('] ++ text ++ [')']) := by
  have inner := light.append (plain [')'] (by decide))
  refine ⟨?_, ?_⟩
  · have := inner.opens_le
    rw [List.append_assoc, List.singleton_append, opens]
    split <;> omega
  · rw [List.getLast?_append, List.getLast?_singleton]
    exact fun same => absurd (Option.some.inj same) (by decide)

theorem flatMap {α : Type} {items : List α} {write : α → List Char} {weight : α → Nat}
    (all : ∀ item ∈ items, Light (weight item) (write item)) :
    Light (items.map weight).sum (items.flatMap write) := by
  induction items with
  | nil => exact plain _ List.not_mem_nil
  | cons item items ih =>
      obtain ⟨here, later⟩ := List.forall_mem_cons.1 all
      rw [List.map_cons, List.sum_cons, List.flatMap_cons]
      exact here.append (ih later)

theorem joined {α : Type} (between : List Char) (free : '(' ∉ between) {items : List α}
    {write : α → List Char} {weight : α → Nat}
    (all : ∀ item ∈ items, Light (weight item) (write item)) :
    Light (items.map weight).sum (joined between (items.map write)) := by
  cases items with
  | nil => exact plain _ List.not_mem_nil
  | cons item items =>
      obtain ⟨here, later⟩ := List.forall_mem_cons.1 all
      rw [List.map_cons, List.map_cons, joined_cons, List.sum_cons, List.flatMap_map]
      refine here.append (flatMap fun other member => ?_)
      have := (plain _ free).append (later other member)
      rwa [Nat.zero_add] at this

end Light

/-! ## In a type -/

namespace Ty

/-- A type with the sum of what its layers weigh. -/
def weighed (weight : Layer Ty → Nat) : Ty → Ty × Nat :=
  fold fun layer => (⟨layer.map Prod.fst⟩,
    weight (layer.map Prod.fst) + (layer.parts.map Prod.snd).sum)

/-- The sum of what the layers of a type weigh. -/
def total (weight : Layer Ty → Nat) (type : Ty) : Nat := (type.weighed weight).2

variable {weight other : Layer Ty → Nat}

theorem weighed_fst (weight : Layer Ty → Nat) (type : Ty) : (type.weighed weight).1 = type := by
  induction type using induction with
  | step layer ih =>
      rw [weighed, fold_mk]
      show (⟨(layer.map (weighed weight)).map Prod.fst⟩ : Ty) = ⟨layer⟩
      rw [Layer.map_map, Layer.map_congr (f := Prod.fst ∘ weighed weight) (g := id) ih,
        Layer.map_id]

theorem total_mk (weight : Layer Ty → Nat) (layer : Layer Ty) :
    total weight ⟨layer⟩ = weight layer + (layer.parts.map (total weight)).sum := by
  have whole : (layer.map (weighed weight)).map Prod.fst = layer := by
    rw [Layer.map_map, Layer.map_congr (f := Prod.fst ∘ weighed weight) (g := id)
      fun type _ => weighed_fst weight type, Layer.map_id]
  rw [total, weighed, fold_mk]
  show weight ((layer.map (weighed weight)).map Prod.fst) +
    ((layer.map (weighed weight)).parts.map Prod.snd).sum = _
  rw [whole, Layer.parts_map, List.map_map]
  rfl

theorem total_eq_zero_iff {type : Ty} :
    total weight type = 0 ↔ type.Everywhere fun layer => weight layer = 0 := by
  induction type using induction with
  | step layer ih =>
      rw [total_mk, everywhere_mk, Nat.add_eq_zero_iff, List.sum_eq_zero_iff_forall_eq_nat]
      refine and_congr_right fun _ => ?_
      rw [List.forall_mem_map]
      exact forall₂_congr ih

end Ty

/-- Whether all layers have a property is found out by counting those that do not. -/
instance {kept : Layer Ty → Prop} [DecidablePred kept] : DecidablePred (Ty.Everywhere kept) :=
  fun type => decidable_of_iff (type.total (fun layer => if kept layer then 0 else 1) = 0)
    (Ty.total_eq_zero_iff.trans ⟨.imp fun layer => by simp, .imp fun layer => by simp⟩)

instance {kept : Layer Ty → Prop} [DecidablePred kept] :
    DecidablePred (MethodType.Everywhere kept) := fun type =>
  inferInstanceAs (Decidable (∀ part ∈ type.types, part.Everywhere kept))

/-- The parentheses that are printed around the parameters of a function: those of an empty list
are closed at once. -/
def Function.opened : Function τ → Nat
  | .typed params _ => if params.isEmpty then 0 else 1
  | .untyped _ => 1

/-- The parentheses that are printed in a layer. -/
def Layer.opened : Layer Ty → Nat
  | .optional type => if type.tightness = .closed then 0 else 1
  | .intersection types => (types.map fun type => if type.tightness = .union then 1 else 0).sum
  | .proc function block =>
    function.opened + ((block.map fun block => block.function.opened).getD 0)
  | _ => 0

/-- The parentheses that would have to be printed around the results of the functions in a layer. -/
def Layer.missing (layer : Layer Ty) : Nat := layer.results.countP (·.tightness.isLoose)

/-- The parentheses that are printed in a type. -/
def Ty.opened (type : Ty) : Nat := type.total Layer.opened

/-- The parentheses that are missing in a type. -/
def Ty.missing (type : Ty) : Nat := type.total Layer.missing

theorem Ty.opened_mk (layer : Layer Ty) :
    opened ⟨layer⟩ = layer.opened + (layer.parts.map opened).sum := total_mk _ _

theorem Ty.missing_mk (layer : Layer Ty) :
    missing ⟨layer⟩ = layer.missing + (layer.parts.map missing).sum := total_mk _ _

theorem Layer.missing_eq_zero_iff {layer : Layer Ty} : layer.missing = 0 ↔ layer.ResultsTight := by
  rw [missing, List.countP_eq_zero]
  exact forall₂_congr fun type _ => Bool.eq_false_iff.symm

/-! ### The order of keyword parameters -/

theorem Params.parts_sorted_perm (params : Params τ) : params.sorted.parts.Perm params.parts := by
  have keywords : params.sorted.keywords.Perm params.keywords :=
    (Keyword.sort_perm _).append (Keyword.sort_perm _)
  exact ((List.Perm.refl _).append (keywords.map _)).append (List.Perm.refl _)

theorem Function.parts_sorted_perm (function : Function τ) :
    function.sorted.parts.Perm function.parts := by
  cases function with
  | typed params result => exact params.parts_sorted_perm.append_right _
  | untyped result => exact List.Perm.refl _

theorem Layer.parts_sorted_perm (layer : Layer τ) : layer.sorted.parts.Perm layer.parts := by
  cases layer with
  | proc function block =>
      cases block with
      | none => exact function.parts_sorted_perm.append_right _
      | some block => exact function.parts_sorted_perm.append block.function.parts_sorted_perm
  | _ => exact List.Perm.refl _

theorem Ty.tightness_sorted (type : Ty) : type.sorted.tightness = type.tightness := by
  obtain ⟨layer⟩ := type
  rw [sorted_mk]
  cases layer <;> rfl

theorem Function.opened_sorted_map (f : τ → σ) (function : Function τ) :
    (function.map f).sorted.opened = function.opened := by
  cases function with
  | typed params result =>
      have empty : ∀ keywords : List (Keyword τ),
          (Keyword.sort (keywords.map (Keyword.map f))).isEmpty = keywords.isEmpty := by
        intro keywords
        rw [Bool.eq_iff_iff, List.isEmpty_iff, List.isEmpty_iff, ← List.length_eq_zero_iff,
          (Keyword.sort_perm _).length_eq, List.length_map, List.length_eq_zero_iff]
      simp [Function.map, sorted, opened, Params.isEmpty, Params.sorted, Params.map, empty]
  | untyped result => rfl

theorem Layer.opened_sorted_map (layer : Layer Ty) :
    (layer.map Ty.sorted).sorted.opened = layer.opened := by
  cases layer with
  | optional type => simp only [Layer.map, sorted, opened, Ty.tightness_sorted]
  | intersection types =>
      simp only [Layer.map, sorted, opened, List.map_map, Function.comp_def, Ty.tightness_sorted]
  | proc function block =>
      cases block <;>
        simp [Layer.map, sorted, opened, Block.map, Block.sorted, Function.opened_sorted_map]
  | _ => rfl

theorem Layer.missing_sorted_map (layer : Layer Ty) :
    (layer.map Ty.sorted).sorted.missing = layer.missing := by
  cases layer with
  | proc function block =>
      have result : ∀ function : Function Ty,
          (function.map Ty.sorted).sorted.result = function.result.sorted := by
        intro function
        cases function <;> rfl
      cases block <;>
        simp [Layer.map, sorted, missing, results, Block.map, Block.sorted, List.countP_cons,
          result, Ty.tightness_sorted]
  | _ => rfl

namespace Ty

/-- The order of keyword parameters does not matter for what a type weighs. -/
theorem total_sorted {weight : Layer Ty → Nat}
    (kept : ∀ layer, weight (layer.map sorted).sorted = weight layer) (type : Ty) :
    total weight type.sorted = total weight type := by
  induction type using induction with
  | step layer ih =>
      have parts := (layer.map sorted).parts_sorted_perm.map (total weight)
      rw [sorted_mk, total_mk, total_mk, kept, parts.sum_eq, Layer.parts_map, List.map_map,
        List.map_congr_left (f := total weight ∘ sorted) ih]

end Ty

/-! ## In a text that is printed -/

section Light

open Text

theorem open_not_mem {name : List Char} (all : ∀ c ∈ name, isIdentChar c = true) : '(' ∉ name :=
  fun member => absurd (all '(' member) (by decide)

theorem TypeName.Spells.light {name : TypeName} {kind : NameKind} (spells : name.Spells kind) :
    Light 0 name.print := by
  refine .plain _ fun member => ?_
  rcases spells.chars '(' member with ident | colon
  · exact absurd ident (by decide)
  · cases colon

theorem IsKey.all {name : String} (key : IsKey name) : ∀ c ∈ name.toList, isIdentChar c = true :=
  key.elim IsLower.all IsUpper.all

theorem ParamItem.Spelled.light {item : ParamItem} (spelled : item.Spelled) {count : Nat}
    (light : Light count item.2.type.print) : Light count item.print := by
  obtain ⟨role, optional, key, type, name⟩ := item
  have param : Light count ((ParamParts.mk optional key type name).param.print Ty.print) := by
    cases name with
    | none => exact light
    | some name =>
        have spaced := Light.plain _ (open_not_mem (spelled.name name rfl).1.all)
        exact light.append ((Light.plain [' '] (by decide)).append spaced)
  -- Whatever stands in front of a parameter has no parentheses.
  have marked : ∀ mark : List Char, '(' ∉ mark → Light count
      (mark ++ (ParamParts.mk optional key type name).param.print Ty.print) := by
    intro mark free
    have := (Light.plain _ free).append param
    rwa [Nat.zero_add] at this
  cases role with
  | required => exact param
  | optional => exact marked ['?'] (by decide)
  | rest => exact marked ['*'] (by decide)
  | restKeywords => exact marked ['*', '*'] (by decide)
  | keyword =>
      have free : '(' ∉ (if optional then ['?'] else []) ++ (key.toList ++ [':', ' ']) := by
        have := open_not_mem (spelled.key rfl).all
        cases optional <;> simp [this]
      have := marked _ free
      simpa [print, Keyword.print] using this

/-- The types of the parameters of a function. -/
def Function.paramTypes : Function τ → List τ
  | .typed params _ => params.parts
  | .untyped _ => []

theorem Function.parts_eq (function : Function τ) :
    function.parts = function.paramTypes ++ [function.result] := by
  cases function <;> rfl

theorem Function.light_printParams (function : Function Ty)
    (regular : ∀ params ∈ function.params?.toList, params.Regular)
    (light : ∀ type ∈ function.paramTypes, Light type.opened type.print) :
    Light (function.opened + (function.paramTypes.map Ty.opened).sum)
      (function.printParams Ty.print) := by
  cases function with
  | untyped result => exact ⟨by show opens ['(', '?', ')'] ≤ 1 + 0; decide, by simp [printParams]⟩
  | typed params result =>
      have spelled := (regular params (by simp [params?])).spelled
      have inner : Light (params.parts.map Ty.opened).sum (params.print Ty.print) := by
        rw [Params.print, params.items_eq, params.parts_eq_map_listed, List.map_map]
        refine .joined comma (by decide) fun item member => (spelled item member).light (light _ ?_)
        rw [paramTypes, params.parts_eq_map_listed]
        exact List.mem_map_of_mem member
      by_cases empty : params.isEmpty = true
      · have nothing : params.print Ty.print = [] := by
          simp only [Params.isEmpty, Bool.and_eq_true, List.isEmpty_iff,
            Option.isNone_iff_eq_none] at empty
          simp [Params.print, Params.items, empty, joined]
        rw [printParams, nothing]
        exact ⟨Nat.le_trans (by decide) (Nat.zero_le _), by simp⟩
      · have := inner.parenthesized
        rw [opened, if_neg empty, Nat.add_comm]
        exact this

theorem light_printSignature {function : Function Ty} {block : Option (Block Ty)}
    (regular : ∀ params ∈ (Layer.proc function block).paramLists, params.Regular)
    (light : ∀ type ∈ (Layer.proc function block).parts, Light type.opened type.print) :
    Light ((Layer.proc function block).opened +
        ((Layer.proc function block).parts.map Ty.opened).sum)
      (printSignature Ty.print function block) := by
  have arrowLight : Light 0 arrow := .plain _ (by decide)
  have params := function.light_printParams
    (fun params member => regular params (List.mem_append_left _ member))
    (fun type member => light type (by simp [Layer.parts, Function.parts_eq, member]))
  have result := light function.result (by simp [Layer.parts, Function.parts_eq])
  cases block with
  | none =>
      have same : printSignature Ty.print function none =
          function.printParams Ty.print ++ arrow ++ function.result.print := by
        simp [printSignature]
      rw [same]
      refine ((params.append arrowLight).append result).mono ?_
      simp only [Layer.opened, Layer.parts, Function.parts_eq, Option.map_none, Option.getD_none,
        List.append_nil, List.map_append, List.sum_append, List.map_cons, List.map_nil,
        List.sum_cons, List.sum_nil]
      omega
  | some block =>
      obtain ⟨inner, required⟩ := block
      -- The block is written as the function is, and between the parameters and the arrow.
      have innerParams := inner.light_printParams
        (fun params member => regular params (by
          simp [Layer.paramLists, Option.mem_toList.1 member]))
        (fun type member => light type (by simp [Layer.parts, Function.parts_eq, member]))
      have innerResult := light inner.result (by simp [Layer.parts, Function.parts_eq])
      have front : Light 0 (' ' :: ((if required then [] else ['?']) ++ ['\x7b', ' '])) :=
        .plain _ (by cases required <;> decide)
      have written := ((front.append ((innerParams.append arrowLight).append innerResult)).append
        (Light.plain [' ', '\x7d'] (by decide)))
      have same : printSignature Ty.print function (some ⟨inner, required⟩) =
          function.printParams Ty.print ++ (' ' ::
            ((if required then [] else ['?']) ++ ['\x7b', ' '])
            ++ (inner.printParams Ty.print ++ arrow ++ inner.result.print) ++ [' ', '\x7d'])
            ++ arrow ++ function.result.print := by
        simp [printSignature, Block.print, Function.print]
      rw [same]
      refine (((params.append written).append arrowLight).append result).mono ?_
      simp only [Layer.opened, Layer.parts, Function.parts_eq, Option.map_some, Option.getD_some,
        List.map_append, List.sum_append, List.map_cons, List.map_nil, List.sum_cons, List.sum_nil]
      omega

theorem light_joined (between : List Char) (free : '(' ∉ between) {types : List Ty}
    (light : ∀ type ∈ types, Light type.opened type.print) :
    Light (types.map Ty.opened).sum (joined between (types.map Ty.print)) :=
  .joined between free light

/-- A type without literals is printed with as many parentheses as its layers need. -/
theorem Ty.light_print {scope : List String} {type : Ty}
    (readable : type.Everywhere (Layer.Readable scope))
    (notLiteral : type.Everywhere Layer.NotLiteral) : Light type.opened type.print := by
  induction type using induction with
  | step layer ih =>
      obtain ⟨here, parts⟩ := everywhere_mk.1 readable
      obtain ⟨plain, others⟩ := everywhere_mk.1 notLiteral
      have light : ∀ type ∈ layer.parts, Light type.opened type.print :=
        fun type member => ih type member (parts type member) (others type member)
      rw [opened_mk]
      cases layer with
      | base keyword => exact .plain _ (by cases keyword <;> decide)
      | var name => exact .plain _ (open_not_mem here.2.all)
      | literal value => exact plain.elim
      | named kind name types =>
          rw [print_named, printArgs]
          refine here.1.light.append ?_
          split
          · exact (Light.plain _ List.not_mem_nil).mono (Nat.zero_le _)
          · have inner := light_joined comma (by decide) light
            have := ((Light.plain ['['] (by decide)).append inner).append
              (Light.plain [']'] (by decide))
            rwa [Nat.zero_add] at this
      | tuple types =>
          rw [print_tuple]
          have inner := light_joined comma (by decide) light
          exact ((Light.plain ['['] (by decide)).append inner).append
            (Light.plain [']'] (by decide))
      | optional type =>
          have inner := light type List.mem_cons_self
          have mark := Light.plain ['?'] (by decide)
          rw [print_optional, inOptional_eq]
          simp only [Layer.opened, Layer.parts, List.map_cons, List.map_nil, List.sum_cons,
            List.sum_nil, Nat.add_zero]
          split
          · rw [Nat.zero_add]
            exact inner.append mark
          · rw [Nat.add_comm]
            exact inner.parenthesized.append mark
      | union types =>
          rw [print_union]
          have := light_joined [' ', '|', ' '] (by decide) light
          exact this.mono (Nat.le_add_left _ _)
      | intersection types =>
          rw [print_intersection]
          have members : ∀ type ∈ types,
              Light ((if type.tightness = .union then 1 else 0) + type.opened)
                type.inIntersection := by
            intro type member
            rw [inIntersection_eq]
            split
            · rw [Nat.add_comm]
              exact (light type member).parenthesized
            · rw [Nat.zero_add]
              exact light type member
          have := Light.joined [' ', '&', ' '] (by decide) members
          rw [List.sum_map_add] at this
          exact this
      | proc function block =>
          rw [print_proc]
          have := (Light.plain ['^'] (by decide)).append (light_printSignature here light)
          rwa [Nat.zero_add] at this

theorem TypeParam.light_print {param : TypeParam} (upper : IsUpper param.name)
    (light : ∀ type ∈ param.types, Light type.opened type.print) :
    Light (param.types.map Ty.opened).sum param.print := by
  obtain ⟨name, variance, upperBound, default, unchecked, location⟩ := param
  have front : Light 0 ((if unchecked then "unchecked ".toList else []) ++
      (if variance = .invariant then [] else (variance.mark ++ " ").toList) ++ name.toList) := by
    refine .plain _ fun member => ?_
    rw [List.mem_append, List.mem_append] at member
    rcases member with (member | member) | member
    · split at member
      · exact absurd member (by decide)
      · cases member
    · cases variance
      · cases member
      · exact absurd member (by decide)
      · exact absurd member (by decide)
    · exact open_not_mem upper.all member
  have part : ∀ (mark : List Char) (part : Option Ty), '(' ∉ mark →
      (∀ type ∈ part.toList, Light type.opened type.print) →
      Light (part.toList.map Ty.opened).sum
        ((part.map fun type => mark ++ type.print).getD []) := by
    intro mark part free light
    cases part with
    | none => exact .plain _ List.not_mem_nil
    | some type =>
        have := (Light.plain _ free).append (light type List.mem_cons_self)
        simpa using this
  have bound := part " < ".toList upperBound (by decide)
    fun type member => light type (List.mem_append_left _ member)
  have default := part " = ".toList default (by decide)
    fun type member => light type (List.mem_append_right _ member)
  refine ((front.append bound).append default).mono ?_
  rw [types, List.map_append, List.sum_append, Nat.zero_add]

namespace MethodType

/-- The parentheses that are printed in a method type. -/
def opened (type : MethodType) : Nat := (type.types.map Ty.opened).sum

/-- The parentheses that are missing in a method type. -/
def missing (type : MethodType) : Nat := (type.types.map Ty.missing).sum

theorem light_print {type : MethodType} (readable : type.Readable)
    (notLiteral : type.Everywhere Layer.NotLiteral) : Light type.opened type.print := by
  obtain ⟨typeParams, function, block, location⟩ := type
  have params : ∀ param ∈ typeParams, Light (param.types.map Ty.opened).sum param.print := by
    intro param member
    refine TypeParam.light_print (readable.names param member) fun bound inside => ?_
    refine Ty.light_print (readable.bounds param member bound inside) (notLiteral bound ?_)
    exact List.mem_cons_of_mem _ (List.mem_flatMap.2 ⟨param, member, inside⟩)
  have front : Light (typeParams.flatMap TypeParam.types |>.map Ty.opened).sum
      (if typeParams.isEmpty then []
        else ['['] ++ joined comma (typeParams.map (·.print)) ++ [']', ' ']) := by
    split
    · exact (Light.plain _ List.not_mem_nil).mono (Nat.zero_le _)
    · have inner := Light.joined comma (by decide) params
      have := ((Light.plain ['['] (by decide)).append inner).append
        (Light.plain [']', ' '] (by decide))
      refine this.mono (Nat.le_of_eq ?_)
      rw [List.map_flatMap, List.flatMap_def, List.sum_flatten, List.map_map, Nat.zero_add]
      rfl
  obtain ⟨regular, parts⟩ := Ty.everywhere_mk.1 readable.body
  obtain ⟨-, others⟩ := Ty.everywhere_mk.1 (notLiteral _ List.mem_cons_self)
  have back := light_printSignature regular fun part member =>
    Ty.light_print (parts part member) (others part member)
  refine (front.append back).mono (Nat.le_of_eq ?_)
  rw [opened, types, List.map_cons, List.sum_cons, body, Ty.opened_mk, Nat.add_comm]

end MethodType

end Light

end Signet

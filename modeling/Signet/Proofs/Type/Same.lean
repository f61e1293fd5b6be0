import Mathlib.Data.List.Sort
import Mathlib.Data.String.Basic
import Signet.Proofs.Type.Layers

/-!
# Types that say the same

Types are compared without regard to the order of keyword parameters. Sorting the keyword
parameters by key, in every layer, makes the comparison an equality (`Ty.same_iff`), as long as no
key is there twice (`Ty.Keyed`). So it is an equivalence on such types.
-/

namespace Signet

variable {τ σ ρ : Type}

/-! ## Sorting keyword parameters -/

/-- Keyword parameters in order of their keys. -/
def Keyword.sort (keywords : List (Keyword τ)) : List (Keyword τ) :=
  keywords.mergeSort fun first second => first.key ≤ second.key

/-- The parameter list with its keyword parameters in order. -/
def Params.sorted (params : Params τ) : Params τ :=
  { params with
    requiredKeywords := Keyword.sort params.requiredKeywords
    optionalKeywords := Keyword.sort params.optionalKeywords }

/-- The function with its keyword parameters in order. -/
def Function.sorted : Function τ → Function τ
  | .typed params result => .typed params.sorted result
  | .untyped result => .untyped result

/-- The block with its keyword parameters in order. -/
def Block.sorted (block : Block τ) : Block τ := { block with function := block.function.sorted }

/-- The layer with its keyword parameters in order. -/
def Layer.sorted : Layer τ → Layer τ
  | .proc function block => .proc function.sorted (block.map Block.sorted)
  | layer => layer

/-- The type with its keyword parameters in order, in every layer. -/
def Ty.sorted : Ty → Ty := Ty.fold fun layer => ⟨layer.sorted⟩

theorem Ty.sorted_mk (layer : Layer Ty) :
    Ty.sorted ⟨layer⟩ = ⟨(layer.map Ty.sorted).sorted⟩ := fold_mk _ layer

/-! ## Keys that do not repeat -/

/-- The keys of the required keyword parameters do not repeat, nor do those of the optional ones. -/
structure Params.Keyed (params : Params τ) : Prop where
  required : (params.requiredKeywords.map (·.key)).Nodup
  optional : (params.optionalKeywords.map (·.key)).Nodup

/-- The parameter lists in a layer. -/
def Layer.paramLists : Layer τ → List (Params τ)
  | .proc function block =>
    function.params?.toList ++ (block.bind fun block => block.function.params?).toList
  | _ => []

/-- No parameter list in a type has a key twice. -/
def Ty.Keyed (type : Ty) : Prop := type.Everywhere fun layer => ∀ params ∈ layer.paramLists,
  params.Keyed

theorem Keyword.sort_perm (keywords : List (Keyword τ)) : (sort keywords).Perm keywords :=
  List.mergeSort_perm ..

/-- Sorted keyword parameters are the same if the parameters are, as long as no key repeats. -/
theorem Keyword.sort_eq_of_perm {as bs : List (Keyword τ)} (perm : as.Perm bs)
    (nodup : (as.map (·.key)).Nodup) : sort as = sort bs := by
  have ordered : ∀ keywords : List (Keyword τ),
      (sort keywords).Pairwise fun a b => a.key ≤ b.key := by
    intro keywords
    have transitive : ∀ a b c : Keyword τ, decide (a.key ≤ b.key) = true →
        decide (b.key ≤ c.key) = true → decide (a.key ≤ c.key) = true := by
      intro a b c first second
      simp only [decide_eq_true_eq] at *
      exact le_trans first second
    have total : ∀ a b : Keyword τ, (decide (a.key ≤ b.key) || decide (b.key ≤ a.key)) = true := by
      intro a b
      simpa using le_total a.key b.key
    simpa [sort] using List.pairwise_mergeSort transitive total keywords
  refine List.Perm.eq_of_pairwise ?_ (ordered as) (ordered bs)
    ((sort_perm as).trans (perm.trans (sort_perm bs).symm))
  intro a b inFirst inSecond first second
  have inFirst : a ∈ as := (sort_perm as).mem_iff.1 inFirst
  have inSecond : b ∈ as := perm.mem_iff.2 ((sort_perm bs).mem_iff.1 inSecond)
  exact List.inj_on_of_nodup_map nodup inFirst inSecond (le_antisymm first second)

/-! ## Comparing layers

A test of the values of two layers, one of which is `e` of what stands there, says whether `f` and
`g` are equal. -/

section Values

variable {α : Type} {test : α → τ → Bool} {e : σ → α} {f : σ → ρ} {g : τ → ρ}

theorem listAll₂_iff {as : List σ} {bs : List τ}
    (h : ∀ a ∈ as, ∀ b, test (e a) b = true ↔ f a = g b) :
    listAll₂ test (as.map e) bs = true ↔ as.map f = bs.map g := by
  induction as generalizing bs with
  | nil => cases bs <;> simp [listAll₂]
  | cons a as ih =>
      cases bs with
      | nil => simp [listAll₂]
      | cons b bs =>
          simp [listAll₂, h a List.mem_cons_self b,
            ih fun other member => h other (List.mem_cons_of_mem _ member)]

theorem optionAll₂_iff {a : Option σ} {b : Option τ}
    (h : ∀ x ∈ a.toList, ∀ y, test (e x) y = true ↔ f x = g y) :
    optionAll₂ test (a.map e) b = true ↔ a.map f = b.map g := by
  cases a <;> cases b <;> simp_all [optionAll₂]

theorem Param.all₂_iff {a : Param σ} (h : ∀ y, test (e a.type) y = true ↔ f a.type = g y)
    (b : Param τ) : (a.map e).all₂ test b = true ↔ a.map f = b.map g := by
  simp only [Param.all₂, Bool.and_eq_true, decide_eq_true_eq]
  simp only [Param.map, Param.mk.injEq, h b.type]

theorem Keyword.all₂_iff {a : Keyword σ}
    (h : ∀ y, test (e a.param.type) y = true ↔ f a.param.type = g y) (b : Keyword τ) :
    (a.map e).all₂ test b = true ↔ a.map f = b.map g := by
  simp only [Keyword.all₂, Bool.and_eq_true, decide_eq_true_eq]
  simp only [Keyword.map, Keyword.mk.injEq, Param.all₂_iff h b.param]

/-- Keyword parameters agree in any order exactly if they are equal once they are sorted. -/
theorem keywordsAll₂_iff {as : List (Keyword σ)} {bs : List (Keyword τ)}
    (nodup : (as.map (·.key)).Nodup)
    (h : ∀ a ∈ as, ∀ y, test (e a.param.type) y = true ↔ f a.param.type = g y) :
    keywordsAll₂ test (as.map (Keyword.map e)) bs = true ↔
      Keyword.sort (as.map (Keyword.map f)) = Keyword.sort (bs.map (Keyword.map g)) := by
  have keys : ((as.map (Keyword.map f)).map (·.key)) = as.map (·.key) := by
    simp [Keyword.map, Function.comp_def]
  have agree : keywordsAll₂ test (as.map (Keyword.map e)) bs = true ↔
      as.length = bs.length ∧ ∀ a ∈ as, ∃ b ∈ bs, a.map f = b.map g := by
    simp only [keywordsAll₂, Bool.and_eq_true, decide_eq_true_eq, List.all_eq_true,
      List.any_eq_true, List.length_map, List.forall_mem_map]
    refine and_congr_right fun _ => forall₂_congr fun a member => ?_
    simp [Keyword.all₂_iff (h a member)]
  -- As many, and each one there: with names that differ the lists are the same but for their order.
  rw [agree]
  constructor
  · rintro ⟨length, found⟩
    refine Keyword.sort_eq_of_perm ?_ (keys ▸ nodup)
    have distinct : (as.map (Keyword.map f)).Nodup := List.Nodup.of_map (·.key) (keys ▸ nodup)
    refine (List.subperm_of_subset distinct fun keyword member => ?_).perm_of_length_le
      (by simp [length])
    obtain ⟨a, inFirst, rfl⟩ := List.mem_map.1 member
    obtain ⟨b, inSecond, equal⟩ := found a inFirst
    exact List.mem_map.2 ⟨b, inSecond, equal.symm⟩
  · intro equal
    have perm : (as.map (Keyword.map f)).Perm (bs.map (Keyword.map g)) :=
      (Keyword.sort_perm _).symm.trans (equal ▸ Keyword.sort_perm _)
    refine ⟨by simpa using perm.length_eq, fun a member => ?_⟩
    obtain ⟨b, member, equal⟩ := List.mem_map.1
      (perm.mem_iff.1 (List.mem_map.2 ⟨a, member, rfl⟩))
    exact ⟨b, member, equal.symm⟩

theorem Params.all₂_iff {a : Params σ} (keyed : a.Keyed)
    (h : ∀ x ∈ a.parts, ∀ y, test (e x) y = true ↔ f x = g y) (b : Params τ) :
    (a.map e).all₂ test b = true ↔ (a.map f).sorted = (b.map g).sorted := by
  have inside : ∀ x, (∃ p ∈ a.positionals, p.type = x) ∨ (∃ k ∈ a.keywords, k.param.type = x) ∨
      (∃ p ∈ a.restKeywords.toList, p.type = x) → ∀ y, test (e x) y = true ↔ f x = g y := by
    intro x member
    refine h x ?_
    simpa [Params.parts, or_assoc] using member
  have ofParam : ∀ p ∈ a.positionals, ∀ q, (p.map e).all₂ test q = true ↔ p.map f = q.map g :=
    fun p member => Param.all₂_iff (inside _ (.inl ⟨p, member, rfl⟩))
  have ofKeyword : ∀ k ∈ a.keywords, ∀ y,
      test (e k.param.type) y = true ↔ f k.param.type = g y :=
    fun k member => inside _ (.inr (.inl ⟨k, member, rfl⟩))
  have ofRest : ∀ p ∈ a.restKeywords.toList, ∀ q,
      (p.map e).all₂ test q = true ↔ p.map f = q.map g :=
    fun p member => Param.all₂_iff (inside _ (.inr (.inr ⟨p, member, rfl⟩)))
  simp only [Params.positionals, List.mem_append] at ofParam
  simp only [Params.keywords, List.mem_append] at ofKeyword
  -- Keywords may be in any order; everything else is compared in place.
  simp only [Params.all₂, Params.map, Params.sorted, Bool.and_eq_true, Params.mk.injEq]
  rw [listAll₂_iff fun p member => ofParam p (by simp [member]),
    listAll₂_iff fun p member => ofParam p (by simp [member]),
    optionAll₂_iff fun p member => ofParam p (by simp [member]),
    listAll₂_iff fun p member => ofParam p (by simp [member]),
    keywordsAll₂_iff keyed.required fun k member => ofKeyword k (by simp [member]),
    keywordsAll₂_iff keyed.optional fun k member => ofKeyword k (by simp [member]),
    optionAll₂_iff ofRest]
  simp only [and_assoc]

theorem Function.all₂_iff {a : Function σ} (keyed : ∀ params ∈ a.params?.toList, params.Keyed)
    (h : ∀ x ∈ a.parts, ∀ y, test (e x) y = true ↔ f x = g y) (b : Function τ) :
    (a.map e).all₂ test b = true ↔ (a.map f).sorted = (b.map g).sorted := by
  cases a with
  | typed params result =>
      have ofParams := Params.all₂_iff (keyed params (by simp [Function.params?]))
        fun x member => h x (List.mem_append_left _ member)
      cases b <;>
        simp [Function.all₂, Function.map, Function.sorted, ofParams, h result (by simp [parts])]
  | untyped result =>
      cases b <;> simp [Function.all₂, Function.map, Function.sorted, h result (by simp [parts])]

theorem Block.all₂_iff {a : Block σ} (keyed : ∀ params ∈ a.function.params?.toList, params.Keyed)
    (h : ∀ x ∈ a.function.parts, ∀ y, test (e x) y = true ↔ f x = g y) (b : Block τ) :
    (a.map e).all₂ test b = true ↔ (a.map f).sorted = (b.map g).sorted := by
  simp only [Block.all₂, Bool.and_eq_true, decide_eq_true_eq]
  simp only [Block.map, Block.sorted, Block.mk.injEq, Function.all₂_iff keyed h]

/-- Two layers agree exactly if they are equal once they are filled and sorted. -/
theorem Layer.all₂_iff {a : Layer σ} (keyed : ∀ params ∈ a.paramLists, params.Keyed)
    (h : ∀ x ∈ a.parts, ∀ y, test (e x) y = true ↔ f x = g y) (b : Layer τ) :
    (a.map e).all₂ test b = true ↔ (a.map f).sorted = (b.map g).sorted := by
  -- Layers of different constructors are told apart by both sides.
  cases a with
  | proc function block =>
      have ofFunction := Function.all₂_iff
        (fun params member => keyed params (List.mem_append_left _ member))
        fun x member => h x (List.mem_append_left _ member)
      have ofBlock : ∀ other : Option (Block τ),
          optionAll₂ (Block.all₂ test) (block.map (Block.map e)) other = true ↔
            block.map (Block.sorted ∘ Block.map f) = other.map (Block.sorted ∘ Block.map g) := by
        intro other
        refine optionAll₂_iff fun inner member => ?_
        obtain rfl : block = some inner := by simpa using member
        exact Block.all₂_iff (fun params member => keyed params (by simp_all [Layer.paramLists]))
          fun x member => h x (by simp [parts, member])
      cases b <;> simp [Layer.all₂, Layer.map, Layer.sorted, ofFunction, ofBlock]
  | optional type =>
      have := h type (by simp [parts])
      cases b <;> simp [Layer.all₂, Layer.map, Layer.sorted, this]
  | base _ | var _ | literal _ => cases b <;> simp [Layer.all₂, Layer.map, Layer.sorted]
  | named _ _ types | union types | intersection types | tuple types =>
      have ofTypes : ∀ others, listAll₂ test (types.map e) others = true ↔
          types.map f = others.map g := fun _ => listAll₂_iff h
      cases b <;> simp [Layer.all₂, Layer.map, Layer.sorted, ofTypes, and_assoc]

end Values

namespace Ty

/-- Types without repeated keys say the same exactly if they are equal once they are sorted. -/
theorem same_iff {type : Ty} (keyed : type.Keyed) (other : Ty) :
    same type other = true ↔ type.sorted = other.sorted := by
  induction type using induction generalizing other with
  | step layer ih =>
      obtain ⟨keys, parts⟩ := everywhere_mk.1 keyed
      obtain ⟨otherLayer⟩ := other
      rw [same, fold_mk, sorted_mk, sorted_mk, Ty.mk.injEq]
      refine Layer.all₂_iff keys (fun part member y => ?_) otherLayer
      exact ih part member (parts part member) y

end Ty

end Signet

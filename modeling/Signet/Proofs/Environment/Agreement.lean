import Mathlib.Data.List.Nodup
import Signet.Proofs.Environment.TypeParams
import Signet.Proofs.Type.Scopes

/-!
# Type parameters by their places

Whether two lists of type parameters agree is a matter of places, not of names. With the place of
each type parameter for its name (`Ty.placed`) nothing is left of the names of a list, and two lists
agree exactly if they are equal in this form (`TypeParam.compatible_iff_placed`). The lists may
have names in common, at the same place or at different ones, and a class of the name of a type
parameter of the other list is still a class.
-/

namespace Signet

/-- A type in which type parameters stand as their places in a list. -/
inductive PlacedTy where
  | place (index : Nat)
  | mk (layer : Layer PlacedTy)

variable {σ τ ρ υ : Type} {listed : List String}

namespace PlacedTy

/-- The place of a name, if it is in the list. -/
def ofName (listed : List String) (name : String) : PlacedTy :=
  if listed.contains name then .place (listed.idxOf name) else .mk (.var name)

theorem ofName_eq_iff {name other : String} :
    ofName listed name = ofName listed other ↔ name = other := by
  unfold ofName
  constructor
  · intro same
    by_cases own : name ∈ listed
    · by_cases otherOwn : other ∈ listed
      · simpa [own, otherOwn, List.idxOf_inj own] using same
      · simp [own, otherOwn] at same
    · by_cases otherOwn : other ∈ listed
      · simp [own, otherOwn] at same
      · simpa [own, otherOwn] using same
  · rintro rfl
    rfl

/-- A layer that is no variable does not stand for a name. -/
theorem ofName_ne_mk {name : String} {layer : Layer PlacedTy} (notVar : layer ≠ .var name) :
    ofName listed name ≠ .mk layer := by
  unfold ofName
  split
  · exact nofun
  · intro same
    exact notVar (mk.inj same).symm

end PlacedTy

namespace Ty

/-- A layer with the place of a variable for its name. -/
def placeVarLayer (listed : List String) : Layer PlacedTy → PlacedTy
  | .var name => .ofName listed name
  | layer => .mk layer.sorted

/-- A layer with the place of a type parameter for its name, be it written as a variable or as a
bare class name. -/
def placeLayer (listed : List String) : Layer PlacedTy → PlacedTy
  | .named .ofClass name [] =>
    if name.isSimple && listed.contains name.base then .place (listed.idxOf name.base)
    else .mk (.named .ofClass name [])
  | layer => placeVarLayer listed layer

/-- The type with the place of each type parameter for its name, and with keyword parameters in
order. -/
def placed (listed : List String) : Ty → PlacedTy := fold (placeLayer listed)

/-- The same for variables alone. -/
def placedVars (listed : List String) : Ty → PlacedTy := fold (placeVarLayer listed)

theorem placedVars_var (name : String) : placedVars listed ⟨.var name⟩ = .ofName listed name :=
  fold_mk (placeVarLayer listed) _

theorem placedVars_of_not_var {layer : Layer Ty} (notVar : ∀ name, layer ≠ .var name) :
    placedVars listed ⟨layer⟩ = .mk (layer.map (placedVars listed)).sorted := by
  rw [placedVars, fold_mk]
  cases layer with
  | var name => exact absurd rfl (notVar name)
  | _ => rfl

/-- The type parameters in a type are its variables once the names of the list are bound. -/
theorem placed_eq_placedVars (type : Ty) :
    type.placed listed = (type.bind listed).placedVars listed := by
  induction type using induction with
  | step layer ih =>
      have filled : layer.map (placed listed) =
          (layer.map (bind listed)).map (placedVars listed) := by
        rw [Layer.map_map]
        exact Layer.map_congr ih
      rw [placed, fold_mk, ← placed]
      -- Only a class name without arguments is placed otherwise than by its parts.
      by_cases bare : layer.Bare
      · obtain ⟨name, rfl⟩ := bare
        rw [bind_bare]
        by_cases own : (name.isSimple && listed.contains name.base) = true
        · have member : listed.contains name.base = true := (Bool.and_eq_true_iff.1 own).2
          rw [if_pos own, placedVars_var, PlacedTy.ofName, if_pos member]
          exact if_pos own
        · rw [if_neg own, placedVars_of_not_var (by simp)]
          exact if_neg own
      · rw [bind_of_not_bare bare, placedVars, fold_mk, ← placedVars, ← filled]
        have stillNot : ¬ (layer.map (placed listed)).Bare := by rwa [Layer.bare_map]
        unfold placeLayer
        split
        · rename_i name same
          exact absurd ⟨name, same⟩ stillNot
        · rfl

end Ty

/-- Whether two layers are equal once they are filled and sorted depends on which types are taken
for equal, not on what the layers are filled with. -/
theorem Layer.sorted_map_eq_iff {a : Layer σ} {b : Layer τ}
    (keyed : ∀ params ∈ a.paramLists, params.Keyed) {f : σ → ρ} {g : τ → ρ} {f' : σ → υ}
    {g' : τ → υ} (alike : ∀ x ∈ a.parts, ∀ y, f x = g y ↔ f' x = g' y) :
    (a.map f).sorted = (b.map g).sorted ↔ (a.map f').sorted = (b.map g').sorted := by
  classical
  obtain ⟨test, tells⟩ : ∃ test : σ → τ → Bool, ∀ x y, test x y = true ↔ f x = g y :=
    ⟨fun x y => decide (f x = g y), fun _ _ => decide_eq_true_iff⟩
  have first : (a.map id).all₂ test b = true ↔ (a.map f).sorted = (b.map g).sorted :=
    Layer.all₂_iff keyed (fun x _ y => tells x y) b
  have second : (a.map id).all₂ test b = true ↔ (a.map f').sorted = (b.map g').sorted :=
    Layer.all₂_iff keyed (fun x member y => (tells x y).trans (alike x member y)) b
  exact first.symm.trans second

/-- Places tell types apart as names do. -/
theorem Ty.placedVars_eq_iff {first second : Ty} (keyed : first.Keyed) :
    first.placedVars listed = second.placedVars listed ↔ first.sorted = second.sorted := by
  induction first using induction generalizing second with
  | step layer ih =>
      obtain ⟨keys, parts⟩ := everywhere_mk.1 keyed
      obtain ⟨other⟩ := second
      rw [sorted_mk, sorted_mk, mk.injEq]
      -- A variable agrees with variables only; otherwise the layers agree, up to the order of
      -- keywords.
      by_cases isVar : ∃ name, layer = .var name
      · obtain ⟨name, rfl⟩ := isVar
        by_cases otherVar : ∃ name, other = .var name
        · obtain ⟨otherName, rfl⟩ := otherVar
          rw [placedVars_var, placedVars_var, PlacedTy.ofName_eq_iff]
          simp [Layer.map, Layer.sorted]
        · rw [placedVars_var, placedVars_of_not_var fun name same => otherVar ⟨name, same⟩]
          refine iff_of_false (PlacedTy.ofName_ne_mk fun same => ?_) fun same => ?_
          · exact otherVar ⟨name, Layer.sorted_map_eq_var_iff.1 same⟩
          · exact otherVar ⟨name, Layer.sorted_map_eq_var_iff.1 same.symm⟩
      · rw [placedVars_of_not_var fun name same => isVar ⟨name, same⟩]
        by_cases otherVar : ∃ name, other = .var name
        · obtain ⟨name, rfl⟩ := otherVar
          rw [placedVars_var]
          refine iff_of_false (Ne.symm (PlacedTy.ofName_ne_mk fun same => ?_)) fun same => ?_
          · exact isVar ⟨name, Layer.sorted_map_eq_var_iff.1 same⟩
          · exact isVar ⟨name, Layer.sorted_map_eq_var_iff.1 same⟩
        · rw [placedVars_of_not_var fun name same => otherVar ⟨name, same⟩, PlacedTy.mk.injEq]
          exact Layer.sorted_map_eq_iff keys fun part member y => ih part member (parts part member)

/-! ## Lists of type parameters -/

namespace TypeParam

variable {source target : List TypeParam}

/-- The variables in the bounds of a list are type parameters of the list. -/
def Closed (params : List TypeParam) : Prop :=
  ∀ param ∈ params, ∀ bound, param.upperBound = some bound →
    ∀ name ∈ bound.vars, name ∈ names params

/-- The bound of a type parameter, with places in a list for the names of the list. -/
def placedBound (params : List TypeParam) (param : TypeParam) : Option PlacedTy :=
  param.upperBound.map (Ty.placed (names params))

/-- A name has the same place as the one that it is aligned with. -/
theorem ofName_alignedName (source_nodup : (names source).Nodup)
    (target_nodup : (names target).Nodup) (same : (names source).length = (names target).length)
    {name : String} (own : name ∈ names source) :
    PlacedTy.ofName (names target) (alignedName source target name) =
      PlacedTy.ofName (names source) name := by
  obtain ⟨index, inside, rfl⟩ := List.mem_iff_getElem.1 own
  have inTarget : index < (names target).length := same ▸ inside
  rw [alignedName_getElem source_nodup same inside]
  simp [PlacedTy.ofName, List.getElem_mem, source_nodup.idxOf_getElem, target_nodup.idxOf_getElem]

/-- Aligning names keeps the places. -/
theorem placedVars_rename (source_nodup : (names source).Nodup)
    (target_nodup : (names target).Nodup) (same : (names source).length = (names target).length)
    {type : Ty} (own : ∀ name ∈ type.vars, name ∈ names source) :
    (type.rename (alignedName source target)).placedVars (names target) =
      type.placedVars (names source) := by
  induction type using Ty.induction with
  | step layer ih =>
      rw [Ty.rename_mk]
      -- Only variables are renamed, each to the one in the same place of the other list.
      by_cases isVar : ∃ name, layer = .var name
      · obtain ⟨name, rfl⟩ := isVar
        simp only [Layer.map, Ty.renameLayer, Ty.placedVars_var]
        exact ofName_alignedName source_nodup target_nodup same
          (own name ((Ty.mem_vars_mk ..).2 (.inl rfl)))
      · have notVar : ∀ name, layer ≠ .var name := fun name same => isVar ⟨name, same⟩
        have stillNot : ∀ name,
            layer.map (Ty.rename (alignedName source target)) ≠ .var name := by
          intro name same
          cases layer <;> simp_all [Layer.map]
        have kept : Ty.renameLayer (alignedName source target)
            (layer.map (Ty.rename (alignedName source target))) =
              layer.map (Ty.rename (alignedName source target)) := by
          unfold Ty.renameLayer
          split
          · rename_i name same
            exact absurd same (stillNot name)
          · rfl
        rw [kept, Ty.placedVars_of_not_var stillNot, Ty.placedVars_of_not_var notVar,
          Layer.map_map]
        refine congrArg (fun layer => PlacedTy.mk (Layer.sorted layer)) (Layer.map_congr ?_)
        exact fun part member => ih part member fun name occurs =>
          own name ((Ty.mem_vars_mk ..).2 (.inr ⟨part, member, occurs⟩))

/-- Two bounds are the same with the names of one list exactly if they are equal by places. -/
theorem sorted_bind_eq_iff_placed (source_nodup : (names source).Nodup)
    (target_nodup : (names target).Nodup) (same : (names source).length = (names target).length)
    {expected found : Ty} (keyed : expected.Keyed)
    (own : ∀ name ∈ found.vars, name ∈ names source) :
    (expected.bind (names target)).sorted =
        ((found.bind (names source)).sorted).rename (alignedName source target) ↔
      expected.placed (names target) = found.placed (names source) := by
  -- names of the list that were classes before are its variables as well
  have bound : ∀ name ∈ (found.bind (names source)).vars, name ∈ names source := by
    intro name occurs
    rcases Ty.mem_vars_bind occurs with old | new
    · exact own name old
    · exact new
  rw [Ty.placed_eq_placedVars, Ty.placed_eq_placedVars,
    ← placedVars_rename source_nodup target_nodup same bound,
    Ty.placedVars_eq_iff (keyed.bind (names target)), Ty.sorted_rename]

/-- Two lists of type parameters agree exactly if they have the same length and, at each place, the
same variance and the same bound, with places for the names of type parameters. The keys of a
parameter list do not repeat in types that are read. -/
theorem compatible_iff_placed {reference other : List TypeParam}
    (nodup : (names reference).Nodup) (other_nodup : (names other).Nodup)
    (closed : Closed other) (keyed : Keyed reference) :
    compatibleTypeParams reference other = true ↔
      reference.length = other.length ∧ ∀ pair ∈ reference.zip other,
        pair.1.variance = pair.2.variance ∧
          placedBound reference pair.1 = placedBound other pair.2 := by
  rw [compatibleTypeParams_iff keyed, profile, profile, renameProfile, List.map_map,
    map_eq_map_iff_zip]
  refine and_congr_right fun length => forall₂_congr fun pair member => ?_
  obtain ⟨inReference, inOther⟩ := List.of_mem_zip (a := pair.1) (b := pair.2) member
  have same : (names other).length = (names reference).length := by simp [names, length]
  simp only [Function.comp_apply, Prod.map, Prod.mk.injEq, id_eq, placedBound]
  refine and_congr_right fun _ => ?_
  cases expected : pair.1.upperBound with
  | none => cases pair.2.upperBound <;> simp
  | some bound =>
      cases found : pair.2.upperBound with
      | none => simp
      | some otherBound =>
          simpa using sorted_bind_eq_iff_placed other_nodup nodup same
            (keyed pair.1 inReference bound expected) (closed pair.2 inOther otherBound found)

/-- The list `[first < Hash[second, first], out second < first?]`. In its bounds the first parameter
is written as a variable and the second one as a class name. -/
def mutualBounds (first second : String) : List TypeParam :=
  [{ name := first
     upperBound := some
      ⟨.named .ofClass (.ofString "Hash") [.classInstance second, ⟨.var first⟩]⟩ },
   { name := second
     variance := .covariant
     upperBound := some ⟨.optional ⟨.var first⟩⟩ }]

/-- Two lists that swap their names agree, place by place. -/
theorem compatible_iff_placed_swapped :
    (names (mutualBounds "T" "U")).Nodup ∧ (names (mutualBounds "U" "T")).Nodup ∧
      Closed (mutualBounds "U" "T") ∧ Keyed (mutualBounds "T" "U") ∧
      compatibleTypeParams (mutualBounds "T" "U") (mutualBounds "U" "T") = true ∧
      ∀ pair ∈ (mutualBounds "T" "U").zip (mutualBounds "U" "T"),
        pair.1.variance = pair.2.variance ∧
          placedBound (mutualBounds "T" "U") pair.1 =
            placedBound (mutualBounds "U" "T") pair.2 := by
  have nodup : (names (mutualBounds "T" "U")).Nodup := by decide
  have other_nodup : (names (mutualBounds "U" "T")).Nodup := by decide
  have closed : Closed (mutualBounds "U" "T") := by
    intro param member bound bounded name occurs
    rcases List.mem_pair.1 member with rfl | rfl
    · obtain rfl := Option.some.inj bounded
      revert name
      decide
    · obtain rfl := Option.some.inj bounded
      revert name
      decide
  -- There are no parameters in the bounds, so no keywords either.
  have keyed : Keyed (mutualBounds "T" "U") := by
    have leaf : ∀ layer : Layer Ty, layer.paramLists = [] → layer.parts = [] →
        Ty.Keyed ⟨layer⟩ := by
      intro layer noParams noParts
      exact Ty.everywhere_mk.2 ⟨by simp [noParams], by simp [noParts]⟩
    intro param member bound bounded
    rcases List.mem_pair.1 member with rfl | rfl
    · obtain rfl := Option.some.inj bounded
      refine Ty.everywhere_mk.2 ⟨by simp [Layer.paramLists], fun part inside => ?_⟩
      rcases List.mem_pair.1 inside with rfl | rfl <;> exact leaf _ rfl rfl
    · obtain rfl := Option.some.inj bounded
      refine Ty.everywhere_mk.2 ⟨by simp [Layer.paramLists], fun part inside => ?_⟩
      obtain rfl := List.mem_singleton.1 inside
      exact leaf _ rfl rfl
  have agree : compatibleTypeParams (mutualBounds "T" "U") (mutualBounds "U" "T") = true := by
    decide
  exact ⟨nodup, other_nodup, closed, keyed, agree,
    ((compatible_iff_placed nodup other_nodup closed keyed).1 agree).2⟩

/-- A class with the name of a type parameter of the other list is not that type parameter. -/
example : compatibleTypeParams [{ name := "T", upperBound := some (.classInstance "U") }]
    [{ name := "U", upperBound := some (.classInstance "U") }] = false := by decide

end TypeParam

end Signet

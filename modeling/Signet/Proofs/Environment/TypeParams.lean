import Signet.Environment.Entry
import Signet.Proofs.Environment.Insertion
import Signet.Proofs.Type.Variables

/-!
# When type parameters agree in any order

Declarations of one name are compared with the first of them, whose type parameters the others are
renamed to. Renaming replaces the parameters of the other declaration and leaves what its bounds
mention beyond them, variables of the classes around it. If such a variable has the name of a
parameter of the first declaration, the two are taken for one, but only this way round: so the
verdict may depend on which declaration comes first.

Declarations with no such variable (`ClassEntry.Uncaptured`) are judged alike in any order, and no
others are accepted in every order (`ClassEntry.validate_perm_iff`).
-/

namespace Signet

namespace TypeParam

variable {source target third : List TypeParam}

/-! ## Aligning names -/

/-- The name at the same place of another list of type parameters. -/
def alignedName (source target : List TypeParam) (name : String) : String :=
  (((names source).zip (names target)).reverse.lookup name).getD name

/-- Aligning type parameters is a renaming. -/
theorem substitute_aligning (source target : List TypeParam) (type : Ty) :
    type.substitute (aligning source target) = type.rename (alignedName source target) := by
  -- Looking up a name among variables is looking up the name of a variable.
  have values : ∀ (pairs : List (String × String)) (name : String),
      ((pairs.map (Prod.map id fun other => (⟨.var other⟩ : Ty))).lookup name).getD ⟨.var name⟩ =
        ⟨.var ((pairs.lookup name).getD name)⟩ := by
    intro pairs name
    induction pairs with
    | nil => rfl
    | cons pair pairs ih =>
        obtain ⟨key, value⟩ := pair
        by_cases same : name = key
        · simp [same]
        · have : (name == key) = false := by simpa using same
          simpa [List.lookup_cons, this] using ih
  have layers : Ty.substituteLayer (aligning source target) =
      Ty.substituteLayer fun name => some ⟨.var (alignedName source target name)⟩ := by
    funext layer
    cases layer with
    | var name =>
        have := values ((names source).zip (names target)).reverse name
        rw [List.map_reverse] at this
        simpa [Ty.substituteLayer, aligning, Substitution.ofList, alignedName,
          List.zip_map_right] using this
    | _ => rfl
  rw [Ty.rename, Ty.substitute, Ty.substitute, layers]

/-- A name that is not in the list is left alone. -/
theorem alignedName_of_not_mem {name : String} (missing : name ∉ names source) :
    alignedName source target name = name := by
  have : ((names source).zip (names target)).reverse.lookup name = none := by
    rw [List.lookup_eq_none_iff]
    rintro ⟨key, value⟩ member
    have inside := (List.of_mem_zip (List.mem_reverse.1 member)).1
    rw [bne_iff_ne]
    rintro rfl
    exact missing inside
  rw [alignedName, this, Option.getD_none]

/-- A name of the list becomes the one at its place. -/
theorem alignedName_getElem (nodup : (names source).Nodup)
    (same : (names source).length = (names target).length) {index : Nat}
    (inside : index < (names source).length) :
    alignedName source target (names source)[index] = (names target)[index] := by
  have keys : (((names source).zip (names target)).reverse.map Prod.fst).Nodup := by
    rw [List.map_reverse, List.nodup_reverse, List.map_fst_zip (Nat.le_of_eq same)]
    exact nodup
  have member : ((names source)[index], (names target)[index]) ∈
      ((names source).zip (names target)).reverse := by
    rw [List.mem_reverse]
    exact List.mem_iff_getElem.2 ⟨index, by simp [inside, same ▸ inside], by simp⟩
  rw [alignedName, (lookup_eq_some_iff_mem keys _ _).2 member, Option.getD_some]

/-- Aligning with a second list and from there with a third is aligning with the third, except for
a name that the second list has and the first has not. -/
theorem alignedName_alignedName (source_nodup : (names source).Nodup)
    (target_nodup : (names target).Nodup) (first : (names source).length = (names target).length)
    (second : (names target).length = (names third).length) {name : String}
    (uncaptured : name ∈ names target → name ∈ names source) :
    alignedName target third (alignedName source target name) = alignedName source third name := by
  by_cases member : name ∈ names source
  · obtain ⟨index, inside, rfl⟩ := List.mem_iff_getElem.1 member
    rw [alignedName_getElem source_nodup first inside,
      alignedName_getElem target_nodup second (first ▸ inside),
      alignedName_getElem source_nodup (first.trans second) inside]
  · rw [alignedName_of_not_mem member, alignedName_of_not_mem member,
      alignedName_of_not_mem fun captured => member (uncaptured captured)]

/-- Aligning a list with itself changes nothing. -/
theorem alignedName_self (nodup : (names source).Nodup) (name : String) :
    alignedName source source name = name := by
  by_cases member : name ∈ names source
  · obtain ⟨index, inside, rfl⟩ := List.mem_iff_getElem.1 member
    exact alignedName_getElem nodup rfl inside
  · exact alignedName_of_not_mem member

/-! ## What is compared -/

/-- What is compared of type parameters: variances and bounds, without the order of keywords. -/
def profile (params : List TypeParam) : List (Variance × Option Ty) :=
  params.map fun param =>
    (param.variance, param.upperBound.map fun bound => (bound.bind (names params)).sorted)

/-- The same with other names for the variables. -/
def renameProfile (naming : String → String) (profile : List (Variance × Option Ty)) :
    List (Variance × Option Ty) :=
  profile.map (Prod.map id (Option.map (Ty.rename naming)))

/-- Some bound of the list mentions the variable. -/
def Mentions (params : List TypeParam) (name : String) : Prop :=
  ∃ param ∈ params, ∃ bound, param.upperBound = some bound ∧
    name ∈ (bound.bind (names params)).vars

/-- No bound of the list has a key twice. -/
def Keyed (params : List TypeParam) : Prop :=
  ∀ param ∈ params, ∀ bound, param.upperBound = some bound → bound.Keyed

theorem renameProfile_renameProfile (naming other : String → String)
    (profile : List (Variance × Option Ty)) :
    renameProfile other (renameProfile naming profile) =
      renameProfile (other ∘ naming) profile := by
  simp [renameProfile, Prod.map, Function.comp_def, Ty.rename_rename]

/-- Only what the bounds mention matters for renaming them. -/
theorem renameProfile_congr {naming other : String → String}
    (agree : ∀ name, Mentions source name → naming name = other name) :
    renameProfile naming (profile source) = renameProfile other (profile source) := by
  simp only [renameProfile, profile, List.map_map]
  refine List.map_congr_left fun param member => ?_
  cases bounded : param.upperBound with
  | none => simp [bounded]
  | some bound =>
      have : ((bound.bind (names source)).sorted).rename naming =
          ((bound.bind (names source)).sorted).rename other :=
        Ty.rename_congr fun name occurs =>
          agree name ⟨param, member, bound, bounded, (Ty.mem_vars_sorted _ _).1 occurs⟩
      simp [bounded, this]

theorem renameProfile_self {naming : String → String}
    (agree : ∀ name, Mentions source name → naming name = name) :
    renameProfile naming (profile source) = profile source := by
  have : renameProfile naming (profile source) = renameProfile id (profile source) :=
    renameProfile_congr agree
  rw [this]
  simp [renameProfile, profile, Function.comp_def, Ty.rename_id]

/-! ## Agreement -/

/-- Two lists are equal place by place if they have the same length and agree on each pair. -/
theorem map_eq_map_iff_zip {α β γ : Type} {f : α → γ} {g : β → γ} {as : List α} {bs : List β} :
    as.map f = bs.map g ↔ as.length = bs.length ∧ ∀ pair ∈ as.zip bs, f pair.1 = g pair.2 := by
  induction as generalizing bs with
  | nil => cases bs <;> simp
  | cons a as ih =>
      cases bs with
      | nil => simp
      | cons b bs =>
          simp only [List.map_cons, List.cons.injEq, ih, List.length_cons, List.zip_cons_cons,
            List.forall_mem_cons, Nat.add_right_cancel_iff]
          tauto

/-- Two lists of type parameters agree exactly if the profile of the first is that of the other,
with the names of the first. -/
theorem compatibleTypeParams_iff (keyed : Keyed source) :
    compatibleTypeParams source target = true ↔
      profile source = renameProfile (alignedName target source) (profile target) := by
  have bounds : ∀ expected ∈ source, ∀ found : TypeParam,
      agreeingParams source target expected found = true ↔
        (expected.variance,
          expected.upperBound.map fun bound => (bound.bind (names source)).sorted) =
        Prod.map id (Option.map (Ty.rename (alignedName target source)))
          (found.variance,
            found.upperBound.map fun bound => (bound.bind (names target)).sorted) := by
    intro expected member found
    simp only [agreeingParams, Bool.and_eq_true, decide_eq_true_eq, Prod.map, Prod.mk.injEq, id_eq]
    refine and_congr_right fun _ => ?_
    cases first : expected.upperBound with
    | none => cases found.upperBound <;> simp [Ty.sameOption, optionAll₂]
    | some bound =>
        have same := Ty.same_iff ((keyed expected member bound first).bind (names source))
        cases found.upperBound <;>
          simp [Ty.sameOption, optionAll₂, same, substitute_aligning, Ty.sorted_rename]
  simp only [compatibleTypeParams, Bool.and_eq_true, decide_eq_true_eq, List.all_eq_true]
  rw [profile, profile, renameProfile, List.map_map, map_eq_map_iff_zip]
  refine and_congr_right fun _ => forall₂_congr fun pair member => ?_
  exact bounds pair.1 (List.of_mem_zip member).1 pair.2

/-- Agreeing lists have the same length. -/
theorem length_eq_of_compatible (agree : compatibleTypeParams source target = true) :
    (names source).length = (names target).length := by
  simp only [compatibleTypeParams, Bool.and_eq_true, decide_eq_true_eq] at agree
  simpa [names] using agree.1

/-- Each list agrees with itself. -/
theorem compatible_self (keyed : Keyed source) (nodup : (names source).Nodup) :
    compatibleTypeParams source source = true := by
  rw [compatibleTypeParams_iff keyed]
  exact (renameProfile_self fun name _ => alignedName_self nodup name).symm

/-- Two lists that agree with a third agree with each other, if no bound of theirs mentions a
parameter of the third that is none of its own list. -/
theorem compatible_of_compatible (keyed : Keyed source) (third_keyed : Keyed third)
    (source_nodup : (names source).Nodup) (target_nodup : (names target).Nodup)
    (third_nodup : (names third).Nodup)
    (source_uncaptured : ∀ name, Mentions source name → name ∈ names third → name ∈ names source)
    (target_uncaptured : ∀ name, Mentions target name → name ∈ names third → name ∈ names target)
    (first : compatibleTypeParams third source = true)
    (second : compatibleTypeParams third target = true) :
    compatibleTypeParams source target = true := by
  have first_length := length_eq_of_compatible first
  have second_length := length_eq_of_compatible second
  rw [compatibleTypeParams_iff third_keyed] at first second
  rw [compatibleTypeParams_iff keyed]
  -- Renamed to the third list and back again, the profile is the same; on the way it is that of the
  -- target.
  calc profile source
      = renameProfile (alignedName third source)
          (renameProfile (alignedName source third) (profile source)) := by
        rw [renameProfile_renameProfile, renameProfile_self]
        intro name mentioned
        exact (alignedName_alignedName source_nodup third_nodup first_length.symm first_length
          (source_uncaptured name mentioned)).trans (alignedName_self source_nodup name)
    _ = renameProfile (alignedName third source)
          (renameProfile (alignedName target third) (profile target)) := by
        rw [← first, ← second]
    _ = renameProfile (alignedName target source) (profile target) := by
        rw [renameProfile_renameProfile]
        refine renameProfile_congr fun name mentioned => ?_
        exact alignedName_alignedName target_nodup third_nodup second_length.symm first_length
          (target_uncaptured name mentioned)

/-- If a list agrees with another as the first of the two, its bounds mention no parameter of the
other that is none of its own. -/
theorem uncaptured_of_compatible (keyed : Keyed source) (nodup : (names target).Nodup)
    (agree : compatibleTypeParams source target = true) {name : String}
    (mentioned : Mentions source name) (captured : name ∈ names target) :
    name ∈ names source := by
  have same_length := length_eq_of_compatible agree
  rw [compatibleTypeParams_iff keyed] at agree
  obtain ⟨param, member, bound, bounded, occurs⟩ := mentioned
  have inProfile : (param.variance, some (bound.bind (names source)).sorted) ∈ profile source :=
    List.mem_map.2 ⟨param, member, by simp [bounded]⟩
  rw [agree] at inProfile
  obtain ⟨⟨variance, found⟩, -, equal⟩ := List.mem_map.1 inProfile
  cases found with
  | none => simp at equal
  | some type =>
      obtain ⟨-, equal⟩ : variance = param.variance ∧
          type.rename (alignedName target source) = (bound.bind (names source)).sorted := by
        simpa using equal
      rw [← Ty.mem_vars_sorted, ← equal, Ty.mem_vars_rename] at occurs
      obtain ⟨old, -, renamed⟩ := occurs
      -- The name stems from a name of the target that was renamed, or from one that was kept and is
      -- no name of the target.
      by_cases own : old ∈ names target
      · obtain ⟨index, inside, rfl⟩ := List.mem_iff_getElem.1 own
        rw [alignedName_getElem nodup same_length.symm inside] at renamed
        exact renamed ▸ List.getElem_mem _
      · rw [alignedName_of_not_mem own] at renamed
        exact absurd (renamed ▸ captured) own

end TypeParam

/-! ## Entries -/

namespace ClassEntry

open TypeParam

/-- The type parameters of a declaration have different names, and no bound has a key twice. -/
structure WellNamed (entry : ClassEntry) : Prop where
  nodup : ∀ record ∈ entry.records, (names record.declaration.typeParams).Nodup
  keyed : ∀ record ∈ entry.records, Keyed record.declaration.typeParams

/-- No bound of a declaration mentions a variable, beyond its own parameters, that has the name of
a parameter of another declaration. -/
def Uncaptured (entry : ClassEntry) : Prop :=
  ∀ first ∈ entry.records, ∀ second ∈ entry.records, ∀ name,
    Mentions first.declaration.typeParams name → name ∈ names second.declaration.typeParams →
      name ∈ names first.declaration.typeParams

theorem validate_cons_iff (name : TypeName) (first : Record) (others : List Record) :
    validate { name := name, records := first :: others } = .ok () ↔ ∀ record ∈ others,
      compatibleTypeParams first.declaration.typeParams record.declaration.typeParams = true := by
  unfold validate
  simp only
  split
  · rename_i record found
    simp only [reduceCtorEq, false_iff, not_forall]
    exact ⟨record, List.mem_of_find?_eq_some found, by simpa using List.find?_some found⟩
  · rename_i missing
    simpa using missing

variable {entry : ClassEntry}

/-- Where no variable is captured, all declarations of an accepted entry agree with each other. -/
theorem Uncaptured.compatible (uncaptured : entry.Uncaptured) (wellNamed : entry.WellNamed)
    (accepted : entry.validate = .ok ()) :
    ∀ first ∈ entry.records, ∀ second ∈ entry.records,
      compatibleTypeParams first.declaration.typeParams second.declaration.typeParams = true := by
  obtain ⟨name, _ | ⟨reference, others⟩⟩ := entry
  · simp
  · have member : reference ∈ reference :: others := List.mem_cons_self
    rw [validate_cons_iff] at accepted
    have agree : ∀ record ∈ reference :: others,
        compatibleTypeParams reference.declaration.typeParams record.declaration.typeParams
          = true := by
      intro record inside
      rcases List.mem_cons.1 inside with rfl | inside
      · exact compatible_self (wellNamed.keyed _ member) (wellNamed.nodup _ member)
      · exact accepted record inside
    intro first inFirst second inSecond
    exact compatible_of_compatible (wellNamed.keyed first inFirst) (wellNamed.keyed _ member)
      (wellNamed.nodup first inFirst) (wellNamed.nodup second inSecond)
      (wellNamed.nodup _ member) (uncaptured first inFirst _ member)
      (uncaptured second inSecond _ member) (agree first inFirst) (agree second inSecond)

/-- Where no variable is captured, an accepted entry is accepted in every order. -/
theorem Uncaptured.validate_perm (uncaptured : entry.Uncaptured) (wellNamed : entry.WellNamed)
    (accepted : entry.validate = .ok ()) {records : List Record}
    (perm : records.Perm entry.records) :
    validate { entry with records := records } = .ok () := by
  have compatible := uncaptured.compatible wellNamed accepted
  cases records with
  | nil =>
      obtain ⟨name, old⟩ := entry
      obtain rfl : old = [] := perm.nil_eq.symm
      exact accepted
  | cons first others =>
      refine (validate_cons_iff ..).2 fun record member => ?_
      exact compatible first (perm.mem_iff.1 List.mem_cons_self) record
        (perm.mem_iff.1 (List.mem_cons_of_mem _ member))

/-- An entry that is accepted in every order captures no variable. -/
theorem uncaptured_of_validate (wellNamed : entry.WellNamed)
    (accepted : ∀ records : List Record, records.Perm entry.records →
      validate { entry with records := records } = .ok ()) : entry.Uncaptured := by
  intro first inFirst second inSecond name mentioned captured
  by_cases same : second = first
  · exact same ▸ captured
  · -- the order in which the first of the two is the reference
    obtain ⟨before, after, split⟩ := List.append_of_mem inFirst
    have perm : (first :: (before ++ after)).Perm entry.records :=
      split ▸ List.perm_middle.symm
    have other : second ∈ before ++ after := by
      have : second ∈ before ++ first :: after := split ▸ inSecond
      simpa [same] using this
    exact uncaptured_of_compatible (wellNamed.keyed first inFirst) (wellNamed.nodup second inSecond)
      ((validate_cons_iff ..).1 (accepted _ perm) second other) mentioned captured

/-- Another order of the declarations is as well named. -/
theorem WellNamed.perm (wellNamed : entry.WellNamed) {records : List Record}
    (perm : records.Perm entry.records) : WellNamed { entry with records := records } where
  nodup := fun record member => wellNamed.nodup record (perm.mem_iff.1 member)
  keyed := fun record member => wellNamed.keyed record (perm.mem_iff.1 member)

/-- Another order of the declarations captures no more variables. -/
theorem Uncaptured.perm (uncaptured : entry.Uncaptured) {records : List Record}
    (perm : records.Perm entry.records) : Uncaptured { entry with records := records } :=
  fun first inFirst second inSecond =>
    uncaptured first (perm.mem_iff.1 inFirst) second (perm.mem_iff.1 inSecond)

/-- The verdict on type parameters is the same in every order of the declarations exactly if no
variable is captured, or if no order is accepted. -/
theorem validate_perm_iff (wellNamed : entry.WellNamed) :
    (∀ records : List Record, records.Perm entry.records →
      (validate { entry with records := records } = .ok () ↔ entry.validate = .ok ())) ↔
    (entry.Uncaptured ∨ ∀ records : List Record, records.Perm entry.records →
      validate { entry with records := records } ≠ .ok ()) := by
  constructor
  · intro independent
    by_cases accepted : entry.validate = .ok ()
    · exact .inl (uncaptured_of_validate wellNamed fun records perm =>
        (independent records perm).2 accepted)
    · exact .inr fun records perm valid => accepted ((independent records perm).1 valid)
  · rintro (uncaptured | rejected) records perm
    · refine ⟨fun accepted => ?_, fun accepted => uncaptured.validate_perm wellNamed accepted perm⟩
      exact (uncaptured.perm perm).validate_perm (wellNamed.perm perm) accepted perm.symm
    · exact ⟨fun accepted => absurd accepted (rejected records perm),
        fun accepted => absurd accepted (rejected entry.records (.refl _))⟩

/-- In a class `O`, a class `C` of one type parameter that is bounded by arrays of a variable. -/
def boundedClass (param inside : String) : Record where
  context := .enter .top (.ofString "::O")
  declaration := .mk
    { name := .ofString "C"
      typeParams := [{
        name := param
        upperBound := some ⟨.named .ofClass (.ofString "Array") [⟨.var inside⟩]⟩ }]
      form := .ofClass none { buffer := .ofString "" "", range := ⟨0, 0⟩ } } []

theorem boundedClass_nodup (param inside : String) :
    (names (boundedClass param inside).declaration.typeParams).Nodup := List.nodup_singleton param

theorem boundedClass_keyed (param inside : String) :
    TypeParam.Keyed (boundedClass param inside).declaration.typeParams := by
  intro typeParam member bound bounded
  obtain rfl := List.mem_singleton.1 member
  obtain rfl := Option.some.inj bounded
  refine Ty.everywhere_mk.2 ⟨by simp [Layer.paramLists], fun part inside => ?_⟩
  obtain rfl := List.mem_singleton.1 inside
  exact Ty.everywhere_mk.2 ⟨by simp [Layer.paramLists], by simp [Layer.parts]⟩

/-- The class declared as `C[T < Array[T]]` and as `C[U < Array[U]]`. -/
def renamed : ClassEntry where
  name := .ofString "::O::C"
  records := [boundedClass "T" "T", boundedClass "U" "U"]

/-- A class whose declarations differ in the name of a parameter gets one verdict in all orders. -/
theorem validate_perm_iff_renamed :
    renamed.WellNamed ∧ ∀ records : List Record, records.Perm renamed.records →
      (validate { renamed with records := records } = .ok () ↔ renamed.validate = .ok ()) := by
  have wellNamed : renamed.WellNamed := by
    refine ⟨fun record member => ?_, fun record member => ?_⟩
    · rcases List.mem_pair.1 member with rfl | rfl <;> exact boundedClass_nodup _ _
    · rcases List.mem_pair.1 member with rfl | rfl <;> exact boundedClass_keyed _ _
  have own : ∀ param name, Mentions (boundedClass param param).declaration.typeParams name →
      name ∈ names (boundedClass param param).declaration.typeParams := by
    rintro param name ⟨typeParam, member, bound, bounded, occurs⟩
    obtain rfl := List.mem_singleton.1 member
    obtain rfl := Option.some.inj bounded
    obtain rfl : name = param := by
      simpa [Ty.bind, Ty.vars, Ty.fold, Ty.foldLayer, Ty.foldList, Ty.bindLayer, Layer.parts]
        using occurs
    exact List.mem_singleton_self name
  refine ⟨wellNamed, (validate_perm_iff wellNamed).2 (.inl ?_)⟩
  intro first inFirst second inSecond name mentioned _
  rcases List.mem_pair.1 inFirst with rfl | rfl <;> exact own _ name mentioned

/-- In a class with a parameter `U`, the class declared as `C[T < Array[U]]` and as
`C[U < Array[U]]`. -/
def capturing : ClassEntry where
  name := .ofString "::O::C"
  records := [boundedClass "T" "U", boundedClass "U" "U"]

/-- Where a variable is captured the order matters: the class is rejected in one order and accepted
in the other. -/
theorem validate_capturing :
    capturing.WellNamed ∧ capturing.records.reverse.Perm capturing.records ∧
      validate capturing ≠ .ok () ∧
      validate { capturing with records := capturing.records.reverse } = .ok () := by
  have wellNamed : capturing.WellNamed := by
    refine ⟨fun record member => ?_, fun record member => ?_⟩
    · rcases List.mem_pair.1 member with rfl | rfl <;> exact boundedClass_nodup _ _
    · rcases List.mem_pair.1 member with rfl | rfl <;> exact boundedClass_keyed _ _
  refine ⟨wellNamed, List.reverse_perm _, fun accepted => ?_, ?_⟩
  · have := (validate_cons_iff ..).1 accepted (boundedClass "U" "U") (by simp)
    revert this
    decide
  · refine (validate_cons_iff ..).2 ?_
    decide

end ClassEntry

end Signet

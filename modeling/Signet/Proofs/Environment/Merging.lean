import Mathlib.Data.List.Perm.Basic
import Mathlib.Order.Nat
import Signet.Proofs.Environment.Entries

/-!
# What insertions add

An insertion files the records of a declaration, in preorder, up to the first one that is of another
kind than an earlier one of its name (`insert_run`). What it files goes to the ends: of the entries
that are there, and of the list of entries where a name is new. So it matters for the order of
entries and records in which order declarations are inserted, but neither for whether they fit
together nor for what is filed (`insertRecords_perm`).
-/

namespace Signet

/-! ## Gains -/

namespace ClassEntry

/-- The entry with those of some records that have its name, at the end. -/
def gain (entry : ClassEntry) (records : List Record) : ClassEntry :=
  { entry with records := entry.records ++ records.filter (·.name = entry.name) }

/-- A record of another name does not change an entry. -/
theorem gain_cons_of_ne {entry : ClassEntry} {item : Record} (differ : item.name ≠ entry.name)
    (records : List Record) : entry.gain (item :: records) = entry.gain records := by
  simp [gain, differ]

/-- A record of its name goes to the end of an entry. -/
theorem gain_cons_of_eq {entry : ClassEntry} {item : Record} (same : item.name = entry.name)
    (records : List Record) : entry.gain (item :: records) = (entry.add item).gain records := by
  unfold gain add
  rw [List.filter_cons_of_pos (by simp [same]), List.append_assoc, List.singleton_append]

end ClassEntry

namespace Environment

variable {environment : Environment}

/-- The names of some records that the environment does not declare, in the order in which they
occur first. -/
def newNames (environment : Environment) (records : List Record) : List TypeName :=
  ((records.map Record.name).filter (· ∉ environment.names)).eraseDups

/-- The environment with more records: in the entries that are there, and in one entry for each new
name after them. -/
def gain (environment : Environment) (records : List Record) : Environment where
  entries := environment.entries.map (·.gain records) ++
    (environment.newNames records).map fun name => ({ name } : ClassEntry).gain records

@[simp]
theorem gain_nil (environment : Environment) : environment.gain [] = environment := by
  simp [gain, ClassEntry.gain, newNames]

theorem names_gain (environment : Environment) (records : List Record) :
    (environment.gain records).names = environment.names ++ environment.newNames records := by
  simp [names, gain, ClassEntry.gain, Function.comp_def]

theorem names_add (environment : Environment) (name : TypeName) (item : Record) :
    (environment.add name item).names =
      if name ∈ environment.names then environment.names else environment.names ++ [name] :=
  names_addTo name item environment.entries

/-- Where names do not repeat, a record of a declared name changes the one entry of that name. -/
theorem map_gain_addTo {entries : List ClassEntry} (nodup : (entries.map (·.name)).Nodup)
    {item : Record} (declared : item.name ∈ entries.map (·.name)) (records : List Record) :
    (addTo item.name item entries).map (·.gain records) =
      entries.map (·.gain (item :: records)) := by
  induction entries with
  | nil => simp at declared
  | cons first entries ih =>
      obtain ⟨missing, nodup⟩ := List.nodup_cons.1 nodup
      rw [addTo]
      split
      · rename_i same
        have others : ∀ entry ∈ entries, entry.gain (item :: records) = entry.gain records := by
          intro entry member
          refine ClassEntry.gain_cons_of_ne (fun equal => missing ?_) records
          exact List.mem_map.2 ⟨entry, member, equal.symm.trans same.symm⟩
        rw [List.map_cons, List.map_cons, ClassEntry.gain_cons_of_eq same.symm,
          List.map_congr_left others]
      · rename_i differ
        rcases List.mem_cons.1 declared with here | there
        · exact absurd here.symm differ
        · rw [List.map_cons, List.map_cons, ih nodup there,
            ClassEntry.gain_cons_of_ne (Ne.symm differ)]

/-- An entry for a name that is declared already does not gain a record of a new one. -/
theorem newNames_eq_of_mem {item : Record} (declared : item.name ∈ environment.names)
    (records : List Record) : environment.newNames (item :: records) =
      (environment.add item.name item).newNames records := by
  simp [newNames, names_add, declared]

theorem newNames_eq_of_not_mem {item : Record} (fresh : item.name ∉ environment.names)
    (records : List Record) : environment.newNames (item :: records) =
      item.name :: (environment.add item.name item).newNames records := by
  simp only [newNames, names_add, fresh, if_false, List.map_cons, List.filter_cons,
    not_false_eq_true, decide_true, if_true, List.eraseDups_cons, List.filter_filter, List.mem_append,
    List.mem_singleton]
  congr 2
  refine List.filter_congr fun name _ => ?_
  by_cases same : name = item.name
  · simp [same]
  · simp [same]

/-- New names are not those of a record filed before. -/
theorem ne_of_mem_newNames {item : Record} {records : List Record} {name : TypeName}
    (member : name ∈ (environment.add item.name item).newNames records) : item.name ≠ name := by
  have undeclared : name ∉ (environment.add item.name item).names := by
    simpa using (List.mem_filter.1 (List.mem_eraseDups.1 member)).2
  rintro rfl
  rw [names_add] at undeclared
  split at undeclared
  · rename_i declared
    exact undeclared declared
  · simp at undeclared

/-- Records may be gained one after the other. -/
theorem gain_cons (orderly : environment.Orderly) (item : Record) (records : List Record) :
    environment.gain (item :: records) = (environment.add item.name item).gain records := by
  have fresh : ∀ name ∈ (environment.add item.name item).newNames records,
      ({ name } : ClassEntry).gain (item :: records) = ({ name } : ClassEntry).gain records :=
    fun name member => ClassEntry.gain_cons_of_ne (ne_of_mem_newNames member) records
  unfold gain
  congr 1
  by_cases declared : item.name ∈ environment.names
  · rw [newNames_eq_of_mem declared, List.map_congr_left fresh, Environment.add,
      map_gain_addTo orderly.nodup declared]
  · have others : ∀ entry ∈ environment.entries,
        entry.gain (item :: records) = entry.gain records := by
      refine fun entry member => ClassEntry.gain_cons_of_ne (fun same => declared ?_) records
      exact List.mem_map.2 ⟨entry, member, same.symm⟩
    rw [newNames_eq_of_not_mem declared, List.map_cons, List.map_congr_left fresh,
      List.map_congr_left others, ClassEntry.gain_cons_of_eq rfl]
    simp [Environment.add, addTo_append_of_not_mem _ _ _ declared, ClassEntry.add]

/-! ## Records that fit -/

/-- The records under a name. -/
def under (environment : Environment) (name : TypeName) : List Record :=
  match environment.get? name with
  | some entry => entry.records
  | none => []

theorem under_add (name other : TypeName) (item : Record) :
    (environment.add name item).under other =
      environment.under other ++ if name = other then [item] else [] := by
  unfold under
  rw [get?_add]
  by_cases same : other = name
  · subst same
    cases environment.get? other <;> simp [ClassEntry.add]
  · simp [same, Ne.symm same]

/-- Under a name there is what was there, and what came after it. -/
theorem under_gain (records : List Record) : ∀ {environment : Environment}, environment.Orderly →
    ∀ name, (environment.gain records).under name =
      environment.under name ++ records.filter (·.name = name) := by
  induction records with
  | nil => simp
  | cons item records ih =>
      intro environment orderly name
      rw [gain_cons orderly, ih (orderly.add item.name item), under_add, List.append_assoc]
      by_cases same : item.name = name
      · simp [same]
      · simp [same]

/-- All declarations of its name, in the environment and among the records before it, are of the
kind of a record. -/
def Fits (environment : Environment) (before : List Record) (item : Record) : Prop :=
  ∀ earlier ∈ environment.under item.name ++ before.filter (·.name = item.name),
    earlier.declaration.isModule = item.declaration.isModule

instance (environment : Environment) (before : List Record) (item : Record) :
    Decidable (environment.Fits before item) :=
  inferInstanceAs (Decidable (∀ earlier ∈ _, _))

/-- Each of some records fits what is before it. -/
def Admits (environment : Environment) (records : List Record) : Prop :=
  ∀ (i : Nat) (inside : i < records.length), environment.Fits (records.take i) records[i]

instance (environment : Environment) (records : List Record) :
    Decidable (environment.Admits records) :=
  inferInstanceAs (Decidable (∀ (i : Nat) (_ : i < records.length), _))

/-- What was filed before counts like what was there. -/
theorem fits_gain_iff (orderly : environment.Orderly) (front before : List Record) (item : Record) :
    (environment.gain front).Fits before item ↔ environment.Fits (front ++ before) item := by
  unfold Fits
  rw [under_gain front orderly, List.filter_append, List.append_assoc]

theorem admits_cons_iff (orderly : environment.Orderly) (item : Record) (records : List Record) :
    environment.Admits (item :: records) ↔
      environment.Fits [] item ∧ (environment.add item.name item).Admits records := by
  have filed : environment.add item.name item = environment.gain [item] := by
    rw [gain_cons orderly, gain_nil]
  have shift (before : List Record) (other : Record) :
      (environment.add item.name item).Fits before other ↔
        environment.Fits (item :: before) other := by
    rw [filed, fits_gain_iff orderly, List.singleton_append]
  constructor
  · intro fits
    refine ⟨fits 0 (Nat.succ_pos _), fun i inside => (shift _ _).2 ?_⟩
    exact fits (i + 1) (Nat.succ_lt_succ inside)
  · rintro ⟨first, others⟩ i inside
    cases i with
    | zero => exact first
    | succ i => exact (shift _ _).1 (others i (Nat.lt_of_succ_lt_succ inside))

theorem admits_concat_iff (records : List Record) (item : Record) :
    environment.Admits (records ++ [item]) ↔
      environment.Admits records ∧ environment.Fits records item := by
  constructor
  · intro fits
    refine ⟨fun i inside => ?_, ?_⟩
    · have each := fits i (by simp; omega)
      rwa [List.take_append_of_le_length inside.le, List.getElem_append_left inside] at each
    · have last := fits records.length (by simp)
      rwa [List.take_left, List.getElem_concat_length rfl] at last
  · rintro ⟨fits, last⟩ i inside
    by_cases early : i < records.length
    · rw [List.take_append_of_le_length early.le, List.getElem_append_left early]
      exact fits i early
    · obtain rfl : i = records.length := by simp at inside; omega
      rwa [List.take_left, List.getElem_concat_length rfl]

/-- Records of which one does not fit have a first such. -/
theorem exists_first_misfit {records : List Record} (refused : ¬ environment.Admits records) :
    ∃ before item after, records = before ++ item :: after ∧ environment.Admits before ∧
      ¬ environment.Fits before item := by
  -- from the end, because it is the records before one that decide whether it fits
  induction records using List.reverseRecOn with
  | nil => exact absurd (fun i inside => absurd inside (Nat.not_lt_zero i)) refused
  | append_singleton records last ih =>
      by_cases admits : environment.Admits records
      · refine ⟨records, last, [], rfl, admits, fun fits => refused ?_⟩
        exact (admits_concat_iff records last).2 ⟨admits, fits⟩
      · obtain ⟨before, item, after, rfl, admits, misfit⟩ := ih admits
        exact ⟨before, item, after ++ [last], by simp, admits, misfit⟩

/-! ## Runs -/

/-- A record that fits does not clash. -/
theorem clash?_eq_none_iff_fits (wellFormed : environment.WellFormed) (item : Record) :
    environment.clash? item.name item.declaration = none ↔ environment.Fits [] item := by
  rw [clash?_eq_none_iff wellFormed.toOrderly]
  unfold Fits under
  rw [List.filter_nil, List.append_nil]
  cases found : environment.get? item.name with
  | none => simp
  | some entry =>
      have member := ((wellFormed.get?_eq_some_iff item.name entry).1 found).1
      constructor
      · intro same earlier inside
        rw [wellFormed.uniform entry member earlier inside, same entry rfl]
      · rintro same _ ⟨⟩
        obtain ⟨first, others, records_eq⟩ :=
          List.exists_cons_of_ne_nil (wellFormed.nonempty entry member)
        have inside : first ∈ entry.records := records_eq ▸ List.mem_cons_self
        rw [← same first inside, wellFormed.uniform entry member first inside]

/-- A record that does not fit clashes with the first declaration of its name. -/
theorem exists_clash (wellFormed : environment.WellFormed) {item : Record}
    (misfit : ¬ environment.Fits [] item) :
    ∃ entry first, environment.get? item.name = some entry ∧ entry.records.head? = some first ∧
      environment.clash? item.name item.declaration =
        some (.duplicatedDeclaration item.name first.declaration.kindName
          item.declaration.kindName first.declaration.location item.declaration.location) := by
  rw [← clash?_eq_none_iff_fits wellFormed] at misfit
  unfold clash? first? at misfit ⊢
  cases found : environment.get? item.name with
  | none => simp [found] at misfit
  | some entry =>
      have member := ((wellFormed.get?_eq_some_iff item.name entry).1 found).1
      obtain ⟨first, others, records_eq⟩ :=
        List.exists_cons_of_ne_nil (wellFormed.nonempty entry member)
      refine ⟨entry, first, rfl, by rw [records_eq]; rfl, ?_⟩
      simp only [found, Option.bind_some, records_eq, List.head?_cons, Option.map_some] at misfit ⊢
      split at misfit
      · exact absurd rfl misfit
      · rename_i differ
        exact if_neg differ

/-- Records that fit are filed. -/
theorem run_recordAll (records : List Record) : ∀ {environment : Environment},
    environment.WellFormed → environment.Admits records →
    (recordAll records).run.run environment = (.ok (), environment.gain records) ∧
      (environment.gain records).WellFormed := by
  -- The environment moves along: a record that is filed counts for those after it.
  induction records with
  | nil =>
      intro environment wellFormed _
      rw [gain_nil]
      exact ⟨rfl, wellFormed⟩
  | cons item records ih =>
      intro environment wellFormed admits
      obtain ⟨fits, admits⟩ := (admits_cons_iff wellFormed.toOrderly item records).1 admits
      have clear := (clash?_eq_none_iff_fits wellFormed item).2 fits
      rw [recordAll_cons, run_bind, run_record, clear, gain_cons wellFormed.toOrderly]
      exact ih (wellFormed.add item clear) admits

/-- A record that does not fit ends the run, after those before it were filed. -/
theorem run_recordAll_of_misfit (wellFormed : environment.WellFormed) {before : List Record}
    {item : Record} (admits : environment.Admits before) (misfit : ¬ environment.Fits before item)
    (after : List Record) :
    ∃ entry first, (environment.gain before).get? item.name = some entry ∧
      entry.records.head? = some first ∧
      (recordAll (before ++ item :: after)).run.run environment =
        (.error (.duplicatedDeclaration item.name first.declaration.kindName
          item.declaration.kindName first.declaration.location item.declaration.location),
          environment.gain before) := by
  obtain ⟨ran, filed⟩ := run_recordAll before wellFormed admits
  have alone : ¬ (environment.gain before).Fits [] item := by
    rwa [fits_gain_iff wellFormed.toOrderly, List.append_nil]
  obtain ⟨entry, first, found, head, clash⟩ := exists_clash filed alone
  refine ⟨entry, first, found, head, ?_⟩
  rw [recordAll_append, run_bind, ran]
  dsimp only
  rw [recordAll_cons, run_bind, run_record, clash]

/-- An insertion files the declaration and what is nested in it, in preorder, if each record is of
the kind of all earlier ones of its name. Otherwise it fails at the first that is not, with those
before it filed. -/
theorem insert_run (reachable : Reachable environment) (context : Context)
    (declaration : Declaration) :
    (environment.Admits (declaration.preorder context) →
      (insert context declaration).run.run environment =
        (.ok (), environment.gain (declaration.preorder context))) ∧
    (¬ environment.Admits (declaration.preorder context) →
      ∃ before item after, declaration.preorder context = before ++ item :: after ∧
        environment.Admits before ∧ ¬ environment.Fits before item ∧
        ∃ entry first, (environment.gain before).get? item.name = some entry ∧
          entry.records.head? = some first ∧
          (insert context declaration).run.run environment =
            (.error (.duplicatedDeclaration item.name first.declaration.kindName
              item.declaration.kindName first.declaration.location item.declaration.location),
              environment.gain before)) := by
  have wellFormed := reachable.wellFormed
  rw [insert_eq_recordAll]
  refine ⟨fun admits => (run_recordAll _ wellFormed admits).1, fun refused => ?_⟩
  obtain ⟨before, item, after, preorder_eq, admits, misfit⟩ := exists_first_misfit refused
  refine ⟨before, item, after, preorder_eq, admits, misfit, ?_⟩
  rw [preorder_eq]
  exact run_recordAll_of_misfit wellFormed admits misfit after

/-- A class that opens one of the classes of `reopened` again and takes a module with it, which it
then opens as a class. -/
def colliding : Declaration :=
  .bare false "X" [.bare false "A" [], .bare true "B" [], .bare false "::X::B" [],
    .bare false "D" []]

/-- The insertion stops inside the declaration, at a record that clashes with one of its own. -/
theorem insert_run_colliding :
    Reachable reopened ∧ ¬ reopened.Admits (colliding.preorder .top) ∧
      ∃ before item after error, colliding.preorder .top = before ++ item :: after ∧
        before.length = 3 ∧
        (insert .top colliding).run.run reopened = (.error error, reopened.gain before) := by
  have reachable : Reachable reopened := .insert _ _ (.insert _ _ .empty)
  have refused : ¬ reopened.Admits (colliding.preorder .top) := by decide +kernel
  -- only the fourth of the five records turns a list that is admitted into one that is not
  have first_misfit : ∀ i < 5, reopened.Admits ((colliding.preorder .top).take i) →
      ¬ reopened.Admits ((colliding.preorder .top).take (i + 1)) → i = 3 := by decide +kernel
  have length_eq : (colliding.preorder .top).length = 5 := by decide +kernel
  obtain ⟨before, item, after, preorder_eq, admits, misfit, _, _, -, -, ran⟩ :=
    (insert_run reachable .top colliding).2 refused
  have before_eq : (colliding.preorder .top).take before.length = before := by simp [preorder_eq]
  have next_eq : (colliding.preorder .top).take (before.length + 1) = before ++ [item] := by
    rw [preorder_eq, ← List.singleton_append, ← List.append_assoc]
    exact List.take_left' (by simp)
  have inside : before.length < 5 := by
    rw [← length_eq, preorder_eq]
    simp
  refine ⟨reachable, refused, before, item, after, _, preorder_eq, ?_, ran⟩
  refine first_misfit before.length inside (before_eq.symm ▸ admits) ?_
  rw [next_eq, admits_concat_iff]
  exact fun both => misfit both.2

/-! ## The order of insertions -/

/-- Into the empty environment records of one name must be of one kind, in whatever order they
come. -/
theorem admits_empty_iff (records : List Record) :
    Admits {} records ↔ records.Pairwise fun earlier later =>
      earlier.name = later.name → earlier.declaration.isModule = later.declaration.isModule := by
  induction records using List.reverseRecOn with
  | nil => simp [Admits]
  | append_singleton records last ih =>
      rw [admits_concat_iff, ih, List.pairwise_append]
      simp [Fits, under, get?]

theorem mem_names_gain_empty (records : List Record) (name : TypeName) :
    name ∈ (gain {} records).names ↔ ∃ item ∈ records, item.name = name := by
  rw [names_gain]
  simp [newNames, List.mem_eraseDups, names]

/-- Declarations can all be inserted into the empty environment if their records fit together; they
are what is filed then. -/
theorem insertRecords_eq_ok_iff (records : List Record) (filled : Environment) :
    (insertRecords records).run.run {} = (.ok (), filled) ↔
      Admits {} (records.flatMap fun item => item.declaration.preorder item.context) ∧
        filled = gain {} (records.flatMap fun item => item.declaration.preorder item.context) := by
  have wellFormed := Reachable.empty.wellFormed
  rw [insertRecords_eq_recordAll]
  generalize records.flatMap (fun item => item.declaration.preorder item.context) = flat
  by_cases admits : Admits {} flat
  · rw [(run_recordAll flat wellFormed admits).1, Prod.mk.injEq]
    simp only [admits, true_and]
    exact eq_comm
  · obtain ⟨before, item, after, rfl, fits, misfit⟩ := exists_first_misfit admits
    obtain ⟨_, _, -, -, ran⟩ := run_recordAll_of_misfit wellFormed fits misfit after
    rw [ran, Prod.mk.injEq]
    simp [admits]

/-- In which order declarations are inserted into the empty environment does not decide whether all
can be, nor what names are declared then and what is filed under each. -/
theorem insertRecords_perm {records others : List Record} (perm : records.Perm others) :
    ((∃ filled, (insertRecords records).run.run {} = (.ok (), filled)) ↔
      ∃ refilled, (insertRecords others).run.run {} = (.ok (), refilled)) ∧
    ∀ filled refilled, (insertRecords records).run.run {} = (.ok (), filled) →
      (insertRecords others).run.run {} = (.ok (), refilled) →
        filled.names.Perm refilled.names ∧
        ∀ name, (filled.under name).Perm (refilled.under name) := by
  have flat := perm.flatMap_right fun item => item.declaration.preorder item.context
  simp only [insertRecords_eq_ok_iff]
  constructor
  · have fit := flat.pairwise_iff (R := fun earlier later => earlier.name = later.name →
      earlier.declaration.isModule = later.declaration.isModule)
      fun same named => (same named.symm).symm
    rw [← admits_empty_iff, ← admits_empty_iff] at fit
    simp [fit]
  · rintro _ _ ⟨admits, rfl⟩ ⟨others_fit, rfl⟩
    have empty := Reachable.empty.wellFormed
    have filed := (run_recordAll _ empty admits).2
    have refiled := (run_recordAll _ empty others_fit).2
    refine ⟨(List.perm_ext_iff_of_nodup filed.nodup refiled.nodup).2 fun name => ?_, fun name => ?_⟩
    · simp only [mem_names_gain_empty, flat.mem_iff]
    · rw [under_gain _ empty.toOrderly, under_gain _ empty.toOrderly]
      exact (flat.filter _).append_left _

/-- Two files that open the same class and the same module, from different places. -/
def openings : List Record :=
  [⟨.top, .bare false "A" [.bare false "B" [.bare true "::M" []]]⟩,
    ⟨Context.top.enter (.ofString "A"), .bare false "B" [.bare true "::M" [], .bare false "C" []]⟩]

theorem insertRecords_perm_openings :
    openings.Perm openings.reverse ∧
      ∃ filled refilled, (insertRecords openings).run.run {} = (.ok (), filled) ∧
        (insertRecords openings.reverse).run.run {} = (.ok (), refilled) ∧
        filled.names ≠ refilled.names ∧ filled.names.Perm refilled.names ∧
        ∀ name, (filled.under name).Perm (refilled.under name) := by
  have perm : openings.Perm openings.reverse := openings.reverse_perm.symm
  obtain ⟨both, agree⟩ := insertRecords_perm perm
  have ran := (insertRecords_eq_ok_iff openings _).2 ⟨by decide +kernel, rfl⟩
  obtain ⟨refilled, reran⟩ := both.1 ⟨_, ran⟩
  obtain ⟨names_perm, under_perm⟩ := agree _ refilled ran reran
  refine ⟨perm, _, refilled, ran, reran, ?_, names_perm, under_perm⟩
  obtain rfl := ((insertRecords_eq_ok_iff _ _).1 reran).2
  decide +kernel

end Environment

end Signet

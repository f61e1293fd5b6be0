import Mathlib.Data.List.Nodup
import Signet.Environment.Basic

/-!
# What insertions keep

An environment is reachable if it was filled by inserting declarations one after the other, where
an insertion that failed counts with what it had recorded before. Inserting a declaration records it
and what is nested in it, one at a time and in preorder (`insert_eq_recordAll`), so a property that
one record keeps holds of every reachable environment (`Reachable.induction`).
-/

namespace Signet

/-- Where keys do not repeat, looking up a key finds the pair that has it. -/
theorem lookup_eq_some_iff_mem {α β : Type} [BEq α] [LawfulBEq α] {pairs : List (α × β)}
    (nodup : (pairs.map Prod.fst).Nodup) (key : α) (value : β) :
    pairs.lookup key = some value ↔ (key, value) ∈ pairs := by
  induction pairs with
  | nil => simp
  | cons pair pairs ih =>
      obtain ⟨other, found⟩ := pair
      obtain ⟨missing, nodup⟩ := List.nodup_cons.1 nodup
      by_cases same : key = other
      · subst same
        have : (key, value) ∉ pairs := fun member => missing (List.mem_map.2 ⟨_, member, rfl⟩)
        simp [this, eq_comm]
      · have : (key == other) = false := by simpa using same
        simp [List.lookup_cons, this, ih nodup, same]

namespace Environment

/-- The environment after an update, whether or not the update failed. -/
def after (update : Update Unit) (environment : Environment) : Environment :=
  (update.run.run environment).2

/-- Filled by insertions, in any contexts and in any order. -/
inductive Reachable : Environment → Prop
  | empty : Reachable {}
  | insert {environment : Environment} (context : Context) (declaration : Declaration) :
      Reachable environment → Reachable (after (insert context declaration) environment)

/-- One update after another: the second has no effect if the first failed. -/
theorem run_bind {α β : Type} (first : ExceptT EnvironmentError (StateM Environment) α)
    (second : α → ExceptT EnvironmentError (StateM Environment) β) (environment : Environment) :
    (first >>= second).run.run environment =
      match first.run.run environment with
      | (.error error, next) => (.error error, next)
      | (.ok value, next) => (second value).run.run next := by
  simp only [bind, ExceptT.bind, ExceptT.mk, ExceptT.run, StateT.run, StateT.bind]
  rcases first environment with ⟨_ | _, next⟩ <;> rfl

/-- Two updates that succeed: the first does, and the second does from there. -/
theorem run_bind_eq_ok {first : Update Unit} {second : Unit → Update Unit}
    {environment next : Environment}
    (ran : (first >>= second).run.run environment = (.ok (), next)) :
    ∃ between, first.run.run environment = (.ok (), between) ∧
      (second ()).run.run between = (.ok (), next) := by
  rw [run_bind] at ran
  generalize first.run.run environment = outcome at ran ⊢
  obtain ⟨result, between⟩ := outcome
  cases result with
  | error error => exact nomatch (Prod.mk.inj ran).1
  | ok value => exact ⟨between, rfl, ran⟩

/-- Recording a declaration adds one record, or fails and changes nothing. -/
theorem run_record (name : TypeName) (context : Context) (declaration : Declaration)
    (environment : Environment) :
    (record name context declaration).run.run environment =
      match environment.clash? name declaration with
      | some error => (.error error, environment)
      | none => (.ok (), environment.add name ⟨context, declaration⟩) := by
  have read :
      (get : ExceptT EnvironmentError (StateM Environment) Environment).run.run environment =
        (.ok environment, environment) := rfl
  unfold record
  simp only [run_bind, read]
  cases environment.clash? name declaration <;> rfl

theorem after_bind (first : Update Unit) (second : Unit → Update Unit) (environment : Environment) :
    after (first >>= second) environment = after first environment ∨
      after (first >>= second) environment = after (second ()) (after first environment) := by
  unfold after
  rw [run_bind]
  rcases first.run.run environment with ⟨_ | _, next⟩
  · exact .inl rfl
  · exact .inr rfl

/-! ## Records in preorder -/

end Environment

/-- The absolute name under which a record is kept. -/
def Record.name (record : Record) : TypeName := record.context.qualify record.declaration.name

mutual

/-- The record of a declaration, and after it those of the declarations nested in it, which stand in
the context inside it. -/
def Declaration.preorder (context : Context) : Declaration → List Record
  | ⟨heading, members⟩ =>
    ⟨context, ⟨heading, members⟩⟩ ::
      Declaration.preorderAmong (context.enter (context.qualify heading.name)) members

/-- The records of the declarations among some members. -/
def Declaration.preorderAmong (context : Context) : List Member → List Record
  | [] => []
  | .nested declaration :: members =>
    declaration.preorder context ++ Declaration.preorderAmong context members
  | _ :: members => Declaration.preorderAmong context members

end

namespace Environment

/-- Records single declarations, each under its own name, until one clashes. -/
def recordAll (records : List Record) : Update Unit :=
  records.forM fun item => record item.name item.context item.declaration

theorem recordAll_cons (item : Record) (records : List Record) :
    recordAll (item :: records) =
      record item.name item.context item.declaration >>= fun _ => recordAll records := rfl

theorem recordAll_append (front back : List Record) :
    recordAll (front ++ back) = recordAll front >>= fun _ => recordAll back :=
  List.forM_append

-- Insertion goes through a declaration and its members in turn, and so do the two statements.
mutual

/-- A declaration is inserted by recording it and what is nested in it, in preorder. -/
theorem insert_eq_recordAll (context : Context) : ∀ declaration : Declaration,
    insert context declaration = recordAll (declaration.preorder context)
  | ⟨heading, members⟩ => by
      rw [insert, Declaration.preorder, recordAll_cons]
      exact congrArg _ (funext fun _ => insertNested_eq_recordAll _ members)

theorem insertNested_eq_recordAll (context : Context) : ∀ members : List Member,
    insertNested context members = recordAll (Declaration.preorderAmong context members)
  | [] => rfl
  | .nested declaration :: members => by
      rw [insertNested, Declaration.preorderAmong, recordAll_append,
        insert_eq_recordAll context declaration, insertNested_eq_recordAll context members]
  | .method _ :: members => insertNested_eq_recordAll context members
  | .mixin _ :: members => insertNested_eq_recordAll context members
  | .attr _ :: members => insertNested_eq_recordAll context members

end

/-- Several declarations are inserted by recording them in preorder, one after the other. -/
theorem insertRecords_eq_recordAll (records : List Record) :
    insertRecords records =
      recordAll (records.flatMap fun item => item.declaration.preorder item.context) := by
  induction records with
  | nil => rfl
  | cons item records ih =>
      rw [List.flatMap_cons, recordAll_append, ← insert_eq_recordAll, ← ih]
      rfl

/-- A property that one more record keeps, where it does not clash, is kept by recording. -/
theorem after_recordAll {kept : Environment → Prop}
    (step : ∀ environment item, environment.clash? item.name item.declaration = none →
      kept environment → kept (environment.add item.name item))
    (records : List Record) : ∀ {environment : Environment}, kept environment →
      kept (after (recordAll records) environment) := by
  induction records with
  | nil => exact id
  | cons item records ih =>
      intro environment holds
      have recorded : kept (after (record item.name item.context item.declaration)
          environment) := by
        unfold after
        rw [run_record]
        cases clash : environment.clash? item.name item.declaration with
        | none => exact step environment item clash holds
        | some error => exact holds
      rw [recordAll_cons]
      rcases after_bind (record _ item.context item.declaration) _ environment with h | h
      · rw [h]
        exact recorded
      · rw [h]
        exact ih recorded

/-- A property of the empty environment that one more record keeps holds of reachable
environments. -/
theorem Reachable.induction {environment : Environment} {kept : Environment → Prop}
    (reachable : Reachable environment) (empty : kept {})
    (step : ∀ environment item, environment.clash? item.name item.declaration = none →
      kept environment → kept (environment.add item.name item)) : kept environment := by
  induction reachable with
  | empty => exact empty
  | insert context declaration _ ih =>
      rw [insert_eq_recordAll]
      exact after_recordAll step _ ih

/-! ## Entries -/

/-- Each name has one entry, and no entry is empty. -/
structure Orderly (environment : Environment) : Prop where
  nodup : environment.names.Nodup
  nonempty : ∀ entry ∈ environment.entries, entry.records ≠ []

theorem names_addTo (name : TypeName) (record : Record) (entries : List ClassEntry) :
    (addTo name record entries).map (·.name) =
      if name ∈ entries.map (·.name) then entries.map (·.name)
      else entries.map (·.name) ++ [name] := by
  induction entries with
  | nil => simp [addTo]
  | cons entry entries ih =>
      by_cases h : entry.name = name
      · simp [addTo, h, ClassEntry.add]
      · have : ¬ name = entry.name := fun equal => h equal.symm
        by_cases member : name ∈ entries.map (·.name) <;>
          simp_all [addTo]

/-- An entry that has a record more was there before, or has only that record. -/
theorem mem_addTo {name : TypeName} {record : Record} {entries : List ClassEntry}
    {entry : ClassEntry} (member : entry ∈ addTo name record entries) :
    entry ∈ entries ∨ ∃ old : ClassEntry, entry = old.add record ∧ old.name = name ∧
      (old ∈ entries ∨ old.records = []) := by
  induction entries with
  | nil => exact .inr ⟨{ name }, List.mem_singleton.1 member, rfl, .inr rfl⟩
  | cons first entries ih =>
      rw [addTo] at member
      split at member
      · rename_i named
        rcases List.mem_cons.1 member with rfl | member
        · exact .inr ⟨first, rfl, named, .inl List.mem_cons_self⟩
        · exact .inl (List.mem_cons_of_mem _ member)
      · rcases List.mem_cons.1 member with rfl | member
        · exact .inl List.mem_cons_self
        · rcases ih member with old | ⟨old, grown, named, here | fresh⟩
          · exact .inl (List.mem_cons_of_mem _ old)
          · exact .inr ⟨old, grown, named, .inl (List.mem_cons_of_mem _ here)⟩
          · exact .inr ⟨old, grown, named, .inr fresh⟩

theorem records_add_ne_nil (entry : ClassEntry) (record : Record) :
    (entry.add record).records ≠ [] := by
  simp [ClassEntry.add]

/-- One more record keeps an environment orderly. -/
theorem Orderly.add {environment : Environment} (orderly : environment.Orderly) (name : TypeName)
    (record : Record) : (environment.add name record).Orderly := by
  refine ⟨?_, fun entry member => ?_⟩
  · have nodup := orderly.nodup
    unfold names at nodup ⊢
    rw [Environment.add, names_addTo]
    split
    · exact nodup
    · rename_i fresh
      exact List.nodup_append.2 ⟨nodup, by simp, by
        intro other member _ single
        rw [List.mem_singleton.1 single]
        rintro rfl
        exact fresh member⟩
  · rcases mem_addTo member with old | ⟨old, rfl, -⟩
    · exact orderly.nonempty entry old
    · exact records_add_ne_nil old record

/-- Reachable environments are orderly. -/
theorem Reachable.orderly {environment : Environment} (reachable : Reachable environment) :
    environment.Orderly :=
  reachable.induction ⟨List.nodup_nil, by simp⟩ fun _ item _ orderly => orderly.add item.name item

/-- In an orderly environment the entry of a name is the one that bears it. -/
theorem Orderly.get?_eq_some_iff {environment : Environment} (orderly : environment.Orderly)
    (name : TypeName) (entry : ClassEntry) :
    environment.get? name = some entry ↔ entry ∈ environment.entries ∧ entry.name = name := by
  constructor
  · intro found
    exact ⟨List.mem_of_find?_eq_some found, by simpa using List.find?_some found⟩
  · rintro ⟨member, rfl⟩
    cases found : environment.get? entry.name with
    | none =>
        have := List.find?_eq_none.1 found entry member
        simp at this
    | some other =>
        have same : other.name = entry.name := by simpa using List.find?_some found
        rw [List.inj_on_of_nodup_map orderly.nodup (List.mem_of_find?_eq_some found) member same]

end Environment

end Signet

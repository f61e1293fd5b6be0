import Signet.Proofs.Environment.Hierarchy

/-!
# What the entries of an environment hold

Whatever is inserted, in whatever context and whether or not it succeeds, an environment stays well
formed: its names are absolute, no entry is empty, and what an entry holds was declared under its
name and is of one kind (`Reachable.wellFormed`). A declaration that clashes leaves no empty entry
behind, so nothing that is asked of an environment ever comes upon one.
-/

namespace Signet

/-- A class or a module of which nothing is known but its name and what is nested in it. -/
def Declaration.bare (isModule : Bool) (name : String) (nested : List Declaration) : Declaration :=
  let source : Buffer := .ofString "" ""
  .mk
    { name := .ofString name
      form := if isModule then .ofModule [] { buffer := source, range := ⟨0, 0⟩ }
        else .ofClass none { buffer := source, range := ⟨0, 0⟩ } }
    (nested.map .nested)

namespace ClassEntry

/-- The first declaration of an entry decides of which kind it is. -/
theorem isModule_add {entry : ClassEntry} (nonempty : entry.records ≠ []) (item : Record) :
    (entry.add item).isModule = entry.isModule := by
  unfold isModule add
  obtain ⟨first, others, records_eq⟩ := List.exists_cons_of_ne_nil nonempty
  simp [records_eq]

/-- An entry that is not empty may be refused, but not for being empty. -/
theorem validate_ne_emptyEntry {entry : ClassEntry} (nonempty : entry.records ≠ [])
    (name : TypeName) : entry.validate ≠ .error (.emptyEntry name) := by
  unfold validate
  obtain ⟨first, others, records_eq⟩ := List.exists_cons_of_ne_nil nonempty
  rw [records_eq]
  dsimp only
  split
  · simp
  · simp

end ClassEntry

/-- A loop over checks fails where one of the checks does. -/
theorem exists_error_of_forM {ε α : Type} {check : α → Except ε Unit} {items : List α} {error : ε}
    (failed : items.forM check = .error error) : ∃ item ∈ items, check item = .error error := by
  induction items with
  | nil => cases failed
  | cons item items ih =>
      rw [show (item :: items).forM check = (check item >>= fun _ => items.forM check) from rfl]
        at failed
      cases first : check item with
      | error other =>
          rw [first] at failed
          obtain rfl : other = error := Except.error.inj failed
          exact ⟨item, List.mem_cons_self, first⟩
      | ok value =>
          rw [first] at failed
          obtain ⟨other, member, found⟩ := ih failed
          exact ⟨other, List.mem_cons_of_mem _ member, found⟩

namespace Environment

variable {environment : Environment}

/-- A declaration does not clash exactly if the entry of the name, if there is one, is of its
kind. -/
theorem clash?_eq_none_iff (orderly : environment.Orderly) (name : TypeName)
    (declaration : Declaration) : environment.clash? name declaration = none ↔
      ∀ entry, environment.get? name = some entry → declaration.isModule = entry.isModule := by
  unfold clash? first?
  cases found : environment.get? name with
  | none => simp
  | some entry =>
      have member := ((orderly.get?_eq_some_iff name entry).1 found).1
      obtain ⟨first, others, records_eq⟩ :=
        List.exists_cons_of_ne_nil (orderly.nonempty entry member)
      have kind : entry.isModule = first.declaration.isModule := by
        simp [ClassEntry.isModule, records_eq]
      simp only [Option.bind_some, records_eq, List.head?_cons, Option.map_some]
      rw [← kind]
      split
      · rename_i same
        simp [same]
      · rename_i differ
        simp [Ne.symm differ]

/-- Names are absolute, and an entry holds declarations of its name that are all of one kind. -/
structure WellFormed (environment : Environment) : Prop extends environment.Orderly where
  absolute : ∀ name ∈ environment.names, name.isAbsolute = true
  filed : ∀ entry ∈ environment.entries, ∀ item ∈ entry.records,
    item.context.qualify item.declaration.name = entry.name
  uniform : ∀ entry ∈ environment.entries, ∀ item ∈ entry.records,
    item.declaration.isModule = entry.isModule

/-- Recording a declaration under its own name, where it does not clash, keeps an environment well
formed. -/
theorem WellFormed.add (wellFormed : environment.WellFormed) (item : Record)
    (clear : environment.clash? item.name item.declaration = none) :
    (environment.add item.name item).WellFormed where
  toOrderly := wellFormed.toOrderly.add item.name item
  absolute := by
    intro name member
    rw [names, Environment.add, names_addTo] at member
    split at member
    · exact wellFormed.absolute name member
    · rcases List.mem_append.1 member with member | member
      · exact wellFormed.absolute name member
      · rw [List.mem_singleton.1 member]
        exact item.context.isAbsolute_qualify item.declaration.name
  filed := by
    intro entry member other inside
    rcases mem_addTo member with here | ⟨old, rfl, named, here⟩
    · exact wellFormed.filed entry here other inside
    · rcases List.mem_append.1 inside with inside | inside
      · rcases here with here | fresh
        · exact wellFormed.filed old here other inside
        · simp [fresh] at inside
      · rw [List.mem_singleton.1 inside]
        exact named.symm
  uniform := by
    intro entry member other inside
    rcases mem_addTo member with here | ⟨old, rfl, named, here | fresh⟩
    · exact wellFormed.uniform entry here other inside
    · rw [ClassEntry.isModule_add (wellFormed.nonempty old here)]
      rcases List.mem_append.1 inside with inside | inside
      · exact wellFormed.uniform old here other inside
      · -- the new declaration was compared with the first of the entry
        rw [List.mem_singleton.1 inside]
        have found := (wellFormed.get?_eq_some_iff item.name old).2 ⟨here, named⟩
        exact (clash?_eq_none_iff wellFormed.toOrderly _ _).1 clear old found
    · obtain rfl : other = item := by simpa [ClassEntry.add, fresh] using inside
      simp [ClassEntry.isModule, ClassEntry.add, fresh]

/-- Reachable environments are well formed. -/
theorem Reachable.wellFormed (reachable : Reachable environment) : environment.WellFormed := by
  refine reachable.induction ⟨⟨List.nodup_nil, by simp⟩, by simp [names], by simp, by simp⟩ ?_
  exact fun _ item clear wellFormed => wellFormed.add item clear

/-- The declarations of an orderly environment are never refused for an entry without any. -/
theorem Orderly.validate_ne_emptyEntry (orderly : environment.Orderly) (name : TypeName) :
    environment.validate ≠ .error (.emptyEntry name) := by
  intro failed
  unfold validate at failed
  cases checked : environment.entries.forM ClassEntry.validate with
  | error error =>
      rw [checked] at failed
      obtain rfl := Except.error.inj failed
      obtain ⟨entry, member, refused⟩ := exists_error_of_forM checked
      exact ClassEntry.validate_ne_emptyEntry (orderly.nonempty entry member) name refused
  | ok value =>
      rw [checked] at failed
      replace failed : environment.checkInheritance = .error (.emptyEntry name) := failed
      obtain ⟨classes, made, built⟩ := SuperclassGraph.built_ofEnvironment orderly
      rw [checkInheritance, made] at failed
      replace failed : classes.checkAcyclic environment = .error (.emptyEntry name) := failed
      rcases checkAcyclic_cases orderly built with ⟨passed, -⟩ | ⟨_, _, _, reported, -⟩
      · cases passed.symm.trans failed
      · cases reported.symm.trans failed

/-- Every environment that insertions lead to, failed ones included, is well formed. So every
entry has a declaration that speaks for it, superclasses can be looked up, the graph of superclasses
can be built, and no check finds an entry empty. -/
theorem entries_wellFormed (reachable : Reachable environment) :
    environment.WellFormed ∧
      (∀ name entry, environment.get? name = some entry →
        entry.name = name ∧ ∃ item, entry.primary = .ok item) ∧
      (∀ name, ∃ superclass, environment.superclassOf name = .ok superclass) ∧
      (∃ classes, SuperclassGraph.ofEnvironment environment = .ok classes) ∧
      ∀ name, environment.validate ≠ .error (.emptyEntry name) := by
  have orderly := reachable.orderly
  refine ⟨reachable.wellFormed, ?_, orderly.exists_superclassOf, ?_, orderly.validate_ne_emptyEntry⟩
  · intro name entry found
    obtain ⟨member, named⟩ := (orderly.get?_eq_some_iff name entry).1 found
    exact ⟨named, ClassEntry.exists_primary (orderly.nonempty entry member)⟩
  · obtain ⟨classes, made, -⟩ := SuperclassGraph.built_ofEnvironment orderly
    exact ⟨classes, made⟩

/-- First a class below a module whose name cannot be told, with a module of the top level in it;
then a class in which that module is opened as a class, where the insertion stops. -/
def reopened : Environment :=
  after (insert .top (.bare false "C" [.bare false "::M" [], .bare false "D" []]))
    (after (insert ((Context.top.enter (.ofString "X")).enterUnknown)
      (.bare false "A" [.bare true "::M" []])) {})

/-- An insertion that stopped on the way leaves a well-formed environment. -/
theorem entries_wellFormed_reopened :
    Reachable reopened ∧ reopened.WellFormed ∧
      reopened.names.map (String.ofList ·.print) = ["::X::A", "::M", "::C"] ∧
      ∀ name, reopened.validate ≠ .error (.emptyEntry name) := by
  have reachable : Reachable reopened := .insert _ _ (.insert _ _ .empty)
  obtain ⟨wellFormed, -, -, -, validated⟩ := entries_wellFormed reachable
  exact ⟨reachable, wellFormed, by decide +kernel, validated⟩

end Environment

end Signet

import Signet.Proofs.Environment.Entries

/-!
# Which superclass a name has

The primary declaration of a name is the first that writes a superclass, or the first of all if
none does (`ClassEntry.primary_eq_ok`). What it writes is looked up from where it stands. A relative
name is looked up among the declared names, so it refers to one of them or to none. An absolute name
is taken as it is, whether or not it is declared: this is the only way in which an undeclared name
becomes a superclass (`Environment.superclassOf_declared_iff`).
-/

namespace Signet

namespace ClassEntry

variable {entry : ClassEntry} {item : Record}

/-- The declaration that speaks for an entry is the first that writes a superclass; if none writes
one, it is the first of all. -/
theorem primary_eq_ok (primary : entry.primary = .ok item) :
    (item.declaration.superclass.isSome ∧ ∃ before after, entry.records = before ++ item :: after ∧
        ∀ other ∈ before, other.declaration.superclass = none) ∨
      (entry.records.head? = some item ∧
        ∀ other ∈ entry.records, other.declaration.superclass = none) := by
  have spoken : entry.primary? = some item := by
    unfold ClassEntry.primary at primary
    cases chosen : entry.primary? with
    | none => simp [chosen] at primary
    | some first => simpa [chosen] using primary
  rw [primary?, Option.or_eq_some_iff] at spoken
  rcases spoken with writing | ⟨silent, first⟩
  · obtain ⟨writes, before, after, split, passed⟩ := List.find?_eq_some_iff_append.1 writing
    exact .inl ⟨writes, before, after, split, by simpa using passed⟩
  · exact .inr ⟨first, by simpa using silent⟩

/-- The declaration that speaks for an entry is one of its declarations. -/
theorem mem_of_primary (primary : entry.primary = .ok item) : item ∈ entry.records := by
  rcases primary_eq_ok primary with ⟨-, before, after, split, -⟩ | ⟨first, -⟩
  · simp [split]
  · exact List.mem_of_mem_head? first

end ClassEntry

/-- Modules are declared without a superclass. -/
theorem Declaration.superclass_of_isModule {declaration : Declaration}
    (isModule : declaration.isModule = true) : declaration.superclass = none := by
  unfold Declaration.isModule Heading.isModule at isModule
  unfold Declaration.superclass Heading.superclass
  cases form : declaration.heading.form <;> simp_all

namespace Environment

variable {environment : Environment} {context : Context} {name written : TypeName}

theorem contains_eq_true_iff (environment : Environment) (name : TypeName) :
    environment.contains name = true ↔ name ∈ environment.names := by
  unfold contains get? names
  simp [List.find?_isSome]

/-- What a relative name is found to refer to in a context: it is declared, and none of the names
that are looked up before it is. -/
def Finds (environment : Environment) (context : Context) (written found : TypeName) : Prop :=
  ∃ before after, context.candidates written = before ++ found :: after ∧
    found ∈ environment.names ∧ ∀ other ∈ before, other ∉ environment.names

/-- The primary declaration of a name writes a superclass, in some context. -/
def Writes (environment : Environment) (name : TypeName) (context : Context)
    (superclass : TypeName) : Prop :=
  ∃ entry item reference, environment.get? name = some entry ∧ entry.primary = .ok item ∧
    item.context = context ∧ item.declaration.superclass = some reference ∧
      reference.name = superclass

/-- An absolute name refers to itself. -/
theorem resolve_absolute (environment : Environment) (context : Context)
    (absolute : written.isAbsolute = true) :
    environment.resolve context written = some written := by
  simp [resolve, Context.resolve, absolute]

/-- A relative name refers to what is found for it. -/
theorem resolve_relative_eq_some_iff (environment : Environment) (context : Context)
    (relative : written.isAbsolute = false) (found : TypeName) :
    environment.resolve context written = some found ↔ environment.Finds context written found := by
  simp only [resolve, Context.resolve, relative, Bool.false_eq_true, if_false, Finds,
    List.find?_eq_some_iff_append, contains_eq_true_iff, Bool.not_eq_true', ← Bool.not_eq_true]
  constructor
  · rintro ⟨declared, before, after, split, passed⟩
    exact ⟨before, after, split, declared, passed⟩
  · rintro ⟨before, after, split, declared, passed⟩
    exact ⟨declared, before, after, split, passed⟩

/-- A relative name refers to nothing if none of the names it could stand for is declared. -/
theorem resolve_relative_eq_none_iff (environment : Environment) (context : Context)
    (relative : written.isAbsolute = false) : environment.resolve context written = none ↔
      ∀ candidate ∈ context.candidates written, candidate ∉ environment.names := by
  simp [resolve, Context.resolve, relative, contains_eq_true_iff]

/-- A name that is not declared has no superclass. -/
theorem superclassOf_of_not_mem (undeclared : name ∉ environment.names) :
    environment.superclassOf name = .ok none := by
  have unknown : environment.get? name = none := by
    simpa [← contains_eq_true_iff, contains] using undeclared
  simp [superclassOf, unknown]

/-- The superclass of a declared name is what its primary declaration says. -/
theorem superclassOf_of_primary {entry : ClassEntry} {item : Record}
    (found : environment.get? name = some entry) (primary : entry.primary = .ok item) :
    environment.superclassOf name = .ok (item.declaration.superclass.bind fun superclass =>
      environment.resolve item.context superclass.name) := by
  simp only [superclassOf, found, primary]
  rfl

/-- A superclass was written by the primary declaration, and it is what the name that was written
refers to from there. -/
theorem exists_writes_of_superclassOf {superclass : TypeName}
    (above : environment.superclassOf name = .ok (some superclass)) :
    ∃ context written, environment.Writes name context written ∧
      environment.resolve context written = some superclass := by
  cases found : environment.get? name with
  | none => simp [superclassOf, found] at above
  | some entry =>
      cases primary : entry.primary with
      | error error =>
          simp only [superclassOf, found, primary] at above
          cases above
      | ok item =>
          rw [superclassOf_of_primary found primary] at above
          obtain ⟨reference, writing, resolved⟩ := Option.bind_eq_some_iff.1 (Except.ok.inj above)
          exact ⟨_, _, ⟨entry, item, reference, found, primary, rfl, writing, rfl⟩, resolved⟩

/-- What is written as a superclass and resolves is the superclass. -/
theorem Writes.superclassOf_eq (writes : environment.Writes name context written) :
    environment.superclassOf name = .ok (environment.resolve context written) := by
  obtain ⟨entry, item, reference, found, primary, rfl, writing, rfl⟩ := writes
  rw [superclassOf_of_primary found primary, writing]
  rfl

/-- Superclasses are declared, unless an absolute name that is not declared was written: a relative
name refers to a declared one or to nothing. -/
theorem declared_superclass_iff :
    (∀ superclass, environment.superclassOf name = .ok (some superclass) →
        superclass ∈ environment.names) ↔
      ¬ ∃ context written, environment.Writes name context written ∧
        written.isAbsolute = true ∧ written ∉ environment.names := by
  constructor
  · rintro declared ⟨context, written, writes, absolute, undeclared⟩
    refine undeclared (declared written ?_)
    rw [writes.superclassOf_eq, environment.resolve_absolute context absolute]
  · intro clear superclass above
    obtain ⟨context, written, writes, resolved⟩ := exists_writes_of_superclassOf above
    -- a relative name is resolved to a declared one; an absolute name stands as it is written
    cases absolute : written.isAbsolute with
    | true =>
        obtain rfl : written = superclass := by
          simpa [environment.resolve_absolute context absolute] using resolved
        by_contra undeclared
        exact clear ⟨context, written, writes, absolute, undeclared⟩
    | false =>
        obtain ⟨-, -, -, declared, -⟩ :=
          (environment.resolve_relative_eq_some_iff context absolute superclass).1 resolved
        exact declared

/-- Asking for the superclass of a name succeeds in every reachable environment. There is none for a
name that is not declared, for a module, where the primary declaration writes none, and where it
writes a relative name that stands for nothing that is declared; a relative name stands for the
first candidate that is. An absolute name stands for itself. So what is answered is declared, unless
an absolute name that is not declared was written. -/
theorem superclassOf_declared_iff (reachable : Reachable environment) (name : TypeName) :
    ∃ superclass?, environment.superclassOf name = .ok superclass? ∧
      (name ∉ environment.names → superclass? = none) ∧
      (∀ entry, environment.get? name = some entry → entry.isModule = true → superclass? = none) ∧
      (∀ entry item, environment.get? name = some entry → entry.primary = .ok item →
        item.declaration.superclass = none → superclass? = none) ∧
      (∀ context written, environment.Writes name context written →
        (written.isAbsolute = true → superclass? = some written) ∧
        (written.isAbsolute = false →
          (∀ found, superclass? = some found ↔ environment.Finds context written found) ∧
          (superclass? = none ↔
            ∀ candidate ∈ context.candidates written, candidate ∉ environment.names))) ∧
      ((∀ superclass, superclass? = some superclass → superclass ∈ environment.names) ↔
        ¬ ∃ context written, environment.Writes name context written ∧
          written.isAbsolute = true ∧ written ∉ environment.names) := by
  obtain ⟨superclass?, asked⟩ := reachable.orderly.exists_superclassOf name
  have answer : ∀ {other}, environment.superclassOf name = .ok other → superclass? = other :=
    fun known => Except.ok.inj (asked.symm.trans known)
  have silent : ∀ {entry item}, environment.get? name = some entry → entry.primary = .ok item →
      item.declaration.superclass = none → superclass? = none := by
    intro entry item found primary unwritten
    exact answer (by rw [superclassOf_of_primary found primary, unwritten]; rfl)
  refine ⟨superclass?, asked, fun undeclared => answer (superclassOf_of_not_mem undeclared), ?_,
    fun entry item => silent, ?_, ?_⟩
  · -- every declaration of a module opens a module
    intro entry found isModule
    have member := ((reachable.orderly.get?_eq_some_iff name entry).1 found).1
    obtain ⟨item, primary⟩ := ClassEntry.exists_primary (reachable.orderly.nonempty entry member)
    have uniform :=
      reachable.wellFormed.uniform entry member item (ClassEntry.mem_of_primary primary)
    exact silent found primary (Declaration.superclass_of_isModule (uniform.trans isModule))
  · intro context written writes
    obtain rfl := answer writes.superclassOf_eq
    exact ⟨environment.resolve_absolute context, fun relative =>
      ⟨environment.resolve_relative_eq_some_iff context relative,
        environment.resolve_relative_eq_none_iff context relative⟩⟩
  · rw [← declared_superclass_iff, asked]
    simp

/-- A class below one that is written from the top level and not declared anywhere, and another one
that writes the same name relative. -/
def belowUndeclared : Environment :=
  after (insert .top (classBelow "C" "E")) (after (insert .top (classBelow "D" "::E")) {})

/-- The relative superclass is not resolved, the absolute one is. -/
theorem superclassOf_declared_iff_belowUndeclared :
    Reachable belowUndeclared ∧
      belowUndeclared.superclassOf (.ofString "::C") = .ok none ∧
      ∃ superclass?, belowUndeclared.superclassOf (.ofString "::D") = .ok superclass? ∧
        ((∀ superclass, superclass? = some superclass → superclass ∈ belowUndeclared.names) ↔
          ¬ ∃ context written, belowUndeclared.Writes (.ofString "::D") context written ∧
            written.isAbsolute = true ∧ written ∉ belowUndeclared.names) := by
  have reachable : Reachable belowUndeclared := .insert .top _ (.insert .top _ .empty)
  obtain ⟨superclass?, asked, -, -, -, -, declared⟩ :=
    superclassOf_declared_iff reachable (.ofString "::D")
  exact ⟨reachable, rfl, superclass?, asked, declared⟩

/-- An absolute name is answered as a superclass though nothing of that name is declared. -/
theorem superclassOf_belowUndeclared :
    Reachable belowUndeclared ∧
      belowUndeclared.superclassOf (.ofString "::D") = .ok (some (.ofString "::E")) ∧
      TypeName.ofString "::E" ∉ belowUndeclared.names :=
  ⟨.insert .top _ (.insert .top _ .empty), rfl, by decide⟩

end Environment

end Signet

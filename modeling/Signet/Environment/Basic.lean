import Signet.Environment.Entry

/-! # Environments

An environment holds an entry for every declared class and module, in the order in which they were
first declared. Inserting a declaration records it under its absolute name and then inserts the
declarations nested in it, in order. A name stands for a class or for a module, not for both: the
first declaration decides, and a later one of the other kind stops the insertion where it is, with
what was recorded before it kept.
-/

namespace Signet

/-- The declared classes and modules, in order of their first declaration. -/
structure Environment where
  entries : List ClassEntry := []

/-- A change of an environment. What was changed before it failed stays changed. -/
abbrev Update := ExceptT EnvironmentError (StateM Environment)

namespace Environment

/-! ## Looking up -/

/-- The entry of a name. -/
def get? (environment : Environment) (name : TypeName) : Option ClassEntry :=
  environment.entries.find? fun entry => entry.name = name

/-- The name is declared. -/
def contains (environment : Environment) (name : TypeName) : Bool :=
  (environment.get? name).isSome

/-- The declared names, in order. -/
def names (environment : Environment) : List TypeName := environment.entries.map (·.name)

/-- What a name refers to in a context. -/
def resolve (environment : Environment) (context : Context) (name : TypeName) : Option TypeName :=
  context.resolve name environment.contains

/-! ## Inserting -/

/-- The entries with one more record under a name; a new entry is put at the end. -/
def addTo (name : TypeName) (record : Record) : List ClassEntry → List ClassEntry
  | [] => [{ name, records := [record] }]
  | entry :: entries =>
    if entry.name = name then entry.add record :: entries else entry :: addTo name record entries

/-- The environment with one more record under a name. -/
def add (environment : Environment) (name : TypeName) (record : Record) : Environment :=
  { environment with entries := addTo name record environment.entries }

/-- The first record under a name makes an entry at the end. -/
theorem addTo_append_of_not_mem (name : TypeName) (record : Record) (entries : List ClassEntry)
    (h : name ∉ entries.map (·.name)) :
    addTo name record entries = entries ++ [{ name, records := [record] }] := by
  induction entries with
  | nil => rfl
  | cons entry entries ih =>
    rw [List.map_cons, List.mem_cons, not_or] at h
    rw [addTo, if_neg (Ne.symm h.1), ih h.2, List.cons_append]

/-- A record changes the entry of its name and no other. -/
theorem get?_add (environment : Environment) (name other : TypeName) (record : Record) :
    (environment.add name record).get? other =
      if other = name then
        some (((environment.get? name).getD { name }).add record)
      else environment.get? other := by
  obtain ⟨entries⟩ := environment
  unfold add get?
  induction entries with
  | nil => by_cases h : other = name <;> simp [addTo, ClassEntry.add, h, eq_comm]
  | cons entry entries ih =>
    simp only at ih
    by_cases hname : entry.name = name
    · by_cases h : other = name
      · simp [addTo, ClassEntry.add, hname, h]
      · have : ¬ name = other := fun heq => h heq.symm
        simp [addTo, ClassEntry.add, hname, h, this]
    · by_cases hother : entry.name = other
      · have : ¬ other = name := fun heq => hname (hother.trans heq)
        simp [addTo, hother, this]
      · simp [addTo, hname, hother, ih]

/-- The declaration that decides what a name stands for. -/
def first? (environment : Environment) (name : TypeName) : Option Declaration :=
  (environment.get? name).bind fun entry => entry.records.head?.map (·.declaration)

/-- Why a declaration cannot be recorded under a name: the name stands for the other kind. -/
def clash? (environment : Environment) (name : TypeName) (declaration : Declaration) :
    Option EnvironmentError :=
  match environment.first? name with
  | some first =>
    if first.isModule = declaration.isModule then none
    else some (.duplicatedDeclaration name first.kindName declaration.kindName first.location
      declaration.location)
  | none => none

/-- Records a single declaration under a name, unless the name stands for the other kind. -/
def record (name : TypeName) (context : Context) (declaration : Declaration) : Update Unit := do
  let environment ← get
  match environment.clash? name declaration with
  | some error => throw error
  | none => set (environment.add name ⟨context, declaration⟩)

mutual

/-- Inserts a declaration and those nested in it. -/
def insert (context : Context) : Declaration → Update Unit
  | ⟨heading, members⟩ => do
    let name := context.qualify heading.name
    record name context ⟨heading, members⟩
    insertNested (context.enter name) members

/-- Inserts the declarations among some members. -/
def insertNested (context : Context) : List Member → Update Unit
  | [] => pure ()
  | .nested declaration :: members => do
    insert context declaration
    insertNested context members
  | _ :: members => insertNested context members

end

/-- Inserts declarations, each in its context. -/
def insertRecords (records : List Record) : Update Unit :=
  records.forM fun record => insert record.context record.declaration

end Environment

end Signet

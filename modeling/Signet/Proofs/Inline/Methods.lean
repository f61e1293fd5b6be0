import Signet.Proofs.Environment.Insertion
import Signet.Proofs.Inline.Placement
import Signet.Proofs.Reading.Parts

/-!
# Contexts of methods

The context of a method is computed three times: while the file is walked, when the methods of a
result are listed, and when its declarations are inserted into an environment. The three agree
(`methods_agree`). For the first two this is an induction on the history of the extraction, for the
last two one on the declarations: each record that is inserted adds the methods that are written in
it and no others (`methods_add`).
-/

namespace Signet

/-- The member as a method in a context, if it is one. -/
def Member.inContext (context : Context) : Member → List (Context × Method)
  | .method definition => [(context, definition)]
  | _ => []

namespace Inline

open Ruby

variable {file : RubyFile} {node : Node} {action : Action} {before middle after : Progress}
  {sites : List Site} {events : List Event}

/-! ## Lists of methods -/

namespace InlineResult

/-- The methods of the declarations among some members. -/
def nestedMethods (context : Context) : List Member → List (Context × Method)
  | [] => []
  | .nested declaration :: members => methodsOf context declaration ++ nestedMethods context members
  | _ :: members => nestedMethods context members

theorem methodsAmong_append (context : Context) (members more : List Member) :
    methodsAmong context (members ++ more) =
      methodsAmong context members ++ methodsAmong context more := by
  induction members with
  | nil => rfl
  | cons member members ih => cases member <;> simp [methodsAmong, ih]

/-- Some members have their own methods and those of the declarations among them. -/
theorem methodsAmong_perm (context : Context) (members : List Member) :
    (methodsAmong context members).Perm
      (members.flatMap (Member.inContext context) ++ nestedMethods context members) := by
  induction members with
  | nil => exact .refl _
  | cons member members ih =>
      cases member with
      | method definition => exact ih.cons _
      | mixin inclusion => exact ih
      | attr accessor => exact ih
      | nested declaration =>
          show (methodsOf context declaration ++ methodsAmong context members).Perm
            (members.flatMap (Member.inContext context) ++
              (methodsOf context declaration ++ nestedMethods context members))
          refine (ih.append_left _).trans ?_
          rw [← List.append_assoc, ← List.append_assoc]
          exact List.perm_append_comm.append_right _

end InlineResult

open InlineResult

/-! ## Methods that are recorded -/

mutual

/-- The methods that an event records, with the context at the time. -/
def Event.methods : Event → List (Context × Method)
  | .act _ (.method _) before after =>
    (Progress.added before after).flatMap (Member.inContext before.context)
  | .act .. => []
  | .unnamed _ inside => recordedMethods inside
  | .declared _ _ inside => recordedMethods inside

/-- The methods that some events record. Only definitions of methods do. -/
def recordedMethods : List Event → List (Context × Method)
  | [] => []
  | event :: events => event.methods ++ recordedMethods events

end

/-- The methods of some results. -/
def methodsOfRecords (records : List Record) : List (Context × Method) :=
  records.flatMap fun record => methodsOf record.context record.declaration

/-- Members that an action makes are methods exactly if the action defines methods. -/
theorem methodsAmong_of_makes (context : Context) {members : List Member}
    (makes : ∀ member ∈ members, action.Makes member) : methodsAmong context members =
      match action with
      | .method _ => members.flatMap (Member.inContext context)
      | _ => [] := by
  induction members with
  | nil => cases action <;> rfl
  | cons member members ih =>
      obtain ⟨here, later⟩ := List.forall_mem_cons.1 makes
      have rest := ih later
      cases action with
      | method modifier =>
          cases member with
          | method definition => exact congrArg ((context, definition) :: ·) rest
          | _ => exact here.elim
      | mixin kind =>
          cases member with
          | mixin inclusion => exact rest
          | _ => exact here.elim
      | attr kind =>
          cases member with
          | attr accessor => exact rest
          | _ => exact here.elim
      | word parentKind => exact here.elim
      | singletonClass => exact here.elim

/-- What an action adds has the methods that it records. -/
theorem methodsAmong_added (ran : (action.perform file node).run before = (.ok (), after)) :
    methodsAmong before.context (Progress.added before after) =
      (Event.act node action before after).methods := by
  have makes : ∀ member ∈ Progress.added before after, action.Makes member :=
    fun member inside => (action.writes_added ran member inside).1.1
  rw [methodsAmong_of_makes before.context makes]
  cases action <;> rfl

/-- Outside of declarations nothing is recorded. -/
theorem added_of_not_known (ran : (action.perform file node).run before = (.ok (), after))
    (unknown : before.isKnown = false) : Progress.added before after = [] := by
  obtain ⟨members, -, gains⟩ := action.gains ran
  rw [gains.added_eq, unknown]
  rfl

/-- What is recorded up to some point is in the members and in the results. -/
def gainedMethods (known : Bool) (context : Context) (events : List Event) :
    List (Context × Method) :=
  (if known then methodsAmong context (membersOf events) else []) ++
    methodsOfRecords (recordsOf known context events)

/-- The methods of an event and of those after it may be listed one after the other. -/
theorem gainedMethods_cons (known : Bool) (context : Context) (event : Event)
    (events : List Event) : (gainedMethods known context (event :: events)).Perm
      ((if known then methodsAmong context event.members else []) ++
        methodsOfRecords (event.records known context) ++ gainedMethods known context events) := by
  unfold gainedMethods methodsOfRecords
  rw [membersOf, recordsOf, List.flatMap_append]
  cases known with
  | true =>
      rw [if_pos rfl, if_pos rfl, if_pos rfl, methodsAmong_append]
      exact perm_interchange ..
  | false => simp

/-- What an event records is in its members and in its results. -/
theorem recordedMethods_cons_perm {known : Bool} {context : Context} {event : Event}
    (here : event.methods.Perm ((if known then methodsAmong context event.members else []) ++
      methodsOfRecords (event.records known context)))
    (later : (recordedMethods events).Perm (gainedMethods known context events)) :
    (recordedMethods (event :: events)).Perm (gainedMethods known context (event :: events)) :=
  (here.append later).trans (gainedMethods_cons known context event events).symm

/-- The methods that are recorded are those of the members and of the results of the events. -/
theorem History.methods_perm (history : History file sites before events after) :
    (recordedMethods events).Perm (gainedMethods before.isKnown before.context events) := by
  refine history.induction (motive := fun known context _ events =>
    (recordedMethods events).Perm (gainedMethods known context events))
    ?done ?act ?skipped ?unnamed ?declared
  case done =>
    intro known context
    cases known <;> exact .refl _
  case act =>
    intro node action before after sites events ran ih
    refine recordedMethods_cons_perm ?_ ih
    rw [← methodsAmong_added ran, Event.members, Event.records]
    cases known : before.isKnown with
    | true => simp [methodsOfRecords]
    | false => simp [methodsOfRecords, added_of_not_known ran known, methodsAmong]
  case skipped =>
    intro isModule node known context sites events ih
    exact ih
  case unnamed =>
    -- inside there is no declaration in progress, so that only results are left
    intro isModule node known context inside found sites events inner ih
    have results : (recordedMethods found).Perm
        (methodsOfRecords (recordsOf false context.enterUnknown found)) := inner
    refine recordedMethods_cons_perm ?_ ih
    simpa [Event.methods, Event.members, Event.records, methodsAmong] using results
  case declared =>
    -- a declaration is a member of the one around it or a result, not both
    intro isModule node heading known context inside found sites events lies inner ih
    have within : (recordedMethods found).Perm (methodsOf context ⟨heading, membersOf found⟩ ++
        methodsOfRecords
          (recordsOf true (context.enter (context.qualify heading.name)) found)) := inner
    refine recordedMethods_cons_perm ?_ ih
    rw [Event.methods, Event.members, Event.records]
    cases known with
    | true => simpa [methodsAmong] using within
    | false => simpa [methodsOfRecords] using within

/-! ## Methods in an environment -/

end Inline

/-- The methods of an entry, each in the context inside its declaration. -/
def ClassEntry.methods (entry : ClassEntry) : List (Context × Method) :=
  entry.members.flatMap fun member => member.2.inContext member.1

/-- The methods of all entries. -/
def Environment.methods (environment : Environment) : List (Context × Method) :=
  environment.entries.flatMap ClassEntry.methods

/-- The methods that are written in a declaration itself, in the context inside it. -/
def Record.methods (record : Record) : List (Context × Method) :=
  let inside := record.context.enter (record.context.qualify record.declaration.name)
  record.declaration.members.flatMap (Member.inContext inside)

namespace Environment

variable {environment next : Environment}

theorem methods_entry_add (entry : ClassEntry) (record : Record) :
    (entry.add record).methods = entry.methods ++
      record.declaration.members.flatMap (Member.inContext (record.context.enter entry.name)) := by
  simp [ClassEntry.methods, ClassEntry.members, ClassEntry.add, List.flatMap_map]

/-- A record adds the methods that are written in it to those of the entries. -/
theorem methods_addTo (record : Record) (entries : List ClassEntry) :
    ((addTo (record.context.qualify record.declaration.name) record entries).flatMap
      ClassEntry.methods).Perm (entries.flatMap ClassEntry.methods ++ record.methods) := by
  induction entries with
  | nil =>
      simp [addTo, ClassEntry.methods, ClassEntry.members, Record.methods, List.flatMap_map]
  | cons entry entries ih =>
      rw [addTo, List.flatMap_cons]
      split
      · rename_i named
        rw [List.flatMap_cons, methods_entry_add, named, List.append_assoc, List.append_assoc]
        exact List.perm_append_comm.append_left _
      · rw [List.flatMap_cons, List.append_assoc]
        exact ih.append_left _

theorem methods_add (environment : Environment) (record : Record) :
    (environment.add (record.context.qualify record.declaration.name) record).methods.Perm
      (environment.methods ++ record.methods) :=
  methods_addTo record environment.entries

theorem methods_record {context : Context} {declaration : Declaration}
    (ran : (record (context.qualify declaration.name) context declaration).run.run environment =
      (.ok (), next)) :
    next.methods.Perm (environment.methods ++ Record.methods ⟨context, declaration⟩) := by
  rw [run_record] at ran
  split at ran
  · exact nomatch (Prod.mk.inj ran).1
  · obtain ⟨-, rfl⟩ := Prod.mk.inj ran
    exact environment.methods_add ⟨context, declaration⟩

open Inline.InlineResult
open scoped List

-- Insertion goes through a declaration and its members in turn, and so do the two statements.
mutual

/-- Inserting a declaration adds its methods and those of the declarations in it. -/
theorem methods_insert (context : Context) : ∀ (declaration : Declaration)
    (environment next : Environment),
    (insert context declaration).run.run environment = (.ok (), next) →
      next.methods.Perm (environment.methods ++ methodsOf context declaration)
  | ⟨heading, members⟩, environment, next, ran => by
      rw [insert] at ran
      obtain ⟨recorded, first, second⟩ := run_bind_eq_ok ran
      have one : recorded.methods.Perm
          (environment.methods ++ Record.methods ⟨context, ⟨heading, members⟩⟩) :=
        methods_record first
      have two := methods_insertNested _ members recorded next second
      have split := methodsAmong_perm (context.enter (context.qualify heading.name)) members
      let own := Record.methods ⟨context, ⟨heading, members⟩⟩
      let inside := nestedMethods (context.enter (context.qualify heading.name)) members
      calc next.methods
        _ ~ recorded.methods ++ inside := two
        _ ~ (environment.methods ++ own) ++ inside := one.append_right inside
        _ = environment.methods ++ (own ++ inside) := List.append_assoc ..
        _ ~ environment.methods ++ methodsOf context ⟨heading, members⟩ :=
              split.symm.append_left environment.methods

theorem methods_insertNested (context : Context) : ∀ (members : List Member)
    (environment next : Environment),
    (insertNested context members).run.run environment = (.ok (), next) →
      next.methods.Perm (environment.methods ++ nestedMethods context members)
  | [], environment, next, ran => by
      obtain ⟨-, rfl⟩ := Prod.mk.inj ran
      simp [nestedMethods]
  | .nested declaration :: members, environment, next, ran => by
      rw [insertNested] at ran
      obtain ⟨between, first, second⟩ := run_bind_eq_ok ran
      have one := methods_insert context declaration environment between first
      have two := methods_insertNested context members between next second
      rw [nestedMethods, ← List.append_assoc]
      exact two.trans (one.append_right _)
  | .method _ :: members, environment, next, ran =>
      methods_insertNested context members environment next ran
  | .mixin _ :: members, environment, next, ran =>
      methods_insertNested context members environment next ran
  | .attr _ :: members, environment, next, ran =>
      methods_insertNested context members environment next ran

end

theorem methods_insertRecords (records : List Record) :
    ∀ environment next : Environment,
      (insertRecords records).run.run environment = (.ok (), next) →
        next.methods.Perm (environment.methods ++ Inline.methodsOfRecords records) := by
  induction records with
  | nil =>
      intro environment next ran
      obtain ⟨-, rfl⟩ := Prod.mk.inj ran
      simp [Inline.methodsOfRecords]
  | cons record records ih =>
      intro environment next ran
      obtain ⟨between, first, second⟩ := run_bind_eq_ok ran
      have one := methods_insert record.context record.declaration environment between first
      have two := ih between next second
      rw [Inline.methodsOfRecords, List.flatMap_cons, ← List.append_assoc]
      exact two.trans (one.append_right _)

end Environment

namespace Inline

open Ruby InlineResult

/-- Every method that is recorded while the walk is in some context is listed once, with that
context, and once the result is inserted into an empty environment its entries have the same methods
in the same contexts. -/
theorem methods_agree {buffer : Buffer} {root : Node} {options : Options} {result : InlineResult}
    (extracted : extract buffer root options = .ok result) :
    (∃ events after,
      (visitAll (.ofTree buffer root options) root.kind root.children).run {} = (.ok (), after) ∧
      History (.ofTree buffer root options) (sitesOfTree buffer root options) {} events after) ∧
    (∀ events after,
      History (.ofTree buffer root options) (sitesOfTree buffer root options) {} events after →
        (recordedMethods events).Perm result.methods) ∧
    ∀ environment, result.load.run.run {} = (.ok (), environment) →
      environment.methods.Perm result.methods := by
  obtain ⟨events, after, ran, history, records_eq, -⟩ := exists_history extracted
  refine ⟨⟨events, after, ran, history⟩, fun others end' other => ?_, fun environment loaded => ?_⟩
  · obtain ⟨rfl, rfl⟩ := history.unique other
    rw [show result.methods = methodsOfRecords result.records from rfl, records_eq]
    exact history.methods_perm
  · exact Environment.methods_insertRecords result.records {} environment loaded

/-- The names of the methods there, one of them below a module without a name. -/
def nestedListing : List (Context × String) :=
  [(((Context.top.enter ⟨.root, "A"⟩).enterUnknown).enter ⟨⟨["C"], true⟩, "D"⟩, "d"),
    ((Context.top.enter ⟨⟨["C"], true⟩, "D"⟩).enter ⟨⟨["C", "D"], true⟩, "E"⟩, "e")]

/-- Recorded, listed and inserted into an environment, they have the same contexts. -/
theorem methods_agree_nested :
    ∃ result environment, extract (.ofString "a.rb" nestedText) nestedTree {} = .ok result ∧
      result.load.run.run {} = (.ok (), environment) ∧
      environment.methods.Perm result.methods ∧
      (∃ events, (recordedMethods events).Perm result.methods) ∧
      result.methods.map (fun method => (method.1, method.2.name)) = nestedListing := by
  have listed : ((extract (.ofString "a.rb" nestedText) nestedTree {}).toOption.map fun result =>
      ((result.load.run.run {}).1.isOk,
        result.methods.map fun method => (method.1, method.2.name))) =
      some (true, nestedListing) := by
    decide +kernel
  obtain ⟨result, extracted, shown⟩ := exists_of_toOption_map listed
  obtain ⟨loads, methods_eq⟩ := Prod.mk.inj shown
  generalize loaded : result.load.run.run {} = outcome at loads
  obtain ⟨_ | ⟨⟩, environment⟩ := outcome
  · exact nomatch loads
  · obtain ⟨⟨events, after, -, history⟩, recorded, inEnvironment⟩ := methods_agree extracted
    exact ⟨result, environment, extracted, loaded, inEnvironment environment loaded,
      ⟨events, recorded events after history⟩, methods_eq⟩

end Inline

end Signet

import Signet.Inline.Extraction
import Signet.Proofs.Source.Locations

/-!
# What a step of the walk gains

A step that succeeds adds to what was found: members at the end of the declaration in progress,
perhaps a section of it, and results at the end of the list. Diagnostics apart, this is all that it
changes (`Progress.Gains`), and gains of successive steps add up (`Progress.Gains.trans`).

What is done at a single node without going into it is an `Action`. It opens no result, and every
member that it adds is of its own kind and lies at the node (`Action.gains`), and is what is written
there (`Action.writes`).
-/

namespace Signet.Inline

open Ruby

variable {α β : Type} {file : RubyFile} {node : Node} {before middle after : Progress}

/-! ## Gains -/

/-- What is added: members and the last section of the declaration in progress, and results. -/
structure Gain where
  members : List Member := []
  opened : Option Visibility := none
  records : List Record := []

/-- One gain and then another. -/
def Gain.andThen (first second : Gain) : Gain where
  members := first.members ++ second.members
  opened := second.opened.or first.opened
  records := first.records ++ second.records

/-- The declaration in progress with more members and the section that was opened last. -/
def OpenDeclaration.gain (frame : OpenDeclaration) (gain : Gain) : OpenDeclaration :=
  { frame with
    declaration := ⟨frame.declaration.heading, frame.declaration.members ++ gain.members⟩
    visibility := gain.opened.or frame.visibility }

/-- Only the declaration in progress changes, if the innermost frame has one. -/
def gainTop (gain : Gain) : List Frame → List Frame
  | .known frame :: outer => .known (frame.gain gain) :: outer
  | stack => stack

theorem OpenDeclaration.gain_gain (frame : OpenDeclaration) (first second : Gain) :
    (frame.gain first).gain second = frame.gain (first.andThen second) := by
  simp [gain, Gain.andThen, Declaration.heading, Declaration.members, Option.or_assoc]

theorem OpenDeclaration.gain_empty (frame : OpenDeclaration) : frame.gain {} = frame := by
  obtain ⟨outer, ⟨heading, members⟩, visibility, scope, slot⟩ := frame
  simp [gain, Declaration.heading, Declaration.members]

theorem gainTop_empty (stack : List Frame) : gainTop {} stack = stack := by
  rcases stack with _ | ⟨frame | _, outer⟩
  · rfl
  · rw [gainTop, OpenDeclaration.gain_empty]
  · rfl

theorem gainTop_gainTop (first second : Gain) (stack : List Frame) :
    gainTop second (gainTop first stack) = gainTop (first.andThen second) stack := by
  rcases stack with _ | ⟨frame | _, outer⟩
  · rfl
  · rw [gainTop, gainTop, OpenDeclaration.gain_gain, gainTop]
  · rfl

/-- The frames below the innermost one are the same. -/
theorem tail_gainTop (gain : Gain) (stack : List Frame) :
    (gainTop gain stack).tail = stack.tail := by
  rcases stack with _ | ⟨frame | _, outer⟩ <;> rfl

namespace Progress

/-- The place is in a module whose name can be told. -/
def isKnown (progress : Progress) : Bool := progress.current?.isSome

/-- From one progress to another with this gain. The diagnostics are left open. -/
structure Gains (before : Progress) (gain : Gain) (after : Progress) : Prop where
  context_eq : after.context = before.context
  stack_eq : after.stack = gainTop gain before.stack
  slots_eq : after.slots = before.slots ++ gain.records.map some

theorem Gains.refl (progress : Progress) : progress.Gains {} progress where
  context_eq := rfl
  stack_eq := (gainTop_empty progress.stack).symm
  slots_eq := by simp

theorem Gains.trans {first second : Gain} (one : before.Gains first middle)
    (two : middle.Gains second after) : before.Gains (first.andThen second) after where
  context_eq := two.context_eq.trans one.context_eq
  stack_eq := by rw [two.stack_eq, one.stack_eq, gainTop_gainTop]
  slots_eq := by
    rw [two.slots_eq, one.slots_eq, Gain.andThen, List.map_append, List.append_assoc]

/-- The innermost frame stays known or unknown. -/
theorem Gains.isKnown_eq {gain : Gain} (gains : before.Gains gain after) :
    after.isKnown = before.isKnown := by
  unfold isKnown current?
  rw [gains.stack_eq]
  cases before.stack with
  | nil => rfl
  | cons frame outer => cases frame <;> rfl

theorem isKnown_eq_false {progress : Progress}
    (other : ∀ frame outer, progress.stack = .known frame :: outer → False) :
    progress.isKnown = false := by
  unfold isKnown current?
  split
  · rename_i frame outer stack_eq
    exact (other frame outer stack_eq).elim
  · rfl

/-- Without a declaration in progress, members and sections are lost. -/
theorem gainTop_of_not_known (unknown : before.isKnown = false) (gain : Gain) :
    gainTop gain before.stack = before.stack := by
  unfold isKnown current? at unknown
  cases stack_eq : before.stack with
  | nil => rfl
  | cons frame outer =>
      cases frame with
      | known frame =>
          rw [stack_eq] at unknown
          exact nomatch unknown
      | unknown => rfl

theorem Gains.of_not_known {gain other : Gain} (gains : before.Gains gain after)
    (unknown : before.isKnown = false) (records : other.records = gain.records) :
    before.Gains other after where
  context_eq := gains.context_eq
  stack_eq := by
    rw [gains.stack_eq, gainTop_of_not_known unknown, gainTop_of_not_known unknown]
  slots_eq := records ▸ gains.slots_eq

/-- Adding a member to the declaration in progress, or to none, is a gain of the member. -/
theorem gains_addMember (progress : Progress) (member : Member) :
    progress.Gains { members := [member] } (progress.addMember member) := by
  unfold addMember updateCurrent
  split
  · rename_i frame outer stack_eq
    refine ⟨rfl, ?_, by simp⟩
    rw [stack_eq]
    simp [gainTop, OpenDeclaration.gain, Declaration.addMember]
  · rename_i other
    exact (Gains.refl progress).of_not_known (isKnown_eq_false other) rfl

/-- So is opening a section. -/
theorem gains_openSection (progress : Progress) (visibility : Visibility) :
    progress.Gains { opened := some visibility } (progress.openSection visibility) := by
  unfold openSection updateCurrent
  split
  · rename_i frame outer stack_eq
    refine ⟨rfl, ?_, by simp⟩
    rw [stack_eq]
    obtain ⟨outer, ⟨heading, members⟩, _, scope, slot⟩ := frame
    simp [gainTop, OpenDeclaration.gain, Declaration.heading, Declaration.members]
  · rename_i other
    exact (Gains.refl progress).of_not_known (isKnown_eq_false other) rfl

/-- The members that the declaration in progress has afterwards and had not before. -/
def added (before after : Progress) : List Member :=
  match before.current?, after.current? with
  | some first, some last => last.declaration.members.drop first.declaration.members.length
  | _, _ => []

theorem Gains.added_eq {gain : Gain} (gains : before.Gains gain after) :
    added before after = if before.isKnown then gain.members else [] := by
  unfold added isKnown current?
  rw [gains.stack_eq]
  cases before.stack with
  | nil => rfl
  | cons frame outer =>
      cases frame with
      | known frame => simp [gainTop, OpenDeclaration.gain, Declaration.members]
      | unknown => rfl

end Progress

/-! ## Steps -/

/-- The second step goes on from where the first succeeds. -/
theorem run_bind {first : Step α} {rest : α → Step β} : (first >>= rest).run before =
    match first.run before with
    | (.ok found, middle) => (rest found).run middle
    | (.error error, middle) => (.error error, middle) := by
  show (ExceptT.bind first rest).run before = _
  simp only [ExceptT.bind, ExceptT.mk, ExceptT.run, Bind.bind, StateT.bind]
  rcases first before with ⟨_ | _, _⟩ <;> rfl

/-- Two steps succeed exactly if the first does and the second does from there. -/
theorem run_bind_eq_ok_iff {first : Step α} {rest : α → Step β} {value : β} :
    (first >>= rest).run before = (.ok value, after) ↔
      ∃ found middle, first.run before = (.ok found, middle) ∧
        (rest found).run middle = (.ok value, after) := by
  rw [run_bind]
  rcases first.run before with ⟨result, middle⟩
  cases result with
  | ok found =>
      refine ⟨fun ran => ⟨found, middle, rfl, ran⟩, ?_⟩
      rintro ⟨_, _, same, ran⟩
      obtain ⟨found_eq, rfl⟩ := Prod.mk.inj same
      obtain rfl := Except.ok.inj found_eq
      exact ran
  | error error =>
      refine ⟨fun same => (nomatch (Prod.mk.inj same).1), ?_⟩
      rintro ⟨_, _, same, _⟩
      exact nomatch (Prod.mk.inj same).1

/-- Where the step succeeds, its value has a property, and it gains members of some kind and
nothing else. -/
def Adds (step : Step α) (kind : Member → Prop) (post : α → Prop) : Prop :=
  ∀ before value after, step.run before = (.ok value, after) → post value ∧
    ∃ members, (∀ member ∈ members, kind member) ∧ before.Gains { members } after

/-- The step gains nothing. -/
abbrev Quiet (step : Step α) (post : α → Prop) : Prop := Adds step (fun _ => False) post

namespace Adds

variable {step : Step α} {kind : Member → Prop} {post : α → Prop} {last : β → Prop}

theorem imp {other : Member → Prop} {weaker : α → Prop} (adds : Adds step kind post)
    (kinds : ∀ member, kind member → other member) (implies : ∀ value, post value → weaker value) :
    Adds step other weaker := by
  intro before value after ran
  obtain ⟨holds, members, all, gains⟩ := adds before value after ran
  exact ⟨implies value holds, members, fun member inside => kinds member (all member inside), gains⟩

/-- What gains nothing gains only members of any kind. -/
theorem quiet (silent : Quiet step post) : Adds step kind post :=
  silent.imp (fun _ => False.elim) fun _ => id

theorem pure {value : α} (holds : post value) : Adds (pure value : Step α) kind post := by
  intro before found after ran
  obtain ⟨same, rfl⟩ := Prod.mk.inj ran
  obtain rfl := Except.ok.inj same
  exact ⟨holds, [], nofun, .refl before⟩

/-- One step after another. -/
theorem bind (adds : Adds step kind post) {rest : α → Step β}
    (further : ∀ value, post value → Adds (rest value) kind last) :
    Adds (step >>= rest) kind last := by
  intro before value after ran
  obtain ⟨found, middle, first, second⟩ := run_bind_eq_ok_iff.1 ran
  obtain ⟨holds, members, all, gains⟩ := adds before found middle first
  obtain ⟨holds, more, others, gains'⟩ := further found holds middle value after second
  exact ⟨holds, members ++ more, List.forall_mem_append.2 ⟨all, others⟩, gains.trans gains'⟩

/-- Something for every element. -/
theorem forM {elements : List α} {each : α → Step Unit}
    (adds : ∀ element ∈ elements, Adds (each element) kind fun _ => True) :
    Adds (elements.forM each) kind fun _ => True := by
  induction elements with
  | nil => exact pure trivial
  | cons element elements ih =>
      refine bind (adds element List.mem_cons_self) fun _ _ => ?_
      exact ih fun other member => adds other (List.mem_cons_of_mem _ member)

theorem addMember {member : Member} (isKind : kind member) :
    Adds (modify (·.addMember member)) kind fun _ => True := by
  intro before value after ran
  obtain ⟨-, rfl⟩ := Prod.mk.inj ran
  exact ⟨trivial, [member], List.forall_mem_singleton.2 isKind, before.gains_addMember member⟩

/-- A location that must exist is the one that was computed. -/
theorem located {result : Except LocationError α} :
    Adds (located result) kind fun value => result = .ok value := by
  intro before value after ran
  unfold Inline.located at ran
  split at ran
  · obtain ⟨same, rfl⟩ := Prod.mk.inj ran
    obtain rfl := Except.ok.inj same
    exact ⟨rfl, [], nofun, .refl before⟩
  · exact nomatch (Prod.mk.inj ran).1

/-- A step that ran has gained members. -/
theorem gained {step : Step Unit} (adds : Adds step kind fun _ => True)
    (ran : step.run before = (.ok (), after)) :
    ∃ members, (∀ member ∈ members, kind member) ∧ before.Gains { members } after :=
  (adds before () after ran).2

/-- What a step adds is of the kind that it adds. -/
theorem of_mem_added {step : Step Unit} (adds : Adds step kind fun _ => True)
    (ran : step.run before = (.ok (), after)) :
    ∀ member ∈ Progress.added before after, kind member := by
  obtain ⟨members, all, gains⟩ := adds.gained ran
  rw [gains.added_eq]
  split
  · exact all
  · exact nofun

theorem not_mem_added {step : Step Unit} (quiet : Quiet step fun _ => True)
    (ran : step.run before = (.ok (), after)) {member : Member} :
    member ∉ Progress.added before after :=
  quiet.of_mem_added ran member

/-- A step that fails has no gain to speak of. -/
theorem throw {error : InlineError} : Adds (throw error : Step α) kind post :=
  fun _ _ _ ran => nomatch (Prod.mk.inj ran).1

theorem report (file : RubyFile) (diagnostic : Diagnostic) :
    Adds (report file diagnostic) kind fun _ => True := by
  intro before value after ran
  obtain ⟨-, rfl⟩ := Prod.mk.inj ran
  have same : before.Gains {} (before.report file.options.maxDiagnostics diagnostic) := by
    obtain ⟨context_eq, stack_eq, slots_eq⟩ := Progress.Gains.refl before
    unfold Progress.report
    split
    · split
      · exact .refl before
      · exact ⟨context_eq, stack_eq, slots_eq⟩
    · exact ⟨context_eq, stack_eq, slots_eq⟩
  exact ⟨trivial, [], nofun, same⟩

end Adds

/-! ## Small steps -/

theorem quiet_reportIgnored (ignored : List Ignored) :
    Quiet (reportIgnored file ignored) fun _ => True :=
  .forM fun _ _ => .report file _

/-- The location of a node has its range. -/
theorem quiet_locate : Quiet (locate file node) fun location =>
    location = { buffer := file.buffer, range := node.range file.buffer } :=
  Adds.located.imp (fun _ => id) fun location found =>
    ((Location.ofRange_eq_ok_iff _ _ location).1 found).2

theorem quiet_reportAt (problem : Problem) : Quiet (reportAt file node problem) fun _ => True :=
  quiet_locate.bind fun _ _ => .report file _

theorem quiet_reportNonConstant (problem : String → Problem) :
    Quiet (reportNonConstant file node problem) fun _ => True :=
  quiet_locate.bind fun _ _ => .report file _

/-- The block above a node is what is read in the comments there. -/
theorem quiet_leadingOf (node : Node) (scope : List String) :
    Quiet (leadingOf file node scope) fun block =>
      readLeading file.buffer scope (file.comments.leadingBlock node.head.startRow) =
        .ok block := by
  refine Adds.located.bind fun block read => ?_
  exact (Adds.forM fun _ _ => .report file _).bind fun _ _ => .pure read

/-- The type that a comment after a node gives is what is read in a comment. -/
theorem quiet_assertionOf (node : Node) (scope : List String) :
    Quiet (assertionOf file node scope) fun found => ∀ note, found = some note →
      ∃ comment, readTrailing file.buffer scope comment = .ok (.assertion note) := by
  unfold assertionOf
  split
  · exact .pure nofun
  · split
    · exact .pure nofun
    · rename_i comment _
      refine Adds.located.bind fun trailing read => ?_
      cases trailing with
      | absent => exact .pure nofun
      | assertion note =>
          refine .pure ?_
          rintro _ ⟨⟩
          exact ⟨comment, read⟩
      | invalid diagnostic => exact (Adds.report file _).bind fun _ _ => .pure nofun

/-- Types that are read as one tuple in a text carved out of the file. -/
def AreWritten (file : RubyFile) (scope : List String) (args : List Ty) : Prop :=
  ∃ ranges location, readPayload file.buffer ranges location
    (fun payload all => readType payload all scope) = .ok (.ok ⟨.tuple args⟩)

theorem quiet_trailingArgs (node : Node) (scope : List String) :
    Quiet (trailingArgs file node scope) fun found => ∀ written, found = some written →
      AreWritten file scope written.args := by
  unfold trailingArgs
  split
  · exact .pure nofun
  · split
    · exact .pure nofun
    · refine Adds.located.bind fun location _ => ?_
      refine Adds.located.bind fun type read => ?_
      split
      · refine .pure ?_
        rintro _ ⟨⟩
        exact ⟨_, location, read⟩
      · exact .pure nofun
      · exact (Adds.report file _).bind fun _ _ => .pure nofun

/-! ## Headings -/

/-- The type parameters of a class or a module are those in the annotations above it. -/
theorem quiet_genericsOf (block : LeadingBlock) : Quiet (genericsOf file block) fun params =>
    ∀ param ∈ params, ∃ location, .generic param location ∈ block.annotations := by
  refine Adds.bind (Adds.forM fun annotation _ => ?_) fun _ _ => .pure fun param member => ?_
  · cases annotation with
    | generic param location => exact .pure trivial
    | skip location => exact .pure trivial
    | _ => exact .report file _
  · obtain ⟨item, inside, found⟩ := List.mem_filterMap.1 member
    cases item with
    | generic other location =>
        obtain rfl := Option.some.inj found
        exact ⟨location, inside⟩
    | _ => exact nomatch found

/-- A superclass has the type arguments that are written after it, or none. -/
theorem quiet_superclassOf (node : Node) (scope : List String) :
    Quiet (superclassOf file node scope) fun found => ∀ reference, found.2 = some reference →
      reference.args = [] ∨ AreWritten file scope reference.args := by
  unfold superclassOf
  split
  · exact .pure (by simp)
  · dsimp only
    split
    · exact .pure (by simp)
    · split
      · exact (quiet_reportNonConstant _).bind fun _ _ => .pure (by simp)
      · refine (quiet_trailingArgs _ scope).bind fun args written => ?_
        refine quiet_locate.bind fun location _ => .pure ?_
        rintro _ ⟨⟩
        cases args with
        | none => exact .inl rfl
        | some args => exact .inr (written args rfl)

/-- The form of a heading is of a class or of a module, and lies at a node. -/
def Form.At (file : RubyFile) (node : Node) (isModule : Bool) : Form → Prop
  | .ofClass _ location => isModule = false ∧
      location.buffer = file.buffer ∧ location.range = node.range file.buffer
  | .ofModule _ location => isModule = true ∧
      location.buffer = file.buffer ∧ location.range = node.range file.buffer

/-- The form of a heading as it is written at a node: with a location that has its parts, and with
type arguments in these type variables. -/
def Form.Written (file : RubyFile) (node : Node) (isModule : Bool) (scope : List String) :
    Form → Prop
  | .ofClass superclass location => isModule = false ∧
      location.Has file.buffer (node.range file.buffer) [.finish, .name, .keyword]
        [.typeParams, .lt] ∧
      ∀ reference, superclass = some reference →
        reference.args = [] ∨ AreWritten file scope reference.args
  | .ofModule selfTypes location => isModule = true ∧
      location.Has file.buffer (node.range file.buffer) [.finish, .name, .keyword]
        [.selfTypes, .colon, .typeParams] ∧ selfTypes = []

theorem Form.Written.lies {isModule : Bool} {scope : List String} {form : Form}
    (written : Form.Written file node isModule scope form) : Form.At file node isModule form := by
  cases form with
  | ofClass superclass location =>
      obtain ⟨kind, has, -⟩ := written
      exact ⟨kind, has.buffer_eq, has.range_eq⟩
  | ofModule selfTypes location =>
      obtain ⟨kind, has, -⟩ := written
      exact ⟨kind, has.buffer_eq, has.range_eq⟩

theorem quiet_classForm (node name : Node) (block : LeadingBlock) (typeParams : List TypeParam) :
    Quiet (classForm file node name block typeParams)
      (Form.Written file node false (TypeParam.names typeParams)) := by
  refine (quiet_superclassOf node _).bind fun ⟨mark, superclass⟩ args => ?_
  refine Adds.located.bind fun location found => .pure ⟨rfl, ?_, args⟩
  refine Location.Builds.bind (.ofRange _ _) (fun location has => ?_) location found
  refine (Location.Builds.required has _ _).bind fun location has => ?_
  refine (Location.Builds.required has _ _).bind fun location has => ?_
  refine (Location.Builds.required has _ _).bind fun location has => ?_
  refine (Location.Builds.optional has _ _).bind fun location has => ?_
  exact .optional has _ _

theorem quiet_moduleForm (node name : Node) (block : LeadingBlock) (scope : List String) :
    Quiet (moduleForm file node name block) (Form.Written file node true scope) := by
  refine Adds.located.bind fun location found => .pure ⟨rfl, ?_, rfl⟩
  refine Location.Builds.bind (.ofRange _ _) (fun location has => ?_) location found
  refine (Location.Builds.required has _ _).bind fun location has => ?_
  refine (Location.Builds.required has _ _).bind fun location has => ?_
  refine (Location.Builds.required has _ _).bind fun location has => ?_
  refine (Location.Builds.optional has _ _).bind fun location has => ?_
  refine (Location.Builds.optional has _ _).bind fun location has => ?_
  exact .optional has _ _

/-- A heading as it is written at a node. -/
structure Heading.Written (file : RubyFile) (node : Node) (isModule : Bool) (heading : Heading) :
    Prop where
  form : Form.Written file node isModule (TypeParam.names heading.typeParams) heading.form
  typeParams : ∃ block,
    readLeading file.buffer [] (file.comments.leadingBlock node.head.startRow) = .ok block ∧
      ∀ param ∈ heading.typeParams, ∃ location, .generic param location ∈ block.annotations

/-! ## Actions -/

/-- What is done at a node without going into it. -/
inductive Action where
  | method (modifier : Option Modifier)
  | mixin (kind : MixinKind)
  | attr (kind : AttributeKind)
  | word (parentKind : String)
  | singletonClass

namespace Action

/-- The step of an action. -/
def perform (file : RubyFile) (node : Node) : Action → Step Unit
  | method modifier => visitMethod file node modifier
  | mixin kind => visitMixin file node kind
  | attr kind => visitAttribute file node kind
  | word parentKind => visitIdentifier file parentKind node
  | singletonClass => reportAt file node (.notImplemented .singletonClass)

/-- The members that an action makes. -/
def Makes : Action → Member → Prop
  | method _, .method _ => True
  | mixin kind, .mixin inclusion => inclusion.kind = kind
  | attr kind, .attr accessor => accessor.kind = kind
  | _, _ => False

/-- The section that an action opens. -/
def opened (file : RubyFile) (node : Node) : Action → Option Visibility
  | word parentKind =>
    if bodyKinds.contains parentKind then visibility? (node.string file.buffer) else none
  | _ => none

end Action

/-- The member lies at the node. -/
def Member.At (file : RubyFile) (node : Node) (member : Member) : Prop :=
  member.location.buffer = file.buffer ∧ member.location.range = node.range file.buffer

/-- What is gained by an action at a node. -/
abbrev Action.Kind (file : RubyFile) (node : Node) (action : Action) (member : Member) : Prop :=
  action.Makes member ∧ Member.At file node member

/-- The overloads of a method are decided by the annotations around a node. -/
def AreDecided (file : RubyFile) (scope : List String) (node : Node)
    (overloads : List MethodType) : Prop :=
  ∃ block trailing decision,
    readLeading file.buffer scope (file.comments.leadingBlock node.head.startRow) = .ok block ∧
    (∀ note, trailing = some note →
      ∃ comment, readTrailing file.buffer scope comment = .ok (.assertion note)) ∧
    decideOverloads block.annotations trailing block.isOverride (rubyParams file.buffer node) =
      .ok decision ∧ overloads = decision.overloads

/-- The member is what is written at a node: its types are read in comments there, and its location
has its parts. The keyword of an attribute is the method that is called, if one is named. -/
def Member.Written (file : RubyFile) (scope : List String) (node : Node) : Member → Prop
  | .method definition => AreDecided file scope node definition.overloads ∧
      definition.location.Complete
  | .mixin inclusion => (inclusion.args = [] ∨ AreWritten file scope inclusion.args) ∧
      inclusion.location.Complete
  | .attr accessor => (accessor.type = .untyped ∨ ∃ comment note,
        readTrailing file.buffer scope comment = .ok (.assertion note) ∧
          accessor.type = note.type) ∧
      ((node.child? "method").isSome = true → accessor.location.Complete)
  | .nested _ => False

/-- What is gained by an action at a node, in the type variables in scope there. -/
abbrev Action.Writes (file : RubyFile) (scope : List String) (node : Node) (action : Action)
    (member : Member) : Prop :=
  action.Kind file node member ∧ Member.Written file scope node member

theorem builds_methodLocation (kind : MethodKind) (name : Node) (modifier : Option Modifier) :
    Location.Builds file.buffer (node.range file.buffer) [.name, .keyword]
      [.visibility, .overloading, .kind] (methodLocation file kind node name modifier) := by
  refine Location.Builds.bind (.ofRange _ _) fun location has => ?_
  refine (Location.Builds.required has _ _).bind fun location has => ?_
  refine (Location.Builds.required has _ _).bind fun location has => ?_
  refine (Location.Builds.optional has _ _).bind fun location has => ?_
  refine (Location.Builds.optional has _ _).bind fun location has => ?_
  exact .optional has _ _

/-- The overloads are those that are decided. -/
theorem quiet_settleOverloads (annotations : List Annotation) (trailing : Option TypeAnnotation)
    (overriding : Bool) (params : List RubyParam) :
    Quiet (settleOverloads file annotations trailing overriding params) fun overloads =>
      ∃ decision, decideOverloads annotations trailing overriding params = .ok decision ∧
        overloads = decision.overloads := by
  unfold settleOverloads
  cases decideOverloads annotations trailing overriding params with
  | ok decision =>
      exact (quiet_reportIgnored decision.ignored).bind fun _ _ => .pure ⟨decision, rfl, rfl⟩
  | error error => exact .throw

theorem adds_readMember (frame : OpenDeclaration) (kind : MethodKind) (name : Node)
    (modifier : Option Modifier) : Adds (readMember file frame kind node name modifier)
      (Action.Writes file frame.scope node (.method modifier)) fun _ => True := by
  refine (quiet_leadingOf node _).quiet.bind fun block read => ?_
  split
  · exact .pure trivial
  · refine (quiet_assertionOf node _).quiet.bind fun trailing after => ?_
    refine (quiet_settleOverloads _ _ _ _).quiet.bind fun overloads settled => ?_
    obtain ⟨decision, decided, rfl⟩ := settled
    refine Adds.located.bind fun location found => .addMember ?_
    have has := builds_methodLocation kind name modifier location found
    exact ⟨⟨trivial, has.buffer_eq, has.range_eq⟩,
      ⟨block, trailing, decision, read, after, decided, rfl⟩,
      has.complete (by decide) (by decide)⟩

theorem adds_mixinArguments (scope : List String) (kind : MixinKind) (args : Option WrittenArgs)
    (written : ∀ found, args = some found → AreWritten file scope found.args) :
    Adds ((node.namedChildrenOf "arguments").forM (visitMixinArgument file node kind args))
      (Action.Writes file scope node (.mixin kind)) fun _ => True := by
  refine .forM fun argument _ => ?_
  unfold visitMixinArgument
  split
  · exact (quiet_reportAt _).quiet
  · refine Adds.located.bind fun location made => .addMember ?_
    have has : location.Has file.buffer (node.range file.buffer) [.name] [.args] := by
      refine Location.Builds.bind (.ofRange _ _) (fun location has => ?_) location made
      refine (Location.Builds.required has _ _).bind fun location has => ?_
      exact .optional has _ _
    refine ⟨⟨rfl, has.buffer_eq, has.range_eq⟩, ?_, has.complete (by decide) (by decide)⟩
    cases args with
    | none => exact .inl rfl
    | some found => exact .inr (written found rfl)

theorem adds_attributeArguments (scope : List String) (kind : AttributeKind)
    (assertion : Option TypeAnnotation)
    (read : ∀ note, assertion = some note →
      ∃ comment, readTrailing file.buffer scope comment = .ok (.assertion note)) :
    Adds ((node.namedChildrenOf "arguments").forM (visitAttributeArgument file node kind assertion))
      (Action.Writes file scope node (.attr kind)) fun _ => True := by
  refine .forM fun argument _ => ?_
  unfold visitAttributeArgument
  split
  · exact (quiet_reportAt _).quiet
  · refine Adds.located.bind fun location found => .addMember ?_
    have has : location.Has file.buffer (node.range file.buffer)
        (if (node.child? "method").isSome then [.keyword, .name] else [.name]) [.type] := by
      refine Location.Builds.bind (.ofRange _ _) (fun location has => ?_) location found
      refine (Location.Builds.required has _ _).bind fun location has => ?_
      refine (Location.Builds.optional has _ _).bind fun location has => ?_
      cases node.child? "method" with
      | some keyword => exact .required has _ _
      | none => exact .ok has
    refine ⟨⟨rfl, has.buffer_eq, has.range_eq⟩, ?_, fun named => ?_⟩
    · cases assertion with
      | none => exact .inl rfl
      | some note =>
          obtain ⟨comment, read⟩ := read note rfl
          exact .inr ⟨comment, note, read, rfl⟩
    · rw [if_pos named] at has
      exact has.complete (by decide) (by decide)

/-- A word gains at most a section. -/
theorem gains_visitIdentifier {parentKind : String}
    (ran : (visitIdentifier file parentKind node).run before = (.ok (), after)) :
    before.Gains { opened := Action.opened file node (.word parentKind) } after := by
  unfold visitIdentifier at ran
  simp only [Action.opened]
  split at ran
  · rename_i visibility word
    split at ran
    · rename_i inBody
      obtain ⟨-, rfl⟩ := Prod.mk.inj ran
      rw [if_pos inBody, word]
      exact before.gains_openSection visibility
    · rename_i notInBody
      obtain ⟨-, rfl⟩ := Prod.mk.inj ran
      rw [if_neg notInBody]
      exact .refl before
  · rename_i noWord
    obtain ⟨-, rfl⟩ := Prod.mk.inj ran
    rw [noWord, ite_self]
    exact .refl before

/-- Reading the progress gives it and changes nothing. -/
theorem run_get_bind_eq_ok {rest : Progress → Step α} {value : α}
    (ran : (get >>= rest).run before = (.ok value, after)) :
    (rest before).run before = (.ok value, after) := by
  obtain ⟨_, _, got, ran⟩ := run_bind_eq_ok_iff.1 ran
  obtain ⟨same, rfl⟩ := Prod.mk.inj got
  obtain rfl := Except.ok.inj same
  exact ran

theorem scope_of_stack {frame : OpenDeclaration} {outer : List Frame}
    (stack_eq : before.stack = .known frame :: outer) : before.scope = frame.scope := by
  unfold Progress.scope Progress.current?
  rw [stack_eq]
  rfl

/-- An action that succeeds gains what is written at its node, in the scope of its place, and
perhaps a section. -/
theorem Action.writes (action : Action)
    (ran : (action.perform file node).run before = (.ok (), after)) :
    ∃ members, (∀ member ∈ members, action.Writes file before.scope node member) ∧
      before.Gains { members, opened := action.opened file node } after := by
  cases action with
  | method modifier =>
      -- without a name, an open declaration with a name, or a kind, the method adds no member
      simp only [Action.perform, visitMethod] at ran
      split at ran
      · exact Adds.gained (.pure trivial) ran
      · have ran := run_get_bind_eq_ok ran
        split at ran
        · exact Adds.gained (quiet_reportAt _).quiet ran
        · exact Adds.gained (.pure trivial) ran
        · rename_i frame outer stack_eq
          rw [scope_of_stack stack_eq]
          split at ran
          · exact Adds.gained (quiet_reportAt _).quiet ran
          · exact (adds_readMember frame _ _ modifier).gained ran
  | mixin kind =>
      simp only [Action.perform, visitMixin] at ran
      split at ran
      · have ran := run_get_bind_eq_ok ran
        exact Adds.gained ((quiet_trailingArgs node _).quiet.bind (adds_mixinArguments _ kind)) ran
      · exact (adds_mixinArguments _ kind none nofun).gained ran
  | attr kind =>
      have ran := run_get_bind_eq_ok ran
      refine Adds.gained ((quiet_leadingOf node _).quiet.bind fun block _ => ?_) ran
      split
      · exact .pure trivial
      · refine Adds.bind (.forM fun note _ => .report file _) fun _ _ => ?_
        exact (quiet_assertionOf node _).quiet.bind (adds_attributeArguments _ kind)
  | word parentKind => exact ⟨[], nofun, gains_visitIdentifier ran⟩
  | singletonClass => exact Adds.gained (quiet_reportAt _).quiet ran

/-- An action that succeeds gains members of its kind at its node, and perhaps a section. -/
theorem Action.gains (action : Action)
    (ran : (action.perform file node).run before = (.ok (), after)) :
    ∃ members, (∀ member ∈ members, action.Kind file node member) ∧
      before.Gains { members, opened := action.opened file node } after := by
  obtain ⟨members, all, gains⟩ := action.writes ran
  exact ⟨members, fun member inside => (all member inside).1, gains⟩

/-- What the declaration in progress has after an action and had not before is written at the
node. -/
theorem Action.writes_added (action : Action)
    (ran : (action.perform file node).run before = (.ok (), after)) :
    ∀ member ∈ Progress.added before after, action.Writes file before.scope node member := by
  obtain ⟨members, all, gains⟩ := action.writes ran
  rw [gains.added_eq]
  split
  · exact all
  · exact List.forall_mem_nil _

end Signet.Inline

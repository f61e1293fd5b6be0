import Signet.Inline.Result
import Signet.Proofs.Inline.Gains
import Signet.Proofs.Inline.Steps

/-!
# The history of an extraction

Which nodes the walk reaches is a matter of the tree alone, once the names of classes and modules
are known: `sitesOf` lists what it finds, with the insides of classes and modules in place. A walk
that succeeds has a `History`: at each site, in order, the step that was run there, from the
progress that was made so far (`exists_history`). What the walk gained can be read off the events of
its history (`History.gains`), so whatever holds of extracted declarations follows by induction on
the history, without another look at the walk.
-/

namespace Signet.Inline

open Ruby

variable {α : Type} {file : RubyFile} {before middle after opened inner : Progress} {node : Node}
  {isModule known : Bool} {heading : Heading} {name : TypeName}

/-! ## Names of classes and modules -/

/-- How a class or a module node names what it declares. -/
inductive Naming where
  | headless
  | skipped
  | unnamed
  | named (name : TypeName)

/-- The name of a class or module node: none without a field for it, where the block above says
`skip`, or where the field is no constant path. A block that cannot be read stops the extraction. -/
def namingOf (file : RubyFile) (node : Node) : Naming :=
  match node.child? "name" with
  | none => .headless
  | some nameNode =>
    match readLeading file.buffer [] (file.comments.leadingBlock node.head.startRow) with
    | .error _ => .skipped
    | .ok block =>
      if block.isSkipped then .skipped
      else match nameNode.constantPath? file.buffer with
        | none => .unnamed
        | some name => .named name

/-- What becomes of the node fits its name. -/
def Opening.Fits (file : RubyFile) (node : Node) (isModule : Bool) : Opening → Naming → Prop
  | .headless, .headless => True
  | .skipped, .skipped => True
  | .unnamed, .unnamed => True
  | .declared heading, .named name => heading.name = name ∧ Form.At file node isModule heading.form
  | _, _ => False

/-- A heading that is read is what is written at the node. -/
def Opening.Written (file : RubyFile) (node : Node) (isModule : Bool) : Opening → Prop
  | .declared heading => Heading.Written file node isModule heading
  | _ => True

/-- What becomes of a node fits its name and is what is written there. -/
theorem quiet_openingOf (isModule : Bool) (node : Node) :
    Quiet (openingOf file isModule node) fun opening =>
      opening.Fits file node isModule (namingOf file node) ∧
        opening.Written file node isModule := by
  unfold openingOf namingOf
  cases node.child? "name" with
  | none => exact .pure ⟨trivial, trivial⟩
  | some nameNode =>
      refine (quiet_leadingOf node []).bind fun block read => ?_
      simp only [read]
      by_cases skipped : block.isSkipped = true
      · rw [if_pos skipped, if_pos skipped]
        exact .pure ⟨trivial, trivial⟩
      · rw [if_neg skipped, if_neg skipped]
        cases nameNode.constantPath? file.buffer with
        | none => exact (quiet_reportNonConstant _).bind fun _ _ => .pure ⟨trivial, trivial⟩
        | some name =>
            refine (quiet_genericsOf block).bind fun typeParams annotated => ?_
            cases isModule with
            | true =>
                refine (quiet_moduleForm node nameNode block (TypeParam.names typeParams)).bind ?_
                intro form written
                exact .pure ⟨⟨rfl, written.lies⟩, written, block, read, annotated⟩
            | false =>
                refine (quiet_classForm node nameNode block typeParams).bind ?_
                intro form written
                exact .pure ⟨⟨rfl, written.lies⟩, written, block, read, annotated⟩

/-- Without a field for the name nothing is done. -/
theorem eq_of_openingOf_headless
    (ran : (openingOf file isModule node).run before = (.ok .headless, after)) :
    after = before := by
  unfold openingOf at ran
  cases name? : node.child? "name" with
  | none =>
      rw [name?] at ran
      exact (Prod.mk.inj ran).2.symm
  | some nameNode =>
      -- any other way the value is another one
      have fits := (quiet_openingOf isModule node before .headless after (by
        unfold openingOf
        exact ran)).1.1
      unfold namingOf at fits
      simp only [name?] at fits
      split at fits
      · exact fits.elim
      · split at fits
        · exact fits.elim
        · split at fits <;> exact fits.elim

/-! ## Sites -/

/-- What the walk comes upon, with what is inside a class or a module. -/
inductive Site where
  | act (node : Node) (action : Action)
  | skipped (isModule : Bool) (node : Node)
  | unnamed (isModule : Bool) (node : Node) (inside : List Site)
  | declared (isModule : Bool) (node : Node) (name : TypeName) (inside : List Site)

section Sites

variable (file : RubyFile)

/-- What a call does, inside a module whose name can or cannot be told. -/
def callKindIn (known : Bool) (node : Node) : CallKind :=
  match node.child? "receiver", known, node.child? "method" with
  | none, true, some method => .ofName (method.string file.buffer)
  | _, _, _ => .other

theorem callKind_eq (progress : Progress) (node : Node) :
    callKind file progress node = callKindIn file progress.isKnown node := by
  unfold callKind callKindIn Progress.isKnown
  cases node.child? "receiver" <;> cases progress.current? <;> cases node.child? "method" <;> rfl

/-- The sites of a class or module node, given those of all its children and those of its body. The
body is inside a module whose name can be told if the node has one. -/
def moduleSites (isModule : Bool) (node : Node) (all : List Site) (body : Bool → List Site) :
    List Site :=
  match namingOf file node with
  | .headless => all
  | .skipped => [.skipped isModule node]
  | .unnamed => [.unnamed isModule node (body false)]
  | .named name => [.declared isModule node name (body true)]

mutual

/-- The sites at and below a node, inside a module whose name can or cannot be told. -/
def sitesOf (known : Bool) (parentKind : String) : Node → List Site
  | ⟨head, children⟩ =>
    match head.construct with
    | .classDefinition =>
      moduleSites file false ⟨head, children⟩ (sitesAmong known head.kind children)
        fun known => sitesInBody known head.kind headerFields children
    | .moduleDefinition =>
      moduleSites file true ⟨head, children⟩ (sitesAmong known head.kind children)
        fun known => sitesInBody known head.kind headerFields children
    | .singletonClass => [.act ⟨head, children⟩ .singletonClass]
    | .method | .singletonMethod => [.act ⟨head, children⟩ (.method none)]
    | .call =>
      match callKindIn file known ⟨head, children⟩ with
      | .mixin kind => [.act ⟨head, children⟩ (.mixin kind)]
      | .attr kind => [.act ⟨head, children⟩ (.attr kind)]
      | .modifier visibility =>
        let keyword := Node.child? ⟨head, children⟩ "method"
        sitesInArguments known ⟨visibility, keyword.map (·.range file.buffer)⟩ children
      | .other => sitesAmong known head.kind children
    | .identifier => [.act ⟨head, children⟩ (.word parentKind)]
    | .other => sitesAmong known head.kind children

/-- The sites of the named ones of some nodes. -/
def sitesAmong (known : Bool) (parentKind : String) : List Node → List Site
  | [] => []
  | ⟨head, children⟩ :: nodes =>
    (if head.named then sitesOf known parentKind ⟨head, children⟩ else [])
      ++ sitesAmong known parentKind nodes

/-- The sites of the named ones of some nodes, but for the first one in each header field. -/
def sitesInBody (known : Bool) (parentKind : String) (header : List String) :
    List Node → List Site
  | [] => []
  | ⟨head, children⟩ :: nodes =>
    match head.field.filter header.contains with
    | some field => sitesInBody known parentKind (header.erase field) nodes
    | none =>
      (if head.named then sitesOf known parentKind ⟨head, children⟩ else [])
        ++ sitesInBody known parentKind header nodes

/-- The sites of the arguments of a call that sets a visibility. -/
def sitesInArguments (known : Bool) (modifier : Modifier) : List Node → List Site
  | [] => []
  | ⟨head, children⟩ :: nodes =>
    if head.field = some "arguments" then sitesModified known modifier head.kind children
    else sitesInArguments known modifier nodes

/-- The sites of the named ones of some arguments. The visibility covers definitions. -/
def sitesModified (known : Bool) (modifier : Modifier) (parentKind : String) :
    List Node → List Site
  | [] => []
  | ⟨head, children⟩ :: nodes =>
    (if head.named then
      match head.construct with
      | .method | .singletonMethod => [.act ⟨head, children⟩ (.method (some modifier))]
      | _ => sitesOf known parentKind ⟨head, children⟩
    else []) ++ sitesModified known modifier parentKind nodes

end

end Sites

/-! ## Events -/

/-- What was done at a site: the progress before and after an action, and what was declared or
passed over with what was done inside. -/
inductive Event where
  | act (node : Node) (action : Action) (before after : Progress)
  | unnamed (node : Node) (inside : List Event)
  | declared (node : Node) (heading : Heading) (inside : List Event)

mutual

/-- The members that an event adds to the declaration around it. -/
def Event.members : Event → List Member
  | .act _ _ before after => Progress.added before after
  | .unnamed .. => []
  | .declared _ heading inside => [.nested ⟨heading, membersOf inside⟩]

/-- The members that some events add to the declaration around them. -/
def membersOf : List Event → List Member
  | [] => []
  | event :: events => event.members ++ membersOf events

end

mutual

/-- The results of an event in a context. A declaration is a result by itself if it is not inside
another one. -/
def Event.records (known : Bool) (context : Context) : Event → List Record
  | .act .. => []
  | .unnamed _ inside => recordsOf false context.enterUnknown inside
  | .declared _ heading inside =>
    (if known then [] else [⟨context, ⟨heading, membersOf inside⟩⟩])
      ++ recordsOf true (context.enter (context.qualify heading.name)) inside

/-- The results of some events in a context. -/
def recordsOf (known : Bool) (context : Context) : List Event → List Record
  | [] => []
  | event :: events => event.records known context ++ recordsOf known context events

end

/-- What holds of a declaration and of the results from inside it holds of all its results. -/
theorem forall_records_declared {holds : Declaration → Prop} {context : Context}
    {inside : List Event} (declared : holds ⟨heading, membersOf inside⟩)
    (further : ∀ record ∈ recordsOf true (context.enter (context.qualify heading.name)) inside,
      holds record.declaration) :
    ∀ record ∈ (Event.declared node heading inside).records known context,
      holds record.declaration := by
  refine List.forall_mem_append.2 ⟨?_, further⟩
  split
  · exact nofun
  · exact List.forall_mem_singleton.2 declared

/-- The section that some events leave open in the declaration around them. -/
def openedBy (file : RubyFile) : List Event → Option Visibility
  | [] => none
  | .act node action _ _ :: events => (openedBy file events).or (action.opened file node)
  | _ :: events => openedBy file events

/-- All that some events gain. -/
def gainOf (file : RubyFile) (before : Progress) (events : List Event) : Gain where
  members := membersOf events
  opened := openedBy file events
  records := recordsOf before.isKnown before.context events

/-! ## Going in and coming out -/

namespace Progress

/-- The frame of a declaration that is begun. -/
def frameFor (progress : Progress) (heading : Heading) : OpenDeclaration where
  outer := progress.context
  declaration := ⟨heading, []⟩
  scope := TypeParam.names heading.typeParams
  slot := progress.reserve.2

/-- Goes into a declaration: with a slot for it, unless another declaration is around. -/
def begin (progress : Progress) (heading : Heading) : Progress :=
  progress.reserve.1.enter (.known (progress.frameFor heading))
    (progress.context.enter (progress.context.qualify heading.name))

/-- Comes out of a declaration and hands it over. -/
def conclude (progress : Progress) (outer : Context) : Progress :=
  match progress.stack with
  | .known frame :: _ => (progress.leave outer).finish frame
  | _ => progress.leave outer

/-- What is gained inside a module without a declaration are results. -/
theorem gains_unnamed {gain : Gain}
    (inside : (opened.enter .unknown opened.context.enterUnknown).Gains gain inner) :
    opened.Gains { records := gain.records } (inner.leave opened.context) where
  context_eq := rfl
  stack_eq := by
    show inner.stack.tail = gainTop _ opened.stack
    rw [inside.stack_eq]
    exact (Gains.refl opened).stack_eq
  slots_eq := inside.slots_eq

theorem isKnown_iff (progress : Progress) :
    progress.isKnown = true ↔ ∃ frame, progress.current? = some frame := by
  unfold isKnown
  exact Option.isSome_iff_exists

theorem context_reserve (progress : Progress) : progress.reserve.1.context = progress.context := by
  unfold reserve
  split <;> rfl

theorem reserve_of_known (known : opened.isKnown = true) : opened.reserve = (opened, none) := by
  obtain ⟨frame, current⟩ := opened.isKnown_iff.1 known
  unfold reserve
  rw [current]

theorem reserve_of_not_known (unknown : opened.isKnown = false) :
    opened.reserve =
      ({ opened with slots := opened.slots ++ [none] }, some opened.slots.length) := by
  have current : opened.current? = none := by simpa [isKnown] using unknown
  unfold reserve
  rw [current]

/-- The frame of a declaration keeps what it was begun with. -/
theorem stack_of_begin {gain : Gain} (inside : (opened.begin heading).Gains gain inner) :
    ∃ frame : OpenDeclaration, inner.stack = .known frame :: opened.stack ∧
      frame.outer = opened.context ∧ frame.declaration = ⟨heading, gain.members⟩ ∧
      frame.slot = opened.reserve.2 := by
  refine ⟨(opened.frameFor heading).gain gain, ?_, rfl, rfl, rfl⟩
  rw [inside.stack_eq]
  show _ :: opened.reserve.1.stack = _
  rw [stack_reserve]

/-- A declaration is gained with the members that were gained inside: as a member of the one
around it, or in the slot in front of the results from inside. -/
theorem gains_declared {gain : Gain} (inside : (opened.begin heading).Gains gain inner) :
    opened.Gains
      { members := [.nested ⟨heading, gain.members⟩]
        records := (if opened.isKnown then [] else [⟨opened.context, ⟨heading, gain.members⟩⟩])
          ++ gain.records }
      (inner.conclude opened.context) := by
  obtain ⟨frame, frame_eq, outer_eq, declaration_eq, slot_eq⟩ := stack_of_begin inside
  have slots_eq : inner.slots = opened.reserve.1.slots ++ gain.records.map some := inside.slots_eq
  have stack_eq : (inner.leave opened.context).stack = opened.stack := by
    show inner.stack.tail = opened.stack
    rw [frame_eq]
    rfl
  have concluded : inner.conclude opened.context =
      (inner.leave opened.context).finish frame := by
    unfold conclude
    rw [frame_eq]
  rw [concluded, finish, slot_eq, outer_eq, declaration_eq]
  cases known : opened.isKnown with
  | true =>
      -- the declaration becomes a member of the one around it
      obtain ⟨around, current⟩ := opened.isKnown_iff.1 known
      have still : (inner.leave opened.context).current? = some around := by
        unfold current? at current ⊢
        rw [stack_eq]
        exact current
      rw [reserve_of_known known] at slots_eq ⊢
      dsimp only
      rw [still]
      have gains := (inner.leave opened.context).gains_addMember (.nested ⟨heading, gain.members⟩)
      refine ⟨gains.context_eq, ?_, ?_⟩
      · rw [gains.stack_eq, stack_eq]
        rfl
      · rw [gains.slots_eq]
        show inner.slots ++ [] = _
        rw [slots_eq, List.append_nil]
        rfl
  | false =>
      -- the declaration fills its slot
      rw [reserve_of_not_known known] at slots_eq ⊢
      refine ⟨rfl, ?_, ?_⟩
      · show (inner.leave opened.context).stack = _
        rw [stack_eq, gainTop_of_not_known known]
      · show inner.slots.set _ _ = _
        rw [slots_eq]
        simp

end Progress

/-! ## Histories -/

/-- What was done at some sites, one after the other, from one progress to another. -/
inductive History (file : RubyFile) : List Site → Progress → List Event → Progress → Prop
  | done {progress : Progress} : History file [] progress [] progress
  | act {node : Node} {action : Action} {sites : List Site} {before middle after : Progress}
      {events : List Event} : (action.perform file node).run before = (.ok (), middle) →
      History file sites middle events after →
      History file (.act node action :: sites) before
        (.act node action before middle :: events) after
  | skipped {isModule : Bool} {node : Node} {sites : List Site} {before middle after : Progress}
      {events : List Event} :
      (openingOf file isModule node).run before = (.ok .skipped, middle) →
      History file sites middle events after →
      History file (.skipped isModule node :: sites) before events after
  | unnamed {isModule : Bool} {node : Node} {inside sites : List Site}
      {before opened inner after : Progress} {found events : List Event} :
      (openingOf file isModule node).run before = (.ok .unnamed, opened) →
      History file inside (opened.enter .unknown opened.context.enterUnknown) found inner →
      History file sites (inner.leave opened.context) events after →
      History file (.unnamed isModule node inside :: sites) before
        (.unnamed node found :: events) after
  | declared {isModule : Bool} {node : Node} {name : TypeName} {inside sites : List Site}
      {before opened inner after : Progress} {heading : Heading} {found events : List Event} :
      (openingOf file isModule node).run before = (.ok (.declared heading), opened) →
      heading.name = name → Form.At file node isModule heading.form →
      History file inside (opened.begin heading) found inner →
      History file sites (inner.conclude opened.context) events after →
      History file (.declared isModule node name inside :: sites) before
        (.declared node heading found :: events) after

theorem quiet_gains {step : Step α} {post : α → Prop} (quiet : Quiet step post) {value : α}
    (ran : step.run before = (.ok value, after)) : before.Gains {} after := by
  obtain ⟨-, members, none, gains⟩ := quiet before value after ran
  obtain rfl : members = [] := List.eq_nil_iff_forall_not_mem.2 none
  exact gains

/-- Telling what becomes of a class or module gains nothing. -/
theorem gains_opening {opening : Opening}
    (ran : (openingOf file isModule node).run before = (.ok opening, opened)) :
    before.Gains {} opened :=
  quiet_gains (quiet_openingOf isModule node) ran

namespace History

variable {sites more : List Site} {events further : List Event}

/-- The walk gains what its events gain. -/
theorem gains (history : History file sites before events after) :
    before.Gains (gainOf file before events) after := by
  -- What is gained inside a module is what its events say. Coming out leaves the results of it and,
  -- if the module has a name, one member.
  induction history with
  | done => exact .refl _
  | @act node action sites before middle after events ran rest ih =>
      obtain ⟨members, kind, here⟩ := action.gains ran
      have whole := here.trans ih
      cases known : before.isKnown with
      | true =>
          have added := here.added_eq
          rw [known, if_pos rfl] at added
          simpa [gainOf, Gain.andThen, membersOf, Event.members, openedBy, recordsOf, Event.records,
            added, here.isKnown_eq, here.context_eq] using whole
      | false =>
          refine whole.of_not_known known ?_
          simp [gainOf, Gain.andThen, recordsOf, Event.records, here.isKnown_eq, here.context_eq]
  | @skipped isModule node sites before middle after events ran rest ih =>
      have quiet := gains_opening ran
      simpa [gainOf, Gain.andThen, quiet.isKnown_eq, quiet.context_eq] using quiet.trans ih
  | @unnamed isModule node inside sites before opened inner after found events ran _ _ ih ih' =>
      have quiet := gains_opening ran
      have here := quiet.trans (Progress.gains_unnamed ih)
      have whole := here.trans ih'
      have results :
          (gainOf file (opened.enter .unknown opened.context.enterUnknown) found).records =
            recordsOf false before.context.enterUnknown found := by
        rw [← quiet.context_eq]
        rfl
      rw [results] at whole
      simpa [gainOf, Gain.andThen, membersOf, Event.members, openedBy, recordsOf, Event.records,
        here.isKnown_eq, here.context_eq] using whole
  | @declared isModule node name inside sites before opened inner after heading found events ran
      _ _ _ _ ih ih' =>
      have quiet := gains_opening ran
      have here := quiet.trans (Progress.gains_declared ih)
      have whole := here.trans ih'
      have results : (gainOf file (opened.begin heading) found).records =
          recordsOf true (before.context.enter (before.context.qualify heading.name)) found := by
        rw [← quiet.context_eq]
        rfl
      rw [results] at whole
      simp only [gainOf, here.isKnown_eq, here.context_eq] at whole
      simpa [gainOf, Gain.andThen, membersOf, Event.members, openedBy, recordsOf, Event.records,
        quiet.isKnown_eq, quiet.context_eq] using whole

theorem isKnown_eq (history : History file sites before events after) :
    after.isKnown = before.isKnown := history.gains.isKnown_eq

/-- What was done at some sites from some progress can only be one thing. -/
theorem unique (first : History file sites before events after) {events' : List Event}
    {after' : Progress} (second : History file sites before events' after') :
    events = events' ∧ after = after' := by
  -- The events are told by what was run, and a run from the same progress has one result.
  induction first generalizing events' after' with
  | done =>
      cases second
      exact ⟨rfl, rfl⟩
  | act ran _ ih =>
      cases second with
      | act ran' rest =>
          obtain ⟨-, rfl⟩ := Prod.mk.inj (ran.symm.trans ran')
          obtain ⟨rfl, rfl⟩ := ih rest
          exact ⟨rfl, rfl⟩
  | skipped ran _ ih =>
      cases second with
      | skipped ran' rest =>
          obtain ⟨-, rfl⟩ := Prod.mk.inj (ran.symm.trans ran')
          exact ih rest
  | unnamed ran _ _ ih ih' =>
      cases second with
      | unnamed ran' inside rest =>
          obtain ⟨-, rfl⟩ := Prod.mk.inj (ran.symm.trans ran')
          obtain ⟨rfl, rfl⟩ := ih inside
          obtain ⟨rfl, rfl⟩ := ih' rest
          exact ⟨rfl, rfl⟩
  | declared ran _ _ _ _ ih ih' =>
      cases second with
      | declared ran' _ _ inside rest =>
          obtain ⟨same, rfl⟩ := Prod.mk.inj (ran.symm.trans ran')
          obtain rfl := Opening.declared.inj (Except.ok.inj same)
          obtain ⟨rfl, rfl⟩ := ih inside
          obtain ⟨rfl, rfl⟩ := ih' rest
          exact ⟨rfl, rfl⟩

/-- What holds of what was done at some sites follows from what holds of it further inside and
later. Only the module around and the context matter for it, and coming out of a module brings them
back. -/
theorem induction {motive : Bool → Context → List Site → List Event → Prop}
    (history : History file sites before events after)
    (done : ∀ {known context}, motive known context [] [])
    (act : ∀ {node action before after sites events},
      (action.perform file node).run before = (.ok (), after) →
      motive before.isKnown before.context sites events →
      motive before.isKnown before.context (.act node action :: sites)
        (.act node action before after :: events))
    (skipped : ∀ {isModule node known context sites events},
      motive known context sites events →
      motive known context (.skipped isModule node :: sites) events)
    (unnamed : ∀ {isModule node known context inside found sites events},
      motive false context.enterUnknown inside found → motive known context sites events →
      motive known context (.unnamed isModule node inside :: sites) (.unnamed node found :: events))
    (declared : ∀ {isModule node heading known context inside found sites events},
      Form.At file node isModule heading.form →
      motive true (context.enter (context.qualify heading.name)) inside found →
      motive known context sites events →
      motive known context (.declared isModule node heading.name inside :: sites)
        (.declared node heading found :: events)) :
    motive before.isKnown before.context sites events := by
  induction history with
  | done => exact done
  | @act node action sites before middle after events ran rest ih =>
      obtain ⟨members, -, gains⟩ := action.gains ran
      rw [gains.isKnown_eq, gains.context_eq] at ih
      exact act ran ih
  | @skipped isModule node sites before middle after events ran rest ih =>
      have quiet := gains_opening ran
      rw [quiet.isKnown_eq, quiet.context_eq] at ih
      exact skipped ih
  | @unnamed isModule node inside sites before opened inner after found events ran history _ ih
      ih' =>
      have quiet := gains_opening ran
      have here := (History.unnamed ran history .done).gains
      rw [here.isKnown_eq, here.context_eq] at ih'
      refine unnamed ?_ ih'
      rw [← quiet.context_eq]
      exact ih
  | @declared isModule node name inside sites before opened inner after heading found events ran
      same lies history _ ih ih' =>
      subst same
      have quiet := gains_opening ran
      have here := (History.declared ran rfl lies history .done).gains
      rw [here.isKnown_eq, here.context_eq] at ih'
      refine declared lies ?_ ih'
      rw [← quiet.context_eq]
      exact ih

/-- One history after another. -/
theorem append (first : History file sites before events middle)
    (second : History file more middle further after) :
    History file (sites ++ more) before (events ++ further) after := by
  induction first with
  | done => exact second
  | act ran _ ih => exact .act ran (ih second)
  | skipped ran _ ih => exact .skipped ran (ih second)
  | unnamed ran inside _ _ ih => exact .unnamed ran inside (ih second)
  | declared ran same lies inside _ _ ih => exact .declared ran same lies inside (ih second)

end History

/-! ## Walks have histories -/

/-- A step that succeeds has a history at some sites, which may depend on whether it is in a module
whose name can be told. -/
def Records (file : RubyFile) (sites : Bool → List Site) (step : Step Unit) : Prop :=
  ∀ before after, step.run before = (.ok (), after) →
    ∃ events, History file (sites before.isKnown) before events after

namespace Records

variable {sites more : Bool → List Site} {step next : Step Unit}

theorem done : Records file (fun _ => []) (pure ()) := by
  intro before after ran
  obtain ⟨-, rfl⟩ := Prod.mk.inj ran
  exact ⟨[], .done⟩

theorem act {node : Node} {action : Action} :
    Records file (fun _ => [.act node action]) (action.perform file node) :=
  fun _ _ ran => ⟨_, .act ran .done⟩

/-- One step after another. -/
theorem bind (one : Records file sites step) (two : Records file more next) :
    Records file (fun known => sites known ++ more known) (step >>= fun _ => next) := by
  intro before after ran
  obtain ⟨⟨⟩, middle, first, second⟩ := run_bind_eq_ok_iff.1 ran
  obtain ⟨events, history⟩ := one before middle first
  obtain ⟨further, rest⟩ := two middle after second
  rw [history.isKnown_eq] at rest
  exact ⟨events ++ further, history.append rest⟩

end Records

/-- Running a body inside a module: the body succeeded, and left a frame to come out of. -/
theorem run_within_eq_ok {frame found : Frame} {context : Context} {body : Step Unit}
    (ran : (within frame context body).run before = (.ok found, after)) :
    ∃ inner outer, body.run (before.enter frame context) = (.ok (), inner) ∧
      inner.stack = found :: outer ∧ after = inner.leave before.context := by
  rw [Safe.run_within] at ran
  generalize body.run (before.enter frame context) = outcome at ran
  obtain ⟨result, inner⟩ := outcome
  dsimp only at ran
  cases result with
  | error error => exact nomatch (Prod.mk.inj ran).1
  | ok value =>
      cases stack_eq : inner.stack with
      | nil =>
          rw [stack_eq] at ran
          exact nomatch (Prod.mk.inj ran).1
      | cons top outer =>
          rw [stack_eq] at ran
          obtain ⟨same, rfl⟩ := Prod.mk.inj ran
          obtain rfl := Except.ok.inj same
          exact ⟨inner, outer, rfl, stack_eq, rfl⟩

theorem run_declare_eq_ok {body : Step Unit}
    (ran : (declare heading body).run before = (.ok (), after)) :
    ∃ inner, body.run (before.begin heading) = (.ok (), inner) ∧
      after = inner.conclude before.context := by
  obtain ⟨_, _, got, ran⟩ := run_bind_eq_ok_iff.1 ran
  obtain ⟨value_eq, rfl⟩ := Prod.mk.inj got
  obtain rfl := Except.ok.inj value_eq
  obtain ⟨slot, _, reserved, ran⟩ := run_bind_eq_ok_iff.1 ran
  obtain ⟨value_eq, rfl⟩ := Prod.mk.inj reserved
  obtain rfl := Except.ok.inj value_eq
  obtain ⟨found, left, went, handed⟩ := run_bind_eq_ok_iff.1 ran
  obtain ⟨inner, outer, bodyRan, stack_eq, left_eq⟩ := run_within_eq_ok went
  rw [left_eq] at handed
  refine ⟨inner, bodyRan, ?_⟩
  unfold Progress.conclude
  rw [stack_eq, ← before.context_reserve]
  cases found with
  | known frame => exact (Prod.mk.inj handed).2.symm
  | unknown => exact (Prod.mk.inj handed).2.symm

theorem run_passThrough_eq_ok {body : Step Unit}
    (ran : (passThrough body).run before = (.ok (), after)) :
    ∃ inner, body.run (before.enter .unknown before.context.enterUnknown) = (.ok (), inner) ∧
      after = inner.leave before.context := by
  obtain ⟨_, _, got, ran⟩ := run_bind_eq_ok_iff.1 ran
  obtain ⟨value_eq, rfl⟩ := Prod.mk.inj got
  obtain rfl := Except.ok.inj value_eq
  obtain ⟨found, left, went, handed⟩ := run_bind_eq_ok_iff.1 ran
  obtain ⟨inner, outer, bodyRan, stack_eq, left_eq⟩ := run_within_eq_ok went
  exact ⟨inner, bodyRan, (Prod.mk.inj handed).2.symm.trans left_eq⟩

/-- A class or a module has a history if all of its children and its body have one. -/
theorem records_visitModule {all body : Step Unit} {sites inBody : Bool → List Site}
    (records : Records file sites all) (inside : Records file inBody body) :
    Records file (fun known => moduleSites file isModule node (sites known) inBody)
      (visitModule file isModule node all body) := by
  intro before after ran
  obtain ⟨opening, opened, read, rest⟩ := run_bind_eq_ok_iff.1 ran
  have fits := (quiet_openingOf isModule node before opening opened read).1.1
  unfold moduleSites
  -- The name of the node decides which sites there are, and the opening fits it.
  cases naming : namingOf file node with
  | headless =>
      rw [naming] at fits
      cases opening with
      | headless =>
          obtain rfl := eq_of_openingOf_headless read
          exact records opened after rest
      | _ => exact fits.elim
  | skipped =>
      rw [naming] at fits
      cases opening with
      | skipped =>
          obtain ⟨-, rfl⟩ := Prod.mk.inj rest
          exact ⟨[], .skipped read .done⟩
      | _ => exact fits.elim
  | unnamed =>
      rw [naming] at fits
      cases opening with
      | unnamed =>
          obtain ⟨inner, bodyRan, rfl⟩ := run_passThrough_eq_ok rest
          obtain ⟨events, history⟩ := inside _ inner bodyRan
          exact ⟨_, .unnamed read history .done⟩
      | _ => exact fits.elim
  | named name =>
      rw [naming] at fits
      cases opening with
      | declared heading =>
          obtain ⟨inner, bodyRan, rfl⟩ := run_declare_eq_ok rest
          obtain ⟨events, history⟩ := inside _ inner bodyRan
          exact ⟨_, .declared read fits.1 fits.2 history .done⟩
      | _ => exact fits.elim

-- One statement for each function of the walk, along their common recursion on the tree.
mutual

theorem records_visit (file : RubyFile) (parentKind : String) : ∀ node : Node,
    Records file (fun known => sitesOf file known parentKind node) (visit file parentKind node)
  | ⟨head, children⟩ => by
      have all := records_visitAll file head.kind children
      have body := records_visitBody file head.kind headerFields children
      unfold visit sitesOf
      cases head.construct with
      | classDefinition => exact records_visitModule all body
      | moduleDefinition => exact records_visitModule all body
      | singletonClass => exact .act
      | method => exact .act
      | singletonMethod => exact .act
      | identifier => exact .act
      | other => exact all
      | call =>
          intro before after ran
          -- What a call does depends on the module around it, which is in the progress.
          obtain ⟨_, _, got, ran⟩ := run_bind_eq_ok_iff.1 ran
          obtain ⟨value_eq, rfl⟩ := Prod.mk.inj got
          obtain rfl := Except.ok.inj value_eq
          rw [callKind_eq] at ran
          dsimp only
          cases kind : callKindIn file before.isKnown ⟨head, children⟩ with
          | mixin kind =>
              rw [kind] at ran
              exact Records.act before after ran
          | attr kind =>
              rw [kind] at ran
              exact Records.act before after ran
          | modifier visibility =>
              rw [kind] at ran
              exact records_visitArguments file _ children before after ran
          | other =>
              rw [kind] at ran
              exact all before after ran

theorem records_visitAll (file : RubyFile) (parentKind : String) : ∀ nodes : List Node,
    Records file (fun known => sitesAmong file known parentKind nodes)
      (visitAll file parentKind nodes)
  | [] => .done
  | ⟨head, children⟩ :: nodes => by
      have here := records_visit file parentKind ⟨head, children⟩
      have rest := records_visitAll file parentKind nodes
      unfold visitAll sitesAmong
      cases named : head.named with
      | true => exact here.bind rest
      | false => exact rest

theorem records_visitBody (file : RubyFile) (parentKind : String) (header : List String) :
    ∀ nodes : List Node, Records file (fun known => sitesInBody file known parentKind header nodes)
      (visitBody file parentKind header nodes)
  | [] => .done
  | ⟨head, children⟩ :: nodes => by
      unfold visitBody sitesInBody
      cases head.field.filter header.contains with
      | some field => exact records_visitBody file parentKind (header.erase field) nodes
      | none =>
          have here := records_visit file parentKind ⟨head, children⟩
          have rest := records_visitBody file parentKind header nodes
          cases named : head.named with
          | true => exact here.bind rest
          | false => exact rest

theorem records_visitArguments (file : RubyFile) (modifier : Modifier) : ∀ nodes : List Node,
    Records file (fun known => sitesInArguments file known modifier nodes)
      (visitArguments file modifier nodes)
  | [] => .done
  | ⟨head, children⟩ :: nodes => by
      unfold visitArguments sitesInArguments
      split
      · exact records_visitModified file modifier head.kind children
      · exact records_visitArguments file modifier nodes

theorem records_visitModified (file : RubyFile) (modifier : Modifier) (parentKind : String) :
    ∀ nodes : List Node,
    Records file (fun known => sitesModified file known modifier parentKind nodes)
      (visitModified file modifier parentKind nodes)
  | [] => .done
  | ⟨head, children⟩ :: nodes => by
      have here := records_visit file parentKind ⟨head, children⟩
      have rest := records_visitModified file modifier parentKind nodes
      unfold visitModified sitesModified
      cases named : head.named with
      | true =>
          cases head.construct with
          | method => exact Records.act.bind rest
          | singletonMethod => exact Records.act.bind rest
          | _ => exact here.bind rest
      | false => exact rest

end

/-! ## Results -/

/-- The sites of a file. -/
def sitesOfTree (buffer : Buffer) (root : Node) (options : Options) : List Site :=
  sitesAmong (.ofTree buffer root options) false root.kind root.children

theorem extract_eq_ok_iff {buffer : Buffer} {root : Node} {options : Options}
    {result : InlineResult} : extract buffer root options = .ok result ↔
      ∃ after, (visitAll (.ofTree buffer root options) root.kind root.children).run {} =
          (.ok (), after) ∧
        result = ⟨buffer, after.slots.filterMap id, after.diagnostics⟩ := by
  rw [extract_eq]
  generalize (visitAll (.ofTree buffer root options) root.kind root.children).run {} = found
  obtain ⟨ran, after⟩ := found
  cases ran with
  | ok value =>
      refine ⟨fun same => ⟨after, rfl, (Except.ok.inj same).symm⟩, ?_⟩
      rintro ⟨_, same, rfl⟩
      obtain ⟨-, rfl⟩ := Prod.mk.inj same
      rfl
  | error error =>
      refine ⟨fun same => (nomatch same), ?_⟩
      rintro ⟨_, same, _⟩
      exact nomatch (Prod.mk.inj same).1

/-- An extraction has a history at the sites of the file. Its results are those of the events, and
they are what the slots are filled with. -/
theorem exists_history {buffer : Buffer} {root : Node} {options : Options} {result : InlineResult}
    (extracted : extract buffer root options = .ok result) : ∃ events after,
      (visitAll (.ofTree buffer root options) root.kind root.children).run {} = (.ok (), after) ∧
      History (.ofTree buffer root options) (sitesOfTree buffer root options) {} events after ∧
      result.records = recordsOf false .top events ∧ after.slots = result.records.map some := by
  obtain ⟨after, ran, rfl⟩ := extract_eq_ok_iff.1 extracted
  obtain ⟨events, history⟩ := records_visitAll _ root.kind root.children {} after ran
  have slots_eq : after.slots = [] ++ (recordsOf false .top events).map some :=
    history.gains.slots_eq
  have filled : after.slots.filterMap id = recordsOf false .top events := by
    rw [slots_eq]
    simp
  exact ⟨events, after, ran, history, filled, by rw [filled, slots_eq, List.nil_append]⟩

end Signet.Inline

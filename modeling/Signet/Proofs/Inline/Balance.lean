import Signet.Proofs.Inline.History

/-!
# The walk comes back to where it was

What goes into a module comes out of it again, also where it fails on the way. So wherever a part of
the walk ends, the stack has the frames that it began with, and only the innermost declaration has
more members or another section (`Progress.Balanced`). Nothing that was found before is lost.

The stack and the context go side by side: at every place the walk can come to (`Reachable`), each
frame belongs to the module that the context has at its height (`Progress.Matched`).
-/

namespace Signet.Inline

open Ruby

variable {α β : Type} {file : RubyFile} {node : Node} {before middle after inner : Progress}
  {heading : Heading}

/-! ## Balance -/

/-- From one progress to another the place is the same. The innermost declaration has perhaps more
members at its end and another section, and what was reported or had a slot is still there, in
front of what is new. -/
structure Progress.Balanced (before after : Progress) : Prop where
  context_eq : after.context = before.context
  stack_eq : ∃ gain, after.stack = gainTop gain before.stack
  slots_prefix : before.slots <+: after.slots
  diagnostics_prefix : before.diagnostics <+: after.diagnostics

namespace Progress

/-- What is gained without a diagnostic is balanced. -/
theorem Gains.balanced {gain : Gain} (gains : before.Gains gain after)
    (diagnostics_eq : after.diagnostics = before.diagnostics) : before.Balanced after where
  context_eq := gains.context_eq
  stack_eq := ⟨gain, gains.stack_eq⟩
  slots_prefix := gains.slots_eq ▸ List.prefix_append _ _
  diagnostics_prefix := diagnostics_eq ▸ List.prefix_rfl

namespace Balanced

theorem refl (progress : Progress) : progress.Balanced progress :=
  (Gains.refl progress).balanced rfl

theorem trans (one : before.Balanced middle) (two : middle.Balanced after) :
    before.Balanced after where
  context_eq := two.context_eq.trans one.context_eq
  stack_eq := by
    obtain ⟨gain, first⟩ := one.stack_eq
    obtain ⟨more, second⟩ := two.stack_eq
    exact ⟨gain.andThen more, by rw [second, first, gainTop_gainTop]⟩
  slots_prefix := one.slots_prefix.trans two.slots_prefix
  diagnostics_prefix := one.diagnostics_prefix.trans two.diagnostics_prefix

/-- A diagnostic is reported behind the others, or dropped. -/
theorem report (progress : Progress) (limit : Option Nat) (diagnostic : Diagnostic) :
    progress.Balanced (progress.report limit diagnostic) := by
  obtain ⟨context_eq, stack_eq, slots_prefix, -⟩ := refl progress
  have longer : progress.Balanced
      { progress with diagnostics := progress.diagnostics ++ [diagnostic] } :=
    ⟨context_eq, stack_eq, slots_prefix, List.prefix_append _ _⟩
  unfold Progress.report
  split
  · split
    · exact refl progress
    · exact longer
  · exact longer

theorem diagnostics_updateCurrent (progress : Progress)
    (change : OpenDeclaration → OpenDeclaration) :
    (progress.updateCurrent change).diagnostics = progress.diagnostics := by
  unfold updateCurrent
  split <;> rfl

theorem addMember (progress : Progress) (member : Member) :
    progress.Balanced (progress.addMember member) :=
  (progress.gains_addMember member).balanced (diagnostics_updateCurrent progress _)

theorem openSection (progress : Progress) (visibility : Visibility) :
    progress.Balanced (progress.openSection visibility) :=
  (progress.gains_openSection visibility).balanced (diagnostics_updateCurrent progress _)

/-- Coming out of a module is going back to the frames below it. -/
theorem leave {frame : Frame} {context : Context}
    (inside : (before.enter frame context).Balanced inner) :
    before.Balanced (inner.leave before.context) where
  context_eq := rfl
  stack_eq := by
    obtain ⟨gain, stack_eq⟩ := inside.stack_eq
    refine ⟨{}, ?_⟩
    show inner.stack.tail = _
    rw [stack_eq, tail_gainTop, gainTop_empty]
    rfl
  slots_prefix := inside.slots_prefix
  diagnostics_prefix := inside.diagnostics_prefix

/-- Whether the innermost module has a name that can be told stays the same. -/
theorem isKnown_eq (balanced : before.Balanced after) : after.isKnown = before.isKnown := by
  obtain ⟨gain, stack_eq⟩ := balanced.stack_eq
  unfold isKnown current?
  rw [stack_eq]
  rcases before.stack with _ | ⟨frame | _, outer⟩ <;> rfl

/-- A slot is reserved behind the others. -/
theorem reserve (progress : Progress) : progress.Balanced progress.reserve.1 := by
  unfold Progress.reserve
  split
  · exact refl progress
  · obtain ⟨context_eq, stack_eq, -, diagnostics_prefix⟩ := refl progress
    exact ⟨context_eq, stack_eq, List.prefix_append _ _, diagnostics_prefix⟩

/-- Going into a declaration and failing in it leaves at most its slot, which stays empty. -/
theorem abandon (inside : (before.begin heading).Balanced inner) :
    before.Balanced (inner.leave before.context) := by
  have left := (reserve before).trans (leave inside)
  rwa [context_reserve] at left

/-- A declaration that is handed over becomes a member of the one around it, or fills the slot that
was reserved for it. -/
theorem conclude (inside : (before.begin heading).Balanced inner) :
    before.Balanced (inner.conclude before.context) := by
  have left := abandon inside
  obtain ⟨frame, outer, top, slot_eq⟩ : ∃ frame outer, inner.stack = .known frame :: outer ∧
      frame.slot = before.reserve.2 := by
    obtain ⟨gain, stack_eq⟩ := inside.stack_eq
    exact ⟨_, _, stack_eq, rfl⟩
  unfold Progress.conclude
  rw [top]
  dsimp only
  unfold finish
  rw [slot_eq]
  cases known : before.isKnown with
  | true =>
      rw [reserve_of_known known]
      dsimp only
      have still : (inner.leave before.context).isKnown = true := left.isKnown_eq.trans known
      obtain ⟨around, current⟩ := (isKnown_iff _).1 still
      rw [current]
      exact left.trans (addMember _ _)
  | false =>
      rw [reserve_of_not_known known]
      refine ⟨rfl, left.stack_eq, ?_, left.diagnostics_prefix⟩
      -- the slot is the first one behind those that were there before
      have reserved : before.slots ++ [none] <+: inner.slots := by
        have slots_prefix := inside.slots_prefix
        unfold Progress.begin at slots_prefix
        rwa [reserve_of_not_known known] at slots_prefix
      obtain ⟨new, slots_eq⟩ := reserved
      show before.slots <+: inner.slots.set before.slots.length _
      rw [← slots_eq, List.append_assoc, List.set_append_right _ _ (Nat.le_refl _)]
      exact List.prefix_append _ _

end Balanced

end Progress

/-! ## Steps -/

/-- The step is balanced wherever it starts, whether it succeeds or fails. -/
def Balances (step : Step α) : Prop := ∀ before : Progress, before.Balanced (step.run before).2

namespace Balances

variable {step : Step α}

theorem pure {value : α} : Balances (pure value) := fun before => .refl before

theorem throw {error : InlineError} : Balances (throw error : Step α) := fun before => .refl before

/-- One step after another. If the first fails, the second is not run. -/
theorem bind (first : Balances step) {rest : α → Step β}
    (second : ∀ value, Balances (rest value)) : Balances (step >>= rest) := by
  intro before
  have here := first before
  rw [run_bind]
  rcases ran : step.run before with ⟨error | value, middle⟩ <;> rw [ran] at here
  · exact here
  · exact here.trans (second value middle)

theorem get : Balances (get : Step Progress) := fun before => .refl before

theorem ite {c : Prop} [Decidable c] {other : Step α} (yes : Balances step) (no : Balances other) :
    Balances (if c then step else other) := by
  split
  · exact yes
  · exact no

theorem modify {change : Progress → Progress}
    (balanced : ∀ progress : Progress, progress.Balanced (change progress)) :
    Balances (modify change) := balanced

/-- Something for every element. -/
theorem forM {elements : List α} {each : α → Step Unit}
    (balances : ∀ element, Balances (each element)) : Balances (elements.forM each) := by
  induction elements with
  | nil => exact pure
  | cons element elements ih => exact bind (balances element) fun _ => ih

theorem located {result : Except LocationError α} : Balances (located result) := by
  cases result with
  | ok value => exact pure
  | error error => exact throw

theorem report (diagnostic : Diagnostic) : Balances (report file diagnostic) :=
  modify fun progress => .report progress _ diagnostic

/-- A module is left whether or not its body fails. -/
theorem within {frame : Frame} {context : Context} {body : Step Unit} (balances : Balances body) :
    Balances (within frame context body) := by
  intro before
  rw [Safe.run_within]
  exact .leave (balances _)

end Balances

/-! ## What is done at a node -/

theorem balances_reportIgnored (ignored : List Ignored) : Balances (reportIgnored file ignored) :=
  .forM fun _ => .report _

theorem balances_locate : Balances (locate file node) := .located

theorem balances_reportAt (problem : Problem) : Balances (reportAt file node problem) :=
  balances_locate.bind fun _ => .report _

theorem balances_reportNonConstant (problem : String → Problem) :
    Balances (reportNonConstant file node problem) :=
  balances_locate.bind fun _ => .report _

theorem balances_leadingOf (scope : List String) : Balances (leadingOf file node scope) :=
  Balances.located.bind fun _ => (Balances.forM fun _ => .report _).bind fun _ => .pure

theorem balances_assertionOf (scope : List String) : Balances (assertionOf file node scope) := by
  unfold assertionOf
  refine .ite .pure ?_
  split
  · exact .pure
  · refine Balances.located.bind fun trailing => ?_
    cases trailing with
    | absent | assertion _ => exact .pure
    | invalid diagnostic => exact (Balances.report _).bind fun _ => .pure

theorem balances_trailingArgs (scope : List String) : Balances (trailingArgs file node scope) := by
  unfold trailingArgs
  split
  · exact .pure
  · refine .ite .pure ?_
    refine Balances.located.bind fun location => Balances.located.bind fun type => ?_
    split
    · exact .pure
    · exact .pure
    · exact (Balances.report _).bind fun _ => .pure

theorem balances_genericsOf (block : LeadingBlock) : Balances (genericsOf file block) := by
  refine Balances.bind (.forM fun note => ?_) fun _ => .pure
  cases note with
  | generic _ _ | skip _ => exact .pure
  | _ => exact .report _

theorem balances_superclassOf (scope : List String) : Balances (superclassOf file node scope) := by
  unfold superclassOf
  split
  · exact .pure
  · dsimp only
    split
    · exact .pure
    · split
      · exact (balances_reportNonConstant _).bind fun _ => .pure
      · exact (balances_trailingArgs scope).bind fun _ => balances_locate.bind fun _ => .pure

/-- Reading the head of a class or a module reports at most. -/
theorem balances_openingOf (isModule : Bool) : Balances (openingOf file isModule node) := by
  unfold openingOf
  split
  · exact .pure
  · refine (balances_leadingOf []).bind fun block => .ite .pure ?_
    split
    · exact (balances_reportNonConstant _).bind fun _ => .pure
    · refine (balances_genericsOf block).bind fun typeParams => .ite ?_ ?_
      · exact (Balances.located.bind fun _ => .pure).bind fun _ => .pure
      · refine Balances.bind ?_ fun _ => .pure
        exact (balances_superclassOf _).bind fun _ => Balances.located.bind fun _ => .pure

theorem balances_settleOverloads (annotations : List Annotation)
    (trailing : Option TypeAnnotation) (overriding : Bool) (params : List RubyParam) :
    Balances (settleOverloads file annotations trailing overriding params) := by
  unfold settleOverloads
  cases decideOverloads annotations trailing overriding params with
  | ok decision => exact (balances_reportIgnored decision.ignored).bind fun _ => .pure
  | error error => exact .throw

theorem balances_readMember (frame : OpenDeclaration) (kind : MethodKind) (name : Node)
    (modifier : Option Modifier) : Balances (readMember file frame kind node name modifier) := by
  refine (balances_leadingOf frame.scope).bind fun block => .ite .pure ?_
  refine (balances_assertionOf frame.scope).bind fun trailing => ?_
  refine (balances_settleOverloads _ _ _ _).bind fun overloads => ?_
  exact Balances.located.bind fun location => .modify fun progress => .addMember progress _

theorem balances_visitMethod (modifier : Option Modifier) :
    Balances (visitMethod file node modifier) := by
  unfold visitMethod
  split
  · exact .pure
  · refine Balances.get.bind fun progress => ?_
    split
    · exact balances_reportAt _
    · exact .pure
    · split
      · exact balances_reportAt _
      · exact balances_readMember _ _ _ _

theorem balances_visitMixin (kind : MixinKind) : Balances (visitMixin file node kind) := by
  have each : ∀ args, Balances
      ((node.namedChildrenOf "arguments").forM (visitMixinArgument file node kind args)) := by
    refine fun args => .forM fun argument => ?_
    unfold visitMixinArgument
    split
    · exact balances_reportAt _
    · exact Balances.located.bind fun location => .modify fun progress => .addMember progress _
  simp only [visitMixin]
  split
  · exact Balances.get.bind fun progress => (balances_trailingArgs progress.scope).bind each
  · exact each none

theorem balances_visitAttribute (kind : AttributeKind) :
    Balances (visitAttribute file node kind) := by
  refine Balances.get.bind fun progress => (balances_leadingOf progress.scope).bind fun block => ?_
  refine .ite .pure (.bind (.forM fun note => .report _) fun _ => ?_)
  refine (balances_assertionOf progress.scope).bind fun assertion => .forM fun argument => ?_
  unfold visitAttributeArgument
  split
  · exact balances_reportAt _
  · exact Balances.located.bind fun location => .modify fun progress => .addMember progress _

theorem balances_visitIdentifier (parentKind : String) :
    Balances (visitIdentifier file parentKind node) := by
  unfold visitIdentifier
  split
  · exact .ite (.modify fun progress => .openSection progress _) .pure
  · exact .pure

/-- What is done at a node without going into it is balanced. -/
theorem Action.balances (action : Action) : Balances (action.perform file node) := by
  cases action with
  | method modifier => exact balances_visitMethod modifier
  | mixin kind => exact balances_visitMixin kind
  | attr kind => exact balances_visitAttribute kind
  | word parentKind => exact balances_visitIdentifier parentKind
  | singletonClass => exact balances_reportAt _

/-! ## Going into modules -/

section Bodies

variable {all body : Step Unit}

/-- How a declaration ends: it is handed over if its body succeeds, and abandoned otherwise. -/
theorem run_declare (balances : Balances body) (before : Progress) :
    (declare heading body).run before =
      match body.run (before.begin heading) with
      | (.ok (), inner) => (.ok (), inner.conclude before.context)
      | (.error error, inner) => (.error error, inner.leave before.context) := by
  obtain ⟨gain, stack_eq⟩ := (balances (before.begin heading)).stack_eq
  let frame : Frame := .known (before.frameFor heading)
  let context := before.context.enter (before.context.qualify heading.name)
  show (within frame context body >>= _ : Step Unit).run before.reserve.1 = _
  have entered : before.reserve.1.enter frame context = before.begin heading := rfl
  rw [run_bind, Safe.run_within, entered, Progress.context_reserve]
  rcases ran : body.run (before.begin heading) with ⟨error | ⟨⟨⟩⟩, inner⟩
  · rfl
  · -- the frame on top is still that of the declaration
    rw [ran] at stack_eq
    replace stack_eq : inner.stack = .known _ :: _ := stack_eq
    unfold Progress.conclude
    simp only [stack_eq]
    rfl

theorem balances_declare (balances : Balances body) : Balances (declare heading body) := by
  intro before
  have inside := balances (before.begin heading)
  rw [run_declare balances]
  rcases ran : body.run _ with ⟨error | ⟨⟨⟩⟩, inner⟩ <;> rw [ran] at inside
  · exact .abandon inside
  · exact .conclude inside

theorem balances_passThrough (balances : Balances body) : Balances (passThrough body) :=
  Balances.get.bind fun _ => (Balances.within balances).bind fun _ => .pure

theorem balances_visitModule (isModule : Bool) (balances : Balances all)
    (inside : Balances body) : Balances (visitModule file isModule node all body) := by
  refine (balances_openingOf isModule).bind fun opening => ?_
  cases opening with
  | headless => exact balances
  | skipped => exact .pure
  | unnamed => exact balances_passThrough inside
  | declared heading => exact balances_declare inside

end Bodies

/-! ## The walk -/

-- One statement for each function of the walk, along their common recursion on the tree.
mutual

/-- A visit of a node is balanced: one case for each construct. -/
theorem balances_visit (file : RubyFile) (parentKind : String) :
    ∀ node : Node, Balances (visit file parentKind node)
  | ⟨head, children⟩ => by
      have all := balances_visitAll file head.kind children
      have body := balances_visitBody file head.kind headerFields children
      unfold visit
      cases head.construct with
      | classDefinition => exact balances_visitModule false all body
      | moduleDefinition => exact balances_visitModule true all body
      | singletonClass => exact balances_reportAt _
      | method | singletonMethod => exact balances_visitMethod none
      | identifier => exact balances_visitIdentifier parentKind
      | other => exact all
      | call =>
          refine Balances.get.bind fun progress => ?_
          cases callKind file progress ⟨head, children⟩ with
          | mixin kind => exact balances_visitMixin kind
          | attr kind => exact balances_visitAttribute kind
          | modifier visibility => exact balances_visitArguments file _ children
          | other => exact all

theorem balances_visitAll (file : RubyFile) (parentKind : String) :
    ∀ nodes : List Node, Balances (visitAll file parentKind nodes)
  | [] => .pure
  | ⟨head, children⟩ :: nodes => by
      have rest := balances_visitAll file parentKind nodes
      unfold visitAll
      split
      · exact (balances_visit file parentKind ⟨head, children⟩).bind fun _ => rest
      · exact rest

theorem balances_visitBody (file : RubyFile) (parentKind : String) (header : List String) :
    ∀ nodes : List Node, Balances (visitBody file parentKind header nodes)
  | [] => .pure
  | ⟨head, children⟩ :: nodes => by
      unfold visitBody
      split
      · exact balances_visitBody file parentKind _ nodes
      · have rest := balances_visitBody file parentKind header nodes
        split
        · exact (balances_visit file parentKind ⟨head, children⟩).bind fun _ => rest
        · exact rest

theorem balances_visitArguments (file : RubyFile) (modifier : Modifier) :
    ∀ nodes : List Node, Balances (visitArguments file modifier nodes)
  | [] => .pure
  | ⟨head, children⟩ :: nodes => by
      unfold visitArguments
      split
      · exact balances_visitModified file modifier head.kind children
      · exact balances_visitArguments file modifier nodes

theorem balances_visitModified (file : RubyFile) (modifier : Modifier) (parentKind : String) :
    ∀ nodes : List Node, Balances (visitModified file modifier parentKind nodes)
  | [] => .pure
  | ⟨head, children⟩ :: nodes => by
      have rest := balances_visitModified file modifier parentKind nodes
      unfold visitModified
      split
      · split
        · exact (balances_visitMethod (some modifier)).bind fun _ => rest
        · exact (balances_visitMethod (some modifier)).bind fun _ => rest
        · exact (balances_visit file parentKind ⟨head, children⟩).bind fun _ => rest
      · exact rest

end

/-! ## The stack and the context -/

/-- The frames of a stack and the modules of a context, one by one. A known frame belongs to the
module with the absolute name of its declaration, and what is around it to the context it keeps. -/
inductive Corresponds : List Frame → List Enclosing → Prop
  | top : Corresponds [] []
  | known {frame : OpenDeclaration} {name : TypeName} {stack : List Frame}
      {modules : List Enclosing} :
      name = frame.outer.qualify frame.declaration.name → name.isAbsolute = true →
      frame.outer = ⟨modules⟩ → Corresponds stack modules →
      Corresponds (.known frame :: stack) (.known name :: modules)
  | unknown {stack : List Frame} {modules : List Enclosing} : Corresponds stack modules →
      Corresponds (.unknown :: stack) (.unknown :: modules)

/-- Members and sections do not change which module a frame belongs to. -/
theorem Corresponds.gainTop {stack : List Frame} {modules : List Enclosing}
    (corresponds : Corresponds stack modules) (gain : Gain) :
    Corresponds (gainTop gain stack) modules := by
  cases corresponds with
  | top => exact .top
  | known name_eq absolute outer_eq rest => exact .known name_eq absolute outer_eq rest
  | unknown rest => exact .unknown rest

namespace Progress

/-- The stack and the context correspond. -/
def Matched (progress : Progress) : Prop := Corresponds progress.stack progress.context.modules

theorem Matched.start : Matched {} := .top

/-- Going into a declaration pushes one frame and the module it belongs to. -/
theorem Matched.begin (matched : before.Matched) (heading : Heading) :
    (before.begin heading).Matched := by
  refine .known rfl (before.context.isAbsolute_qualify _) rfl ?_
  show Corresponds before.reserve.1.stack before.context.modules
  rw [stack_reserve]
  exact matched

/-- So does going into a module whose name cannot be told. -/
theorem Matched.enterUnknown (matched : before.Matched) :
    (before.enter .unknown before.context.enterUnknown).Matched := .unknown matched

theorem Balanced.matched (balanced : before.Balanced after) (matched : before.Matched) :
    after.Matched := by
  obtain ⟨gain, stack_eq⟩ := balanced.stack_eq
  unfold Matched
  rw [stack_eq, balanced.context_eq]
  exact Corresponds.gainTop matched _

end Progress

/-! ## Places of the walk -/

/-- A part of the walk. -/
inductive Part where
  | visit (parentKind : String) (node : Node)
  | all (parentKind : String) (nodes : List Node)
  | body (parentKind : String) (header : List String) (nodes : List Node)
  | arguments (modifier : Modifier) (nodes : List Node)
  | modified (modifier : Modifier) (parentKind : String) (nodes : List Node)
  | act (node : Node) (action : Action)
  | opening (isModule : Bool) (node : Node)

namespace Part

/-- The step of a part. -/
def step (file : RubyFile) : Part → Step Unit
  | visit parentKind node => Inline.visit file parentKind node
  | all parentKind nodes => visitAll file parentKind nodes
  | body parentKind header nodes => visitBody file parentKind header nodes
  | arguments modifier nodes => visitArguments file modifier nodes
  | modified modifier parentKind nodes => visitModified file modifier parentKind nodes
  | act node action => action.perform file node
  | opening isModule node => discard (openingOf file isModule node)

theorem balances (part : Part) : Balances (part.step file) := by
  cases part with
  | visit parentKind node => exact balances_visit file parentKind node
  | all parentKind nodes => exact balances_visitAll file parentKind nodes
  | body parentKind header nodes => exact balances_visitBody file parentKind header nodes
  | arguments modifier nodes => exact balances_visitArguments file modifier nodes
  | modified modifier parentKind nodes =>
      exact balances_visitModified file modifier parentKind nodes
  | act node action => exact action.balances
  | opening isModule node => exact (balances_openingOf isModule).bind fun _ => .pure

end Part

/-- The walk can come here: from the start, by parts of it that succeed or fail, and by going into
modules. What it goes into it need not have come out of. -/
inductive Reachable (file : RubyFile) : Progress → Prop
  | start : Reachable file {}
  | after {before : Progress} (part : Part) : Reachable file before →
      Reachable file ((part.step file).run before).2
  | inDeclaration {before : Progress} (heading : Heading) : Reachable file before →
      Reachable file (before.begin heading)
  | inUnknown {before : Progress} : Reachable file before →
      Reachable file (before.enter .unknown before.context.enterUnknown)

/-- Wherever the walk comes, the stack and the context correspond. -/
theorem Reachable.matched (reachable : Reachable file before) : before.Matched := by
  induction reachable with
  | start => exact .start
  | after part _ ih => exact (part.balances _).matched ih
  | inDeclaration heading _ ih => exact ih.begin heading
  | inUnknown _ ih => exact ih.enterUnknown

/-- Wherever the walk comes, inside of any modules, the stack and the context correspond. A visit of
a node leaves it there, whether it succeeds or fails: only the innermost declaration has more
members or another section, and nothing that was found is lost. -/
theorem visit_balanced (reachable : Reachable file before) (parentKind : String) (node : Node) :
    before.Matched ∧
    before.Balanced ((visit file parentKind node).run before).2 ∧
    ((visit file parentKind node).run before).2.Matched := by
  have balanced := balances_visit file parentKind node before
  exact ⟨reachable.matched, balanced, balanced.matched reachable.matched⟩

/-- A class whose method has no range: it would end before it starts. -/
def unplacedMethod : Node :=
  .mk ⟨"class", true, none, ⟨0, 30⟩, 0, 3⟩
    [.mk ⟨"class", false, none, ⟨0, 5⟩, 0, 0⟩ [],
     .mk ⟨"constant", true, some "name", ⟨6, 7⟩, 0, 0⟩ [],
     .mk ⟨"body_statement", true, some "body", ⟨8, 26⟩, 1, 2⟩
       [.mk ⟨"identifier", true, none, ⟨8, 15⟩, 1, 1⟩ [],
        .mk ⟨"method", true, none, ⟨26, 16⟩, 2, 2⟩
          [.mk ⟨"identifier", true, some "name", ⟨20, 21⟩, 2, 2⟩ []]],
     .mk ⟨"end", false, none, ⟨27, 30⟩, 3, 3⟩ []]

/-- In a class `A`, in a module whose name cannot be told, the walk fails inside of a class `D` and
leaves its empty slot behind. -/
theorem visit_balanced_unplacedMethod :
    let file : RubyFile :=
      .ofTree (.ofString "a.rb" "class D\nprivate\ndef e; end\nend\n") unplacedMethod {}
    let inA := ({} : Progress).begin
      { name := ⟨.empty, "A"⟩, form := .ofClass none { buffer := file.buffer, range := ⟨0, 30⟩ } }
    let before := inA.enter .unknown inA.context.enterUnknown
    let outcome := (visit file "body_statement" unplacedMethod).run before
    outcome.1.isOk = false ∧ outcome.2.slots.length = 2 ∧
    Reachable file before ∧ before.Matched ∧ before.Balanced outcome.2 ∧ outcome.2.Matched := by
  intro file inA before outcome
  have reachable : Reachable file before := .inUnknown (.inDeclaration _ .start)
  exact ⟨by decide +kernel, by decide +kernel, reachable, visit_balanced reachable _ _⟩

end Signet.Inline

import Signet.Proofs.Inline.Steps
import Signet.Inline.Result

/-!
# Extraction with a diagnostic limit

Two runs of an extraction, one with a limit on diagnostics and one without, go side by side: where
the second is at some progress, the first is at the same progress with the diagnostics cut off
(`Truncates`). Nothing in the walk looks at the diagnostics, so the two take the same way, and a
limit only cuts off the list at the end (`extract_limited`).
-/

namespace Signet.Inline

open Ruby

variable {α β : Type} {limit : Nat} {file : RubyFile} {node : Node}

/-! ## Cutting off -/

/-- The progress with its first diagnostics only. -/
def Progress.truncate (limit : Nat) (progress : Progress) : Progress :=
  { progress with diagnostics := progress.diagnostics.take limit }

/-- The file with another limit on diagnostics. -/
def RubyFile.withLimit (file : RubyFile) (limit : Option Nat) : RubyFile :=
  { file with options := { file.options with maxDiagnostics := limit } }

namespace Progress

variable (progress : Progress)

theorem updateCurrent_truncate (change : OpenDeclaration → OpenDeclaration) :
    (progress.truncate limit).updateCurrent change =
      (progress.updateCurrent change).truncate limit := by
  obtain ⟨context, stack, slots, diagnostics⟩ := progress
  rcases stack with _ | ⟨frame | _, outer⟩ <;> rfl

theorem finish_truncate (frame : OpenDeclaration) :
    (progress.truncate limit).finish frame = (progress.finish frame).truncate limit := by
  obtain ⟨context, stack, slots, diagnostics⟩ := progress
  unfold finish
  cases frame.slot with
  | some slot => rfl
  | none => rcases stack with _ | ⟨frame | _, outer⟩ <;> rfl

theorem reserve_truncate : (progress.truncate limit).reserve =
    (progress.reserve.1.truncate limit, progress.reserve.2) := by
  obtain ⟨context, stack, slots, diagnostics⟩ := progress
  rcases stack with _ | ⟨frame | _, outer⟩ <;> rfl

/-- Reporting up to a limit is reporting and cutting off. -/
theorem report_truncate (diagnostic : Diagnostic) :
    (progress.truncate limit).report (some limit) diagnostic =
      (progress.report none diagnostic).truncate limit := by
  obtain ⟨context, stack, slots, diagnostics⟩ := progress
  simp only [report, truncate, List.length_take]
  by_cases full : limit ≤ diagnostics.length
  · rw [if_pos (by omega), List.take_append_of_le_length full]
  · rw [if_neg (by omega), List.take_of_length_le (by omega), List.take_of_length_le]
    simp only [List.length_append, List.length_singleton]
    omega

end Progress

/-! ## Runs side by side -/

/-- From a progress that is cut off the first step does what the second does from the whole one, and
arrives where the second arrives, cut off. -/
def Truncates (limit : Nat) (cut whole : Step α) : Prop :=
  ∀ progress : Progress, cut.run (progress.truncate limit) =
    ((whole.run progress).1, (whole.run progress).2.truncate limit)

/-- A step on a file with a limit and on the file without one. -/
abbrev TruncatesOn (limit : Nat) (file : RubyFile) (step : RubyFile → Step α) : Prop :=
  Truncates limit (step (file.withLimit (some limit))) (step (file.withLimit none))

namespace Truncates

variable {cut whole : Step α} {cutRest wholeRest : α → Step β}

theorem pure {value : α} : Truncates limit (pure value) (pure value) := fun _ => rfl

theorem throw {error : InlineError} :
    Truncates limit (throw error : Step α) (throw error : Step α) := fun _ => rfl

/-- One step after another. -/
theorem bind (first : Truncates limit cut whole)
    (rest : ∀ value, Truncates limit (cutRest value) (wholeRest value)) :
    Truncates limit (cut >>= cutRest) (whole >>= wholeRest) := by
  intro progress
  rw [run_bind, run_bind, first progress]
  rcases whole.run progress with ⟨result, middle⟩
  cases result with
  | ok value => exact rest value middle
  | error error => rfl

theorem ite {c : Prop} [Decidable c] {cut' whole' : Step α} (yes : Truncates limit cut whole)
    (no : Truncates limit cut' whole') :
    Truncates limit (if c then cut else cut') (if c then whole else whole') := by
  split
  · exact yes
  · exact no

/-- Nothing that goes on from the progress looks at the diagnostics. -/
theorem get {cutRest wholeRest : Progress → Step β}
    (rest : ∀ progress, Truncates limit (cutRest (progress.truncate limit)) (wholeRest progress)) :
    Truncates limit (get >>= cutRest) (get >>= wholeRest) :=
  fun progress => rest progress progress

theorem modify {change : Progress → Progress}
    (commutes : ∀ progress : Progress,
      change (progress.truncate limit) = (change progress).truncate limit) :
    Truncates limit (modify change) (modify change) := by
  intro progress
  show (Except.ok PUnit.unit, change (progress.truncate limit)) = _
  rw [commutes]
  rfl

/-- Something for every element. -/
theorem forM {elements : List α} {cut whole : α → Step Unit}
    (each : ∀ element, Truncates limit (cut element) (whole element)) :
    Truncates limit (elements.forM cut) (elements.forM whole) := by
  induction elements with
  | nil => exact pure
  | cons element elements ih => exact bind (each element) fun _ => ih

theorem located {result : Except LocationError α} :
    Truncates limit (located result) (located result) := by
  cases result with
  | ok value => exact pure
  | error error => exact throw

/-- A diagnostic beyond the limit is the only thing that the two differ in. -/
theorem report (diagnostic : Diagnostic) : TruncatesOn limit file (report · diagnostic) := by
  intro progress
  show (Except.ok PUnit.unit, (progress.truncate limit).report (some limit) diagnostic) = _
  rw [progress.report_truncate]
  rfl

/-- Going into a module and coming out of it leaves the diagnostics alone. -/
theorem within {frame : Frame} {inner : Context} {cut whole : Step Unit}
    (body : Truncates limit cut whole) :
    Truncates limit (within frame inner cut) (within frame inner whole) := by
  intro progress
  have entered : cut.run ((progress.truncate limit).enter frame inner) = _ :=
    body (progress.enter frame inner)
  rw [Safe.run_within, Safe.run_within, entered]
  rcases whole.run (progress.enter frame inner) with ⟨_ | _, ⟨context, stack, slots, diagnostics⟩⟩
  · rfl
  · cases stack <;> rfl

end Truncates

/-! ## Small steps -/

@[simp] theorem Progress.stack_truncate (progress : Progress) :
    (progress.truncate limit).stack = progress.stack := rfl

@[simp] theorem RubyFile.buffer_withLimit (other : Option Nat) :
    (file.withLimit other).buffer = file.buffer := rfl

@[simp] theorem RubyFile.trailingAssertions_withLimit (other : Option Nat) :
    (file.withLimit other).options.trailingAssertions = file.options.trailingAssertions := rfl

@[simp] theorem trailingComment?_withLimit (other : Option Nat) :
    trailingComment? (file.withLimit other) node = trailingComment? file node := rfl

@[simp] theorem methodKind?_withLimit (other : Option Nat) :
    methodKind? (file.withLimit other) node = methodKind? file node := rfl

@[simp] theorem callKind_withLimit (other : Option Nat) (progress : Progress) :
    callKind (file.withLimit other) progress node = callKind file progress node := rfl

@[simp] theorem callKind_truncate (progress : Progress) :
    callKind file (progress.truncate limit) node = callKind file progress node := rfl

theorem truncates_addMember (member : Member) :
    Truncates limit (modify (·.addMember member)) (modify (·.addMember member)) :=
  .modify fun progress => progress.updateCurrent_truncate _

theorem truncates_reportIgnored (ignored : List Ignored) :
    TruncatesOn limit file (reportIgnored · ignored) :=
  .forM fun _ => .report _

theorem truncates_locate : TruncatesOn limit file (locate · node) := .located

theorem truncates_reportAt (problem : Problem) : TruncatesOn limit file (reportAt · node problem) :=
  truncates_locate.bind fun _ => .report _

theorem truncates_reportNonConstant (problem : String → Problem) :
    TruncatesOn limit file (reportNonConstant · node problem) :=
  truncates_locate.bind fun _ => .report _

theorem truncates_leadingOf (scope : List String) :
    TruncatesOn limit file (leadingOf · node scope) :=
  Truncates.located.bind fun _ => (Truncates.forM fun _ => .report _).bind fun _ => .pure

theorem truncates_assertionOf (scope : List String) :
    TruncatesOn limit file (assertionOf · node scope) := by
  simp only [TruncatesOn, assertionOf, RubyFile.buffer_withLimit,
    RubyFile.trailingAssertions_withLimit, trailingComment?_withLimit]
  refine .ite .pure ?_
  split
  · exact .pure
  · refine Truncates.located.bind fun trailing => ?_
    cases trailing with
    | absent | assertion _ => exact .pure
    | invalid diagnostic => exact (Truncates.report _).bind fun _ => .pure

theorem truncates_trailingArgs (scope : List String) :
    TruncatesOn limit file (trailingArgs · node scope) := by
  simp only [TruncatesOn, trailingArgs, RubyFile.buffer_withLimit, trailingComment?_withLimit]
  split
  · exact .pure
  · refine .ite .pure ?_
    refine Truncates.located.bind fun location => Truncates.located.bind fun type => ?_
    split
    · exact .pure
    · exact .pure
    · exact (Truncates.report _).bind fun _ => .pure

/-! ## Headings -/

theorem truncates_genericsOf (block : LeadingBlock) :
    TruncatesOn limit file (genericsOf · block) := by
  refine Truncates.bind (.forM fun note => ?_) fun _ => .pure
  cases note with
  | generic _ _ | skip _ => exact .pure
  | _ => exact .report _

theorem truncates_superclassOf (scope : List String) :
    TruncatesOn limit file (superclassOf · node scope) := by
  simp only [TruncatesOn, superclassOf, RubyFile.buffer_withLimit]
  split
  · exact .pure
  · split
    · exact .pure
    · split
      · exact (truncates_reportNonConstant _).bind fun _ => .pure
      · refine (truncates_trailingArgs scope).bind fun args => ?_
        exact truncates_locate.bind fun location => .pure

theorem truncates_classForm (name : Node) (block : LeadingBlock) (typeParams : List TypeParam) :
    TruncatesOn limit file (classForm · node name block typeParams) :=
  (truncates_superclassOf _).bind fun _ => Truncates.located.bind fun _ => .pure

theorem truncates_moduleForm (name : Node) (block : LeadingBlock) :
    TruncatesOn limit file (moduleForm · node name block) :=
  Truncates.located.bind fun _ => .pure

theorem truncates_openingOf (isModule : Bool) :
    TruncatesOn limit file (openingOf · isModule node) := by
  simp only [TruncatesOn, openingOf, RubyFile.buffer_withLimit]
  split
  · exact .pure
  · refine (truncates_leadingOf []).bind fun block => ?_
    split
    · exact .pure
    · split
      · exact (truncates_reportNonConstant _).bind fun _ => .pure
      · refine (truncates_genericsOf block).bind fun typeParams => ?_
        split
        · exact (truncates_moduleForm _ block).bind fun _ => .pure
        · exact (truncates_classForm _ block typeParams).bind fun _ => .pure

section Bodies

variable {cut whole : Step Unit}

theorem truncates_declare (heading : Heading) (body : Truncates limit cut whole) :
    Truncates limit (declare heading cut) (declare heading whole) := by
  refine .get fun progress => .bind (fun before => ?_) fun slot => ?_
  · show (Except.ok (before.truncate limit).reserve.2, (before.truncate limit).reserve.1) = _
    rw [before.reserve_truncate]
    rfl
  · refine (Truncates.within body).bind fun frame => ?_
    cases frame with
    | known frame => exact .modify fun after => after.finish_truncate frame
    | unknown => exact .pure

theorem truncates_passThrough (body : Truncates limit cut whole) :
    Truncates limit (passThrough cut) (passThrough whole) :=
  .get fun _ => (Truncates.within body).bind fun _ => .pure

end Bodies

/-! ## Members -/

theorem truncates_settleOverloads (annotations : List Annotation)
    (trailing : Option TypeAnnotation) (overriding : Bool) (params : List RubyParam) :
    TruncatesOn limit file (settleOverloads · annotations trailing overriding params) := by
  unfold TruncatesOn settleOverloads
  cases decideOverloads annotations trailing overriding params with
  | ok decision => exact (truncates_reportIgnored decision.ignored).bind fun _ => .pure
  | error error => exact .throw

theorem truncates_readMember (frame : OpenDeclaration) (kind : MethodKind) (name : Node)
    (modifier : Option Modifier) :
    TruncatesOn limit file (readMember · frame kind node name modifier) := by
  refine (truncates_leadingOf frame.scope).bind fun block => .ite .pure ?_
  refine (truncates_assertionOf frame.scope).bind fun trailing => ?_
  refine (truncates_settleOverloads _ _ _ _).bind fun overloads => ?_
  exact Truncates.located.bind fun location => truncates_addMember _

theorem truncates_visitMethod (modifier : Option Modifier) :
    TruncatesOn limit file (visitMethod · node modifier) := by
  simp only [TruncatesOn, visitMethod, RubyFile.buffer_withLimit, methodKind?_withLimit]
  split
  · exact .pure
  · refine .get fun progress => ?_
    rw [Progress.stack_truncate]
    split
    · exact truncates_reportAt _
    · exact .pure
    · split
      · exact truncates_reportAt _
      · exact truncates_readMember _ _ _ _

theorem truncates_visitMixin (kind : MixinKind) :
    TruncatesOn limit file (visitMixin · node kind) := by
  have each : ∀ args, TruncatesOn limit file fun file =>
      (node.namedChildrenOf "arguments").forM (visitMixinArgument file node kind args) := by
    refine fun args => .forM fun argument => ?_
    simp only [visitMixinArgument, RubyFile.buffer_withLimit]
    split
    · exact truncates_reportAt _
    · exact Truncates.located.bind fun location => truncates_addMember _
  simp only [TruncatesOn, visitMixin]
  split
  · exact .get fun progress => (truncates_trailingArgs progress.scope).bind each
  · exact each none

theorem truncates_visitAttribute (kind : AttributeKind) :
    TruncatesOn limit file (visitAttribute · node kind) := by
  refine .get fun progress => (truncates_leadingOf progress.scope).bind fun block => ?_
  refine .ite .pure (.bind (.forM fun note => .report _) fun _ => ?_)
  refine (truncates_assertionOf progress.scope).bind fun assertion => .forM fun argument => ?_
  simp only [visitAttributeArgument, RubyFile.buffer_withLimit]
  split
  · exact truncates_reportAt _
  · exact Truncates.located.bind fun location => truncates_addMember _

theorem truncates_visitIdentifier (parentKind : String) :
    TruncatesOn limit file (visitIdentifier · parentKind node) := by
  simp only [TruncatesOn, visitIdentifier, RubyFile.buffer_withLimit]
  split
  · exact .ite (.modify fun progress => progress.updateCurrent_truncate _) .pure
  · exact .pure

theorem truncates_visitModule {cutAll wholeAll cutBody wholeBody : Step Unit} (isModule : Bool)
    (all : Truncates limit cutAll wholeAll) (body : Truncates limit cutBody wholeBody) :
    Truncates limit (visitModule (file.withLimit (some limit)) isModule node cutAll cutBody)
      (visitModule (file.withLimit none) isModule node wholeAll wholeBody) := by
  refine (truncates_openingOf isModule).bind fun opening => ?_
  cases opening with
  | headless => exact all
  | skipped => exact .pure
  | unnamed => exact truncates_passThrough body
  | declared heading => exact truncates_declare heading body

/-! ## The walk -/

mutual

/-- The limit cuts off what a visit of a node reports: one case for each construct. -/
theorem truncates_visit (limit : Nat) (file : RubyFile) (parentKind : String) :
    ∀ node : Node, TruncatesOn limit file (visit · parentKind node)
  | ⟨head, children⟩ => by
      have all := truncates_visitAll limit file head.kind children
      have body := truncates_visitBody limit file head.kind headerFields children
      simp only [TruncatesOn, visit]
      cases head.construct with
      | classDefinition => exact truncates_visitModule false all body
      | moduleDefinition => exact truncates_visitModule true all body
      | singletonClass => exact truncates_reportAt _
      | method | singletonMethod => exact truncates_visitMethod none
      | identifier => exact truncates_visitIdentifier parentKind
      | other => exact all
      | call =>
          -- what a call is depends on the progress, but not on the diagnostics in it
          refine .get fun progress => ?_
          simp only [callKind_truncate, callKind_withLimit]
          cases callKind file progress ⟨head, children⟩ with
          | mixin kind => exact truncates_visitMixin kind
          | attr kind => exact truncates_visitAttribute kind
          | modifier visibility => exact truncates_visitArguments limit file _ children
          | other => exact all

theorem truncates_visitAll (limit : Nat) (file : RubyFile) (parentKind : String) :
    ∀ nodes : List Node, TruncatesOn limit file (visitAll · parentKind nodes)
  | [] => .pure
  | ⟨head, children⟩ :: nodes => by
      have rest := truncates_visitAll limit file parentKind nodes
      simp only [TruncatesOn, visitAll]
      split
      · exact (truncates_visit limit file parentKind ⟨head, children⟩).bind fun _ => rest
      · exact rest

theorem truncates_visitBody (limit : Nat) (file : RubyFile) (parentKind : String)
    (header : List String) :
    ∀ nodes : List Node, TruncatesOn limit file (visitBody · parentKind header nodes)
  | [] => .pure
  | ⟨head, children⟩ :: nodes => by
      simp only [TruncatesOn, visitBody]
      split
      · exact truncates_visitBody limit file parentKind _ nodes
      · have rest := truncates_visitBody limit file parentKind header nodes
        split
        · exact (truncates_visit limit file parentKind ⟨head, children⟩).bind fun _ => rest
        · exact rest

theorem truncates_visitArguments (limit : Nat) (file : RubyFile) (modifier : Modifier) :
    ∀ nodes : List Node, TruncatesOn limit file (visitArguments · modifier nodes)
  | [] => .pure
  | ⟨head, children⟩ :: nodes => by
      simp only [TruncatesOn, visitArguments]
      split
      · exact truncates_visitModified limit file modifier head.kind children
      · exact truncates_visitArguments limit file modifier nodes

theorem truncates_visitModified (limit : Nat) (file : RubyFile) (modifier : Modifier)
    (parentKind : String) :
    ∀ nodes : List Node, TruncatesOn limit file (visitModified · modifier parentKind nodes)
  | [] => .pure
  | ⟨head, children⟩ :: nodes => by
      have rest := truncates_visitModified limit file modifier parentKind nodes
      simp only [TruncatesOn, visitModified]
      split
      · split
        · exact (truncates_visitMethod (some modifier)).bind fun _ => rest
        · exact (truncates_visitMethod (some modifier)).bind fun _ => rest
        · exact (truncates_visit limit file parentKind ⟨head, children⟩).bind fun _ => rest
      · exact rest

end

/-- A limit on diagnostics only cuts them off: with it an extraction succeeds or fails as it does
without one, finds the same records, each in the same context, and reports the first diagnostics. -/
theorem extract_limited (buffer : Buffer) (root : Node) (options : Options) (limit : Nat) :
    extract buffer root { options with maxDiagnostics := some limit } =
      (extract buffer root { options with maxDiagnostics := none }).map fun result =>
        { result with diagnostics := result.diagnostics.take limit } := by
  let file (limit : Option Nat) : RubyFile :=
    .ofTree buffer root { options with maxDiagnostics := limit }
  have walked : (visitAll (file (some limit)) root.kind root.children).run {} =
      (((visitAll (file none) root.kind root.children).run {}).1,
        ((visitAll (file none) root.kind root.children).run {}).2.truncate limit) := by
    have start : ({} : Progress).truncate limit = {} := by simp [Progress.truncate]
    have walked := truncates_visitAll limit (.ofTree buffer root options) root.kind root.children {}
    rw [start] at walked
    exact walked
  rw [extract_eq, extract_eq, walked]
  generalize (visitAll (file none) root.kind root.children).run {} = found
  obtain ⟨result, after⟩ := found
  cases result <;> rfl

end Signet.Inline

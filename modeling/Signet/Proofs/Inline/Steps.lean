import Signet.Inline.Result
import Signet.Proofs.Inline.Annotations
import Signet.Proofs.Inline.Gains

/-!
# Steps that succeed

A step is *safe* if it succeeds wherever it starts, leaves the stack as high as it was and reports
nothing but genuine diagnostics. Safe steps in a row are safe (`Safe.bind`), and so is a safe body
inside a module (`Safe.within`): it leaves the frame that was put on the stack for it.
-/

namespace Signet.Inline

variable {α β : Type}

/-- Everything that was reported is genuine. -/
def Progress.Genuine (progress : Progress) : Prop :=
  ∀ diagnostic ∈ progress.diagnostics, diagnostic.Genuine

/-- The step succeeds with a value of some property. It leaves the height of the stack and the
genuineness of the diagnostics alone. -/
def Safe (step : Step α) (post : α → Prop) : Prop :=
  ∀ progress : Progress, progress.Genuine → ∃ value next, step.run progress = (.ok value, next) ∧
    next.Genuine ∧ next.stack.length = progress.stack.length ∧ post value

/-- The step succeeds. -/
abbrev Safely (step : Step Unit) : Prop := Safe step fun _ => True

namespace Safe

variable {step : Step α} {post : α → Prop} {last : β → Prop}

/-- What holds of the value may be weakened. -/
theorem imp {other : α → Prop} (safe : Safe step post)
    (implies : ∀ value, post value → other value) :
    Safe step other := by
  intro progress genuine
  obtain ⟨value, next, ran, genuine, height, holds⟩ := safe progress genuine
  exact ⟨value, next, ran, genuine, height, implies value holds⟩

theorem pure {value : α} (holds : post value) : Safe (pure value : Step α) post :=
  fun progress genuine => ⟨value, progress, rfl, genuine, rfl, holds⟩

/-- One safe step after another. -/
theorem bind (safe : Safe step post) {rest : α → Step β}
    (after : ∀ value, post value → Safe (rest value) last) : Safe (step >>= rest) last := by
  intro progress genuine
  obtain ⟨value, middle, first, genuine, height, holds⟩ := safe progress genuine
  obtain ⟨result, next, second, genuine, height', holds⟩ := after value holds middle genuine
  refine ⟨result, next, ?_, genuine, height'.trans height, holds⟩
  rw [run_bind, first]
  exact second

theorem get : Safe (get : Step Progress) fun _ => True :=
  fun progress genuine => ⟨progress, progress, rfl, genuine, rfl, trivial⟩

/-- A change of the progress that keeps the diagnostics and the height of the stack. -/
theorem modify {change : Progress → Progress}
    (diagnostics : ∀ progress, (change progress).diagnostics = progress.diagnostics)
    (height : ∀ progress, (change progress).stack.length = progress.stack.length) :
    Safely (modify change) := by
  intro progress genuine
  refine ⟨⟨⟩, change progress, rfl, ?_, height progress, trivial⟩
  intro diagnostic member
  rw [diagnostics progress] at member
  exact genuine diagnostic member

/-- Something for every element. -/
theorem forM {elements : List α} {each : α → Step Unit}
    (safe : ∀ element ∈ elements, Safely (each element)) : Safely (elements.forM each) := by
  induction elements with
  | nil => exact pure trivial
  | cons element elements ih =>
      refine bind (safe element List.mem_cons_self) fun _ _ => ?_
      exact ih fun other member => safe other (List.mem_cons_of_mem _ member)

/-- A location that exists. -/
theorem located {result : Except LocationError α} {value : α} (found : result = .ok value) :
    Safe (located result) (· = value) := by
  rw [found]
  exact pure rfl

/-- A genuine diagnostic may be reported. -/
theorem report (file : RubyFile) {diagnostic : Diagnostic} (isGenuine : diagnostic.Genuine) :
    Safely (report file diagnostic) := by
  intro progress genuine
  refine ⟨⟨⟩, progress.report file.options.maxDiagnostics diagnostic, rfl, ?_, ?_, trivial⟩
  · have longer : ∀ other ∈ progress.diagnostics ++ [diagnostic], other.Genuine := by
      intro other member
      rcases List.mem_append.1 member with member | member
      · exact genuine other member
      · exact List.mem_singleton.1 member ▸ isGenuine
    unfold Progress.report
    split
    · split
      · exact genuine
      · exact longer
    · exact longer
  · unfold Progress.report
    split
    · split <;> rfl
    · rfl

/-- What running a body inside a module does. -/
theorem run_within (frame : Frame) (inner : Context) (body : Step Unit) (progress : Progress) :
    (Inline.within frame inner body).run progress =
      let (result, after) := body.run (progress.enter frame inner)
      (match result, after.stack with
        | .error error, _ => .error error
        | .ok _, frame :: _ => .ok frame
        | .ok _, [] => .error .nestingUnderflow,
      after.leave progress.context) := by
  show StateT.run (Inline.within frame inner body).run progress = _
  simp only [Inline.within, ExceptT.run_mk, StateT.run_bind, StateT.run_get, StateT.run_set,
    pure_bind]
  show Id.run (Bind.bind (ExceptT.run body (progress.enter frame inner)) _) = _
  rcases body.run (progress.enter frame inner) with ⟨result, ⟨context, stack, slots, diagnostics⟩⟩
  cases result with
  | error error => rfl
  | ok value => cases stack <;> rfl

/-- A body that is safe may run inside a module. -/
theorem within {frame : Frame} {inner : Context} {body : Step Unit} (safe : Safely body) :
    Safe (within frame inner body) fun _ => True := by
  intro progress genuine
  obtain ⟨⟨⟩, after, ran, genuine, height, -⟩ := safe (progress.enter frame inner) genuine
  obtain ⟨innermost, outer, stack_eq⟩ : ∃ innermost outer, after.stack = innermost :: outer :=
    List.exists_cons_of_length_eq_add_one height
  refine ⟨innermost, after.leave progress.context, ?_, genuine, ?_, trivial⟩
  · rw [run_within, ran]
    simp [stack_eq]
  · simp [Progress.leave, Progress.enter, stack_eq] at height ⊢
    exact height

end Safe

/-! ## Locations with parts -/

/-- The computation gives a location in a buffer. -/
def Locates {shape : Shape} (buffer : Buffer) (result : Except LocationError (Location shape)) :
    Prop := ∃ location, result = .ok location ∧ location.buffer = buffer

namespace Locates

variable {shape : Shape} {buffer : Buffer} {location : Location shape}

theorem ofRange {range : Range} {rest : Location shape → Except LocationError (Location shape)}
    (fits : buffer.contains range = true)
    (after : ∀ next : Location shape, next.buffer = buffer → Locates buffer (rest next)) :
    Locates buffer (Location.ofRange buffer range >>= rest) := by
  rw [Location.ofRange_eq_ok fits]
  exact after _ rfl

theorem required {range : Range} {rest : Location shape → Except LocationError (Location shape)}
    (same : location.buffer = buffer) (key : RequiredKey) (fits : buffer.contains range = true)
    (after : ∀ next : Location shape, next.buffer = buffer → Locates buffer (rest next)) :
    Locates buffer (location.withRequired key range >>= rest) := by
  rw [Location.withRequired_eq_ok key (same ▸ fits)]
  exact after _ same

theorem lastRequired {range : Range} (same : location.buffer = buffer) (key : RequiredKey)
    (fits : buffer.contains range = true) : Locates buffer (location.withRequired key range) :=
  ⟨_, Location.withRequired_eq_ok key (same ▸ fits), same⟩

theorem optional {range : Option Range}
    {rest : Location shape → Except LocationError (Location shape)}
    (same : location.buffer = buffer) (key : OptionalKey)
    (fits : ∀ present, range = some present → buffer.contains present = true)
    (after : ∀ next : Location shape, next.buffer = buffer → Locates buffer (rest next)) :
    Locates buffer (location.withOptional key range >>= rest) := by
  rw [Location.withOptional_eq_ok key (same ▸ fits)]
  exact after _ same

theorem lastOptional {range : Option Range} (same : location.buffer = buffer) (key : OptionalKey)
    (fits : ∀ present, range = some present → buffer.contains present = true) :
    Locates buffer (location.withOptional key range) :=
  ⟨_, Location.withOptional_eq_ok key (same ▸ fits), same⟩

/-- A location that is computed exists. -/
theorem safe {result : Except LocationError (Location shape)} (locates : Locates buffer result) :
    Safe (located result) fun _ => True := by
  obtain ⟨location, found, -⟩ := locates
  exact (Safe.located found).imp fun _ _ => trivial

end Locates

/-! ## Whole files -/

open Ruby

/-- The file that an extraction reads. -/
def RubyFile.ofTree (buffer : Buffer) (root : Node) (options : Options) : RubyFile where
  buffer
  comments := .ofTree buffer root
  options

/-- An extraction is a walk over the whole file. -/
theorem extract_eq (buffer : Buffer) (root : Node) (options : Options) :
    extract buffer root options =
      ((visitAll (.ofTree buffer root options) root.kind root.children).run {}).1.map fun _ =>
        let after := ((visitAll (.ofTree buffer root options) root.kind root.children).run {}).2
        ⟨buffer, after.slots.filterMap id, after.diagnostics⟩ := rfl

end Signet.Inline

import Signet.Inline.Result
import Signet.Proofs.Inline.Steps
import Signet.Proofs.Ruby.Comments

/-!
# Extraction never fails

Whatever is found in a Ruby file, its declarations are extracted (`extract_succeeds`): diagnostics
leave out what they are about and nothing else. Every step of the walk is safe. The walk recurses
on the tree, so this is an induction on the tree, one case for each construct; what the steps need
to know of the tree is that its nodes are not reversed, that comments are kept under the rows on
which they begin, and that the object of a singleton method stands before its name (`WellPlaced`).
-/

namespace Signet

open Text

namespace Inline

open Ruby

/-! ## Trees -/

/-- What is needed of a node of a tree of some buffer. It holds of every node that lies in the
buffer, with rows that agree with the bytes and parts in source order. -/
structure WellPlaced (buffer : Buffer) (node : Node) : Prop where
  start_le_stop : node.bytes.start ≤ node.bytes.stop
  row_eq : node.head.startRow =
    (buffer.content.take (buffer.charOfByte node.bytes.start)).count '\n'
  object_le_name : node.kind = "singleton_method" → ∀ object name,
    node.child? "object" = some object → node.child? "name" = some name →
      object.bytes.start ≤ name.bytes.start

theorem wellPlaced_iff {buffer : Buffer} {node : Node} : WellPlaced buffer node ↔
    node.bytes.start ≤ node.bytes.stop ∧
      node.head.startRow =
        (buffer.content.take (buffer.charOfByte node.bytes.start)).count '\n' ∧
      (node.kind = "singleton_method" → ∀ object ∈ node.child? "object",
        ∀ name ∈ node.child? "name", object.bytes.start ≤ name.bytes.start) :=
  ⟨fun placed => ⟨placed.start_le_stop, placed.row_eq, fun same object object? name name? =>
      placed.object_le_name same object name object? name?⟩,
    fun ⟨start_le_stop, row_eq, object_le_name⟩ => ⟨start_le_stop, row_eq,
      fun same object name object? name? => object_le_name same object object? name name?⟩⟩

instance {buffer : Buffer} {node : Node} : Decidable (WellPlaced buffer node) :=
  decidable_of_iff' _ wellPlaced_iff

/-- All nodes of some trees are well placed. -/
def AllPlaced (buffer : Buffer) (nodes : List Node) : Prop :=
  ∀ node ∈ Node.preorderAll nodes, WellPlaced buffer node

namespace AllPlaced

variable {buffer : Buffer} {node child : Node} {nodes : List Node} {head : Head}

theorem cons_iff :
    AllPlaced buffer (node :: nodes) ↔
      WellPlaced buffer node ∧ AllPlaced buffer node.children ∧ AllPlaced buffer nodes := by
  obtain ⟨head, children⟩ := node
  simp [AllPlaced, Node.preorderAll, Node.preorder, Node.children, or_imp, forall_and]

theorem of_mem (placed : AllPlaced buffer nodes) (member : node ∈ nodes) :
    WellPlaced buffer node ∧ AllPlaced buffer node.children := by
  induction nodes with
  | nil => simp at member
  | cons first nodes ih =>
      obtain ⟨here, below, rest⟩ := cons_iff.1 placed
      rcases List.mem_cons.1 member with rfl | member
      · exact ⟨here, below⟩
      · exact ih rest member

/-- The first child in a field, and what is below it. -/
theorem of_child? (placed : AllPlaced buffer node.children) {field : String}
    (found : node.child? field = some child) :
    WellPlaced buffer child ∧ AllPlaced buffer child.children :=
  placed.of_mem (List.mem_of_find?_eq_some found)

theorem of_token? (placed : AllPlaced buffer node.children) {kind : String}
    (found : node.token? kind = some child) : WellPlaced buffer child :=
  (placed.of_mem (List.mem_of_find?_eq_some found)).1

/-- The named children in a field. -/
theorem of_namedChildrenOf (placed : AllPlaced buffer node.children) {field : String}
    (member : child ∈ node.namedChildrenOf field) :
    WellPlaced buffer child ∧ AllPlaced buffer child.children := by
  unfold Node.namedChildrenOf at member
  cases found : node.child? field with
  | none => simp [found] at member
  | some parent =>
      have inside : child ∈ parent.namedChildren := by simpa [found] using member
      exact (placed.of_child? found).2.of_mem (List.mem_filter.1 inside).1

end AllPlaced

namespace WellPlaced

variable {buffer : Buffer} {node : Node}

/-- The characters of a node are characters of the buffer. -/
theorem contains (placed : WellPlaced buffer node) : buffer.contains (node.range buffer) = true :=
  (buffer.contains_iff _).2 ⟨charOfByte_mono _ placed.start_le_stop, charOfByte_le ..⟩

/-- A comment node is placed as a line. -/
theorem comment (placed : WellPlaced buffer node) {line : CommentLine}
    (found : CommentLine.ofNode? buffer node = some line) : Placed buffer line := by
  have noted := CommentLine.ofNode?_eq_some_iff.1 found
  refine ⟨noted.head?_text, ?_⟩
  rw [noted.row_eq, CommentLine.range, noted.bytes_eq]
  exact placed.row_eq

end WellPlaced

/-! ## The index of comments -/

/-- All comments of an index are placed. -/
def Indexed (buffer : Buffer) (index : CommentIndex) : Prop :=
  ∀ line ∈ index.lines, Placed buffer line

/-- The comments of a well placed tree are placed. -/
theorem indexed_ofTree {buffer : Buffer} {root : Node}
    (placed : ∀ node ∈ root.preorder, WellPlaced buffer node) :
    Indexed buffer (.ofTree buffer root) := by
  intro line member
  obtain ⟨node, inside, found⟩ := CommentIndex.exists_node_of_mem_ofTree member
  exact (placed node inside).comment found

namespace Indexed

variable {buffer : Buffer} {index : CommentIndex} (indexed : Indexed buffer index)

include indexed

theorem get? {row : Nat} {line : CommentLine} (found : index.get? row = some line) :
    Placed buffer line := indexed line (List.mem_of_find?_eq_some found)

theorem trailing? {row byte : Nat} {line : CommentLine}
    (found : index.trailing? row byte = some line) : Placed buffer line :=
  indexed.get? (Option.filter_eq_some_iff.1 found).1

/-- A leading block has placed comments on successive rows. -/
theorem leadingBlock (row : Nat) :
    (∀ comment ∈ index.leadingBlock row, Placed buffer comment) ∧
      (index.leadingBlock row).Pairwise fun first second => first.row < second.row := by
  have run := index.leadingRun row
  refine ⟨fun comment member => indexed.get? (run.standalone comment member).1, ?_⟩
  have rows : ((index.leadingBlock row).map (·.row)).Pairwise (· < ·) := by
    rw [run.rows_eq]
    exact List.pairwise_lt_range'
  exact List.pairwise_map.1 rows

end Indexed

/-! ## Small steps -/

section Steps

variable {file : RubyFile} {node : Node}

theorem safe_reportIgnored (ignored : List Ignored) : Safely (reportIgnored file ignored) :=
  Safe.forM fun _ _ => Safe.report file fun _ => by simp [Diagnostic.unused, Diagnostic.about]

theorem safe_locate (placed : WellPlaced file.buffer node) :
    Safe (locate file node) fun _ => True :=
  (Safe.located (Location.ofRange_eq_ok placed.contains)).imp fun _ _ => trivial

/-- A problem other than a text that cannot be read may be reported. -/
theorem safe_reportAt (placed : WellPlaced file.buffer node) {problem : Problem}
    (genuine : ∀ fault, problem ≠ .annotationSyntax fault) : Safely (reportAt file node problem) :=
  (safe_locate placed).bind fun _ _ => Safe.report file fun _ => genuine _

theorem safe_reportNonConstant (placed : WellPlaced file.buffer node) {problem : String → Problem}
    (genuine : ∀ source fault, problem source ≠ .annotationSyntax fault) :
    Safely (reportNonConstant file node problem) :=
  (safe_locate placed).bind fun _ _ => Safe.report file fun _ => genuine _ _

variable (indexed : Indexed file.buffer file.comments)

include indexed

/-- The comments above a node are read. -/
theorem safe_leadingOf (node : Node) (scope : List String) :
    Safe (leadingOf file node scope) fun block => block.Sound file.buffer.content := by
  obtain ⟨placed, rows⟩ := indexed.leadingBlock node.head.startRow
  obtain ⟨block, read, sound⟩ := readLeading_eq_ok scope placed rows
  refine Safe.bind (Safe.located read) ?_
  rintro _ rfl
  refine Safe.bind (Safe.forM fun diagnostic member => ?_) fun _ _ => Safe.pure sound
  exact Safe.report file (sound.genuine diagnostic member)

/-- The type in the comment after a node is read. -/
theorem safe_assertionOf (node : Node) (scope : List String) :
    Safe (assertionOf file node scope) fun found =>
      ∀ note, found = some note → file.buffer.contains note.location.range = true := by
  unfold assertionOf
  split
  · exact Safe.pure (by simp)
  · cases found : trailingComment? file node with
    | none => exact Safe.pure (by simp)
    | some comment =>
        obtain ⟨trailing, read, fits, genuine⟩ := readTrailing_eq_ok scope (indexed.trailing? found)
        refine Safe.bind (Safe.located read) ?_
        rintro trailing rfl
        cases trailing with
        | absent => exact Safe.pure (by simp)
        | assertion note =>
            refine Safe.pure fun other same => ?_
            obtain rfl := Option.some.inj same
            exact fits note rfl
        | invalid diagnostic =>
            exact (Safe.report file (genuine diagnostic rfl)).bind fun _ _ => Safe.pure (by simp)

/-- The type arguments in the comment after a node are read. -/
theorem safe_trailingArgs (node : Node) (scope : List String) :
    Safe (trailingArgs file node scope) fun found =>
      ∀ written, found = some written → file.buffer.contains written.range = true := by
  unfold trailingArgs
  cases found : trailingComment? file node with
  | none => exact Safe.pure (by simp)
  | some comment =>
      have body := (indexed.trailing? found).readFrom_body.contains
      simp only
      split
      · exact Safe.pure (by simp)
      · refine Safe.bind (Safe.located (Location.ofRange_eq_ok body)) fun location _ => ?_
        -- the text of a comment lies in the buffer, so only what is written there can be at fault
        obtain ⟨outcome, read, -, fault⟩ := reads_payload (List.cons_ne_nil _ [])
          (List.forall_mem_singleton.2 body) location
          (fun payload all => readType payload all scope)
          fun payload error => readRange_all_ne_location _ payload _ error
        refine Safe.bind (Safe.located read) ?_
        rintro outcome rfl
        split
        · refine Safe.pure fun written same => ?_
          obtain rfl := Option.some.inj same
          exact body
        · exact Safe.pure (by simp)
        · rename_i diagnostic
          exact (Safe.report file (fault diagnostic rfl)).bind fun _ _ => Safe.pure (by simp)

/-! ## Headings -/

omit indexed in
theorem contains_point {buffer : Buffer} {pos : Nat} (le : pos ≤ buffer.content.length) :
    buffer.contains (.point pos) = true := (buffer.contains_iff _).2 ⟨Nat.le_refl _, le⟩

omit indexed in
theorem contains_keywordRange (below : AllPlaced file.buffer node.children) (keyword : String) :
    file.buffer.contains (keywordRange file node keyword) = true := by
  unfold keywordRange
  split
  · rename_i found
    exact (below.of_token? found).contains
  · exact contains_point (charOfByte_le ..)

omit indexed in
theorem contains_endRange (below : AllPlaced file.buffer node.children) :
    file.buffer.contains (endRange file node) = true := by
  unfold endRange
  split
  · rename_i found
    exact (below.of_token? found).contains
  · exact contains_point (charOfByte_le ..)

omit indexed in
theorem contains_genericsRange {block : LeadingBlock} (sound : block.Sound file.buffer.content)
    {range : Range} (found : genericsRange block = some range) :
    file.buffer.contains range = true := by
  unfold genericsRange at found
  split at found
  · rename_i first last head tail
    obtain rfl := Option.some.inj found
    exact sound.generics.contains head tail
  · simp at found

omit indexed in
theorem safe_genericsOf (block : LeadingBlock) : Safe (genericsOf file block) fun _ => True := by
  refine Safe.bind (Safe.forM fun annotation _ => ?_) fun _ _ => Safe.pure trivial
  have unused : Safely (report file (.unused .notOnDeclaration annotation.location)) :=
    Safe.report file fun _ => by simp [Diagnostic.unused, Diagnostic.about]
  cases annotation with
  | generic param location => exact Safe.pure trivial
  | skip location => exact Safe.pure trivial
  | _ => exact unused

theorem safe_superclassOf (below : AllPlaced file.buffer node.children) (scope : List String) :
    Safe (superclassOf file node scope) fun found =>
      ∀ mark, found.1 = some mark → file.buffer.contains mark = true := by
  unfold superclassOf
  cases clause? : node.child? "superclass" with
  | none => exact Safe.pure (by simp)
  | some clause =>
      have inside := (below.of_child? clause?).2
      -- the mark is a token of the clause, whatever becomes of the superclass behind it
      have mark_fits : ∀ mark, (clause.token? "<").map (·.range file.buffer) = some mark →
          file.buffer.contains mark = true := by
        intro mark found
        obtain ⟨token, token?, rfl⟩ := Option.map_eq_some_iff.1 found
        exact (inside.of_token? token?).contains
      simp only
      split
      · exact Safe.pure mark_fits
      · rename_i expression rest children_eq
        have member : expression ∈ clause.namedChildren := by simp [children_eq]
        have placed := (inside.of_mem (List.mem_filter.1 member).1).1
        split
        · exact (safe_reportNonConstant placed (by simp)).bind fun _ _ => Safe.pure mark_fits
        · refine (safe_trailingArgs indexed clause scope).bind fun args _ => ?_
          exact (safe_locate placed).bind fun location _ => Safe.pure mark_fits

theorem safe_classForm {name : Node} {block : LeadingBlock} (placed : WellPlaced file.buffer node)
    (below : AllPlaced file.buffer node.children) (namePlaced : WellPlaced file.buffer name)
    (sound : block.Sound file.buffer.content) (typeParams : List TypeParam) :
    Safe (classForm file node name block typeParams) fun _ => True := by
  refine (safe_superclassOf indexed below _).bind fun ⟨mark, superclass⟩ mark_fits => ?_
  refine (Locates.safe (?_ : Locates file.buffer _)).bind fun location _ => Safe.pure trivial
  refine .ofRange placed.contains fun location same => ?_
  refine .required same _ (contains_keywordRange below _) fun location same => ?_
  refine .required same _ namePlaced.contains fun location same => ?_
  refine .required same _ (contains_endRange below) fun location same => ?_
  refine .optional same _ mark_fits fun location same => ?_
  exact .lastOptional same _ fun range => contains_genericsRange sound

omit indexed in
theorem safe_moduleForm {name : Node} {block : LeadingBlock} (placed : WellPlaced file.buffer node)
    (below : AllPlaced file.buffer node.children) (namePlaced : WellPlaced file.buffer name)
    (sound : block.Sound file.buffer.content) :
    Safe (moduleForm file node name block) fun _ => True := by
  refine (Locates.safe (?_ : Locates file.buffer _)).bind fun location _ => Safe.pure trivial
  refine .ofRange placed.contains fun location same => ?_
  refine .required same _ (contains_keywordRange below _) fun location same => ?_
  refine .required same _ namePlaced.contains fun location same => ?_
  refine .required same _ (contains_endRange below) fun location same => ?_
  refine .optional same _ (fun range => contains_genericsRange sound) fun location same => ?_
  refine .optional same _ (by simp) fun location same => ?_
  exact .lastOptional same _ (by simp)

theorem safe_openingOf (isModule : Bool) (placed : WellPlaced file.buffer node)
    (below : AllPlaced file.buffer node.children) :
    Safe (openingOf file isModule node) fun _ => True := by
  unfold openingOf
  cases name? : node.child? "name" with
  | none => exact Safe.pure trivial
  | some name =>
      have namePlaced := (below.of_child? name?).1
      refine (safe_leadingOf indexed node []).bind fun block sound => ?_
      split
      · exact Safe.pure trivial
      · split
        · have genuine : ∀ source fault, nameProblem isModule source ≠ .annotationSyntax fault := by
            cases isModule <;> simp [nameProblem]
          exact (safe_reportNonConstant namePlaced genuine).bind fun _ _ => Safe.pure trivial
        · refine (safe_genericsOf block).bind fun typeParams _ => ?_
          simp only
          split
          · exact (safe_moduleForm placed below namePlaced sound).bind fun _ _ => Safe.pure trivial
          · exact (safe_classForm indexed placed below namePlaced sound typeParams).bind
              fun _ _ => Safe.pure trivial

omit indexed

/-- Changing the declaration in progress leaves the height of the stack alone. -/
theorem length_updateCurrent (progress : Progress) (change : OpenDeclaration → OpenDeclaration) :
    (progress.updateCurrent change).stack.length = progress.stack.length := by
  unfold Progress.updateCurrent
  split
  · rename_i stack_eq
    simp [stack_eq]
  · rfl

theorem diagnostics_updateCurrent (progress : Progress)
    (change : OpenDeclaration → OpenDeclaration) :
    (progress.updateCurrent change).diagnostics = progress.diagnostics := by
  unfold Progress.updateCurrent
  split <;> rfl

theorem safe_addMember (member : Member) : Safely (modify (·.addMember member)) :=
  Safe.modify (fun progress => diagnostics_updateCurrent progress _)
    fun progress => length_updateCurrent progress _

theorem safe_finish (frame : OpenDeclaration) : Safely (modify (·.finish frame)) := by
  refine Safe.modify (fun progress => ?_) fun progress => ?_
  · simp only [Progress.finish]
    split
    · rfl
    · split
      · exact diagnostics_updateCurrent progress _
      · rfl
  · simp only [Progress.finish]
    split
    · rfl
    · split
      · exact length_updateCurrent progress _
      · rfl

theorem safe_reserve : Safe (modifyGet fun progress =>
    let (progress, slot) := Progress.reserve progress
    (slot, progress)) fun _ => True := by
  intro progress genuine
  refine ⟨progress.reserve.2, progress.reserve.1, rfl, ?_, by rw [progress.stack_reserve], trivial⟩
  unfold Progress.reserve
  split <;> exact genuine

/-- A declaration may be made around a safe body. -/
theorem safe_declare (heading : Heading) {body : Step Unit} (safe : Safely body) :
    Safely (declare heading body) := by
  refine Safe.get.bind fun progress _ => ?_
  refine safe_reserve.bind fun slot _ => ?_
  refine (Safe.within safe).bind fun frame _ => ?_
  cases frame with
  | known frame => exact safe_finish frame
  | unknown => exact Safe.pure trivial

theorem safe_passThrough {body : Step Unit} (safe : Safely body) : Safely (passThrough body) := by
  refine Safe.get.bind fun progress _ => ?_
  exact (Safe.within safe).bind fun _ _ => Safe.pure trivial

include indexed in
/-- A class or a module may be visited if its children and its body may. -/
theorem safe_visitModule (isModule : Bool) (placed : WellPlaced file.buffer node)
    (below : AllPlaced file.buffer node.children) {all body : Step Unit} (safeAll : Safely all)
    (safeBody : Safely body) : Safely (visitModule file isModule node all body) := by
  refine (safe_openingOf indexed isModule placed below).bind fun opening _ => ?_
  cases opening with
  | headless => exact safeAll
  | skipped => exact Safe.pure trivial
  | unnamed => exact safe_passThrough safeBody
  | declared heading => exact safe_declare heading safeBody

/-! ## Members -/

/-- A trailing annotation is dropped before it could meet one of the result above the method. -/
theorem combineResults_usableTrailing (sorted : Sorted) (trailing : Option TypeAnnotation) :
    ∃ result, combineResults sorted.result (usableTrailing sorted trailing).1 = .ok result := by
  cases result_eq : sorted.result with
  | none => exact ⟨_, rfl⟩
  | some note => cases trailing <;> exact ⟨_, by simp [usableTrailing, result_eq]; rfl⟩

theorem decideByParts_eq {sorted : Sorted} {trailing result : Option TypeAnnotation}
    (combined : combineResults sorted.result (usableTrailing sorted trailing).1 = .ok result)
    (params : List RubyParam) : decideByParts sorted trailing params = .ok (
      let (type, unused) := draftType params sorted.params result
      if sorted.params.isEmpty && result.isNone then
        ⟨[.untyped], (usableTrailing sorted trailing).2⟩
      else ⟨[type], (usableTrailing sorted trailing).2 ++ unused⟩) := by
  simp only [decideByParts, combined, bind, Except.bind]
  split <;> rfl

/-- The overloads of a method are always decided. -/
theorem decideOverloads_eq_ok (annotations : List Annotation) (trailing : Option TypeAnnotation)
    (overriding : Bool) (params : List RubyParam) :
    ∃ decision, decideOverloads annotations trailing overriding params = .ok decision := by
  simp only [decideOverloads]
  split
  · exact ⟨_, rfl⟩
  · split
    · exact ⟨_, rfl⟩
    · obtain ⟨result, combined⟩ :=
        combineResults_usableTrailing (Sorted.ofAnnotations annotations) trailing
      exact ⟨_, decideByParts_eq combined params⟩

theorem safe_settleOverloads (annotations : List Annotation) (trailing : Option TypeAnnotation)
    (overriding : Bool) (params : List RubyParam) :
    Safe (settleOverloads file annotations trailing overriding params) fun _ => True := by
  obtain ⟨decision, decided⟩ := decideOverloads_eq_ok annotations trailing overriding params
  rw [settleOverloads, decided]
  exact (safe_reportIgnored decision.ignored).bind fun _ _ => Safe.pure trivial

theorem contains_methodKindRange {kind : MethodKind} {name : Node}
    (placed : WellPlaced file.buffer node) (kind_eq : methodKind? file node = some kind)
    (name? : node.child? "name" = some name) {range : Range}
    (found : methodKindRange file kind node name = some range) :
    file.buffer.contains range = true := by
  unfold methodKindRange at found
  cases kind with
  | ofInstance => simp at found
  | _ =>
      obtain ⟨object, object?, rfl⟩ := Option.map_eq_some_iff.1 found
      have singleton : node.kind = "singleton_method" := by
        unfold methodKind? at kind_eq
        split at kind_eq
        · assumption
        · simp at kind_eq
      -- the range reaches from the object to the name, so the object has to stand first
      have := placed.object_le_name singleton object name object? name?
      exact (file.buffer.contains_iff _).2 ⟨charOfByte_mono _ this, charOfByte_le ..⟩

/-- A visibility is written in a range that fits, if it is written before a definition. -/
def ModifierFits (buffer : Buffer) (modifier : Option Modifier) : Prop :=
  ∀ range, modifier.bind (·.range) = some range → buffer.contains range = true

theorem locates_method {kind : MethodKind} {name : Node} {modifier : Option Modifier}
    (placed : WellPlaced file.buffer node) (below : AllPlaced file.buffer node.children)
    (kind_eq : methodKind? file node = some kind) (name? : node.child? "name" = some name)
    (fits : ModifierFits file.buffer modifier) :
    Locates file.buffer (methodLocation file kind node name modifier) := by
  refine .ofRange placed.contains fun location same => ?_
  refine .required same _ (contains_keywordRange below _) fun location same => ?_
  refine .required same _ (below.of_child? name?).1.contains fun location same => ?_
  refine .optional same _ (fun range => contains_methodKindRange placed kind_eq name?)
    fun location same => ?_
  refine .optional same _ (by simp) fun location same => ?_
  exact .lastOptional same _ fits

include indexed

theorem safe_readMember {kind : MethodKind} {name : Node} {modifier : Option Modifier}
    (frame : OpenDeclaration) (placed : WellPlaced file.buffer node)
    (below : AllPlaced file.buffer node.children) (kind_eq : methodKind? file node = some kind)
    (name? : node.child? "name" = some name) (fits : ModifierFits file.buffer modifier) :
    Safely (readMember file frame kind node name modifier) := by
  refine (safe_leadingOf indexed node _).bind fun block _ => ?_
  split
  · exact Safe.pure trivial
  · refine (safe_assertionOf indexed node _).bind fun trailing _ => ?_
    refine (safe_settleOverloads _ _ _ _).bind fun overloads _ => ?_
    refine (locates_method placed below kind_eq name? fits).safe.bind fun location _ => ?_
    exact safe_addMember _

/-- A method definition may be visited. -/
theorem safe_visitMethod {modifier : Option Modifier} (placed : WellPlaced file.buffer node)
    (below : AllPlaced file.buffer node.children) (fits : ModifierFits file.buffer modifier) :
    Safely (visitMethod file node modifier) := by
  unfold visitMethod
  cases name? : node.child? "name" with
  | none => exact Safe.pure trivial
  | some name =>
      refine Safe.get.bind fun progress _ => ?_
      split
      · exact safe_reportAt placed (by simp)
      · exact Safe.pure trivial
      · split
        · exact safe_reportAt placed (by simp)
        · rename_i frame _ _ _ kind kind_eq
          exact safe_readMember indexed frame placed below kind_eq name? fits

omit indexed in
theorem safe_visitMixinArgument {args : Option WrittenArgs} {argument : Node} (kind : MixinKind)
    (placed : WellPlaced file.buffer node) (argumentPlaced : WellPlaced file.buffer argument)
    (fits : ∀ written, args = some written → file.buffer.contains written.range = true) :
    Safely (visitMixinArgument file node kind args argument) := by
  unfold visitMixinArgument
  split
  · exact safe_reportAt argumentPlaced (by simp)
  · refine (Locates.safe (?_ : Locates file.buffer _)).bind fun location _ => safe_addMember _
    refine .ofRange placed.contains fun location same => ?_
    refine .required same _ argumentPlaced.contains fun location same => ?_
    refine .lastOptional same _ fun range found => ?_
    obtain ⟨written, args_eq, rfl⟩ := Option.map_eq_some_iff.1 found
    exact fits written args_eq

theorem safe_visitMixin (kind : MixinKind) (placed : WellPlaced file.buffer node)
    (below : AllPlaced file.buffer node.children) : Safely (visitMixin file node kind) := by
  have each : ∀ args : Option WrittenArgs,
      (∀ written, args = some written → file.buffer.contains written.range = true) →
        Safely ((node.namedChildrenOf "arguments").forM (visitMixinArgument file node kind args)) :=
    fun args fits => Safe.forM fun argument member =>
      safe_visitMixinArgument kind placed (below.of_namedChildrenOf member).1 fits
  simp only [visitMixin]
  split
  · refine Safe.get.bind fun progress _ => ?_
    exact (safe_trailingArgs indexed node _).bind each
  · exact each none (by simp)

omit indexed in
theorem safe_visitAttributeArgument {assertion : Option TypeAnnotation} {argument : Node}
    (kind : AttributeKind) (placed : WellPlaced file.buffer node)
    (below : AllPlaced file.buffer node.children) (argumentPlaced : WellPlaced file.buffer argument)
    (fits : ∀ note, assertion = some note → file.buffer.contains note.location.range = true) :
    Safely (visitAttributeArgument file node kind assertion argument) := by
  unfold visitAttributeArgument
  split
  · exact safe_reportAt argumentPlaced (by simp)
  · refine (Locates.safe (?_ : Locates file.buffer _)).bind fun location _ => safe_addMember _
    refine .ofRange placed.contains fun location same => ?_
    refine .required same _ argumentPlaced.contains fun location same => ?_
    refine .optional same _ (fun range found => ?_) fun location same => ?_
    · obtain ⟨note, assertion_eq, rfl⟩ := Option.map_eq_some_iff.1 found
      exact fits note assertion_eq
    · split
      · rename_i keyword keyword?
        exact .lastRequired same _ (below.of_child? keyword?).1.contains
      · exact ⟨location, rfl, same⟩

theorem safe_visitAttribute (kind : AttributeKind) (placed : WellPlaced file.buffer node)
    (below : AllPlaced file.buffer node.children) : Safely (visitAttribute file node kind) := by
  refine Safe.get.bind fun progress _ => ?_
  refine (safe_leadingOf indexed node _).bind fun block _ => ?_
  split
  · exact Safe.pure trivial
  · refine Safe.bind (Safe.forM fun note _ => ?_) fun _ _ => ?_
    · exact Safe.report file fun _ => by simp [Diagnostic.unused, Diagnostic.about]
    · refine (safe_assertionOf indexed node _).bind fun assertion fits => ?_
      exact Safe.forM fun argument member => safe_visitAttributeArgument kind placed below
        (below.of_namedChildrenOf member).1 fits

omit indexed in
theorem safe_visitIdentifier (parentKind : String) :
    Safely (visitIdentifier file parentKind node) := by
  unfold visitIdentifier
  split
  · split
    · exact Safe.modify (fun progress => diagnostics_updateCurrent progress _)
        fun progress => length_updateCurrent progress _
    · exact Safe.pure trivial
  · exact Safe.pure trivial

end Steps

/-! ## The walk -/

section Walk

variable {file : RubyFile}

mutual

/-- Every node may be visited: one case for each construct. -/
theorem safe_visit (indexed : Indexed file.buffer file.comments) (parentKind : String) :
    ∀ node : Node, WellPlaced file.buffer node → AllPlaced file.buffer node.children →
      Safely (visit file parentKind node)
  | ⟨head, children⟩, placed, below => by
      have all := safe_visitAll indexed head.kind children below
      have body := safe_visitBody indexed head.kind headerFields children below
      rw [visit]
      cases head.construct with
      | classDefinition => exact safe_visitModule indexed false placed below all body
      | moduleDefinition => exact safe_visitModule indexed true placed below all body
      | singletonClass => exact safe_reportAt placed (by simp)
      | method => exact safe_visitMethod indexed placed below (by simp [ModifierFits])
      | singletonMethod => exact safe_visitMethod indexed placed below (by simp [ModifierFits])
      | identifier => exact safe_visitIdentifier parentKind
      | other => exact all
      | call =>
          refine Safe.get.bind fun progress _ => ?_
          cases callKind file progress ⟨head, children⟩ with
          | mixin kind => exact safe_visitMixin indexed kind placed below
          | attr kind => exact safe_visitAttribute indexed kind placed below
          | modifier visibility =>
              refine safe_visitArguments indexed _ (fun range found => ?_) children below
              obtain ⟨keyword, keyword?, rfl⟩ := Option.map_eq_some_iff.1 found
              exact (below.of_child? keyword?).1.contains
          | other => exact all

theorem safe_visitAll (indexed : Indexed file.buffer file.comments) (parentKind : String) :
    ∀ nodes : List Node, AllPlaced file.buffer nodes → Safely (visitAll file parentKind nodes)
  | [], _ => Safe.pure trivial
  | ⟨head, children⟩ :: nodes, placed => by
      obtain ⟨here, below, rest⟩ := AllPlaced.cons_iff.1 placed
      have rest := safe_visitAll indexed parentKind nodes rest
      rw [visitAll]
      simp only
      split
      · exact (safe_visit indexed parentKind ⟨head, children⟩ here below).bind fun _ _ => rest
      · exact rest

theorem safe_visitBody (indexed : Indexed file.buffer file.comments) (parentKind : String)
    (header : List String) : ∀ nodes : List Node, AllPlaced file.buffer nodes →
      Safely (visitBody file parentKind header nodes)
  | [], _ => Safe.pure trivial
  | ⟨head, children⟩ :: nodes, placed => by
      obtain ⟨here, below, rest⟩ := AllPlaced.cons_iff.1 placed
      rw [visitBody]
      split
      · exact safe_visitBody indexed parentKind _ nodes rest
      · have rest := safe_visitBody indexed parentKind header nodes rest
        simp only
        split
        · exact (safe_visit indexed parentKind ⟨head, children⟩ here below).bind fun _ _ => rest
        · exact rest

theorem safe_visitArguments (indexed : Indexed file.buffer file.comments) (modifier : Modifier)
    (fits : ModifierFits file.buffer (some modifier)) :
    ∀ nodes : List Node, AllPlaced file.buffer nodes →
      Safely (visitArguments file modifier nodes)
  | [], _ => Safe.pure trivial
  | ⟨head, children⟩ :: nodes, placed => by
      obtain ⟨here, below, rest⟩ := AllPlaced.cons_iff.1 placed
      rw [visitArguments]
      split
      · exact safe_visitModified indexed modifier fits head.kind children below
      · exact safe_visitArguments indexed modifier fits nodes rest

theorem safe_visitModified (indexed : Indexed file.buffer file.comments) (modifier : Modifier)
    (fits : ModifierFits file.buffer (some modifier)) (parentKind : String) :
    ∀ nodes : List Node, AllPlaced file.buffer nodes →
      Safely (visitModified file modifier parentKind nodes)
  | [], _ => Safe.pure trivial
  | ⟨head, children⟩ :: nodes, placed => by
      obtain ⟨here, below, rest⟩ := AllPlaced.cons_iff.1 placed
      have rest := safe_visitModified indexed modifier fits parentKind nodes rest
      rw [visitModified]
      simp only
      split
      · split
        · exact (safe_visitMethod indexed here below fits).bind fun _ _ => rest
        · exact (safe_visitMethod indexed here below fits).bind fun _ _ => rest
        · exact (safe_visit indexed parentKind ⟨head, children⟩ here below).bind fun _ _ => rest
      · exact rest

end

end Walk

/-- Extraction succeeds on every text and every well placed tree, whatever the options are, and
nothing that it reports is about a range that does not exist. -/
theorem extract_succeeds {buffer : Buffer} {root : Node} (options : Options)
    (placed : ∀ node ∈ root.preorder, WellPlaced buffer node) :
    ∃ result, extract buffer root options = .ok result ∧
      ∀ diagnostic ∈ result.diagnostics, diagnostic.Genuine := by
  obtain ⟨head, children⟩ := root
  have indexed := indexed_ofTree placed
  have below : AllPlaced buffer children := fun node member =>
    placed node (List.mem_cons_of_mem _ member)
  have safe : Safely (visitAll (.ofTree buffer ⟨head, children⟩ options) head.kind children) :=
    safe_visitAll indexed head.kind children below
  obtain ⟨⟨⟩, progress, ran, genuine, -⟩ := safe {} (by simp [Progress.Genuine])
  refine ⟨{ buffer, records := progress.slots.filterMap id, diagnostics := progress.diagnostics },
    ?_, genuine⟩
  have ran : (visitAll (.ofTree buffer ⟨head, children⟩ options)
      (Node.mk head children).kind (Node.mk head children).children).run {} = (.ok (), progress) :=
    ran
  rw [extract_eq, ran]
  rfl

/-- A singleton method in a class: above it a line of documentation and an annotation that cannot be
read, behind it an assertion. -/
def assertedText : String := "class A\n  # é\n  # @rbs (B\n  def self.m; end #: A\nend\n"

/-- The tree of the singleton method. -/
def assertedTree : Node :=
  .mk ⟨"program", true, none, ⟨0, 54⟩, 0, 5⟩
    [.mk ⟨"class", true, none, ⟨0, 53⟩, 0, 4⟩
      [.mk ⟨"class", false, none, ⟨0, 5⟩, 0, 0⟩ [],
        .mk ⟨"constant", true, some "name", ⟨6, 7⟩, 0, 0⟩ [],
        .mk ⟨"comment", true, none, ⟨10, 14⟩, 1, 1⟩ [],
        .mk ⟨"comment", true, none, ⟨17, 26⟩, 2, 2⟩ [],
        .mk ⟨"body_statement", true, some "body", ⟨29, 44⟩, 3, 3⟩
          [.mk ⟨"singleton_method", true, none, ⟨29, 44⟩, 3, 3⟩
            [.mk ⟨"def", false, none, ⟨29, 32⟩, 3, 3⟩ [],
              .mk ⟨"self", true, some "object", ⟨33, 37⟩, 3, 3⟩ [],
              .mk ⟨".", false, none, ⟨37, 38⟩, 3, 3⟩ [],
              .mk ⟨"identifier", true, some "name", ⟨38, 39⟩, 3, 3⟩ [],
              .mk ⟨";", false, none, ⟨39, 40⟩, 3, 3⟩ [],
              .mk ⟨"end", false, none, ⟨41, 44⟩, 3, 3⟩ []]],
        .mk ⟨"comment", true, none, ⟨45, 49⟩, 3, 3⟩ [],
        .mk ⟨"end", false, none, ⟨50, 53⟩, 4, 4⟩ []]]

/-- The singleton method is extracted with the type of the assertion and with its documentation; the
annotation is reported. -/
theorem extract_succeeds_asserted :
    (∀ node ∈ assertedTree.preorder, WellPlaced (.ofString "a.rb" assertedText) node) ∧
    ∃ result, extract (.ofString "a.rb" assertedText) assertedTree {} = .ok result ∧
      result.methods.map (fun method => (method.2.name, method.2.comment.map (·.text))) =
        [("m", some "é")] ∧
      result.methods.flatMap (·.2.overloads.map (·.print)) = ["() -> A".toList] ∧
      result.diagnostics.length = 1 ∧
      ∀ diagnostic ∈ result.diagnostics, diagnostic.Genuine := by
  have placed : ∀ node ∈ assertedTree.preorder,
      WellPlaced (.ofString "a.rb" assertedText) node := by
    decide +kernel
  have documented : (extract (.ofString "a.rb" assertedText) assertedTree {}).toOption.map
      (fun result => (result.methods.map fun method =>
          (method.2.name, method.2.comment.map (·.text)), result.diagnostics.length)) =
      some ([("m", some "é")], 1) := by
    decide +kernel
  have typed : (extract (.ofString "a.rb" assertedText) assertedTree {}).toOption.map
      (·.methods.flatMap (·.2.overloads.map (·.print))) = some ["() -> A".toList] := by
    decide +kernel
  obtain ⟨result, extracted, genuine⟩ := extract_succeeds {} placed
  rw [extracted] at documented typed
  obtain ⟨methods_eq, count⟩ := Prod.mk.inj (Option.some.inj documented)
  exact ⟨placed, result, extracted, methods_eq, Option.some.inj typed, count, genuine⟩

end Inline

end Signet

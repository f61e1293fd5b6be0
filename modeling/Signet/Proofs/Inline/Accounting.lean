import Signet.Proofs.Inline.Annotations
import Signet.Proofs.Inline.Directives

/-!
# Accounts of leading comments

Every line of the comments above a definition is accounted for. The lines are split into groups
(`Splits`). A group yields annotations or one diagnostic (`Group.Yields`): a method type one
annotation, from the start of its first payload to the stop of its last one; a directive what its
text spells; a dangling continuation a warning; documentation nothing. What the groups yield is what
the block has, in the order of the lines, and its text is that of the lines of documentation
(`Documents`). A block is read exactly if it has such an account (`readLeading_eq_ok_iff`).
-/

namespace Signet.Inline

open Text Ruby

variable {buffer : Buffer} {scope : List String} {range : Range} {location : Location .plain}

/-! ## Readings -/

/-- What is read out of some ranges: what is made of a value that is there, or one diagnostic at
the location. -/
inductive Gives {α β : Type} (buffer : Buffer) (ranges : List Range) (location : Location .plain)
    (read : Buffer → Range → Except ParseError α) (make : α → β) : Except Diagnostic β → Prop
  | value {payload : Buffer} {value : α} : buffer.carve ranges = .ok payload →
      read payload payload.all = .ok value →
      Gives buffer ranges location read make (.ok (make value))
  | fault {payload : Buffer} {error : ParseError} : buffer.carve ranges = .ok payload →
      read payload payload.all = .error error →
      Gives buffer ranges location read make (.error (.unreadable error location))

/-- The annotation that a type is behind a name. -/
def Annotation.ofKey (key : List Char) (note : TypeAnnotation) : Annotation :=
  if key = "return".toList then .result note
  else .param (String.ofList (withoutSigils key)) note

/-- What a directive yields, from its text and the range that the text has. -/
inductive Directive.Yields (buffer : Buffer) (scope : List String) (range : Range)
    (payload : List Char) : Directive → Except Diagnostic (List Annotation) → Prop
  | skip {location : Location .plain} : Location.ofRange buffer range = .ok location →
      Yields buffer scope range payload .skip (.ok [.skip location])
  | override {location : Location .plain} : Location.ofRange buffer range = .ok location →
      Yields buffer scope range payload .override (.ok [.override location])
  | generic {params : Range} {location : Location .plain}
      {outcome : Except Diagnostic (List Annotation)} :
      Location.ofRange buffer params = .ok location →
      Gives buffer [params] location (fun text all => readGenerics text all [])
        (fun params => params.map (.generic · location)) outcome →
      Yields buffer scope range payload (.generic params) outcome
  | typed {name : List Char} {type trimmed : Range} {text : List Char}
      {location : Location .plain} {outcome : Except Diagnostic (List Annotation)} :
      Narrows buffer type trimmed text → Location.ofRange buffer trimmed = .ok location →
      Gives buffer [trimmed] location (fun text all => readType text all scope)
        (fun type => [.ofKey name ⟨type, location⟩]) outcome →
      Yields buffer scope range payload (.typed name type) outcome
  | overloads {location : Location .plain} {outcome : Except Diagnostic (List Annotation)} :
      Location.ofRange buffer range = .ok location →
      Gives buffer [range] location (fun text all => readOverloads text all scope)
        (fun types => [.overloads types location]) outcome →
      Yields buffer scope range payload .overloads outcome
  | unknown {location : Location .plain} : Location.ofRange buffer range = .ok location →
      Yields buffer scope range payload .unknown (.error (.about
        (.annotationSyntax (.unknown (String.ofList payload))) location))

/-- What a group yields. -/
inductive Group.Yields (buffer : Buffer) (scope : List String) :
    Group → Except Diagnostic (List Annotation) → Prop
  | methodType {first last : Range} {more : List Range} {location : Location .plain}
      {outcome : Except Diagnostic (List Annotation)} :
      (first :: more).getLast? = some last →
      Location.ofRange buffer ⟨first.start, last.stop⟩ = .ok location →
      Gives buffer (first :: more) location (fun text all => readOverloads text all scope)
        (fun types => [.colon types location]) outcome →
      Yields buffer scope (.methodType first more) outcome
  | dangling {payload : Range} {location : Location .plain} :
      Location.ofRange buffer payload = .ok location →
      Yields buffer scope (.dangling payload) (.error (.unused .danglingContinuation location))
  | directive {whole trimmed : Range} {text : List Char} {directive : Directive}
      {outcome : Except Diagnostic (List Annotation)} : Narrows buffer whole trimmed text →
      directive.Spelled trimmed text → directive.Yields buffer scope trimmed text outcome →
      Yields buffer scope (.directive whole) outcome
  | doc {text : List Char} {range : Range} : Yields buffer scope (.doc text range) (.ok [])

section Readings

variable {α β γ : Type} {ranges : List Range} {read : Buffer → Range → Except ParseError α}
  {make : α → β}

/-- A payload is carved out and read. -/
theorem readPayload_map_eq_ok_iff {outcome : Except Diagnostic β} :
    (do return (← readPayload buffer ranges location read).map make) = .ok outcome ↔
      Gives buffer ranges location read make outcome := by
  rw [bind_eq_ok_iff]
  constructor
  · rintro ⟨result, found, same⟩
    obtain ⟨payload, carved, result_eq⟩ := bind_eq_ok_iff.1 found
    obtain rfl := Except.ok.inj result_eq
    obtain rfl := Except.ok.inj same
    cases outcome : read payload payload.all with
    | ok value => exact .value carved outcome
    | error error => exact .fault carved outcome
  · intro gives
    cases gives with
    | value carved found | fault carved found =>
        refine ⟨_, bind_eq_ok_iff.2 ⟨_, carved, rfl⟩, ?_⟩
        rw [found]
        rfl

/-- What is made of something that is made of a value. -/
theorem gives_comp_iff (make : α → β) (change : β → γ) {outcome : Except Diagnostic γ} :
    Gives buffer ranges location read (fun value => change (make value)) outcome ↔
      ∃ before, Gives buffer ranges location read make before ∧ outcome = before.map change := by
  constructor
  · intro gives
    cases gives with
    | value carved found => exact ⟨_, .value carved found, rfl⟩
    | fault carved found => exact ⟨_, .fault carved found, rfl⟩
  · rintro ⟨before, gives, rfl⟩
    cases gives with
    | value carved found => exact .value carved found
    | fault carved found => exact .fault carved found

/-- A type is read out of the range without the blanks around it. -/
theorem readTypeAnnotation_eq_ok_iff {outcome : Except Diagnostic TypeAnnotation} :
    readTypeAnnotation buffer scope range = .ok outcome ↔
      ∃ trimmed text location, Narrows buffer range trimmed text ∧
        Location.ofRange buffer trimmed = .ok location ∧
        Gives buffer [trimmed] location (fun text all => readType text all scope)
          (fun type => ⟨type, location⟩) outcome := by
  rw [ readTypeAnnotation, bind_eq_ok_iff]
  constructor
  · rintro ⟨trimmed, narrowed, found⟩
    obtain ⟨text, narrows⟩ := trimRange_eq_ok_iff.1 narrowed
    obtain ⟨location, located, found⟩ := bind_eq_ok_iff.1 found
    exact ⟨trimmed, text, location, narrows, located, readPayload_map_eq_ok_iff.1 found⟩
  · rintro ⟨trimmed, text, location, narrows, located, gives⟩
    exact ⟨trimmed, trimRange_eq_ok_iff.2 ⟨text, narrows⟩,
      bind_eq_ok_iff.2 ⟨location, located, readPayload_map_eq_ok_iff.2 gives⟩⟩

end Readings

/-! ## Directives and groups -/

variable {payload : List Char} {outcome : Except Diagnostic (List Annotation)}

/-- A type behind a name is read into one annotation. -/
theorem readKeyed_eq_ok_iff {name : List Char} :
    (do
      let note ← readTypeAnnotation buffer scope range
      return note.map fun note => if name = "return".toList then [ Annotation.result note]
        else [ Annotation.param (String.ofList (withoutSigils name)) note]) = .ok outcome ↔
      ∃ trimmed text location, Narrows buffer range trimmed text ∧
        Location.ofRange buffer trimmed = .ok location ∧
        Gives buffer [trimmed] location (fun text all => readType text all scope)
          (fun type => [.ofKey name ⟨type, location⟩]) outcome := by
  -- `return` and the name of a parameter both are the key of the annotation.
  have one : (fun note => if name = "return".toList then [ Annotation.result note]
      else [ Annotation.param (String.ofList (withoutSigils name)) note]) =
        fun note => [ Annotation.ofKey name note] := by
    funext note
    unfold Annotation.ofKey
    split <;> rfl
  rw [one, bind_eq_ok_iff]
  constructor
  · rintro ⟨note, found, same⟩
    obtain ⟨trimmed, text, location, narrows, located, gives⟩ :=
      readTypeAnnotation_eq_ok_iff.1 found
    exact ⟨trimmed, text, location, narrows, located,
      (gives_comp_iff _ fun note => [ Annotation.ofKey name note]).2
        ⟨note, gives, (Except.ok.inj same).symm⟩⟩
  · rintro ⟨trimmed, text, location, narrows, located, gives⟩
    obtain ⟨note, found, same⟩ :=
      (gives_comp_iff ( TypeAnnotation.mk · location) fun note => [ Annotation.ofKey name note]).1
        gives
    exact ⟨note, readTypeAnnotation_eq_ok_iff.2 ⟨trimmed, text, location, narrows, located, found⟩,
      congrArg Except.ok same.symm⟩

/-- What a directive yields is what is read of it, by its kind. -/
theorem readDirective_eq_ok_iff : readDirective buffer scope range = .ok outcome ↔
    ∃ trimmed text directive, Narrows buffer range trimmed text ∧
      Directive.Spelled trimmed text directive ∧
        directive.Yields buffer scope trimmed text outcome := by
  rw [readDirective, bind_eq_ok_iff]
  constructor
  · rintro ⟨trimmed, narrowed, found⟩
    obtain ⟨text, narrows⟩ := trimRange_eq_ok_iff.1 narrowed
    obtain ⟨payload, sliced, found⟩ := bind_eq_ok_iff.1 found
    obtain rfl : text = payload := Except.ok.inj (narrows.slice_eq.symm.trans sliced)
    refine ⟨trimmed, text, _, narrows, (spelled_iff (Buffer.length_of_slice sliced)).2 rfl, ?_⟩
    cases kind : Directive.ofPayload trimmed text with
    | skip =>
        rw [kind] at found
        obtain ⟨location, located, same⟩ := bind_eq_ok_iff.1 found
        exact Except.ok.inj same ▸ .skip located
    | override =>
        rw [kind] at found
        obtain ⟨location, located, same⟩ := bind_eq_ok_iff.1 found
        exact Except.ok.inj same ▸ .override located
    | generic params =>
        rw [kind] at found
        obtain ⟨location, located, found⟩ := bind_eq_ok_iff.1 found
        exact .generic located (readPayload_map_eq_ok_iff.1 found)
    | typed name type =>
        rw [kind] at found
        obtain ⟨inner, shown, location, narrows, located, gives⟩ := readKeyed_eq_ok_iff.1 found
        exact .typed narrows located gives
    | overloads =>
        rw [kind] at found
        obtain ⟨location, located, found⟩ := bind_eq_ok_iff.1 found
        exact .overloads located (readPayload_map_eq_ok_iff.1 found)
    | unknown =>
        rw [kind] at found
        obtain ⟨location, located, same⟩ := bind_eq_ok_iff.1 found
        exact Except.ok.inj same ▸ .unknown located
  · rintro ⟨trimmed, text, directive, narrows, spelled, yields⟩
    have sliced := narrows.slice_eq
    have kind := (spelled_iff (Buffer.length_of_slice sliced)).1 spelled
    refine ⟨trimmed, trimRange_eq_ok_iff.2 ⟨text, narrows⟩, bind_eq_ok_iff.2 ⟨text, sliced, ?_⟩⟩
    rw [kind]
    cases yields with
    | skip located | override located | unknown located =>
        exact bind_eq_ok_iff.2 ⟨_, located, rfl⟩
    | generic located gives | overloads located gives =>
        exact bind_eq_ok_iff.2 ⟨_, located, readPayload_map_eq_ok_iff.2 gives⟩
    | typed narrows located gives =>
        exact readKeyed_eq_ok_iff.2 ⟨_, _, _, narrows, located, gives⟩

theorem getLast?_cons_eq_getLastD {α : Type} (first : α) (more : List α) :
    (first :: more).getLast? = some (more.getLastD first) := by
  rw [List.getLast?_cons, List.getLastD_eq_getLast?]

/-- What a group yields is what is read of it. -/
theorem yields_iff {group : Group} :
    group.Yields buffer scope outcome ↔ group.read buffer scope = .ok outcome := by
  constructor
  · intro yields
    cases yields with
    | @methodType first last more location outcome last_eq located gives =>
        rw [getLast?_cons_eq_getLastD] at last_eq
        obtain rfl := Option.some.inj last_eq
        exact bind_eq_ok_iff.2 ⟨location, located, readPayload_map_eq_ok_iff.2 gives⟩
    | dangling located => exact bind_eq_ok_iff.2 ⟨_, located, rfl⟩
    | directive narrows spelled yields =>
        exact readDirective_eq_ok_iff.2 ⟨_, _, _, narrows, spelled, yields⟩
    | doc => rfl
  · intro found
    cases group with
    | methodType first more =>
        obtain ⟨location, located, found⟩ := bind_eq_ok_iff.1 found
        exact .methodType (getLast?_cons_eq_getLastD ..) located (readPayload_map_eq_ok_iff.1 found)
    | dangling payload =>
        obtain ⟨location, located, same⟩ := bind_eq_ok_iff.1 found
        exact Except.ok.inj same ▸ .dangling located
    | directive whole =>
        obtain ⟨trimmed, text, directive, narrows, spelled, yields⟩ :=
          readDirective_eq_ok_iff.1 found
        exact .directive narrows spelled yields
    | doc text range => exact Except.ok.inj found ▸ .doc

/-! ## Documentation -/

/-- The lines of documentation among some comment lines, and their ranges. -/
inductive DocLines (buffer : Buffer) : List CommentLine → List (List Char × Range) → Prop
  | nil : DocLines buffer [] []
  | doc {comment : CommentLine} {comments : List CommentLine} {text : List Char}
      {lines : List (List Char × Range)} : Means buffer comment (.doc text) →
      DocLines buffer comments lines →
      DocLines buffer (comment :: comments) ((text, comment.range buffer) :: lines)
  | other {comment : CommentLine} {comments : List CommentLine}
      {lines : List (List Char × Range)} : (∀ text, ¬ Means buffer comment (.doc text)) →
      DocLines buffer comments lines → DocLines buffer (comment :: comments) lines

/-- The documentation in comment lines: the lines of it, without blanks at the end, from the first
line to the last one. -/
inductive Documents (buffer : Buffer) (comments : List CommentLine) : Option Comment → Prop
  | none : DocLines buffer comments [] → Documents buffer comments none
  | some {lines : List (List Char × Range)} {first last : List Char × Range}
      {text back : List Char} {location : Location .plain} : DocLines buffer comments lines →
      lines.head? = some first → lines.getLast? = some last →
      ['\n'].intercalate (lines.map (·.1)) = text ++ back → allBlank back = true →
      (∀ c ∈ text.getLast?, isBlank c = false) →
      Location.ofRange buffer ⟨first.2.start, last.2.stop⟩ = .ok location →
      Documents buffer comments (some { text := String.ofList text, location })

variable {comments : List CommentLine} {lines : List (List Char × Range)}

/-- Other lines leave the documentation behind them alone. -/
theorem filterMap_doc?_cons {kind : LineKind} (other : ∀ text, kind ≠ .doc text)
    (groups : List Group) :
    (Group.cons range groups kind).filterMap Group.doc? = groups.filterMap Group.doc? := by
  cases kind with
  | colon payload =>
      -- the continuations that a method type takes back are no documentation
      have taken : (groups.takeWhile (·.dangling?.isSome)).filterMap Group.doc? = [] := by
        refine List.filterMap_eq_nil_iff.2 fun group member => ?_
        have dangling := List.all_eq_true.1 List.all_takeWhile group member
        cases group with
        | dangling payload => rfl
        | methodType | directive | doc => cases dangling
      show (groups.drop (groups.takeWhile (·.dangling?.isSome)).length).filterMap Group.doc? = _
      rw [drop_length_takeWhile]
      conv_rhs =>
        rw [← List.takeWhile_append_dropWhile (p := (·.dangling?.isSome)) (l := groups),
          List.filterMap_append, taken, List.nil_append]
  | continuation payload | directive payload => rfl
  | doc text => exact absurd rfl (other text)

/-- The groups have the lines of documentation. -/
theorem docLines_iff :
    DocLines buffer comments lines ↔ lines = (groups buffer comments).filterMap Group.doc? := by
  constructor
  · intro docs
    induction docs with
    | nil => rfl
    | doc means _ ih =>
        rw [groups_cons, means_iff.1 means, ih]
        rfl
    | other noDoc _ ih =>
        rw [groups_cons, filterMap_doc?_cons fun text said => noDoc text (means_iff.2 said), ih]
  · rintro rfl
    induction comments with
    | nil => exact .nil
    | cons comment comments ih =>
        rw [groups_cons]
        by_cases doc : ∃ text, Means buffer comment (.doc text)
        · obtain ⟨text, means⟩ := doc
          rw [means_iff.1 means]
          exact .doc means ih
        · have noDoc := not_exists.1 doc
          rw [filterMap_doc?_cons fun text said => noDoc text (means_iff.2 said)]
          exact .other noDoc ih

theorem documents_iff {doc : Option Comment} :
    Documents buffer comments doc ↔ readDoc buffer (groups buffer comments) = .ok doc := by
  constructor
  · intro documents
    cases documents with
    | none docs =>
        unfold readDoc
        rw [← docLines_iff.1 docs]
        rfl
    | @some lines first last text back location docs head tail joined blank ink located =>
        unfold readDoc
        rw [← docLines_iff.1 docs]
        simp only [head, tail]
        rw [joined, trimEnd_append_of_stop blank ink]
        exact bind_eq_ok_iff.2 ⟨location, located, rfl⟩
  · intro found
    unfold readDoc at found
    simp only at found
    split at found
    · rename_i first last head tail
      obtain ⟨location, located, same⟩ := bind_eq_ok_iff.1 found
      obtain ⟨back, joined, blank, ink⟩ := exists_trimEnd (['\n'].intercalate
        (((groups buffer comments).filterMap Group.doc?).map (·.1)))
      exact Except.ok.inj same ▸
        .some (docLines_iff.2 rfl) head tail joined blank ink located
    · rename_i missing
      obtain rfl := Except.ok.inj found
      refine .none (docLines_iff.2 ?_)
      -- A list with a first line has a last one, so there is no line at all.
      cases lines : (groups buffer comments).filterMap Group.doc? with
      | nil => rfl
      | cons first rest =>
          rw [lines] at missing
          exact (missing first _ rfl (getLast?_cons_eq_getLastD first rest)).elim

/-! ## Blocks -/

/-- The annotations that an outcome has. -/
def noted : Except Diagnostic (List Annotation) → List Annotation
  | .ok annotations => annotations
  | .error _ => []

/-- The diagnostic that an outcome is, if it is one. -/
def reported : Except Diagnostic (List Annotation) → List Diagnostic
  | .ok _ => []
  | .error diagnostic => [diagnostic]

/-- A block accounts for all comment lines: they are split into groups, each of which has an
outcome, and the block has what the outcomes have, in order. -/
structure LeadingBlock.Accounts (buffer : Buffer) (scope : List String)
    (comments : List CommentLine) (groups : List Group)
    (outcomes : List (Except Diagnostic (List Annotation))) (block : LeadingBlock) : Prop where
  splits : Splits buffer comments groups
  yields : List.Forall₂ (Group.Yields buffer scope) groups outcomes
  annotations_eq : block.annotations = outcomes.flatMap noted
  diagnostics_eq : block.diagnostics = outcomes.flatMap reported
  documents : Documents buffer comments block.doc

/-- Adding outcomes one by one adds what they have. -/
theorem foldl_add (outcomes : List (Except Diagnostic (List Annotation))) (block : LeadingBlock) :
    outcomes.foldl LeadingBlock.add block =
      { block with
        annotations := block.annotations ++ outcomes.flatMap noted
        diagnostics := block.diagnostics ++ outcomes.flatMap reported } := by
  induction outcomes generalizing block with
  | nil => simp
  | cons outcome outcomes ih =>
      rw [List.foldl_cons, ih]
      cases outcome <;> simp [LeadingBlock.add, noted, reported]

/-- Groups are read into a block one after the other. -/
theorem foldlM_read_eq_ok_iff {groups : List Group} {block result : LeadingBlock} :
    groups.foldlM (fun block group => do return block.add (← group.read buffer scope)) block =
        .ok result ↔
      ∃ outcomes, List.Forall₂ (Group.Yields buffer scope) groups outcomes ∧
        outcomes.foldl LeadingBlock.add block = result := by
  induction groups generalizing block with
  | nil =>
      constructor
      · intro same
        exact ⟨[], .nil, Except.ok.inj same⟩
      · rintro ⟨outcomes, yields, rfl⟩
        cases yields
        rfl
  | cons group groups ih =>
      rw [List.foldlM_cons, bind_eq_ok_iff]
      constructor
      · rintro ⟨next, first, later⟩
        obtain ⟨outcome, found, same⟩ := bind_eq_ok_iff.1 first
        obtain rfl := Except.ok.inj same
        obtain ⟨outcomes, yields, folded⟩ := ih.1 later
        exact ⟨outcome :: outcomes, .cons (yields_iff.2 found) yields, folded⟩
      · rintro ⟨outcomes, yields, folded⟩
        cases yields with
        | @cons _ outcome _ outcomes here later =>
            refine ⟨block.add outcome, bind_eq_ok_iff.2 ⟨outcome, yields_iff.1 here, rfl⟩, ?_⟩
            exact ih.2 ⟨outcomes, later, folded⟩

/-- A block is read exactly if it accounts for all comment lines. -/
theorem readLeading_eq_ok_iff {block : LeadingBlock} :
    readLeading buffer scope comments = .ok block ↔
      ∃ groups outcomes, block.Accounts buffer scope comments groups outcomes := by
  rw [readLeading_eq]
  constructor
  · intro found
    obtain ⟨read, folded, found⟩ := bind_eq_ok_iff.1 found
    obtain ⟨doc, documents, same⟩ := bind_eq_ok_iff.1 found
    obtain rfl := Except.ok.inj same
    obtain ⟨outcomes, yields, rfl⟩ := foldlM_read_eq_ok_iff.1 folded
    refine ⟨groups buffer comments, outcomes, splits_iff.2 rfl, yields, ?_, ?_,
      documents_iff.2 documents⟩
    · rw [foldl_add]
      rfl
    · rw [foldl_add]
      rfl
  · rintro ⟨found, outcomes, accounts⟩
    obtain rfl := splits_iff.1 accounts.splits
    refine bind_eq_ok_iff.2 ⟨_, foldlM_read_eq_ok_iff.2 ⟨outcomes, accounts.yields, rfl⟩,
      bind_eq_ok_iff.2 ⟨block.doc, documents_iff.1 accounts.documents, ?_⟩⟩
    rw [foldl_add]
    show Except.ok (LeadingBlock.mk (outcomes.flatMap noted) block.doc
      (outcomes.flatMap reported)) = .ok block
    rw [← accounts.annotations_eq, ← accounts.diagnostics_eq]

/-- The comments above a definition are read into the block that accounts for all of them, and into
no other one. They can be read if they are on the rows of a file, from top to bottom. -/
theorem readLeading_accounts (buffer : Buffer) (scope : List String)
    (comments : List CommentLine) :
    (∀ block, readLeading buffer scope comments = .ok block ↔
      ∃ groups outcomes, block.Accounts buffer scope comments groups outcomes) ∧
    ((∀ comment ∈ comments, Placed buffer comment) →
      comments.Pairwise (fun first second => first.row < second.row) →
      ∃ block, readLeading buffer scope comments = .ok block) := by
  refine ⟨fun block => readLeading_eq_ok_iff, fun placed rows => ?_⟩
  obtain ⟨block, found, -⟩ := readLeading_eq_ok scope placed rows
  exact ⟨block, found⟩

/-- Comments of all kinds. -/
def mixedBuffer : Buffer := .ofString "a.rb" <|
  "# Ädds.\n#: () -> T\n#| (A) -> T\n# @rbs skip\n#| left\n# @rbs generic T, out U\n" ++
    "#: oops(\n# @rbs return: T -- the sum\n#  Done. \n"

/-- The lines of `mixedBuffer`. -/
def mixedLines : List CommentLine :=
  [⟨0, ⟨0, 8⟩, true⟩, ⟨1, ⟨9, 19⟩, true⟩, ⟨2, ⟨20, 31⟩, true⟩,
    ⟨3, ⟨32, 43⟩, true⟩, ⟨4, ⟨44, 51⟩, true⟩, ⟨5, ⟨52, 75⟩, true⟩,
    ⟨6, ⟨76, 84⟩, true⟩, ⟨7, ⟨85, 112⟩, true⟩, ⟨8, ⟨113, 122⟩, true⟩]

/-- A method type of two lines, three directives, of which one declares two parameters, a
continuation that is left over, a method type that cannot be read, and documentation. -/
theorem readLeading_accounts_mixed :
    (∀ comment ∈ mixedLines, Placed mixedBuffer comment) ∧
      mixedLines.Pairwise (fun first second => first.row < second.row) ∧
      ∃ block groups outcomes, readLeading mixedBuffer [] mixedLines = .ok block ∧
        block.Accounts mixedBuffer [] mixedLines groups outcomes ∧
        block.annotations.map (·.location.range) =
          [⟨10, 30⟩, ⟨38, 42⟩, ⟨65, 74⟩, ⟨65, 74⟩, ⟨99, 100⟩] ∧
        block.diagnostics.map (fun diagnostic =>
            (diagnostic.problem.kind, diagnostic.location.range)) =
          [("UnusedInlineAnnotation", ⟨44, 50⟩), ("AnnotationSyntaxError", ⟨77, 83⟩)] ∧
        block.doc.map (fun doc => (doc.text, doc.location.range)) =
          some ("Ädds.\n Done.", ⟨0, 121⟩) := by
  have placed : ∀ comment ∈ mixedLines, Placed mixedBuffer comment := by
    have lines : ∀ comment ∈ mixedLines, (comment.text mixedBuffer).head? = some '#' ∧
        comment.row = (mixedBuffer.content.take (comment.range mixedBuffer).start).count '\n' := by
      decide +kernel
    exact fun comment member => ⟨(lines comment member).1, (lines comment member).2⟩
  have rows : mixedLines.Pairwise fun first second => first.row < second.row := by decide
  obtain ⟨iff, total⟩ := readLeading_accounts mixedBuffer [] mixedLines
  obtain ⟨block, found⟩ := total placed rows
  obtain ⟨groups, outcomes, accounts⟩ := (iff block).1 found
  have shown : ∃ block, readLeading mixedBuffer [] mixedLines = .ok block ∧ (
      block.annotations.map (·.location.range) =
        [⟨10, 30⟩, ⟨38, 42⟩, ⟨65, 74⟩, ⟨65, 74⟩, ⟨99, 100⟩] ∧
      block.diagnostics.map (fun diagnostic =>
          (diagnostic.problem.kind, diagnostic.location.range)) =
        [("UnusedInlineAnnotation", ⟨44, 50⟩), ("AnnotationSyntaxError", ⟨77, 83⟩)] ∧
      block.doc.map (fun doc => (doc.text, doc.location.range)) =
        some ("Ädds.\n Done.", ⟨0, 121⟩)) := by
    decide +kernel
  obtain ⟨again, same, rest⟩ := shown
  obtain rfl := Except.ok.inj (found.symm.trans same)
  exact ⟨placed, rows, block, groups, outcomes, found, accounts, rest⟩

end Signet.Inline

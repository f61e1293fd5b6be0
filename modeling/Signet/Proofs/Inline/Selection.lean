import Signet.Proofs.Inline.Accounting

/-!
# Types selected in comments

The location of an annotated type selects exactly the text of the type. A comment stands in a file
behind and in front of any other text (`Stands`). Positions in bytes are used in front of a comment,
where they belong to characters, and in the name of a directive, where every character has one byte
(`HasKey.byteOfChar_eq`). From there on the pieces of a comment are followed up to the text that is
carved out and read (`exists_directiveType`, `exists_assertionType`).

Blanks at the end of a comment belong to no directive. So a description begins at the first dashes
between two spaces that have more than blanks behind them (`TypeText`); dashes in front of nothing
else are part of the text.
-/

namespace Signet.Inline

open Text Ruby

variable {buffer : Buffer} {scope : List String} {comment : CommentLine} {range : Range}

/-! ## Characters and bytes -/

theorem byteLength_eq_length {text : List Char} (ascii : ∀ c ∈ text, c.utf8Size = 1) :
    byteLength text = text.length := by
  induction text with
  | nil => rfl
  | cons c text ih =>
      obtain ⟨first, rest⟩ := List.forall_mem_cons.1 ascii
      rw [byteLength, first, ih rest, List.length_cons, Nat.add_comm]

/-- In a front of single bytes each character begins at the byte of its number. -/
theorem byteOfChar_eq_of_ascii {front : List Char} (ascii : ∀ c ∈ front, c.utf8Size = 1)
    (back : List Char) {pos : Nat} (within : pos ≤ front.length) :
    byteOfChar (front ++ back) pos = pos := by
  have short : (front.take pos).length = pos := List.length_take_of_le within
  rw [byteOfChar, List.take_append_of_le_length within, byteLength_eq_length, short]
  exact fun c member => ascii c (List.mem_of_mem_take member)

theorem utf8Size_of_isIdentChar {c : Char} (ident : isIdentChar c = true) : c.utf8Size = 1 := by
  refine Char.utf8Size_eq_one_iff.2 ?_
  show c.val.toNat ≤ 127
  rcases (Bool.or_eq_true _ _).mp ident with alphanum | bar
  · rcases (Bool.or_eq_true _ _).mp alphanum with alpha | digit
    · rcases (Bool.or_eq_true _ _).mp alpha with upper | lower
      · have bounds := Char.isUpper_iff_bounds.1 upper
        omega
      · have bounds := Char.isLower_iff_bounds.1 lower
        omega
    · have both : (decide (c.val ≥ 48) && decide (c.val ≤ 57)) = true := digit
      rw [Bool.and_eq_true, decide_eq_true_iff, decide_eq_true_iff] at both
      exact Nat.le_trans both.2 (by decide)
  · obtain rfl := of_decide_eq_true bar
    decide

/-- A name with a colon has single bytes only. -/
theorem HasKey.byteOfChar_eq {payload sigils name spaces rest : List Char}
    (keyed : HasKey payload sigils name spaces rest) {pos : Nat}
    (within : pos ≤ (sigils ++ name ++ spaces).length + 1) : byteOfChar payload pos = pos := by
  have ascii : ∀ c ∈ sigils ++ name ++ spaces ++ [':'], c.utf8Size = 1 := by
    simp only [List.forall_mem_append, List.forall_mem_singleton]
    refine ⟨⟨⟨fun c member => ?_, fun c member => ?_⟩, fun c member => ?_⟩, by decide⟩
    · rcases keyed.marks c member with rfl | rfl <;> decide
    · exact utf8Size_of_isIdentChar
        (keyed.ident.all (fun _ => Char.isIdentChar_of_isLowerStart) c member)
    · obtain rfl := keyed.spaced c member
      decide
  have split : payload = sigils ++ name ++ spaces ++ [':'] ++ rest := by
    rw [keyed.split, List.append_assoc _ [':'], List.singleton_append]
  rw [split]
  exact byteOfChar_eq_of_ascii ascii rest (by rw [List.length_append]; exact within)

/-! ## Comments in a buffer -/

/-- A comment is a text in a buffer, and starts with its mark. -/
structure Stands (buffer : Buffer) (comment : CommentLine) (before text after : List Char) :
    Prop where
  content_eq : buffer.content = before ++ text ++ after
  bytes_eq : comment.bytes = ⟨byteLength before, byteLength (before ++ text)⟩
  marked : text.head? = some '#'

namespace Stands

variable {before text after : List Char} (stands : Stands buffer comment before text after)

include stands

/-- The bytes of a comment are found at its characters. -/
theorem range_eq :
    comment.range buffer = ⟨before.length, before.length + text.length⟩ := by
  have front : byteLength before = byteOfChar buffer.content before.length := by
    rw [stands.content_eq, byteOfChar, List.append_assoc, List.take_left]
  have whole : byteLength (before ++ text) = byteOfChar buffer.content (before ++ text).length := by
    rw [stands.content_eq, byteOfChar, List.take_left]
  have inside : (before ++ text).length ≤ buffer.content.length := by
    rw [stands.content_eq]
    exact (List.prefix_append _ _).length_le
  have inFront : before.length ≤ buffer.content.length :=
    Nat.le_trans (List.prefix_append _ _).length_le inside
  rw [CommentLine.range, stands.bytes_eq]
  simp only [Buffer.charOfByte]
  rw [front, whole, charOfByte_byteOfChar inFront, charOfByte_byteOfChar inside,
    List.length_append]

theorem slice_eq : buffer.slice (comment.range buffer) = .ok text :=
  Buffer.slice_eq_ok_iff_split.2 ⟨before, after, stands.content_eq, stands.range_eq⟩

theorem text_eq : comment.text buffer = text :=
  ((Buffer.slice_eq_ok_iff _ _ _).1 stands.slice_eq).2

theorem eq_cons : text = '#' :: text.drop 1 := by
  obtain ⟨rest, rfl⟩ := List.head?_eq_some_iff.1 stands.marked
  rfl

/-- What is left to read of a line with a directive stands behind the word. -/
theorem exists_directive {payload : Range} (means : Means buffer comment (.directive payload)) :
    ∃ blanks rest, text = '#' :: (blanks ++ directiveWord) ++ rest ∧ allBlank blanks = true ∧
      (∀ c ∈ rest.head?, isBlank c = true) ∧ buffer.slice payload = .ok rest ∧
        payload.start = before.length + ('#' :: (blanks ++ directiveWord)).length := by
  unfold Means at means
  rw [stands.text_eq, stands.range_eq] at means
  cases means with
  | @directive blanks rest directs =>
      have split : text = '#' :: (blanks ++ directiveWord) ++ rest := by
        rw [List.cons_append, ← directs.split]
        exact stands.eq_cons
      have start_eq : before.length + 1 + blanks.length + directiveWord.length =
          before.length + ('#' :: (blanks ++ directiveWord)).length := by
        simp only [List.length_cons, List.length_append]
        omega
      refine ⟨blanks, rest, split, directs.blank, directs.apart, ?_, start_eq⟩
      refine Buffer.slice_eq_ok_iff_split.2
        ⟨before ++ '#' :: (blanks ++ directiveWord), after, ?_, ?_⟩
      · rw [stands.content_eq, split]
        simp only [List.append_assoc]
      · rw [Range.mk.injEq, List.length_append]
        refine ⟨start_eq, ?_⟩
        rw [split, List.length_append, Nat.add_assoc]

/-- What is left to read of a line with a colon stands behind it. -/
theorem exists_colon {payload : Range} (means : Means buffer comment (.colon payload)) :
    ∃ rest, text = '#' :: ':' :: rest ∧ buffer.slice payload = .ok rest ∧
      payload.start = before.length + 2 := by
  unfold Means at means
  rw [stands.text_eq, stands.range_eq] at means
  cases means with
  | @colon rest colon =>
      have split : text = ['#', ':'] ++ rest := by
        rw [stands.eq_cons, colon]
        rfl
      refine ⟨rest, split, Buffer.slice_eq_ok_iff_split.2 ⟨before ++ ['#', ':'], after, ?_, ?_⟩,
        rfl⟩
      · rw [stands.content_eq, split]
        simp only [List.append_assoc]
      · rw [Range.mk.injEq, List.length_append]
        refine ⟨rfl, ?_⟩
        rw [split, List.length_append, Nat.add_assoc]

end Stands

/-! ## Descriptions in a comment -/

/-- What stands in front of the first description behind a name, or everything if there is none. A
description has more than blanks behind its mark. -/
inductive TypeText (rest : List Char) : List Char → Prop
  | described {shown note : List Char} : rest = shown ++ descriptionMark ++ note →
      allBlank note = false → (∀ before after, rest = before ++ descriptionMark ++ after →
        allBlank after = false → shown.length ≤ before.length) → TypeText rest shown
  | plain : (∀ before after, rest = before ++ descriptionMark ++ after →
      allBlank after = true) → TypeText rest rest

section TypeText

variable {text tail shown front type back : List Char}

/-- A mark with more than blanks behind it is not among the blanks at the end. -/
theorem exists_of_append_blanks (blank : allBlank tail = true) {before after : List Char}
    (split : text ++ tail = before ++ descriptionMark ++ after) (more : allBlank after = false) :
    ∃ note, text = before ++ descriptionMark ++ note := by
  rcases List.append_eq_append_iff.1 split with ⟨beyond, -, tail_eq⟩ | ⟨note, inside, -⟩
  · rw [tail_eq, allBlank, List.all_append, Bool.and_eq_true] at blank
    have : allBlank after = true := blank.2
    rw [this] at more
    cases more
  · exact ⟨note, inside⟩

/-- Behind a mark in a text that ends with ink there is more than blanks. -/
theorem allBlank_eq_false_of_ink (ink : ∀ c ∈ text.getLast?, isBlank c = false)
    {before note : List Char} (split : text = before ++ descriptionMark ++ note) :
    allBlank (note ++ tail) = false := by
  refine Bool.eq_false_iff.2 fun blank => ?_
  rw [allBlank, List.all_append, Bool.and_eq_true] at blank
  rcases List.eq_nil_or_concat note with rfl | ⟨front, c, rfl⟩
  · have ink := ink ' ' (by rw [split]; simp [descriptionMark])
    revert ink
    decide
  · have ink := ink c (by rw [split]; simp)
    have : isBlank c = true := List.all_eq_true.1 blank.1 c (by simp)
    rw [this] at ink
    cases ink

/-- Blanks at the end of a comment change nothing about its type. -/
theorem exists_typeText (undescribed : Undescribed text shown) (blank : allBlank tail = true)
    (ink : ∀ c ∈ text.getLast?, isBlank c = false) (trims : Trims shown front type back)
    (nonempty : type ≠ []) :
    ∃ raw rear, TypeText (text ++ tail) raw ∧ Trims raw front type rear := by
  cases undescribed with
  | @described _ note split first =>
      refine ⟨shown, back, @TypeText.described _ _ (note ++ tail) ?_ ?_ ?_, trims⟩
      · rw [split, List.append_assoc]
      · exact allBlank_eq_false_of_ink ink split
      · intro before after found more
        obtain ⟨note, inside⟩ := exists_of_append_blanks blank found more
        exact first before note inside
  | plain none =>
      refine ⟨text ++ tail, back ++ tail, .plain ?_, ?_⟩
      · intro before after found
        by_contra more
        obtain ⟨note, inside⟩ := exists_of_append_blanks blank found (Bool.eq_false_iff.2 more)
        exact none before note inside
      · refine { trims with
          split := by rw [trims.split, List.append_assoc _ back]
          back_blank := ?_
          back_eq := fun empty => absurd empty nonempty }
        rw [allBlank, List.all_append, Bool.and_eq_true]
        exact ⟨trims.back_blank, blank⟩

/-- The text of a type ends where a character begins. -/
theorem TypeText.bytes_eq (typeText : TypeText text shown) :
    byteOfChar text shown.length = byteLength shown ∧
      charOfByte text (byteLength shown) = shown.length := by
  obtain ⟨more, rfl⟩ : ∃ more, text = shown ++ more := by
    cases typeText with
    | @described _ note split _ _ =>
        exact ⟨descriptionMark ++ note, by rw [split, List.append_assoc]⟩
    | plain _ => exact ⟨[], (List.append_nil text).symm⟩
  have start : byteOfChar (shown ++ more) shown.length = byteLength shown := by
    rw [byteOfChar, List.take_left]
  refine ⟨start, ?_⟩
  rw [← start, charOfByte_byteOfChar (List.prefix_append shown more).length_le]

end TypeText

/-! ## Selection -/

/-- The type that an annotation gives, if it is about a result or a parameter. -/
def Annotation.note? : Annotation → Option TypeAnnotation
  | .result note => some note
  | .param _ note => some note
  | _ => none

/-- The type that an assertion behind a definition gives, if there is one. -/
def Trailing.note? : Trailing → Option TypeAnnotation
  | .assertion note => some note
  | _ => none

theorem Trailing.eq_assertion {trailing : Trailing} {note : TypeAnnotation}
    (noted : trailing.note? = some note) : trailing = .assertion note := by
  cases trailing with
  | assertion other => exact congrArg _ (Option.some.inj noted)
  | absent | invalid => cases noted

/-- The location of a note is that of a text of the buffer, and the type is what is read from a
buffer that has this text. -/
structure TypeAnnotation.Selects (buffer : Buffer) (scope : List String) (note : TypeAnnotation)
    (before text after : List Char) : Prop where
  content_eq : buffer.content = before ++ text ++ after
  location_eq :
    note.location = { buffer, range := ⟨before.length, before.length + text.length⟩ }
  contains : buffer.contains note.location.range = true
  source_eq : note.location.source = text
  read : ∃ child, buffer.carve [note.location.range] = .ok child ∧ child.content = text ∧
    readType child child.all scope = .ok note.type

/-- A type that was read selects its text. -/
theorem selects_of_carve {before text after : List Char} {note : TypeAnnotation} {child : Buffer}
    (content_eq : buffer.content = before ++ text ++ after)
    (range_eq : range = ⟨before.length, before.length + text.length⟩)
    (located : Location.ofRange buffer range = .ok note.location)
    (carved : buffer.carve [range] = .ok child)
    (read : readType child child.all scope = .ok note.type) :
    note.Selects buffer scope before text after := by
  obtain ⟨fits, location_eq⟩ := (Location.ofRange_eq_ok_iff _ _ _).1 located
  have sliced : buffer.content.extract range.start range.stop = text :=
    ((Buffer.slice_eq_ok_iff _ _ _).1
      (Buffer.slice_eq_ok_iff_split.2 ⟨before, after, content_eq, range_eq⟩)).2
  have range_same : note.location.range = range := by rw [location_eq]
  have contains : note.location.buffer.contains note.location.range = true := by
    rw [location_eq]
    exact fits
  refine ⟨content_eq, ?_, ?_, ?_, child, ?_, ?_, read⟩
  · rw [location_eq, range_eq]
  · rw [range_same]
    exact fits
  · rw [note.location.source_of_contains contains, location_eq]
    exact sliced
  · rw [range_same]
    exact carved
  · obtain ⟨-, -, rfl⟩ := Buffer.carve_eq_ok_iff.1 carved
    show ['\n'].intercalate [buffer.content.extract range.start range.stop] = text
    rw [sliced]
    simp

/-- No type is read from nothing. -/
theorem content_ne_nil {child : Buffer} {type : Ty}
    (read : readType child child.all scope = .ok type) : child.content ≠ [] := by
  intro empty
  have length : child.length = 0 := by rw [Buffer.length, empty, List.length_nil]
  have all : child.all = ⟨0, 0⟩ := by rw [Buffer.all, length]
  have sliced : child.slice child.all = .ok [] :=
    Buffer.slice_eq_ok_iff_split.2 ⟨[], [], by rw [empty]; rfl, all⟩
  have opened : Excerpt.ofRange child child.all = .ok ⟨child, child.all.start, []⟩ := by
    rw [Excerpt.ofRange, sliced]
    rfl
  rw [readType, readRange, opened] at read
  have ungrammatical : ∃ stop, Grammar.parse .wholeType [] = .error stop := ⟨_, rfl⟩
  obtain ⟨stop, ungrammatical⟩ := ungrammatical
  simp only [Excerpt.read, ungrammatical] at read
  cases read

/-- A directive in a comment that selects a type: what stands around the type, from the mark of the
comment to its end, and how the annotation follows. -/
structure DirectiveType (buffer : Buffer) (scope : List String) (comment : CommentLine)
    ( annotation : Annotation) (note : TypeAnnotation)
    (before blanks gap sigils name spaces rest after shown front type back : List Char) :
    Prop where
  stands : Stands buffer comment before
    ('#' :: (blanks ++ directiveWord ++ gap ++ (sigils ++ name ++ spaces ++ ':' :: rest))) after
  blanks_blank : allBlank blanks = true
  gap_blank : allBlank gap = true
  gap_ne_nil : gap ≠ []
  keyed : HasKey (sigils ++ name ++ spaces ++ ':' :: rest) sigils name spaces rest
  typeText : TypeText rest shown
  trims : Trims shown front type back
  annotation_eq : annotation = .ofKey (sigils ++ name) note
  selects : ∃ behind, note.Selects buffer scope
    (before ++ '#' :: (blanks ++ directiveWord ++ gap ++
      (sigils ++ name ++ spaces ++ ':' :: front))) type behind
  /-- Up to the colon, offsets in characters of the trimmed directive are offsets in bytes. -/
  key_bytes : ∀ pos ≤ (sigils ++ name ++ spaces).length + 1,
    pos ≤ (trimEnd (sigils ++ name ++ spaces ++ ':' :: rest)).length ∧
      byteOfChar (trimEnd (sigils ++ name ++ spaces ++ ':' :: rest)) pos = pos
  /-- The byte at which the text of the type stops begins a character, the right one. -/
  shown_bytes : byteOfChar rest shown.length = byteLength shown ∧
    charOfByte rest (byteLength shown) = shown.length

/-- An assertion behind a definition that selects a type: everything behind the colon. -/
structure AssertionType (buffer : Buffer) (scope : List String) (comment : CommentLine)
    (note : TypeAnnotation) (before rest after front type back : List Char) : Prop where
  stands : Stands buffer comment before ('#' :: ':' :: rest) after
  trims : Trims rest front type back
  selects : note.Selects buffer scope (before ++ '#' :: ':' :: front) type (back ++ after)

theorem exists_assertionType {note : TypeAnnotation} {before text after : List Char}
    (stands : Stands buffer comment before text after)
    (read : readTrailing buffer scope comment = .ok (.assertion note)) :
    ∃ rest front type back, AssertionType buffer scope comment note before rest after front type
      back := by
  unfold readTrailing at read
  split at read
  · rename_i payload kind
    obtain ⟨outcome, found, same⟩ := bind_eq_ok_iff.1 read
    cases outcome with
    | error diagnostic => cases same
    | ok note' =>
        cases same
        obtain ⟨trimmed, type, location, narrows, located, gives⟩ :=
          readTypeAnnotation_eq_ok_iff.1 found
        obtain ⟨rest, rfl, sliced, start_eq⟩ := stands.exists_colon (means_iff.2 kind)
        obtain ⟨whole, front, back, sliced', trims, trimmed_eq⟩ := narrows
        obtain rfl : rest = whole := Except.ok.inj (sliced.symm.trans sliced')
        refine ⟨rest, front, type, back, stands, trims, ?_⟩
        cases gives with
        | value carved inside =>
            refine selects_of_carve ?_ ?_ located carved inside
            · rw [stands.content_eq, trims.split]
              simp only [List.append_assoc, List.cons_append]
            · rw [trimmed_eq, start_eq]
              simp only [List.length_append, List.length_cons, Range.mk.injEq]
              omega
  · cases read

@[simp] theorem Annotation.note?_ofKey (key : List Char) (note : TypeAnnotation) :
    ( Annotation.ofKey key note).note? = some note := by
  unfold ofKey
  split <;> rfl

/-- Annotations with a note are those of names in directives. -/
theorem exists_typed_of_mem {group : Group} {annotations : List Annotation}
    { annotation : Annotation} {note : TypeAnnotation}
    (yields : group.Yields buffer scope (.ok annotations)) (member : annotation ∈ annotations)
    (noted : annotation.note? = some note) :
    ∃ whole trimmed payload name type inner text child, group = .directive whole ∧
      Narrows buffer whole trimmed payload ∧ (Directive.typed name type).Spelled trimmed payload ∧
      Narrows buffer type inner text ∧ Location.ofRange buffer inner = .ok note.location ∧
      buffer.carve [inner] = .ok child ∧ readType child child.all scope = .ok note.type ∧
      annotation = .ofKey name note := by
  cases yields with
  | methodType _ _ gives =>
      cases gives with
      | value =>
          rw [List.mem_singleton.1 member] at noted
          cases noted
  | doc => cases member
  | directive narrows spelled yields =>
      cases yields with
      | skip | override =>
          rw [List.mem_singleton.1 member] at noted
          cases noted
      | generic _ gives =>
          cases gives with
          | value =>
              obtain ⟨param, -, rfl⟩ := List.mem_map.1 member
              cases noted
      | overloads _ gives =>
          cases gives with
          | value =>
              rw [List.mem_singleton.1 member] at noted
              cases noted
      | typed inside located gives =>
          cases gives with
          | value carved read =>
              obtain rfl := List.mem_singleton.1 member
              rw [ Annotation.note?_ofKey] at noted
              obtain rfl := Option.some.inj noted
              exact ⟨_, _, _, _, _, _, _, _, rfl, narrows, spelled, inside, located, carved, read,
                rfl⟩

/-- A directive is a line of the block. -/
theorem exists_means_of_splits {comments : List CommentLine} {groups : List Group} {whole : Range}
    (splits : Splits buffer comments groups) (member : Group.directive whole ∈ groups) :
    ∃ comment ∈ comments, Means buffer comment (.directive whole) := by
  induction splits with
  | nil => cases member
  | @cons own rest group groups gathers _ _ ih =>
      rcases List.mem_cons.1 member with rfl | member
      · cases gathers with
        | @directive comment _ means =>
            exact ⟨comment, List.mem_append_left _ List.mem_cons_self, means⟩
      · obtain ⟨comment, inside, means⟩ := ih member
        exact ⟨comment, List.mem_append_right _ inside, means⟩

/-- The text in front of a description is in front of everything else. -/
theorem Undescribed.exists_append {text shown : List Char} (undescribed : Undescribed text shown) :
    ∃ more, text = shown ++ more := by
  cases undescribed with
  | @described _ note split _ => exact ⟨descriptionMark ++ note, by rw [split, List.append_assoc]⟩
  | plain _ => exact ⟨[], (List.append_nil text).symm⟩

namespace HasKey

variable {payload sigils name spaces rest : List Char}
  (keyed : HasKey payload sigils name spaces rest)

include keyed

/-- The text in front of a description stands behind the colon. -/
theorem slice_shown (sliced : buffer.slice range = .ok payload) {shown more : List Char}
    (rest_eq : rest = shown ++ more) :
    buffer.slice ⟨range.start + (sigils ++ name ++ spaces).length + 1,
      range.start + (sigils ++ name ++ spaces).length + 1 + shown.length⟩ = .ok shown := by
  have pieces : payload = sigils ++ name ++ spaces ++ [':'] ++ shown ++ more := by
    rw [keyed.split, rest_eq]
    simp only [List.append_assoc, List.cons_append, List.nil_append]
  rw [pieces] at sliced
  have piece := Buffer.slice_piece sliced
  rw [List.length_append, ← Nat.add_assoc] at piece
  exact piece

/-- A name does not follow right behind the word of a directive. -/
theorem gap_ne_nil {whole gap tail : List Char} (trims : Trims whole gap payload tail)
    (apart : ∀ c ∈ whole.head?, isBlank c = true) : gap ≠ [] := by
  rintro rfl
  have nonempty : payload ≠ [] := keyed.ne_word List.not_mem_nil
  obtain ⟨c, more, payload_eq⟩ := List.exists_cons_of_ne_nil nonempty
  have ink := trims.head_ink c (by rw [payload_eq]; rfl)
  rw [apart c (by rw [trims.split, payload_eq]; rfl)] at ink
  cases ink

end HasKey

/-- The directive in a comment that stands in the buffer selects the type that was read. -/
theorem exists_directiveType { annotation : Annotation} {note : TypeAnnotation}
    {before text after : List Char} {whole trimmed type inner : Range}
    {payload name content : List Char} {child : Buffer}
    (stands : Stands buffer comment before text after)
    (means : Means buffer comment (.directive whole))
    (narrows : Narrows buffer whole trimmed payload)
    (spelled : (Directive.typed name type).Spelled trimmed payload)
    (inside : Narrows buffer type inner content)
    (located : Location.ofRange buffer inner = .ok note.location)
    (carved : buffer.carve [inner] = .ok child)
    (read : readType child child.all scope = .ok note.type)
    (annotation_eq : annotation = .ofKey name note) :
    ∃ blanks gap sigils name spaces rest shown front type back,
      DirectiveType buffer scope comment annotation note before blanks gap sigils name spaces rest
        after shown front type back := by
  have payload_eq := narrows.slice_eq
  obtain ⟨blanks, afterWord, rfl, blank, apart, sliced, start_eq⟩ := stands.exists_directive means
  obtain ⟨again, gap, tail, sliced', trims, trimmed_eq⟩ := narrows
  obtain rfl : afterWord = again := Except.ok.inj (sliced.symm.trans sliced')
  cases spelled with
  | @typed sigils name spaces rest shown start _ keyed undescribed type_eq =>
    obtain ⟨more, rest_eq⟩ := undescribed.exists_append
    have shown_eq := keyed.slice_shown payload_eq rest_eq
    rw [← type_eq] at shown_eq
    obtain ⟨again, front, back, shown_eq', around, inner_eq⟩ := inside
    obtain rfl : shown = again := Except.ok.inj (shown_eq.symm.trans shown_eq')
    -- the pieces of the comment, from its mark to its end
    have split : '#' :: (blanks ++ directiveWord) ++ afterWord =
        '#' :: (blanks ++ directiveWord ++ gap ++
          (sigils ++ name ++ spaces ++ ':' :: (rest ++ tail))) := by
      rw [trims.split, keyed.split]
      simp only [List.append_assoc, List.cons_append]
    have selects : note.Selects buffer scope
        (before ++ '#' :: (blanks ++ directiveWord ++ gap ++
          (sigils ++ name ++ spaces ++ ':' :: front))) content (back ++ more ++ tail ++ after) := by
      refine selects_of_carve ?_ ?_ located carved read
      · rw [stands.content_eq, split, rest_eq, around.split]
        simp only [List.append_assoc, List.cons_append]
      · rw [inner_eq, type_eq, trimmed_eq, start_eq]
        simp only [List.length_append, List.length_cons, Range.mk.injEq]
        omega
    have content_ne : content ≠ [] := by
      obtain ⟨child, -, content_eq, read⟩ := selects.read
      exact content_eq ▸ content_ne_nil read
    -- the trimmed directive ends with ink, so the blanks behind it are no part of a description
    have ink : ∀ c ∈ rest.getLast?, isBlank c = false := by
      intro c last
      refine trims.last_ink c ?_
      rw [keyed.split, List.getLast?_append, List.getLast?_cons, last]
      rfl
    obtain ⟨raw, rear, typeText, trimsRaw⟩ :=
      exists_typeText undescribed trims.back_blank ink around content_ne
    have whole_eq : sigils ++ name ++ spaces ++ ':' :: (rest ++ tail) = payload ++ tail := by
      rw [keyed.split, List.append_assoc _ (':' :: rest), List.cons_append]
    have trimmed_text : trimEnd (sigils ++ name ++ spaces ++ ':' :: (rest ++ tail)) = payload := by
      rw [whole_eq, trimEnd_append_of_stop trims.back_blank trims.last_ink]
    refine ⟨blanks, gap, sigils, name, spaces, rest ++ tail, raw, front, content, rear, ?_⟩
    refine ⟨split ▸ stands, blank, trims.front_blank, ?_, { keyed with split := rfl }, typeText,
      trimsRaw, annotation_eq, ⟨_, selects⟩, ?_, typeText.bytes_eq⟩
    · exact keyed.gap_ne_nil trims apart
    · intro pos within
      rw [trimmed_text]
      refine ⟨?_, keyed.byteOfChar_eq within⟩
      rw [keyed.split, List.length_append, List.length_cons]
      omega

/-- Types are selected exactly. An annotation of a result or a parameter in a block is that of a
directive in one of the comments, and its location is the type that is written there; so is that of
an assertion behind a definition. -/
theorem types_selected (buffer : Buffer) (scope : List String) :
    (∀ comments block annotation note,
      (∀ comment ∈ comments, ∃ before text after, Stands buffer comment before text after) →
      readLeading buffer scope comments = .ok block → annotation ∈ block.annotations →
      annotation.note? = some note →
      ∃ comment ∈ comments, ∃ before blanks gap sigils name spaces rest after shown front type back,
        DirectiveType buffer scope comment annotation note before blanks gap sigils name spaces
          rest after shown front type back) ∧
    (∀ comment note, (∃ before text after, Stands buffer comment before text after) →
      readTrailing buffer scope comment = .ok (.assertion note) →
      ∃ before rest after front type back,
        AssertionType buffer scope comment note before rest after front type back) := by
  constructor
  · intro comments block annotation note standing found member noted
    obtain ⟨groups, outcomes, accounts⟩ := readLeading_eq_ok_iff.1 found
    rw [accounts.annotations_eq] at member
    obtain ⟨outcome, here, member⟩ := List.mem_flatMap.1 member
    obtain ⟨group, inside, yields⟩ := exists_of_forall₂ accounts.yields outcome here
    cases outcome with
    | error diagnostic => cases member
    | ok annotations =>
        obtain ⟨whole, trimmed, payload, name, type, inner, content, child, rfl, narrows, spelled,
          shown, located, carved, read, annotation_eq⟩ := exists_typed_of_mem yields member noted
        obtain ⟨comment, among, means⟩ := exists_means_of_splits accounts.splits inside
        obtain ⟨before, text, after, stands⟩ := standing comment among
        obtain ⟨blanks, gap, sigils, name, spaces, rest, shown, front, type, back, selected⟩ :=
          exists_directiveType stands means narrows spelled shown located carved read annotation_eq
        exact ⟨comment, among, before, blanks, gap, sigils, name, spaces, rest, after, shown, front,
          type, back, selected⟩
  · rintro comment note ⟨before, text, after, stands⟩ read
    obtain ⟨rest, front, type, back, selected⟩ := exists_assertionType stands read
    exact ⟨before, rest, after, front, type, back, selected⟩

/-- The only annotation of a block is known by the source of its note. -/
theorem exists_note_of_sources {block : LeadingBlock} {text : List Char}
    (sources : block.annotations.map (fun one => one.note?.map (·.location.source)) =
      [some text]) :
    ∃ one ∈ block.annotations, ∃ note, one.note? = some note ∧ note.location.source = text := by
  obtain ⟨one, only, source⟩ := List.map_eq_singleton_iff.1 sources
  obtain ⟨note, noted, source⟩ := Option.map_eq_some_iff.1 source
  exact ⟨one, only ▸ List.mem_singleton_self one, note, noted, source⟩

/-- A directive with a description, and an attribute with an assertion. -/
def notedBuffer : Buffer :=
  .ofString "é.rb" "# @rbs return : \"日\" | nil -- é ü  \nattr_reader :ñ #: \"é\"? \n"

/-- The directive in `notedBuffer`. -/
def notedDirective : CommentLine := ⟨0, ⟨0, 38⟩, true⟩

/-- The assertion in `notedBuffer`. -/
def notedAssertion : CommentLine := ⟨1, ⟨55, 64⟩, false⟩

/-- Both types have characters of several bytes, and so has what stands around them. -/
theorem types_selected_noted :
    (∃ block annotation note, readLeading notedBuffer [] [notedDirective] = .ok block ∧
      annotation ∈ block.annotations ∧ annotation.note? = some note ∧
      note.location.source = "\"日\" | nil".toList ∧
      ∃ comment ∈ [notedDirective],
        ∃ before blanks gap sigils name spaces rest after shown front type back,
          DirectiveType notedBuffer [] comment annotation note before blanks gap sigils name spaces
            rest after shown front type back) ∧
    (∃ note, readTrailing notedBuffer [] notedAssertion = .ok (.assertion note) ∧
      note.location.source = "\"é\"?".toList ∧ ∃ before rest after front type back,
        AssertionType notedBuffer [] notedAssertion note before rest after front type back) := by
  have directive : Stands notedBuffer notedDirective []
      "# @rbs return : \"日\" | nil -- é ü  ".toList "\nattr_reader :ñ #: \"é\"? \n".toList :=
    ⟨by decide +kernel, by decide +kernel, by decide +kernel⟩
  have assertion : Stands notedBuffer notedAssertion
      "# @rbs return : \"日\" | nil -- é ü  \nattr_reader :ñ ".toList "#: \"é\"? ".toList
      ['\n'] := ⟨by decide +kernel, by decide +kernel, by decide +kernel⟩
  obtain ⟨leading, trailing⟩ := types_selected notedBuffer []
  constructor
  · have found : ∃ block, readLeading notedBuffer [] [notedDirective] = .ok block ∧
        block.annotations.map (fun one => one.note?.map (·.location.source)) =
          [some "\"日\" | nil".toList] := by
      decide +kernel
    obtain ⟨block, read, sources⟩ := found
    obtain ⟨one, member, note, noted, source⟩ := exists_note_of_sources sources
    exact ⟨block, one, note, read, member, noted, source, leading [notedDirective] block one note
      (List.forall_mem_singleton.2 ⟨_, _, _, directive⟩) read member noted⟩
  · have found : ∃ outcome, readTrailing notedBuffer [] notedAssertion = .ok outcome ∧
        outcome.note?.map (·.location.source) = some "\"é\"?".toList := by
      decide +kernel
    obtain ⟨outcome, read, source⟩ := found
    obtain ⟨note, noted, source⟩ := Option.map_eq_some_iff.1 source
    rw [Trailing.eq_assertion noted] at read
    exact ⟨note, read, source, trailing notedAssertion note ⟨_, _, _, assertion⟩ read⟩

/-- A comment in the type, and dashes with nothing but a blank behind them. -/
def dashedBuffer : Buffer := .ofString "a.rb" "# @rbs return: T # c -- \n"

/-- The directive in `dashedBuffer`. -/
def dashedDirective : CommentLine := ⟨0, ⟨0, 24⟩, true⟩

/-- Dashes at the end of a comment stay in the text: it is not what stands in front of the first
dashes between two spaces. -/
theorem dashes_at_end_selected :
    ∃ block annotation note, readLeading dashedBuffer [] [dashedDirective] = .ok block ∧
      annotation ∈ block.annotations ∧ annotation.note? = some note ∧
      Stands dashedBuffer dashedDirective [] ("# @rbs return:".toList ++ " T # c -- ".toList)
        ['\n'] ∧
      Undescribed " T # c -- ".toList " T # c".toList ∧
      note.location.source = "T # c --".toList ∧
      note.location.source ≠ trim " T # c".toList := by
  have found : ∃ block, readLeading dashedBuffer [] [dashedDirective] = .ok block ∧
      block.annotations.map (fun one => one.note?.map (·.location.source)) =
        [some "T # c --".toList] := by
    decide +kernel
  obtain ⟨block, read, sources⟩ := found
  obtain ⟨one, member, note, noted, source⟩ := exists_note_of_sources sources
  have stands : Stands dashedBuffer dashedDirective []
      ("# @rbs return:".toList ++ " T # c -- ".toList) ['\n'] :=
    ⟨by decide +kernel, by decide +kernel, by decide +kernel⟩
  refine ⟨block, one, note, read, member, noted, stands,
    undescribed_iff.2 (by decide +kernel), source, ?_⟩
  rw [source]
  decide +kernel

end Signet.Inline

import Signet.Inline.Annotation
import Signet.Proofs.Source.Carving
import Signet.Proofs.Source.Locations

/-!
# Ranges in comments

What a comment line tells lies in a range that fits the buffer (`Placed.readFrom_payload`). Ranges
inside one comment fit because what is skipped is there. A range may also run from one comment to a
later one. It is not reversed, although the nodes of the two need not be apart: what is skipped at
the front of a comment holds no `#` (`ReadFrom.unmarked`), and the later comment begins with one
(`ReadFrom.through`).
-/

namespace Signet

open Text

/-! ## Ranges that fit -/

namespace Location

variable {shape : Shape}

/-- A range that fits has a location. -/
theorem ofRange_eq_ok {buffer : Buffer} {range : Range} (fits : buffer.contains range = true) :
    ofRange buffer range = .ok ({ buffer, range } : Location shape) :=
  (ofRange_eq_ok_iff buffer range _).2 ⟨fits, rfl⟩

/-- A range that fits can be assigned to a required part. -/
theorem withRequired_eq_ok {location : Location shape} {range : Range} (key : RequiredKey)
    (fits : location.buffer.contains range = true) :
    location.withRequired key range = .ok (location.record key range) :=
  withRequired_eq_ok_iff.2 ⟨fits, rfl⟩

/-- A range that fits, or none, can be assigned to an optional part. -/
theorem withOptional_eq_ok {location : Location shape} {range : Option Range} (key : OptionalKey)
    (fits : ∀ present, range = some present → location.buffer.contains present = true) :
    location.withOptional key range = .ok (location.recordOptional key range) :=
  withOptional_eq_ok_iff.2 ⟨fits, rfl⟩

end Location

namespace Inline

open Ruby

/-! ## Ranges read from a comment -/

/-- A range of a text that begins behind a mark, with no other mark in between. -/
structure ReadFrom (content : List Char) (mark : Nat) (range : Range) : Prop where
  start_le : range.start ≤ range.stop
  stop_le : range.stop ≤ content.length
  mark_le : mark ≤ range.start
  unmarked : ∀ index, mark < index → index < range.start → content[index]? ≠ some '#'

namespace ReadFrom

variable {content : List Char} {mark : Nat} {range : Range}

/-- From a range to one behind a later mark: the later mark lies in or behind the first range. -/
theorem through (first : ReadFrom content mark range) {next : Nat} {last : Range}
    (second : ReadFrom content next last) (later : mark < next)
    (marked : content[next]? = some '#') : range.start ≤ last.stop := by
  refine Nat.le_of_not_lt fun reversed => ?_
  have := second.mark_le
  have := second.start_le
  exact first.unmarked next later (by omega) marked

/-- The mark itself may be skipped. -/
theorem skipMark (first : ReadFrom content mark ⟨mark, range.stop⟩) (more : mark < range.stop) :
    ReadFrom content mark ⟨mark + 1, range.stop⟩ where
  start_le := more
  stop_le := first.stop_le
  mark_le := Nat.le_succ mark
  unmarked := by
    intro index after before
    simp at before
    omega

/-- What is skipped at the front of a range is the front of its text. -/
theorem extract_skip (content word : List Char) (start stop : Nat) :
    content.extract (start + word.length) stop = (content.extract start stop).drop word.length := by
  simp [List.drop_take, Nat.sub_sub, List.drop_drop]

/-- Text without a mark may be skipped at the front. -/
theorem skip (first : ReadFrom content mark range) (word : List Char)
    (front : word <+: content.extract range.start range.stop) (unmarked : '#' ∉ word) :
    ReadFrom content mark ⟨range.start + word.length, range.stop⟩ where
  start_le := by
    have short := front.length_le
    have := first.start_le
    simp at short ⊢
    omega
  stop_le := first.stop_le
  mark_le := Nat.le_trans first.mark_le (Nat.le_add_right ..)
  unmarked := by
    intro index after before
    by_cases inside : index < range.start
    · exact first.unmarked index after inside
    · obtain ⟨offset, rfl⟩ : ∃ offset, index = range.start + offset :=
        ⟨index - range.start, by omega⟩
      have short : offset < word.length := by simpa using before
      obtain ⟨rest, split⟩ := front
      -- a position behind the old start and before the new one is one of the word
      have inWord : (content.extract range.start range.stop)[offset]? = word[offset]? := by
        rw [← split, List.getElem?_append_left short]
      intro marked
      refine unmarked (List.mem_of_getElem? (i := offset) ?_)
      have inside : offset < range.stop - range.start := by
        have := congrArg List.length split
        simp at this
        omega
      rw [← inWord, List.extract_eq_take_drop, List.getElem?_take, if_pos inside,
        List.getElem?_drop, marked]

/-- The range may stop earlier. -/
theorem cut (first : ReadFrom content mark range) {stop : Nat} (above : range.start ≤ stop)
    (below : stop ≤ range.stop) : ReadFrom content mark ⟨range.start, stop⟩ :=
  ⟨above, Nat.le_trans below first.stop_le, first.mark_le, first.unmarked⟩

end ReadFrom

/-! ## Lines -/

theorem drop_length_takeWhile {α : Type} (p : α → Bool) (items : List α) :
    items.drop (items.takeWhile p).length = items.dropWhile p := by
  calc items.drop (items.takeWhile p).length
      = (items.takeWhile p ++ items.dropWhile p).drop (items.takeWhile p).length := by
        rw [List.takeWhile_append_dropWhile]
    _ = items.dropWhile p := List.drop_left

theorem trimStart_eq_drop (text : List Char) :
    trimStart text = text.drop (text.takeWhile isBlank).length :=
  (drop_length_takeWhile isBlank text).symm

/-- A mark is not blank. -/
theorem not_mem_takeWhile_isBlank (text : List Char) : '#' ∉ text.takeWhile isBlank := by
  intro member
  have : isBlank '#' = true := List.all_eq_true.1 List.all_takeWhile _ member
  revert this
  decide

/-- The line begins with its mark, on the row it is kept under. -/
structure Placed (buffer : Buffer) (comment : CommentLine) : Prop where
  marked : (comment.text buffer).head? = some '#'
  row_eq : comment.row = (buffer.content.take (comment.range buffer).start).count '\n'

/-- What a line says, if it says anything. -/
def LineKind.payload? : LineKind → Option Range
  | .colon payload => some payload
  | .continuation payload => some payload
  | .directive payload => some payload
  | .doc _ => none

/-- What a body says is read from it. -/
theorem ReadFrom.classifyBody {content : List Char} {mark : Nat} {range : Range}
    (first : ReadFrom content mark ⟨range.start + 1, range.stop⟩) {body : List Char}
    (body_eq : body = content.extract (range.start + 1) range.stop) {payload : Range}
    (tells : (classifyBody range body).payload? = some payload) :
    ReadFrom content mark payload := by
  unfold Inline.classifyBody at tells
  split at tells
  · rename_i rest
    obtain rfl := Option.some.inj tells
    exact first.skip [':'] ⟨rest, body_eq⟩ (by decide)
  · obtain rfl := Option.some.inj tells
    exact first
  · simp only at tells
    split at tells
    · rename_i after found
      obtain rfl := Option.some.inj tells
      have skipped : body.length - (trimStart body).length = (body.takeWhile isBlank).length := by
        have := (List.takeWhile_prefix isBlank (l := body)).length_le
        rw [trimStart_eq_drop, List.length_drop]
        omega
      have front : directiveWord <+: trimStart body := by
        unfold afterDirectiveWord? at found
        split at found
        · rename_i word
          simpa using word
        · simp at found
      have blanks := first.skip (body.takeWhile isBlank) (body_eq ▸ List.takeWhile_prefix isBlank)
        (not_mem_takeWhile_isBlank body)
      have word := blanks.skip directiveWord
        (by rwa [ReadFrom.extract_skip, ← body_eq, ← trimStart_eq_drop]) (by decide)
      simpa [skipped] using word
    · simp [LineKind.payload?] at tells

namespace Placed

variable {buffer : Buffer} {comment : CommentLine} (placed : Placed buffer comment)

include placed

theorem getElem?_start : buffer.content[(comment.range buffer).start]? = some '#' := by
  have marked := placed.marked
  rw [CommentLine.text, List.head?_eq_getElem?, List.extract_eq_take_drop, List.getElem?_take]
    at marked
  split at marked
  · simpa using marked
  · simp at marked

theorem start_lt_stop : (comment.range buffer).start < (comment.range buffer).stop := by
  refine Nat.lt_of_not_le fun empty => ?_
  have marked := placed.marked
  simp [CommentLine.text, Nat.sub_eq_zero_of_le empty] at marked

/-- The line itself. -/
theorem readFrom :
    ReadFrom buffer.content (comment.range buffer).start (comment.range buffer) where
  start_le := Nat.le_of_lt placed.start_lt_stop
  stop_le := charOfByte_le ..
  mark_le := Nat.le_refl _
  unmarked := fun _ after before => absurd after (Nat.lt_asymm before)

/-- The line without its mark. -/
theorem readFrom_body :
    ReadFrom buffer.content (comment.range buffer).start
      ⟨(comment.range buffer).start + 1, (comment.range buffer).stop⟩ :=
  placed.readFrom.skipMark placed.start_lt_stop

/-- What the line says is read from it. -/
theorem readFrom_payload (payload : Range)
    (tells : (classify buffer comment).payload? = some payload) :
    ReadFrom buffer.content (comment.range buffer).start payload := by
  have body_eq : (comment.text buffer).drop 1 =
      buffer.content.extract ((comment.range buffer).start + 1) (comment.range buffer).stop :=
    (ReadFrom.extract_skip buffer.content ['#'] ..).symm
  exact placed.readFrom_body.classifyBody body_eq tells

end Placed

end Inline

end Signet

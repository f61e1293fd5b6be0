import Mathlib.Algebra.GroupWithZero.Nat
import Signet.Source.Buffer

/-!
# Positions of carved buffers

A carved buffer shows ranges of its parent, one per line. Range number `index` begins at
`rangeStart ranges index`, behind the ranges before it and one separator for each of them. This is
what the table of the buffer lists (`rangeStarts_eq`), where the text of the range stands
(`exists_split`) and from where its positions go back to the parent (`project?_rangeStart`). Since
every position of a carved buffer is in one of the ranges or at its end (`exists_rangeStart`),
positions go back through any number of parents (`Built.absolute_faithful`).
-/

namespace Signet.Buffer

open Text

variable {parent child buffer : Buffer} {range : Range} {ranges : List Range} {text : List Char}
  {index offset pos : Nat}

/-! ## Ranges that fit -/

theorem contains_iff (buffer : Buffer) (range : Range) :
    buffer.contains range = true ↔
      range.start ≤ range.stop ∧ range.stop ≤ buffer.content.length :=
  range.fits_iff buffer.length

/-- A range that fits can be cut out. -/
theorem slice_eq_ok (fits : buffer.contains range = true) :
    buffer.slice range = .ok (buffer.content.extract range.start range.stop) :=
  (buffer.slice_eq_ok_iff range _).2 ⟨fits, rfl⟩

@[simp]
theorem contains_all (buffer : Buffer) : buffer.contains buffer.all = true :=
  (buffer.contains_iff buffer.all).2 ⟨Nat.zero_le _, Nat.le_refl _⟩

@[simp]
theorem slice_all (buffer : Buffer) : buffer.slice buffer.all = .ok buffer.content := by
  rw [slice_eq_ok buffer.contains_all]
  exact congrArg Except.ok List.take_length

/-- The ranges are checked one after the other. -/
theorem forM_checkRange_eq_ok_iff (buffer : Buffer) (ranges : List Range) :
    ranges.forM buffer.checkRange = .ok () ↔ ∀ range ∈ ranges, buffer.contains range = true := by
  induction ranges with
  | nil => simp [pure, Except.pure]
  | cons range ranges ih =>
      rw [List.forM_eq_forM, List.forM_cons]
      cases checked : buffer.checkRange range with
      | ok =>
          have fits := (buffer.checkRange_eq_ok_iff range).1 checked
          show ranges.forM buffer.checkRange = .ok () ↔ _
          rw [ih, List.forall_mem_cons]
          exact (and_iff_right fits).symm
      | error problem =>
          refine ⟨fun done => (nomatch done), fun fit => ?_⟩
          rw [(buffer.checkRange_eq_ok_iff range).2 (fit range List.mem_cons_self)] at checked
          exact nomatch checked

/-- Carving succeeds exactly for ranges that fit, if there are any. -/
theorem carve_eq_ok_iff :
    parent.carve ranges = .ok child ↔
      ranges ≠ [] ∧ (∀ range ∈ ranges, parent.contains range = true) ∧
        child = .carved parent ranges := by
  rw [← parent.forM_checkRange_eq_ok_iff]
  unfold carve
  cases ranges with
  | nil => simp [throw, throwThe, MonadExceptOf.throw, bind, Except.bind]
  | cons range ranges =>
      cases (range :: ranges).forM parent.checkRange with
      | ok => simp [bind, Except.bind, pure, Except.pure, eq_comm]
      | error => simp [bind, Except.bind]

/-- Ranges that fit can be carved out if there are any. -/
theorem carve_eq_ok (nonempty : ranges ≠ [])
    (fit : ∀ range ∈ ranges, buffer.contains range = true) :
    buffer.carve ranges = .ok (.carved buffer ranges) :=
  carve_eq_ok_iff.2 ⟨nonempty, fit, rfl⟩

/-- What is selected by a range that fits is as long as the range. -/
theorem length_extract (fits : range.fits text.length = true) :
    (text.extract range.start range.stop).length = range.length := by
  have := (range.fits_iff text.length).1 fits
  simp only [List.extract_eq_take_drop, List.length_take, List.length_drop, Range.length]
  omega

theorem getElem?_extract (text : List Char) (start stop index : Nat) :
    (text.extract start stop)[index]? =
      if start + index < stop then text[start + index]? else none := by
  rw [List.extract_eq_take_drop, List.getElem?_take, List.getElem?_drop]
  exact if_congr (by omega) rfl rfl

/-! ## Where a range begins -/

/-- Where a range begins in the carved text. -/
def rangeStart (ranges : List Range) (index : Nat) : Nat :=
  ((ranges.take index).map fun range => range.length + 1).sum

@[simp] theorem rangeStart_zero (ranges : List Range) : rangeStart ranges 0 = 0 := rfl

@[simp] theorem rangeStart_cons_succ (range : Range) (ranges : List Range) (index : Nat) :
    rangeStart (range :: ranges) (index + 1) = range.length + 1 + rangeStart ranges index := rfl

/-- The next range begins behind the separator. -/
theorem rangeStart_succ (inside : index < ranges.length) :
    rangeStart ranges (index + 1) = rangeStart ranges index + ranges[index].length + 1 := by
  rw [rangeStart, List.take_succ_eq_append_getElem inside, List.map_append, List.sum_append]
  exact (Nat.add_assoc ..).symm

theorem rangeStart_le {later : Nat} (le : index ≤ later) :
    rangeStart ranges index ≤ rangeStart ranges later := by
  obtain ⟨more, rfl⟩ := Nat.exists_eq_add_of_le le
  rw [rangeStart, rangeStart, List.take_add, List.map_append, List.sum_append]
  exact Nat.le_add_right ..

/-- A range ends before the separator behind the last range would stand. -/
theorem rangeStart_add_length_lt (inside : index < ranges.length) :
    rangeStart ranges index + ranges[index].length < rangeStart ranges ranges.length := by
  induction ranges generalizing index with
  | nil => exact absurd inside (Nat.not_lt_zero _)
  | cons range ranges ih =>
      rw [List.length_cons, rangeStart_cons_succ]
      cases index with
      | zero =>
          show 0 + range.length < _
          omega
      | succ index =>
          have rest := ih (Nat.lt_of_succ_lt_succ inside)
          rw [rangeStart_cons_succ, List.getElem_cons_succ]
          omega

theorem rangeStart_length (ranges : List Range) :
    rangeStart ranges ranges.length = (ranges.map Range.length).sum + ranges.length := by
  induction ranges with
  | nil => rfl
  | cons range ranges ih =>
      rw [List.length_cons, rangeStart_cons_succ, ih, List.map_cons, List.sum_cons]
      omega

theorem joinRanges_cons_cons (text : List Char) (range next : Range) (ranges : List Range) :
    joinRanges text (range :: next :: ranges) =
      text.extract range.start range.stop ++ '\n' :: joinRanges text (next :: ranges) := by
  simp [joinRanges, List.intercalate]

/-- The ranges and a separator for each are one separator more than the carved text. -/
theorem length_joinRanges (nonempty : ranges ≠ [])
    (fit : ∀ range ∈ ranges, range.fits text.length = true) :
    (joinRanges text ranges).length + 1 = rangeStart ranges ranges.length := by
  induction ranges with
  | nil => exact absurd rfl nonempty
  | cons range ranges ih =>
      have selected := length_extract (fit range List.mem_cons_self)
      cases ranges with
      | nil =>
          simpa [joinRanges, List.intercalate] using selected
      | cons next ranges =>
          have rest := ih (List.cons_ne_nil next ranges) fun other member =>
            fit other (List.mem_cons_of_mem _ member)
          have whole : rangeStart (range :: next :: ranges) (range :: next :: ranges).length =
              range.length + 1 + rangeStart (next :: ranges) (next :: ranges).length := rfl
          rw [joinRanges_cons_cons, List.length_append, List.length_cons, selected, rest, whole]
          omega

/-- The text of a range stands where the range begins. A separator follows unless it is the last. -/
theorem exists_split (fit : ∀ range ∈ ranges, range.fits text.length = true)
    (inside : index < ranges.length) :
    ∃ front back, joinRanges text ranges =
        front ++ (text.extract ranges[index].start ranges[index].stop ++ back) ∧
      front.length = rangeStart ranges index ∧
      (index + 1 < ranges.length → back.head? = some '\n') := by
  induction ranges generalizing index with
  | nil => exact absurd inside (Nat.not_lt_zero _)
  | cons range ranges ih =>
      cases ranges with
      | nil =>
          obtain rfl : index = 0 := by simpa using inside
          exact ⟨[], [], by simp [joinRanges, List.intercalate], rfl, by simp⟩
      | cons next ranges =>
          rw [joinRanges_cons_cons]
          cases index with
          | zero => exact ⟨[], _, rfl, rfl, fun _ => rfl⟩
          | succ index =>
              -- the first range and its line break come in front
              obtain ⟨front, back, split, behind, separated⟩ :=
                ih (fun other member => fit other (List.mem_cons_of_mem _ member))
                  (Nat.lt_of_succ_lt_succ inside)
              have selected := length_extract (fit range List.mem_cons_self)
              refine ⟨text.extract range.start range.stop ++ '\n' :: front, back, ?_, ?_,
                fun more => separated (Nat.lt_of_succ_lt_succ more)⟩
              · rw [split, List.append_assoc]
                rfl
              · rw [rangeStart_cons_succ, List.length_append, selected, List.length_cons, behind]
                omega

/-- The characters of a range are those of the parent. -/
theorem getElem?_joinRanges (fit : ∀ range ∈ ranges, range.fits text.length = true)
    (inside : index < ranges.length) (within : offset < ranges[index].length) :
    (joinRanges text ranges)[rangeStart ranges index + offset]? =
      text[ranges[index].start + offset]? := by
  obtain ⟨front, back, split, behind, -⟩ := exists_split fit inside
  have selected := length_extract (fit _ (List.getElem_mem inside))
  have before : ranges[index].start + offset < ranges[index].stop := by
    rw [Range.length] at within
    omega
  rw [split, List.getElem?_append_right (by omega), behind, Nat.add_sub_cancel_left,
    List.getElem?_append_left (by omega), getElem?_extract, if_pos before]

/-- A separator follows each range but the last. -/
theorem getElem?_joinRanges_separator (fit : ∀ range ∈ ranges, range.fits text.length = true)
    (more : index + 1 < ranges.length) :
    (joinRanges text ranges)[rangeStart ranges index + ranges[index].length]? = some '\n' := by
  obtain ⟨front, back, split, behind, separated⟩ :=
    exists_split fit (Nat.lt_of_succ_lt more)
  have selected := length_extract (fit _ (List.getElem_mem (Nat.lt_of_succ_lt more)))
  rw [split, List.getElem?_append_right (by omega), behind, Nat.add_sub_cancel_left,
    List.getElem?_append_right (by omega), selected, Nat.sub_self, ← List.head?_eq_getElem?]
  exact separated more

/-! ## From a position to the parent -/

theorem rangeStartsFrom_eq (start : Nat) (ranges : List Range) :
    rangeStartsFrom start ranges =
      (List.range ranges.length).map fun index => start + rangeStart ranges index := by
  induction ranges generalizing start with
  | nil => rfl
  | cons range ranges ih =>
      rw [rangeStartsFrom, ih, List.length_cons, List.range_succ_eq_map, List.map_cons,
        List.map_map]
      refine congrArg _ (List.map_congr_left fun index _ => ?_)
      show _ = start + (range.length + 1 + rangeStart ranges index)
      omega

/-- The table lists where the ranges begin. -/
theorem rangeStarts_eq (ranges : List Range) :
    rangeStarts ranges = (List.range ranges.length).map (rangeStart ranges) := by
  rw [rangeStarts, rangeStartsFrom_eq]
  exact List.map_congr_left fun index _ => Nat.zero_add _

theorem getElem?_rangeStarts (inside : index < ranges.length) :
    (rangeStarts ranges)[index]? = some (rangeStart ranges index) := by
  rw [rangeStarts_eq, List.getElem?_map, List.getElem?_range inside]
  rfl

/-- A position of a range, its end included, is found in that range. -/
theorem lastUpTo_rangeStarts (inside : index < ranges.length)
    (within : offset ≤ ranges[index].length) :
    Table.lastUpTo (rangeStarts ranges) (rangeStart ranges index + offset) = index := by
  rw [rangeStarts_eq]
  refine Table.lastUpTo_map_range inside (fun earlier le => ?_) fun later lt _ => ?_
  · exact Nat.le_add_right_of_le (rangeStart_le le)
  · have next : rangeStart ranges (index + 1) ≤ rangeStart ranges later := rangeStart_le lt
    rw [rangeStart_succ inside] at next
    omega

/-- A position of a range, its end included, goes back to that range of the parent. -/
theorem project?_rangeStart (inside : index < ranges.length)
    (within : offset ≤ ranges[index].length) :
    project? ranges (rangeStart ranges index + offset) = some (ranges[index].start + offset) := by
  have offset_eq : rangeStart ranges index + offset - rangeStart ranges index = offset :=
    Nat.add_sub_cancel_left ..
  simp only [project?, lastUpTo_rangeStarts inside within, List.getElem?_eq_getElem inside,
    getElem?_rangeStarts inside, Option.bind_eq_bind, Option.bind_some, offset_eq]
  rfl

/-- Every position of a carved text is in a range or at its end. -/
theorem exists_rangeStart (before : pos < rangeStart ranges ranges.length) :
    ∃ index, ∃ inside : index < ranges.length, ∃ offset, offset ≤ ranges[index].length ∧
      pos = rangeStart ranges index + offset := by
  induction ranges generalizing pos with
  | nil => exact absurd before (Nat.not_lt_zero _)
  | cons range ranges ih =>
      by_cases first : pos ≤ range.length
      · exact ⟨0, Nat.succ_pos _, pos, first, (Nat.zero_add pos).symm⟩
      · rw [List.length_cons, rangeStart_cons_succ] at before
        obtain ⟨index, inside, offset, within, reached⟩ :=
          ih (show pos - range.length - 1 < rangeStart ranges ranges.length by omega)
        refine ⟨index + 1, Nat.succ_lt_succ inside, offset, within, ?_⟩
        rw [rangeStart_cons_succ]
        omega

theorem length_carved (nonempty : ranges ≠ [])
    (fit : ∀ range ∈ ranges, parent.contains range = true) :
    (carved parent ranges).length + 1 = rangeStart ranges ranges.length :=
  length_joinRanges nonempty fit

/-- A position behind the end does not exist. -/
theorem absolute_of_length_lt (behind : buffer.length < pos) :
    buffer.absolute pos = .error (.outOfRange buffer.name pos buffer.length) := by
  have refused : buffer.checkPosition pos = .error (.outOfRange buffer.name pos buffer.length) :=
    if_neg (Nat.not_le_of_lt behind)
  cases buffer with
  | file name content => rw [absolute, refused]; rfl
  | carved parent ranges => rw [absolute, refused]; rfl

/-- In a file, a position is where it is. -/
theorem absolute_file {name : String} {content : List Char} (within : pos ≤ content.length) :
    (file name content).absolute pos = .ok pos := by
  have admitted : (file name content).checkPosition pos = .ok () := if_pos within
  rw [absolute, admitted]
  rfl

/-- A position of a range of a carved buffer is that of the parent. -/
theorem absolute_rangeStart (nonempty : ranges ≠ [])
    (fit : ∀ range ∈ ranges, parent.contains range = true)
    (inside : index < ranges.length) (within : offset ≤ ranges[index].length) :
    (carved parent ranges).absolute (rangeStart ranges index + offset) =
      parent.absolute (ranges[index].start + offset) := by
  have whole := length_carved nonempty fit
  have ahead := rangeStart_add_length_lt inside
  have admitted : (carved parent ranges).checkPosition (rangeStart ranges index + offset) =
      .ok () := if_pos (by omega)
  rw [absolute, admitted, project?_rangeStart inside within]
  rfl

/-- Every position of a carved buffer is one of a range, and goes back to one of the parent. -/
theorem exists_absolute_eq (nonempty : ranges ≠ [])
    (fit : ∀ range ∈ ranges, parent.contains range = true)
    (within : pos ≤ (carved parent ranges).length) :
    ∃ index, ∃ inside : index < ranges.length, ∃ offset, offset ≤ ranges[index].length ∧
      pos = rangeStart ranges index + offset ∧ ranges[index].start + offset ≤ parent.length ∧
      (carved parent ranges).absolute pos = parent.absolute (ranges[index].start + offset) := by
  have whole := length_carved nonempty fit
  obtain ⟨index, inside, offset, short, rfl⟩ :=
    exists_rangeStart (show pos < rangeStart ranges ranges.length by omega)
  obtain ⟨turned, fits⟩ := (parent.contains_iff _).1 (fit _ (List.getElem_mem inside))
  refine ⟨index, inside, offset, short, rfl, ?_, absolute_rangeStart nonempty fit inside short⟩
  rw [Range.length] at short
  show _ ≤ parent.content.length
  omega

/-! ## Positions through all parents -/

/-- A file, or what was carved out of it, over any number of parents. -/
inductive Built : Buffer → Prop
  | file (name : String) (content : List Char) : Built (file name content)
  | carve {parent child : Buffer} {ranges : List Range} (above : Built parent)
      (carved : parent.carve ranges = .ok child) : Built child

/-- Every position of the buffer has a position in the file. -/
def Placed (buffer : Buffer) : Prop :=
  ∀ pos, pos ≤ buffer.length →
    ∃ position, buffer.absolute pos = .ok position ∧ position ≤ buffer.top.length

/-- Carving keeps positions placed: each comes from a position of the parent. -/
theorem Placed.carved (placed : parent.Placed) (nonempty : ranges ≠ [])
    (fit : ∀ range ∈ ranges, parent.contains range = true) :
    (Buffer.carved parent ranges).Placed := by
  intro pos within
  obtain ⟨index, inside, offset, -, -, above, absolute_eq⟩ := exists_absolute_eq nonempty fit within
  rw [absolute_eq]
  exact placed _ above

theorem Built.placed (built : Built buffer) : buffer.Placed := by
  induction built with
  | file name content => exact fun pos within => ⟨pos, absolute_file within, within⟩
  | carve above carved placed =>
      obtain ⟨nonempty, fit, rfl⟩ := carve_eq_ok_iff.1 carved
      exact placed.carved nonempty fit

/-- What a carved buffer shows of its parent. -/
structure Shows (parent : Buffer) (ranges : List Range) (child : Buffer) : Prop where
  name_eq : child.name = parent.name
  top_eq : child.top = parent.top
  /-- The ranges and a separator between any two of them. -/
  length_eq : child.length = (ranges.map Range.length).sum + (ranges.length - 1)
  /-- A character of a range is the parent's. -/
  char_eq : ∀ index (inside : index < ranges.length), ∀ offset < ranges[index].length, ∃ c,
    child.content[rangeStart ranges index + offset]? = some c ∧
      parent.content[ranges[index].start + offset]? = some c
  /-- A character of a range is where it is in the parent. -/
  absolute_eq : ∀ index (inside : index < ranges.length), ∀ offset < ranges[index].length,
    ∃ position, child.absolute (rangeStart ranges index + offset) = .ok position ∧
      parent.absolute (ranges[index].start + offset) = .ok position
  /-- A separator stands behind each range but the last. -/
  separator_eq : ∀ index (more : index + 1 < ranges.length),
    child.content[rangeStart ranges index + ranges[index].length]? = some '\n'
  /-- The separator behind a range, or the end of the buffer, is where the range ends. -/
  stop_eq : ∀ index (inside : index < ranges.length), ∃ position,
    child.absolute (rangeStart ranges index + ranges[index].length) = .ok position ∧
      parent.absolute ranges[index].stop = .ok position
  /-- A position is found through the last range that begins at it or before it. -/
  last_eq : ∀ pos, pos ≤ child.length → ∃ index, ∃ inside : index < ranges.length,
    rangeStart ranges index ≤ pos ∧ (∀ later, index < later → pos < rangeStart ranges later) ∧
      child.absolute pos = parent.absolute (ranges[index].start + (pos - rangeStart ranges index))

theorem Placed.shows (placed : parent.Placed) (nonempty : ranges ≠ [])
    (fit : ∀ range ∈ ranges, parent.contains range = true) :
    Shows parent ranges (Buffer.carved parent ranges) := by
  have bounded : ∀ index (inside : index < ranges.length),
      ranges[index].start ≤ ranges[index].stop ∧ ranges[index].stop ≤ parent.content.length :=
    fun index inside => (parent.contains_iff _).1 (fit _ (List.getElem_mem inside))
  -- a position of the child has the absolute position of the place it was carved from
  have located : ∀ index (inside : index < ranges.length), ∀ offset ≤ ranges[index].length,
      ∃ position,
        (Buffer.carved parent ranges).absolute (rangeStart ranges index + offset) = .ok position ∧
          parent.absolute (ranges[index].start + offset) = .ok position := by
    intro index inside offset within
    have := bounded index inside
    have short : offset ≤ ranges[index].stop - ranges[index].start := within
    obtain ⟨position, found, -⟩ :=
      placed (ranges[index].start + offset) (show _ ≤ parent.content.length by omega)
    exact ⟨position, (absolute_rangeStart nonempty fit inside within).trans found, found⟩
  have whole := length_carved nonempty fit
  refine ⟨rfl, rfl, ?_, ?_, ?_, ?_, ?_, ?_⟩
  · have := List.length_pos_iff.2 nonempty
    rw [rangeStart_length] at whole
    omega
  · intro index inside offset within
    have := bounded index inside
    have short : offset < ranges[index].stop - ranges[index].start := within
    refine ⟨parent.content[ranges[index].start + offset], ?_, List.getElem?_eq_getElem (by omega)⟩
    exact (getElem?_joinRanges fit inside within).trans (List.getElem?_eq_getElem (by omega))
  · intro index inside offset within
    exact located index inside offset (Nat.le_of_lt within)
  · intro index more
    exact getElem?_joinRanges_separator fit more
  · intro index inside
    obtain ⟨position, found, above⟩ := located index inside _ (Nat.le_refl _)
    have reached : ranges[index].start + ranges[index].length = ranges[index].stop :=
      Nat.add_sub_cancel' (bounded index inside).1
    exact ⟨position, found, reached ▸ above⟩
  · -- a position belongs to the last range that begins at or before it
    intro pos within
    obtain ⟨index, inside, offset, short, rfl, -, absolute_eq⟩ :=
      exists_absolute_eq nonempty fit within
    refine ⟨index, inside, Nat.le_add_right .., ?_, ?_⟩
    · intro later after
      have next : rangeStart ranges (index + 1) ≤ rangeStart ranges later := rangeStart_le after
      rw [rangeStart_succ inside] at next
      omega
    · rw [Nat.add_sub_cancel_left]
      exact absolute_eq

/-- Positions of carved buffers are faithful to the file: those of the buffer all have a position in
the file, no other position has one, and what is carved out of the buffer shows its characters at
their positions. -/
theorem Built.absolute_faithful (built : Built buffer) :
    (∀ pos, pos ≤ buffer.length →
        ∃ position, buffer.absolute pos = .ok position ∧ position ≤ buffer.top.length) ∧
      (∀ pos, buffer.length < pos →
        buffer.absolute pos = .error (.outOfRange buffer.name pos buffer.length)) ∧
      (∀ ranges child, buffer.carve ranges = .ok child → Shows buffer ranges child) := by
  refine ⟨built.placed, fun pos => absolute_of_length_lt, ?_⟩
  intro ranges child carved
  obtain ⟨nonempty, fit, rfl⟩ := carve_eq_ok_iff.1 carved
  exact built.placed.shows nonempty fit

/-- Ranges out of order, empty ones and overlapping ones, carved twice. -/
theorem absolute_faithful_grandchild :
    ∃ child grandchild,
      (ofString "a.rb" "é日\nab").carve [⟨3, 5⟩, ⟨1, 1⟩, ⟨0, 4⟩] = .ok child ∧
        child.carve [⟨8, 8⟩, ⟨3, 6⟩, ⟨0, 5⟩] = .ok grandchild ∧ Built grandchild ∧
        ((∀ pos, pos ≤ grandchild.length → ∃ position,
            grandchild.absolute pos = .ok position ∧ position ≤ grandchild.top.length) ∧
          (∀ pos, grandchild.length < pos → grandchild.absolute pos =
            .error (.outOfRange grandchild.name pos grandchild.length)) ∧
          (∀ ranges carved, grandchild.carve ranges = .ok carved →
            Shows grandchild ranges carved)) ∧
        grandchild.content = "\n\né日\nab\n\né".toList ∧
        (List.range 11).map grandchild.absolute =
          [4, 1, 0, 1, 2, 3, 4, 5, 1, 0, 1].map Except.ok := by
  let file := ofString "a.rb" "é日\nab"
  have first : file.carve [⟨3, 5⟩, ⟨1, 1⟩, ⟨0, 4⟩] =
      .ok (file.carved [⟨3, 5⟩, ⟨1, 1⟩, ⟨0, 4⟩]) := rfl
  have second : (file.carved [⟨3, 5⟩, ⟨1, 1⟩, ⟨0, 4⟩]).carve [⟨8, 8⟩, ⟨3, 6⟩, ⟨0, 5⟩] =
      .ok ((file.carved [⟨3, 5⟩, ⟨1, 1⟩, ⟨0, 4⟩]).carved [⟨8, 8⟩, ⟨3, 6⟩, ⟨0, 5⟩]) := rfl
  have built := Built.carve (.carve (.file ..) first) second
  exact ⟨_, _, first, second, built, built.absolute_faithful, by decide, rfl⟩

end Signet.Buffer

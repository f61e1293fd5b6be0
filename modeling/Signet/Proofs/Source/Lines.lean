import Signet.Proofs.Source.Spans
import Signet.Text.Stretch

/-!
# Lines and columns

Lines and columns are looked up in a table of where the lines begin. The entries of the table are
the positions behind newlines (`Text.getElem?_lineStarts`), so the place of a position is told by
the newlines in front of it (`Text.placeAt_eq_after`), and a line that is looked up is what stands
between two newlines (`Buffer.line?_of_lineAt`). With more text in front the place is a later one
(`Text.Place.before_after_append`), so places tell positions apart
(`Buffer.Built.places_identify`).
-/

namespace Signet

namespace Text

variable {text front line more opened : List Char} {number start pos later index : Nat}

/-! ## Where lines begin -/

/-- Behind some text, lines begin as if it were all there is. -/
theorem lineStartsFrom_append (index : Nat) (front back : List Char) :
    lineStartsFrom index (front ++ back) =
      lineStartsFrom index front ++ lineStartsFrom (index + front.length) back := by
  induction front generalizing index with
  | nil => rfl
  | cons c front ih =>
      have further : index + (c :: front).length = index + 1 + front.length := by
        rw [List.length_cons]
        omega
      rw [List.cons_append, lineStartsFrom, lineStartsFrom, ih, further]
      split <;> rfl

theorem lineStarts_append (front back : List Char) :
    lineStarts (front ++ back) = lineStarts front ++ lineStartsFrom front.length back := by
  rw [lineStarts, lineStartsFrom_append, Nat.zero_add]
  rfl

theorem length_lineStartsFrom (index : Nat) (text : List Char) :
    (lineStartsFrom index text).length = text.count '\n' := by
  induction text generalizing index with
  | nil => rfl
  | cons c text ih =>
      rw [lineStartsFrom]
      split
      · rename_i newline
        rw [newline, List.length_cons, ih, List.count_cons_self]
      · rename_i other
        rw [ih, List.count_cons_of_ne other]

/-- One line more than newlines. -/
theorem length_lineStarts (text : List Char) : (lineStarts text).length = text.count '\n' + 1 := by
  rw [lineStarts, List.length_cons, length_lineStartsFrom]

/-- A line begins behind a character of the text. -/
theorem bounds_of_mem_lineStartsFrom (member : start ∈ lineStartsFrom index text) :
    index < start ∧ start ≤ index + text.length := by
  induction text generalizing index with
  | nil => exact absurd member List.not_mem_nil
  | cons c text ih =>
      have later : start ∈ lineStartsFrom (index + 1) text →
          index < start ∧ start ≤ index + (c :: text).length := by
        intro member
        have bounds := ih member
        rw [List.length_cons]
        omega
      rw [lineStartsFrom] at member
      split at member
      · rcases List.mem_cons.1 member with rfl | member
        · rw [List.length_cons]
          omega
        · exact later member
      · exact later member

/-- Behind a newline, and at the start of a text, a line begins: the one that has the newlines of
the lines before it in front. -/
theorem getElem?_lineStarts (opens : ∀ c ∈ front.getLast?, c = '\n') (back : List Char) :
    (lineStarts (front ++ back))[front.count '\n']? = some front.length := by
  have inside : front.count '\n' < (lineStarts front).length := by
    rw [length_lineStarts]
    exact Nat.lt_succ_self _
  rw [lineStarts_append, List.getElem?_append_left inside]
  rcases front.eq_nil_or_concat with rfl | ⟨before, c, rfl⟩
  · rfl
  · rw [List.concat_eq_append] at opens ⊢
    obtain rfl : c = '\n' := opens c (by simp)
    have passed : (before ++ ['\n']).count '\n' = (lineStarts before).length := by
      rw [length_lineStarts, List.count_append]
      rfl
    rw [passed, lineStarts_append, List.getElem?_append_right (Nat.le_refl _), Nat.sub_self,
      List.length_append]
    rfl

/-! ## Places -/

/-- The first place is on an earlier line, or before the other one on the same line. -/
def Place.Before (first last : Place) : Prop :=
  first.line < last.line ∨ first.line = last.line ∧ first.column < last.column

/-- The place after a given text: its newlines give the line, the characters after the last
newline the column. -/
def Place.after (text : List Char) : Place where
  line := text.count '\n' + 1
  column := (text.reverse.takeWhile (· ≠ '\n')).length

theorem not_mem_takeWhile (text : List Char) : '\n' ∉ text.takeWhile (· ≠ '\n') := by
  intro member
  have passed := List.all_eq_true.1 List.all_takeWhile _ member
  exact of_decide_eq_true passed rfl

theorem eq_newline_of_head?_dropWhile (text : List Char) :
    ∀ c ∈ (text.dropWhile (· ≠ '\n')).head?, c = '\n' := by
  intro c first
  have stopped := eq_false_of_head?_dropWhile (fun c : Char => decide (c ≠ '\n')) text c first
  simpa using stopped

theorem takeWhile_append_of_not_mem (plain : '\n' ∉ line) (rest : List Char) :
    (line ++ rest).takeWhile (· ≠ '\n') = line ++ rest.takeWhile (· ≠ '\n') :=
  List.takeWhile_append_of_pos fun _ member =>
    decide_eq_true fun newline => plain (newline ▸ member)

/-- Behind a newline, and at the start of a text, a line begins. -/
theorem Place.after_of_getLast? (opens : ∀ c ∈ front.getLast?, c = '\n') :
    Place.after front = ⟨front.count '\n' + 1, 0⟩ := by
  rw [← List.head?_reverse] at opens
  rw [Place.after]
  cases turned : front.reverse with
  | nil => rfl
  | cons c rest =>
      obtain rfl : c = '\n' := opens c (by rw [turned]; rfl)
      rfl

/-- Characters without a newline move the place along the line. -/
theorem Place.after_append (text : List Char) (plain : '\n' ∉ more) :
    Place.after (text ++ more) =
      ⟨(Place.after text).line, (Place.after text).column + more.length⟩ := by
  have turned : '\n' ∉ more.reverse := fun member => plain (List.mem_reverse.1 member)
  simp only [Place.after, List.count_append, List.count_eq_zero.2 plain, List.reverse_append,
    takeWhile_append_of_not_mem turned, List.length_append, List.length_reverse]
  rw [Nat.add_zero, Nat.add_comm more.length]

/-- More text in front makes a later place. -/
theorem Place.before_after_append (text : List Char) (nonempty : more ≠ []) :
    (Place.after text).Before (Place.after (text ++ more)) := by
  by_cases newline : '\n' ∈ more
  · have counted : 0 < more.count '\n' := List.count_pos_iff.2 newline
    refine .inl ?_
    show text.count '\n' + 1 < (text ++ more).count '\n' + 1
    rw [List.count_append]
    omega
  · have longer := List.length_pos_iff.2 nonempty
    rw [Place.after_append text newline]
    exact .inr ⟨rfl, Nat.lt_add_of_pos_right longer⟩

/-- A text ends with the beginning of a line. -/
theorem exists_append_of_getLast? (text : List Char) :
    ∃ front opened, text = front ++ opened ∧ '\n' ∉ opened ∧ ∀ c ∈ front.getLast?, c = '\n' := by
  refine ⟨(text.reverse.dropWhile (· ≠ '\n')).reverse, (text.reverse.takeWhile (· ≠ '\n')).reverse,
    ?_, ?_, ?_⟩
  · rw [← List.reverse_append, List.takeWhile_append_dropWhile, List.reverse_reverse]
  · exact fun member => not_mem_takeWhile _ (List.mem_reverse.1 member)
  · rw [List.getLast?_reverse]
    exact eq_newline_of_head?_dropWhile _

/-- The search in the table ends on the line that the newlines in front tell, at the last of
them. -/
theorem placeAt_eq_after (within : pos ≤ text.length) :
    placeAt text pos = .after (text.take pos) := by
  obtain ⟨front, opened, split, plain, opens⟩ := exists_append_of_getLast? (text.take pos)
  have reached : (front ++ opened).length = pos := by
    rw [← split, List.length_take_of_le within]
  have whole : text = (front ++ opened) ++ text.drop pos := by
    rw [← split, List.take_append_drop]
  have index : Table.lastUpTo (lineStarts text) pos = front.count '\n' := by
    have table : lineStarts text =
        lineStarts (front ++ opened) ++ lineStartsFrom pos (text.drop pos) := by
      conv_lhs => rw [whole, lineStarts_append, reached]
    rw [table, Table.lastUpTo_append ?inFront ?inBack, length_lineStarts, List.count_append,
      List.count_eq_zero.2 plain]
    · rfl
    case inFront =>
      intro start member
      rcases List.mem_cons.1 member with rfl | member
      · exact Nat.zero_le _
      · have bounds := bounds_of_mem_lineStartsFrom member
        omega
    case inBack => exact fun start member => (bounds_of_mem_lineStartsFrom member).1
  have start : (lineStarts text).getD (front.count '\n') 0 = front.length := by
    rw [whole, List.append_assoc, List.getD_eq_getElem?_getD, getElem?_lineStarts opens]
    rfl
  rw [placeAt, split, Place.after_append front plain, Place.after_of_getLast? opens]
  simp only [index, start]
  rw [← reached, List.length_append, Nat.add_sub_cancel_left, Nat.zero_add]

/-- Later positions have later places. -/
theorem placeAt_before (lt : pos < later) (within : later ≤ text.length) :
    (placeAt text pos).Before (placeAt text later) := by
  have more : text.extract pos later ≠ [] := by
    apply List.ne_nil_of_length_pos
    rw [List.extract_eq_take_drop, List.length_take, List.length_drop]
    omega
  rw [placeAt_eq_after (Nat.le_trans (Nat.le_of_lt lt) within), placeAt_eq_after within,
    take_eq_append text (Nat.le_of_lt lt)]
  exact Place.before_after_append _ more

/-! ## Lines -/

/-- The line of this number stands at a position: with the newlines of the lines before it in front,
behind the last of them, and up to the next newline or to the end. -/
def LineAt (text : List Char) (number start : Nat) (line : List Char) : Prop :=
  ∃ front back, text = front ++ (line ++ back) ∧ front.length = start ∧
    front.count '\n' + 1 = number ∧ '\n' ∉ line ∧ (∀ c ∈ front.getLast?, c = '\n') ∧
    ∀ c ∈ back.head?, c = '\n'

/-- A line that has begun goes on with what comes next, up to a newline. -/
theorem lineAt_append (opens : ∀ c ∈ front.getLast?, c = '\n') (plain : '\n' ∉ opened)
    (rest : List Char) : LineAt (front ++ (opened ++ rest)) (front.count '\n' + 1) front.length
      (opened ++ rest.takeWhile (· ≠ '\n')) := by
  refine ⟨front, rest.dropWhile (· ≠ '\n'), ?_, rfl, rfl, ?_, opens,
    eq_newline_of_head?_dropWhile _⟩
  · rw [List.append_assoc, List.takeWhile_append_dropWhile]
  · rw [List.mem_append, not_or]
    exact ⟨plain, not_mem_takeWhile _⟩

/-- A position is on the line that its place says, as far from its start as the column says. -/
theorem exists_lineAt (within : pos ≤ text.length) : ∃ line start,
    LineAt text (placeAt text pos).line start line ∧ (placeAt text pos).column ≤ line.length ∧
      start + (placeAt text pos).column = pos := by
  obtain ⟨front, opened, split, plain, opens⟩ := exists_append_of_getLast? (text.take pos)
  have place : placeAt text pos = ⟨front.count '\n' + 1, opened.length⟩ := by
    rw [placeAt_eq_after within, split, Place.after_append front plain,
      Place.after_of_getLast? opens, Nat.zero_add]
  have reached : front.length + opened.length = pos := by
    rw [← List.length_append, ← split, List.length_take_of_le within]
  have stands := lineAt_append opens plain (text.drop pos)
  rw [← List.append_assoc, ← split, List.take_append_drop] at stands
  rw [place]
  refine ⟨_, _, stands, ?_, reached⟩
  rw [List.length_append]
  exact Nat.le_add_right ..

/-- There is a beginning of a line behind each newline. -/
theorem exists_opening (le : index ≤ text.count '\n') : ∃ front rest, text = front ++ rest ∧
    front.count '\n' = index ∧ ∀ c ∈ front.getLast?, c = '\n' := by
  induction text generalizing index with
  | nil =>
      obtain rfl := Nat.le_zero.1 le
      exact ⟨[], [], rfl, rfl, nofun⟩
  | cons c text ih =>
      cases index with
      | zero => exact ⟨[], c :: text, rfl, rfl, nofun⟩
      | succ index =>
          by_cases newline : c = '\n'
          · rw [newline, List.count_cons_self] at le
            obtain ⟨front, rest, rfl, counted, opens⟩ := ih (Nat.le_of_succ_le_succ le)
            refine ⟨c :: front, rest, rfl, by rw [newline, List.count_cons_self, counted], ?_⟩
            cases front with
            | nil => exact fun _ last => (Option.some.inj last) ▸ newline
            | cons first front => exact opens
          · rw [List.count_cons_of_ne newline] at le
            obtain ⟨front, rest, rfl, counted, opens⟩ := ih le
            refine ⟨c :: front, rest, rfl, by rw [List.count_cons_of_ne newline, counted], ?_⟩
            cases front with
            | nil => cases counted
            | cons first front => exact opens

/-- The lines of a text, without their newlines. -/
def lines : List Char → List (List Char)
  | [] => [[]]
  | c :: text =>
    if c = '\n' then [] :: lines text
    else match lines text with
      | [] => [[c]]
      | line :: rest => (c :: line) :: rest

theorem lines_ne_nil (text : List Char) : lines text ≠ [] := by
  cases text with
  | nil => simp [lines]
  | cons c text =>
      simp only [lines]
      split
      · simp
      · split <;> simp

/-- One line more than newlines. -/
theorem length_lines (text : List Char) : (lines text).length = text.count '\n' + 1 := by
  induction text with
  | nil => simp [lines]
  | cons c text ih =>
      simp only [lines]
      split
      · simp_all
      · have := lines_ne_nil text
        split <;> simp_all

/-- Joined by newlines, the lines give the text back. -/
theorem intercalate_lines (text : List Char) : ['\n'].intercalate (lines text) = text := by
  induction text with
  | nil => rfl
  | cons c text ih =>
      obtain ⟨line, rest, split⟩ := List.exists_cons_of_ne_nil (lines_ne_nil text)
      rw [split] at ih
      by_cases newline : c = '\n'
      · rw [newline, lines, if_pos rfl, split]
        simpa [List.intercalate] using ih
      · rw [lines, if_neg newline, split]
        cases rest with
        | nil => simpa [List.intercalate] using ih
        | cons next rest => simpa [List.intercalate] using ih

/-- A newline ends a line, and the lines behind it are those of the text behind it. -/
theorem lines_append_newline (front back : List Char) :
    lines (front ++ '\n' :: back) = lines front ++ lines back := by
  induction front with
  | nil => simp [lines]
  | cons c front ih =>
      obtain ⟨first, rest, split⟩ := List.exists_cons_of_ne_nil (lines_ne_nil front)
      rw [List.cons_append, lines, lines, ih, split]
      split <;> rfl

theorem lines_of_not_mem (plain : '\n' ∉ line) : lines line = [line] := by
  induction line with
  | nil => rfl
  | cons c line ih =>
      rw [List.mem_cons, not_or] at plain
      rw [lines, if_neg (Ne.symm plain.1), ih plain.2]

/-- Splitting the text gives the line that stands there. -/
theorem LineAt.exists_getElem?_lines (stands : LineAt text number start line) :
    ∃ index, number = index + 1 ∧ (lines text)[index]? = some line := by
  obtain ⟨front, back, rfl, -, rfl, plain, opens, closes⟩ := stands
  refine ⟨front.count '\n', rfl, ?_⟩
  have first : (lines (line ++ back))[0]? = some line := by
    cases back with
    | nil => rw [List.append_nil, lines_of_not_mem plain]; rfl
    | cons c back =>
        obtain rfl := closes c rfl
        rw [lines_append_newline, lines_of_not_mem plain]
        rfl
  -- In front are the lines before it, each with its newline.
  rcases front.eq_nil_or_concat with rfl | ⟨before, c, rfl⟩
  · exact first
  · rw [List.concat_eq_append] at opens ⊢
    obtain rfl : c = '\n' := opens c (by simp)
    have passed : (before ++ ['\n']).count '\n' = (lines before).length := by
      rw [length_lines, List.count_append]
      rfl
    rw [passed, List.append_assoc, List.singleton_append, lines_append_newline,
      List.getElem?_append_right (Nat.le_refl _), Nat.sub_self]
    exact first

/-- The table has where the line begins, and behind the newline that ends it where the next one
does. -/
theorem LineAt.lineStarts (stands : LineAt text number start line) :
    ∃ index, number = index + 1 ∧ (lineStarts text)[index]? = some start ∧
      ((lineStarts text)[index + 1]? = none ∧ start + line.length = text.length ∨
        (lineStarts text)[index + 1]? = some (start + line.length + 1)) := by
  obtain ⟨front, back, rfl, rfl, rfl, plain, opens, closes⟩ := stands
  refine ⟨front.count '\n', rfl, getElem?_lineStarts opens _, ?_⟩
  have counted : (front ++ line).count '\n' = front.count '\n' := by
    rw [List.count_append, List.count_eq_zero.2 plain, Nat.add_zero]
  cases back with
  | nil =>
      refine .inl ⟨List.getElem?_eq_none ?_, ?_⟩
      · rw [List.append_nil, length_lineStarts, counted]
      · rw [List.append_nil, List.length_append]
  | cons c back =>
      obtain rfl := closes c rfl
      right
      have ends : ∀ c ∈ (front ++ line ++ ['\n']).getLast?, c = '\n' := by simp
      have next := getElem?_lineStarts ends back
      have passed : (front ++ line ++ ['\n']).count '\n' = front.count '\n' + 1 := by
        rw [List.count_append, counted]
        rfl
      rw [passed] at next
      simpa [Nat.add_assoc] using next

end Text

namespace Buffer

open Text

variable {buffer : Buffer} {number pos : Nat} {line : List Char}

/-- Lines and columns of a buffer tell its positions apart, and its lines make up its text. -/
structure Lined (buffer : Buffer) : Prop where
  /-- A position is on a line of the buffer, as far from its start as the column says. -/
  located : ∀ pos, pos ≤ buffer.length → ∃ place line start, buffer.place pos = .ok place ∧
    place.line = (buffer.content.take pos).count '\n' + 1 ∧
    1 ≤ place.line ∧ place.line ≤ buffer.lineCount ∧ buffer.line? place.line = some line ∧
    LineAt buffer.content place.line start line ∧
    place.column ≤ line.length ∧ start + place.column = pos
  ordered : ∀ pos later, pos < later → later ≤ buffer.length → ∃ first last,
    buffer.place pos = .ok first ∧ buffer.place later = .ok last ∧ first.Before last
  joined : ∃ rows, (List.range' 1 buffer.lineCount).map buffer.line? = rows.map some ∧
    ['\n'].intercalate rows = buffer.content

/-- The line that stands there can be asked for. -/
theorem line?_of_lineAt (buffer : Buffer) {start : Nat}
    (stands : LineAt buffer.content number start line) :
    1 ≤ number ∧ number ≤ buffer.lineCount ∧ buffer.line? number = some line := by
  obtain ⟨index, rfl, begins, ends⟩ := stands.lineStarts
  refine ⟨Nat.succ_pos _, (List.getElem?_eq_some_iff.1 begins).1, ?_⟩
  obtain ⟨front, back, split, rfl, -⟩ := stands
  have length_eq : buffer.length = front.length + (line.length + back.length) := by
    rw [length, split, List.length_append, List.length_append]
  have stop : buffer.lineStop index = front.length + line.length := by
    rw [lineStop]
    rcases ends with ⟨last, reached⟩ | next
    · rw [last]
      exact reached.symm
    · rw [next]
      rfl
  have fits : buffer.contains ⟨front.length, front.length + line.length⟩ = true :=
    (buffer.contains_iff _).2 ⟨Nat.le_add_right .., by
      show front.length + line.length ≤ buffer.length
      omega⟩
  have cut : buffer.content.extract front.length (front.length + line.length) = line := by
    rw [split, List.extract_eq_take_drop, List.drop_left, Nat.add_sub_cancel_left, List.take_left]
  rw [line?, begins, stop, Option.bind_eq_bind, Option.bind_some, slice_eq_ok fits, cut]
  rfl

/-- The lines that can be asked for are those into which newlines split the text. -/
theorem map_line? (buffer : Buffer) :
    (List.range' 1 buffer.lineCount).map buffer.line? = (lines buffer.content).map some := by
  have count : buffer.lineCount = (lines buffer.content).length := by
    rw [lineCount, length_lineStarts, length_lines]
  rw [count]
  apply List.ext_getElem
  · simp
  · intro index inside within
    rw [List.length_map] at within
    have counted : 1 + 1 * index = index + 1 := by omega
    rw [List.getElem_map, List.getElem_map, List.getElem_range', counted]
    rw [length_lines] at within
    obtain ⟨front, rest, split, rfl, opens⟩ := exists_opening (Nat.le_of_lt_succ within)
    have stands := lineAt_append opens (List.not_mem_nil (a := '\n')) rest
    rw [List.nil_append, ← split] at stands
    obtain ⟨-, -, found⟩ := line?_of_lineAt buffer stands
    obtain ⟨index, same, listed⟩ := stands.exists_getElem?_lines
    obtain rfl := Nat.succ.inj same
    rw [found, ← listed]
    exact List.getElem?_eq_getElem _

theorem place_file {name : String} {content : List Char} (within : pos ≤ content.length) :
    (file name content).place pos = .ok (placeAt content pos) := by
  rw [place, absolute_file within]
  rfl

theorem lined_file (name : String) (content : List Char) : (file name content).Lined where
  located := by
    intro pos within
    obtain ⟨line, start, stands, inside, reached⟩ := exists_lineAt within
    obtain ⟨positive, counted, found⟩ := line?_of_lineAt (file name content) stands
    have number : (placeAt content pos).line = (content.take pos).count '\n' + 1 := by
      rw [placeAt_eq_after (show pos ≤ content.length from within)]
      rfl
    exact ⟨_, line, start, place_file within, number, positive, counted, found, stands, inside,
      reached⟩
  ordered := by
    intro pos later lt within
    exact ⟨_, _, place_file (Nat.le_trans (Nat.le_of_lt lt) within), place_file within,
      placeAt_before lt within⟩
  joined := ⟨lines content, map_line? _, intercalate_lines content⟩

theorem place_top (within : pos ≤ buffer.top.length) :
    buffer.top.place pos = .ok (placeAt buffer.top.content pos) := by
  induction buffer with
  | file name content => exact place_file within
  | carved parent ranges ih => exact ih within

theorem lined_top (buffer : Buffer) : buffer.top.Lined := by
  induction buffer with
  | file name content => exact lined_file name content
  | carved parent ranges lined => exact lined

/-- Places of a file identify its positions, and each position of a buffer that was carved out of it
has the place of its position in the file. -/
theorem Built.places_identify (built : buffer.Built) : buffer.top.Lined ∧
    (∀ pos, pos ≤ buffer.length → ∃ position place, buffer.absolute pos = .ok position ∧
      buffer.top.place position = .ok place ∧ buffer.place pos = .ok place) ∧
    ∀ pos, buffer.length < pos →
      buffer.place pos = .error (.outOfRange buffer.name pos buffer.length) := by
  refine ⟨lined_top buffer, ?_, ?_⟩
  · intro pos within
    obtain ⟨position, found, inside⟩ := built.placed pos within
    refine ⟨position, _, found, place_top inside, ?_⟩
    rw [place, found]
    rfl
  · intro pos behind
    rw [place, absolute_of_length_lt behind]
    rfl

/-- An empty line, characters of several bytes and a newline at the end; the lines are carved out of
order, with a newline among them. -/
theorem places_identify_carved :
    ∃ child, (ofString "a.rb" "é\n\n日a\n").carve [⟨3, 5⟩, ⟨0, 2⟩] = .ok child ∧ Built child ∧
      (child.top.Lined ∧
        (∀ pos, pos ≤ child.length → ∃ position place, child.absolute pos = .ok position ∧
          child.top.place position = .ok place ∧ child.place pos = .ok place) ∧
        ∀ pos, child.length < pos →
          child.place pos = .error (.outOfRange child.name pos child.length)) ∧
      child.content = "日a\né\n".toList ∧
      (List.range 6).map child.place =
        [⟨3, 0⟩, ⟨3, 1⟩, ⟨3, 2⟩, ⟨1, 0⟩, ⟨1, 1⟩, ⟨2, 0⟩].map Except.ok ∧
      (List.range 7).map child.top.place =
        [⟨1, 0⟩, ⟨1, 1⟩, ⟨2, 0⟩, ⟨3, 0⟩, ⟨3, 1⟩, ⟨3, 2⟩, ⟨4, 0⟩].map Except.ok ∧
      (List.range 6).map child.top.line? =
        [none, some ['é'], some [], some ['日', 'a'], some [], none] := by
  let file := ofString "a.rb" "é\n\n日a\n"
  have carved : file.carve [⟨3, 5⟩, ⟨0, 2⟩] = .ok (file.carved [⟨3, 5⟩, ⟨0, 2⟩]) := rfl
  have built := Built.carve (.file ..) carved
  exact ⟨_, carved, built, built.places_identify, by decide, by decide, by decide, by decide⟩

end Buffer

end Signet

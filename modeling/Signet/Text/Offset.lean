import Signet.Text.Table

/-! # Characters and bytes

Positions in a text are counted in characters. Reports and syntax trees of the Ruby language count
the bytes of the UTF-8 form instead. `byteLength` measures a text in bytes. A table says at which
bytes characters begin, and `charOfByte` finds in it the character that holds a byte: bytes inside a
character round down, bytes past the end stand for the end.
-/

namespace Signet.Text

/-- Length of the UTF-8 form. -/
def byteLength : List Char → Nat
  | [] => 0
  | c :: text => c.utf8Size + byteLength text

/-- The bytes at which the characters of a text begin, and the one at which it ends, if it begins at
a given byte. -/
def charOffsetsFrom (byte : Nat) : List Char → List Nat
  | [] => [byte]
  | c :: text => byte :: charOffsetsFrom (byte + c.utf8Size) text

/-- The bytes at which the characters of a text begin, and the one at which it ends. -/
def charOffsets (text : List Char) : List Nat := charOffsetsFrom 0 text

/-- The character offset that a byte offset falls on. -/
def charOfByte (text : List Char) (byte : Nat) : Nat := Table.countUpTo (charOffsets text) byte - 1

/-- The byte offset at which a character begins; the end of the text has one too. -/
def byteOfChar (text : List Char) (pos : Nat) : Nat := byteLength (text.take pos)

variable {text : List Char} {c : Char} {start stop pos byte : Nat}

@[simp] theorem byteLength_append (a b : List Char) :
    byteLength (a ++ b) = byteLength a + byteLength b := by
  induction a with
  | nil => simp [byteLength]
  | cons c a ih => simp [byteLength, ih, Nat.add_assoc]

/-- The text up to a position continues that up to an earlier one. -/
theorem take_eq_append (text : List Char) (le : start ≤ stop) :
    text.take stop = text.take start ++ text.extract start stop := by
  rw [List.extract_eq_take_drop, ← List.take_add, Nat.add_sub_cancel' le]

theorem byteOfChar_mono (text : List Char) (le : start ≤ stop) :
    byteOfChar text start ≤ byteOfChar text stop := by
  rw [byteOfChar, byteOfChar, take_eq_append text le, byteLength_append]
  exact Nat.le_add_right ..

@[simp] theorem byteOfChar_cons_succ (c : Char) (text : List Char) (pos : Nat) :
    byteOfChar (c :: text) (pos + 1) = c.utf8Size + byteOfChar text pos := rfl

/-! ## The table -/

theorem charOffsetsFrom_eq (start : Nat) (text : List Char) :
    charOffsetsFrom start text =
      (List.range (text.length + 1)).map fun pos => start + byteOfChar text pos := by
  induction text generalizing start with
  | nil => rfl
  | cons c text ih =>
      have positions : List.range (text.length + 1 + 1) =
          0 :: (List.range (text.length + 1)).map Nat.succ := List.range_succ_eq_map
      rw [charOffsetsFrom, ih, List.length_cons, positions, List.map_cons, List.map_map]
      exact congrArg _ (List.map_congr_left fun pos _ => Nat.add_assoc ..)

/-- The table lists the bytes of all positions. -/
theorem charOffsets_eq (text : List Char) :
    charOffsets text = (List.range (text.length + 1)).map (byteOfChar text) := by
  rw [charOffsets, charOffsetsFrom_eq]
  exact List.map_congr_left fun pos _ => Nat.zero_add _

theorem getElem?_charOffsets (within : pos ≤ text.length) :
    (charOffsets text)[pos]? = some (byteOfChar text pos) := by
  rw [charOffsets_eq, List.getElem?_map, List.getElem?_range (Nat.lt_succ_of_le within)]
  rfl

theorem getElem?_charOffsets_of_length_lt (behind : text.length < pos) :
    (charOffsets text)[pos]? = none := by
  refine List.getElem?_eq_none ?_
  rw [charOffsets_eq, List.length_map, List.length_range]
  exact behind

/-- A byte falls on the character that begins at it or before it, if the next one begins behind. -/
theorem charOfByte_eq (within : pos ≤ text.length) (begins : byteOfChar text pos ≤ byte)
    (next : pos < text.length → byte < byteOfChar text (pos + 1)) :
    charOfByte text byte = pos := by
  have before : ∀ earlier ≤ pos, byteOfChar text earlier ≤ byte := fun earlier le =>
    Nat.le_trans (byteOfChar_mono text le) begins
  have after : ∀ later, pos < later → later < text.length + 1 → byte < byteOfChar text later :=
    fun later lt inside => Nat.lt_of_lt_of_le (next (by omega)) (byteOfChar_mono text lt)
  rw [charOfByte, charOffsets_eq, Table.countUpTo_map_range (by omega) before after,
    Nat.add_sub_cancel]

/-- Each byte falls on some character, or on the end of the text. -/
theorem exists_charOfByte (text : List Char) (byte : Nat) :
    ∃ pos ≤ text.length, byteOfChar text pos ≤ byte ∧
      (pos < text.length → byte < byteOfChar text (pos + 1)) := by
  induction text generalizing byte with
  | nil => exact ⟨0, Nat.le_refl _, Nat.zero_le _, nofun⟩
  | cons c text ih =>
      by_cases inFirst : byte < c.utf8Size
      · exact ⟨0, Nat.zero_le _, Nat.zero_le _, fun _ => Nat.lt_add_right _ inFirst⟩
      · obtain ⟨pos, within, begins, next⟩ := ih (byte - c.utf8Size)
        refine ⟨pos + 1, Nat.succ_le_succ within, ?_, fun more => ?_⟩
        · rw [byteOfChar_cons_succ]
          omega
        · have := next (Nat.lt_of_succ_lt_succ more)
          rw [byteOfChar_cons_succ]
          omega

@[simp] theorem charOfByte_nil (byte : Nat) : charOfByte [] byte = 0 :=
  charOfByte_eq (Nat.le_refl _) (Nat.zero_le _) nofun

/-- A byte that is not of the first character falls on one of the others. -/
theorem charOfByte_cons (c : Char) (text : List Char) (byte : Nat) :
    charOfByte (c :: text) byte =
      if byte < c.utf8Size then 0 else charOfByte text (byte - c.utf8Size) + 1 := by
  split
  · rename_i inFirst
    refine charOfByte_eq (Nat.zero_le _) (Nat.zero_le _) fun _ => ?_
    exact Nat.lt_of_lt_of_le inFirst (Nat.le_add_right ..)
  · rename_i behind
    obtain ⟨pos, within, begins, next⟩ := exists_charOfByte text (byte - c.utf8Size)
    rw [charOfByte_eq within begins next]
    refine charOfByte_eq (Nat.succ_le_succ within) ?_ fun more => ?_
    · rw [byteOfChar_cons_succ]
      omega
    · have := next (Nat.lt_of_succ_lt_succ more)
      rw [byteOfChar_cons_succ]
      omega

theorem charOfByte_le (text : List Char) (byte : Nat) : charOfByte text byte ≤ text.length := by
  obtain ⟨pos, within, begins, next⟩ := exists_charOfByte text byte
  rwa [charOfByte_eq within begins next]

/-- The character that holds a byte begins at that byte or before it. -/
theorem byteOfChar_charOfByte_le (text : List Char) (byte : Nat) :
    byteOfChar text (charOfByte text byte) ≤ byte := by
  obtain ⟨pos, within, begins, next⟩ := exists_charOfByte text byte
  rwa [charOfByte_eq within begins next]

/-- The next character begins behind the byte. -/
theorem lt_byteOfChar_charOfByte_succ (more : charOfByte text byte < text.length) :
    byte < byteOfChar text (charOfByte text byte + 1) := by
  obtain ⟨pos, within, begins, next⟩ := exists_charOfByte text byte
  rw [charOfByte_eq within begins next] at more ⊢
  exact next more

/-- A character begins at a byte or before it exactly if the character at the byte is that one or a
later one. -/
theorem byteOfChar_le_iff (within : pos ≤ text.length) :
    byteOfChar text pos ≤ byte ↔ pos ≤ charOfByte text byte := by
  constructor
  · intro le
    refine Nat.le_of_not_lt fun lt => ?_
    have behind := lt_byteOfChar_charOfByte_succ (Nat.lt_of_lt_of_le lt within)
    exact absurd (Nat.le_trans (byteOfChar_mono text lt) le) (Nat.not_le.2 behind)
  · intro le
    calc byteOfChar text pos ≤ byteOfChar text (charOfByte text byte) := byteOfChar_mono text le
      _ ≤ byte := byteOfChar_charOfByte_le text byte

/-- Each character has at least one byte. -/
theorem byteOfChar_lt (lt : start < stop) (within : stop ≤ text.length) :
    byteOfChar text start < byteOfChar text stop := by
  have inside : start < text.length := Nat.lt_of_lt_of_le lt within
  have positive := text[start].utf8Size_pos
  calc byteOfChar text start
      < byteOfChar text start + text[start].utf8Size := Nat.lt_add_of_pos_right positive
    _ = byteOfChar text (start + 1) := by
        rw [byteOfChar, byteOfChar, List.take_succ_eq_append_getElem inside, byteLength_append]
        rfl
    _ ≤ byteOfChar text stop := byteOfChar_mono text lt

/-- The character at the byte where a character begins is that character. -/
theorem charOfByte_byteOfChar (within : pos ≤ text.length) :
    charOfByte text (byteOfChar text pos) = pos :=
  charOfByte_eq within (Nat.le_refl _) fun inside => byteOfChar_lt (Nat.lt_succ_self pos) inside

@[simp] theorem charOfByte_zero (text : List Char) : charOfByte text 0 = 0 := by
  have first : charOfByte text (byteOfChar text 0) = 0 := charOfByte_byteOfChar (Nat.zero_le _)
  exact first

end Signet.Text

/-! # Tables of positions

A table lists positions as they grow: where the lines of a text begin, say. Positions are looked up
by halving the table. What is sought splits a table into a front, whose entries are not behind it,
and a back, whose entries are. A search ends on the last entry of the front (`narrow_append`), so
both ways to look up can be told from the front alone (`lastUpTo_append`, `countUpTo_append`). If
the entries are values of a function, they can be told from where its values pass the position
(`lastUpTo_map_range`, `countUpTo_map_range`).
-/

namespace Signet.Table

/-- The index on which a search ends. Half of the `size` entries from `base` on are left after a
round; there are never more rounds than entries. -/
def narrow (side : Nat → Ordering) (table : List Nat) : (rounds base size : Nat) → Nat
  | 0, base, _ => base
  | rounds + 1, base, size =>
    if size ≤ 1 then base
    else
      let half := size / 2
      let middle := base + half
      let next := if side (table.getD middle 0) = .gt then base else middle
      narrow side table rounds next (size - half)

/-- The index of the entry that is sought or, as an error, the index at which it is missing. An
entry is in front of what is sought, is that itself, or is behind it. -/
def search (side : Nat → Ordering) (table : List Nat) : Except Nat Nat :=
  if table.isEmpty then .error 0
  else
    let base := narrow side table table.length 0 table.length
    match side (table.getD base 0) with
    | .lt => .error (base + 1)
    | .eq => .ok base
    | .gt => .error base

/-- The index of the last entry at or before a position. -/
def lastUpTo (table : List Nat) (pos : Nat) : Nat :=
  match search (compare · pos) table with
  | .ok index => index
  | .error index => index - 1

/-- The number of entries at or before a position. -/
def countUpTo (table : List Nat) (pos : Nat) : Nat :=
  match search (fun entry => if entry ≤ pos then .lt else .gt) table with
  | .ok index => index
  | .error index => index

variable {side : Nat → Ordering} {front back : List Nat} {index pos : Nat}

/-- An entry tells whether it belongs to the front or to the back. -/
theorem side_getD_append_iff (inFront : ∀ entry ∈ front, side entry ≠ .gt)
    (inBack : ∀ entry ∈ back, side entry = .gt) (inside : index < (front ++ back).length) :
    side ((front ++ back).getD index 0) = .gt ↔ front.length ≤ index := by
  rw [← List.getElem_eq_getD (h := inside)]
  by_cases before : index < front.length
  · rw [List.getElem_append_left before]
    have side_ne := inFront _ (List.getElem_mem before)
    exact ⟨fun behind => absurd behind side_ne, fun le => absurd before (Nat.not_lt.2 le)⟩
  · have le := Nat.not_lt.1 before
    rw [List.getElem_append_right le]
    exact ⟨fun _ => le, fun _ => inBack _ (List.getElem_mem _)⟩

/-- The last entry of the front stays among those that are left, until it is the only one. -/
theorem narrow_append (inFront : ∀ entry ∈ front, side entry ≠ .gt)
    (inBack : ∀ entry ∈ back, side entry = .gt) {rounds base size : Nat}
    (enough : size ≤ rounds + 1) (low : base ≤ front.length - 1)
    (high : front.length ≤ base + size) (within : base + size ≤ (front ++ back).length) :
    narrow side (front ++ back) rounds base size = front.length - 1 := by
  induction rounds generalizing base size with
  | zero =>
      rw [narrow]
      omega
  | succ rounds ih =>
      rw [narrow]
      split
      · omega
      · rename_i more
        have inside : base + size / 2 < (front ++ back).length := by omega
        have entry := side_getD_append_iff inFront inBack inside
        by_cases behind : front.length ≤ base + size / 2
        · simp only [entry.2 behind, if_true]
          exact ih (by omega) low (by omega) (by omega)
        · simp only [mt entry.1 behind, if_false]
          exact ih (by omega) (by omega) (by omega) (by omega)

/-- A search finds the last entry of the front, or says how many entries the front has. -/
theorem search_append (inFront : ∀ entry ∈ front, side entry ≠ .gt)
    (inBack : ∀ entry ∈ back, side entry = .gt) :
    search side (front ++ back) = .error front.length ∨
      search side (front ++ back) = .ok (front.length - 1) ∧ ∃ entry ∈ front, side entry = .eq := by
  rw [search]
  split
  · rename_i empty
    obtain ⟨rfl, rfl⟩ := List.append_eq_nil_iff.1 (List.isEmpty_iff.1 empty)
    exact .inl rfl
  · rename_i nonempty
    have high : front.length ≤ 0 + (front ++ back).length := by
      rw [List.length_append]
      omega
    have ends := narrow_append inFront inBack (Nat.le_succ (front ++ back).length)
      (Nat.zero_le _) high (Nat.le_of_eq (Nat.zero_add _))
    rcases front.eq_nil_or_concat with rfl | ⟨others, last, rfl⟩
    · -- every entry is behind what is sought, the first one too
      cases back with
      | nil => exact absurd rfl nonempty
      | cons first back =>
          simp only [ends]
          have behind : side first = .gt := inBack first List.mem_cons_self
          exact .inl (by simp [behind])
    · rw [List.concat_eq_append] at ends inFront ⊢
      have member : last ∈ others ++ [last] := by simp
      have entry : (others ++ [last] ++ back).getD others.length 0 = last := by simp
      have length_eq : (others ++ [last]).length = others.length + 1 := by simp
      rw [length_eq, Nat.add_sub_cancel] at ends ⊢
      simp only [ends, entry]
      cases found : side last with
      | lt => exact .inl rfl
      | eq => exact .inr ⟨rfl, last, member, found⟩
      | gt => exact absurd found (inFront last member)

/-- The last entry up to a position is the last one of the front. -/
theorem lastUpTo_append (inFront : ∀ entry ∈ front, entry ≤ pos)
    (inBack : ∀ entry ∈ back, pos < entry) : lastUpTo (front ++ back) pos = front.length - 1 := by
  have before : ∀ entry ∈ front, compare entry pos ≠ .gt :=
    fun entry member => Nat.compare_ne_gt.2 (inFront entry member)
  have found := search_append before fun entry member => Nat.compare_eq_gt.2 (inBack entry member)
  rw [lastUpTo]
  rcases found with missing | ⟨found, -⟩
  · rw [missing]
  · rw [found]

/-- The entries up to a position are those of the front. -/
theorem countUpTo_append (inFront : ∀ entry ∈ front, entry ≤ pos)
    (inBack : ∀ entry ∈ back, pos < entry) : countUpTo (front ++ back) pos = front.length := by
  have before : ∀ entry ∈ front, (if entry ≤ pos then Ordering.lt else .gt) ≠ .gt := by
    intro entry member
    rw [if_pos (inFront entry member)]
    exact nofun
  have found := search_append before fun entry member => if_neg (Nat.not_le.2 (inBack entry member))
  rw [countUpTo]
  rcases found with missing | ⟨-, entry, -, same⟩
  · rw [missing]
  · split at same <;> cases same

/-! ## Tables of values -/

section Values

variable {entry : Nat → Nat} {size : Nat}

/-- The values up to an index, and those behind it. -/
theorem map_range_eq_append (inside : index < size) :
    (List.range size).map entry = (List.range (index + 1)).map entry ++
      (List.range (size - (index + 1))).map fun behind => entry (index + 1 + behind) := by
  have size_eq : size = index + 1 + (size - (index + 1)) := by omega
  rw [size_eq, List.range_add, List.map_append, List.map_map, Nat.add_sub_cancel_left]
  rfl

variable (inside : index < size) (before : ∀ earlier ≤ index, entry earlier ≤ pos)
  (after : ∀ later, index < later → later < size → pos < entry later)

include before in
theorem forall_mem_map_range_le : ∀ value ∈ (List.range (index + 1)).map entry, value ≤ pos := by
  refine List.forall_mem_map.2 fun earlier member => before earlier ?_
  exact Nat.le_of_lt_succ (List.mem_range.1 member)

include after in
theorem forall_mem_map_range_lt : ∀ value ∈
    (List.range (size - (index + 1))).map (fun behind => entry (index + 1 + behind)),
      pos < value := by
  refine List.forall_mem_map.2 fun behind member => after _ ?_ ?_
  · omega
  · have := List.mem_range.1 member
    omega

include inside before after

/-- In a table of values, the last one up to a position has the index at which they pass it. -/
theorem lastUpTo_map_range : lastUpTo ((List.range size).map entry) pos = index := by
  rw [map_range_eq_append inside, lastUpTo_append (forall_mem_map_range_le before)
    (forall_mem_map_range_lt after), List.length_map, List.length_range, Nat.add_sub_cancel]

theorem countUpTo_map_range : countUpTo ((List.range size).map entry) pos = index + 1 := by
  rw [map_range_eq_append inside, countUpTo_append (forall_mem_map_range_le before)
    (forall_mem_map_range_lt after), List.length_map, List.length_range]

end Values

end Signet.Table

import Signet.Proofs.Grammar.Reader

/-!
# Positions of a match

A match stays in its text: the position that it goes on from, the trees that it gives and the
positions that it notes for an error message all lie between the ends of the text
(`parse_tree_within`, `parse_stop_le`). Unlike what a text is read as, the notes are also made along
alternatives that fail, so this is an invariant of matchers and not of readers.
-/

namespace Signet.Grammar

variable {text : List Char} {cursor next : Cursor} {tree : ParseTree} {trees more : List ParseTree}

/-! ## Forward -/

theorem Cursor.Moves.pos_le {least : Nat} (moves : cursor.Moves least next) :
    cursor.pos ≤ next.pos := by
  obtain ⟨text, passes, -⟩ := moves
  exact passes.pos_eq ▸ Nat.le_add_right ..

theorem Cursor.pos_le_skip (cursor : Cursor) : cursor.pos ≤ cursor.skip.pos :=
  cursor.moves_skip.pos_le

/-! ## Trees in a text -/

/-- The position is one of the text. -/
def Cursor.On (text : List Char) (cursor : Cursor) : Prop := Moves ⟨0, text⟩ 0 cursor

theorem Cursor.On.moves (on : cursor.On text) (moves : cursor.Moves 0 next) : next.On text :=
  Moves.trans on moves

theorem Cursor.On.rest_eq (on : cursor.On text) : cursor.rest = text.drop cursor.pos := by
  obtain ⟨front, passes, -⟩ := on
  have text_eq : text = front ++ cursor.rest := passes.rest_eq
  have pos_eq : cursor.pos = 0 + front.length := passes.pos_eq
  rw [pos_eq, Nat.zero_add, text_eq, List.drop_left]

theorem Cursor.On.length_eq (on : cursor.On text) :
    cursor.pos + cursor.rest.length = text.length := by
  obtain ⟨front, passes, -⟩ := on
  have text_eq : text = front ++ cursor.rest := passes.rest_eq
  have pos_eq : cursor.pos = 0 + front.length := passes.pos_eq
  rw [text_eq, List.length_append]
  omega

/-- The stretch of a tree lies in the text, and so do those of the trees in it. -/
inductive ParseTree.Within (text : List Char) : ParseTree → Prop
  | mk {rule : Rule} {stretch : Stretch} {children : List ParseTree} :
      stretch.first.On text → stretch.length ≤ stretch.first.rest.length →
      (∀ child ∈ children, child.Within text) → Within text ⟨rule, stretch, children⟩

namespace ParseTree.Within

variable (within : tree.Within text)

include within

theorem children : ∀ child ∈ tree.children, child.Within text := by
  obtain ⟨_, _, inside⟩ := within
  exact inside

theorem first_on : tree.stretch.first.On text := by
  obtain ⟨on, _, _⟩ := within
  exact on

theorem start_le : tree.start ≤ text.length :=
  within.first_on.length_eq ▸ Nat.le_add_right ..

/-- The text of a tree is the part of the text at its start. -/
theorem text_eq : tree.text = (text.drop tree.start).take tree.stretch.length := by
  show tree.stretch.first.rest.take _ = _
  rw [within.first_on.rest_eq]
  rfl

theorem stop_le : tree.start + tree.text.length ≤ text.length := by
  have start := within.start_le
  rw [within.text_eq, List.length_take, List.length_drop]
  omega

end ParseTree.Within

/-! ## Matchers -/

/-- Matching goes forward and stays in the text, with its trees and with its notes. -/
def Matcher.Keeps (text : List Char) (matcher : Matcher) : Prop :=
  ∀ cursor notes, cursor.On text → notes.pos ≤ text.length →
    (matcher cursor notes).2.pos ≤ text.length ∧
      ∀ trees next, (matcher cursor notes).1 = .matched trees next →
        cursor.Moves 0 next ∧ ∀ tree ∈ trees, tree.Within text

namespace Matcher.Keeps

variable {first second : Matcher}

theorem nothing : Matcher.nothing.Keeps text := by
  intro cursor notes on low
  refine ⟨low, fun trees next found => ?_⟩
  obtain ⟨rfl, rfl⟩ := Outcome.matched.inj found
  exact ⟨cursor.moves_self, nofun⟩

/-- What a scanner takes is passed without a tree. -/
theorem scan {scanner : Scanner} {least : Nat} (takes : scanner.Takes least) :
    Matcher.Keeps text fun cursor notes =>
      match scanner cursor.rest with
      | some rest => (.matched [] (cursor.advance rest), notes)
      | none => (.failed, notes) := by
  intro cursor notes on low
  dsimp only
  cases read : scanner cursor.rest with
  | none => exact ⟨low, nofun⟩
  | some rest =>
      refine ⟨low, fun trees next found => ?_⟩
      obtain ⟨rfl, rfl⟩ := Outcome.matched.inj found
      exact ⟨(Cursor.moves_advance takes read).mono (Nat.zero_le _), nofun⟩

theorem followedBy {skip : Cursor → Cursor} (one : first.Keeps text)
    (moves : ∀ cursor : Cursor, cursor.Moves 0 (skip cursor)) (two : second.Keeps text) :
    (first.followedBy skip second).Keeps text := by
  intro cursor notes on low
  obtain ⟨here, matched⟩ := one cursor notes on low
  unfold Matcher.followedBy
  split
  · rename_i front after middle result
    rw [result] at here matched
    obtain ⟨moved, inside⟩ := matched front after rfl
    have skipped := moved.trans (moves after)
    obtain ⟨there, rest⟩ := two (skip after) middle (on.moves skipped) here
    split
    · rename_i back last final result
      rw [result] at there rest
      obtain ⟨further, beyond⟩ := rest back last rfl
      refine ⟨there, fun trees next found => ?_⟩
      obtain ⟨rfl, rfl⟩ := Outcome.matched.inj found
      exact ⟨skipped.trans further, fun tree member =>
        (List.mem_append.1 member).elim (inside tree) (beyond tree)⟩
    · rename_i failure
      exact ⟨there, fun trees next found => (failure trees next _ (Prod.ext found rfl)).elim⟩
  · rename_i failure
    exact ⟨here, fun trees next found => (failure trees next _ (Prod.ext found rfl)).elim⟩

theorem orElse (one : first.Keeps text) (two : second.Keeps text) :
    (first.orElse second).Keeps text := by
  intro cursor notes on low
  obtain ⟨here, matched⟩ := one cursor notes on low
  unfold Matcher.orElse
  split
  · rename_i middle result
    rw [result] at here
    exact two cursor middle on here
  · exact ⟨here, matched⟩

theorem again {item : Matcher} (keeps : item.Keeps text) (count : Nat) :
    (item.again count).Keeps text := by
  induction count with
  | zero => exact fun cursor notes on low => ⟨low, nofun⟩
  | succ count ih =>
      have skipped : Matcher.Keeps text fun cursor =>
          Matcher.followedBy item id (item.again count) cursor.skip := by
        intro cursor notes on low
        have whole := keeps.followedBy (fun cursor => cursor.moves_self) ih
        obtain ⟨here, matched⟩ := whole cursor.skip notes (on.moves cursor.moves_skip) low
        refine ⟨here, fun trees next found => ?_⟩
        obtain ⟨moved, inside⟩ := matched trees next found
        exact ⟨cursor.moves_skip.trans moved, inside⟩
      exact skipped.orElse nothing

end Matcher.Keeps

/-- A phrase keeps what the rules that it calls keep. -/
theorem Phrase.match_keeps {call : Rule → Matcher} (calls : ∀ rule, (call rule).Keeps text)
    (phrase : Phrase) : (phrase.match call).Keeps text := by
  induction phrase with
  | nothing => exact .nothing
  | mark word => exact .scan (.word word)
  | call rule => exact calls rule
  | seq first second one two => exact one.followedBy (fun cursor => cursor.moves_skip) two
  | alt first second one two => exact one.orElse two
  | opt phrase ih => exact ih.orElse .nothing
  | many phrase ih =>
      intro cursor
      have items := ih.again (cursor.rest.length + 1)
      exact (ih.followedBy (fun cursor => cursor.moves_self) items).orElse .nothing cursor

/-- A failure is noted where it is, unless one farther on is. -/
theorem Attempts.blame_pos (notes : Attempts) (rule : Rule) (pos before : Nat) :
    (notes.blame rule pos before).pos = max pos notes.pos := by
  unfold blame countAt
  by_cases here : pos = notes.pos
  · subst here
    rw [Nat.max_self, if_pos rfl, if_pos rfl]
    split <;> rfl
  · rw [if_neg here, if_neg (by omega), if_neg (Ne.symm here)]
    split
    · rename_i behind
      exact (Nat.max_eq_left (Nat.le_of_lt behind)).symm
    · rename_i ahead
      exact (Nat.max_eq_right (Nat.le_of_not_lt ahead)).symm

theorem Attempts.blame_pos_le {notes : Attempts} {rule : Rule} {pos before : Nat}
    (low : notes.pos ≤ text.length) (here : pos ≤ text.length) :
    (notes.blame rule pos before).pos ≤ text.length := by
  rw [blame_pos]
  exact Nat.max_le.2 ⟨here, low⟩

/-- A rule makes one tree of what its body matches, from where it was called. -/
theorem Rule.match_keeps (bound : Nat) (rule : Rule) : (rule.match bound).Keeps text := by
  induction bound generalizing rule with
  | zero => exact fun cursor notes on low => ⟨low, fun _ _ found => Outcome.noConfusion found⟩
  | succ bound ih =>
      have body : (rule.body.match (Rule.match bound)).Keeps text := by
        have fits := rule.fits
        cases shape : rule.body with
        | token scanner =>
            rw [shape] at fits
            exact .scan fits
        | phrase items => exact items.match_keeps ih
      intro cursor notes on low
      obtain ⟨here, matched⟩ := body cursor notes on low
      have start : cursor.pos ≤ text.length := on.length_eq ▸ Nat.le_add_right ..
      rw [Rule.match]
      split
      · rename_i trees next after result
        rw [result] at here matched
        obtain ⟨moved, inside⟩ := matched trees next rfl
        refine ⟨here, fun made last found => ?_⟩
        obtain ⟨rfl, rfl⟩ := Outcome.matched.inj found
        refine ⟨moved, List.forall_mem_singleton.2 (.mk on ?_ inside)⟩
        have whole := on.length_eq
        have rest := (on.moves moved).length_eq
        show next.pos - cursor.pos ≤ cursor.rest.length
        omega
      · rename_i after result
        rw [result] at here
        exact ⟨Attempts.blame_pos_le here start, fun _ _ found => Outcome.noConfusion found⟩
      · rename_i after result
        rw [result] at here
        exact ⟨here, fun _ _ found => Outcome.noConfusion found⟩

/-! ## Whole texts -/

theorem parse_keeps (rule : Rule) (text : List Char) :
    (rule.match (callBound text) ⟨0, text⟩ {}).2.pos ≤ text.length ∧
      ∀ trees next, (rule.match (callBound text) ⟨0, text⟩ {}).1 = .matched trees next →
        ∀ tree ∈ trees, tree.Within text := by
  obtain ⟨low, matched⟩ := rule.match_keeps (callBound text) ⟨0, text⟩ {}
    (show Cursor.On text ⟨0, text⟩ from Cursor.moves_self _) (Nat.zero_le _)
  exact ⟨low, fun trees next found => (matched trees next found).2⟩

/-- The tree of a text lies in it. -/
theorem parse_tree_within {rule : Rule} (parsed : parse rule text = .ok tree) :
    tree.Within text := by
  unfold parse at parsed
  split at parsed
  · rename_i tree next notes result
    obtain rfl := Except.ok.inj parsed
    exact (parse_keeps rule text).2 _ next (by rw [result]) _ List.mem_cons_self
  · cases parsed

/-- A text stops being grammatical somewhere in it or at its end. -/
theorem parse_stop_le {rule : Rule} {stop : Stop} (failed : parse rule text = .error stop) :
    stop.pos ≤ text.length := by
  unfold parse at failed
  split at failed
  · cases failed
  · rename_i outcome notes _ result
    obtain rfl := Except.error.inj failed
    have low := (parse_keeps rule text).1
    rw [result] at low
    exact low

end Signet.Grammar

import Signet.Proofs.Grammar.Phrases
import Signet.Proofs.Grammar.Positions

/-!
# Where a text stops being grammatical

Rules are called behind blanks and comments: in sequence, and from one item to the next, a match
skips them first. So the position that the notes come to is one where no blank and no comment
begins (`Phrase.match_settles`), which is an invariant of every call but the one for the whole text.
A whole text is refused because some rule in it is, and that rule is noted where it was called or
later (`Matcher.Blames`), hence behind what the text begins with. Together, a text never stops at a
blank or a comment (`parse_stop_solid`).
-/

namespace Signet.Grammar

variable {text : List Char} {cursor : Cursor} {notes : Attempts}

/-! ## Notes behind blanks -/

/-- The notes are about a position of the text behind blanks and comments, or about its start. -/
structure Attempts.Settled (text : List Char) (notes : Attempts) : Prop where
  pos_le : notes.pos ≤ text.length
  solid : notes.pos = 0 ∨ Solid (text.drop notes.pos)

theorem Attempts.Settled.blame {rule : Rule} {before : Nat} (settled : notes.Settled text)
    (on : cursor.On text) (solid : Solid cursor.rest) :
    (notes.blame rule cursor.pos before).Settled text := by
  have within : cursor.pos ≤ text.length := on.length_eq ▸ Nat.le_add_right ..
  have here : Solid (text.drop cursor.pos) := on.rest_eq ▸ solid
  refine ⟨Attempts.blame_pos_le settled.pos_le within, ?_⟩
  · rw [Attempts.blame_pos]
    rcases Nat.le_total cursor.pos notes.pos with le | le
    · rw [Nat.max_eq_right le]
      exact settled.solid
    · rw [Nat.max_eq_left le]
      exact .inr here

/-! ## Matchers -/

/-- Matching from such a position keeps the notes settled. -/
def Matcher.Settles (text : List Char) (start : Cursor → Prop) (matcher : Matcher) : Prop :=
  ∀ cursor notes, cursor.On text → start cursor → notes.Settled text →
    (matcher cursor notes).2.Settled text

namespace Matcher.Settles

variable {first second : Matcher} {start middle : Cursor → Prop}

theorem nothing : Matcher.nothing.Settles text start := fun _ _ _ _ settled => settled

/-- A scanner makes no notes. -/
theorem scan (scanner : Scanner) : Matcher.Settles text start fun cursor notes =>
    match scanner cursor.rest with
    | some rest => (.matched [] (cursor.advance rest), notes)
    | none => (.failed, notes) := by
  intro cursor notes _ _ settled
  dsimp only
  cases scanner cursor.rest <;> exact settled

theorem followedBy {skip : Cursor → Cursor} (one : first.Settles text start)
    (keeps : first.Keeps text) (moves : ∀ cursor : Cursor, cursor.Moves 0 (skip cursor))
    (starts : ∀ cursor, middle (skip cursor)) (two : second.Settles text middle) :
    (first.followedBy skip second).Settles text start := by
  intro cursor notes on started settled
  have here := one cursor notes on started settled
  obtain ⟨-, matched⟩ := keeps cursor notes on settled.pos_le
  unfold Matcher.followedBy
  split
  · rename_i trees after noted result
    rw [result] at here matched
    have further := (matched trees after rfl).1.trans (moves after)
    have there := two (skip after) noted (on.moves further) (starts after) here
    split
    · rename_i result
      rw [result] at there
      exact there
    · exact there
  · exact here

theorem orElse (one : first.Settles text start) (two : second.Settles text start) :
    (first.orElse second).Settles text start := by
  intro cursor notes on started settled
  have here := one cursor notes on started settled
  unfold Matcher.orElse
  split
  · rename_i noted result
    rw [result] at here
    exact two cursor noted on started here
  · exact here

/-- Repetition skips blanks before each item, so it may start anywhere. -/
theorem again {item : Matcher} (settles : item.Settles text (Solid ·.rest))
    (keeps : item.Keeps text) (count : Nat) :
    (item.again count).Settles text fun _ => True := by
  induction count with
  | zero => exact fun _ _ _ _ settled => settled
  | succ count ih =>
      have items := settles.followedBy keeps Cursor.moves_self (fun _ => trivial) ih
      have skipped : Matcher.Settles text (fun _ => True) fun cursor =>
          Matcher.followedBy item id (item.again count) cursor.skip :=
        fun cursor notes on _ => items cursor.skip notes (on.moves cursor.moves_skip)
          cursor.solid_skip
      exact skipped.orElse nothing

end Matcher.Settles

/-- A phrase settles notes if the rules that it calls do: wherever it calls one, blanks have been
skipped, or nothing has been read yet. -/
theorem Phrase.match_settles {call : Rule → Matcher}
    (calls : ∀ rule, (call rule).Settles text (Solid ·.rest))
    (keeps : ∀ rule, (call rule).Keeps text) (phrase : Phrase) :
    (phrase.match call).Settles text (Solid ·.rest) := by
  induction phrase with
  | nothing => exact .nothing
  | mark word => exact .scan (Scanner.word word)
  | call rule => exact calls rule
  | seq first second one two =>
      exact one.followedBy (first.match_keeps keeps) Cursor.moves_skip Cursor.solid_skip two
  | alt first second one two => exact one.orElse two
  | opt phrase ih => exact ih.orElse .nothing
  | many phrase ih =>
      intro cursor
      have inside := phrase.match_keeps keeps
      have items := ih.again inside (cursor.rest.length + 1)
      exact (ih.followedBy inside Cursor.moves_self (fun _ => trivial) items).orElse .nothing cursor

/-- A rule notes its own failure where it was called. -/
theorem Rule.match_settles (bound : Nat) (rule : Rule) :
    (rule.match bound).Settles text (Solid ·.rest) := by
  induction bound generalizing rule with
  | zero => exact fun _ _ _ _ settled => settled
  | succ bound ih =>
      have body : (rule.body.match (Rule.match bound)).Settles text (Solid ·.rest) := by
        cases rule.body with
        | token scanner => exact .scan scanner
        | phrase items => exact items.match_settles ih (Rule.match_keeps bound)
      intro cursor notes on solid settled
      have here := body cursor notes on solid settled
      rw [Rule.match]
      split <;> rename_i result <;> rw [result] at here
      · exact here
      · exact here.blame on solid
      · exact here

/-! ## Failures that are noted -/

/-- Where the match fails, a rule is noted that was called at the position or later. -/
def Matcher.Blames (text : List Char) (matcher : Matcher) : Prop :=
  ∀ cursor notes, cursor.On text → notes.pos ≤ text.length →
    (matcher cursor notes).1 = .failed → cursor.pos ≤ (matcher cursor notes).2.pos

namespace Matcher.Blames

variable {first second : Matcher}

theorem rule (bound : Nat) (rule : Rule) : (rule.match bound).Blames text := by
  intro cursor notes _ _ failed
  cases bound with
  | zero => cases failed
  | succ bound =>
      rw [Rule.match] at failed ⊢
      cases result : rule.body.match (Rule.match bound) cursor notes with
      | mk outcome noted =>
          rw [result] at failed
          cases outcome with
          | matched trees next => cases failed
          | failed =>
              show cursor.pos ≤ (noted.blame rule cursor.pos _).pos
              rw [Attempts.blame_pos]
              exact Nat.le_max_left ..
          | exhausted => cases failed

/-- What may be left out does not fail. -/
theorem orNothing (first : Matcher) : (first.orElse Matcher.nothing).Blames text := by
  intro cursor notes _ _
  unfold Matcher.orElse
  split
  · exact nofun
  · rename_i succeeded
    exact fun failed => (succeeded _ (Prod.ext failed rfl)).elim

theorem many (call : Rule → Matcher) (phrase : Phrase) :
    ((Phrase.many phrase).match call).Blames text :=
  fun cursor => orNothing _ cursor

theorem followedBy {skip : Cursor → Cursor} (one : first.Blames text) (keeps : first.Keeps text)
    (moves : ∀ cursor : Cursor, cursor.Moves 0 (skip cursor)) (two : second.Blames text) :
    (first.followedBy skip second).Blames text := by
  intro cursor notes on low
  have blamed := one cursor notes on low
  obtain ⟨here, matched⟩ := keeps cursor notes on low
  unfold Matcher.followedBy
  split
  · rename_i trees after noted result
    rw [result] at here matched
    have further := (matched trees after rfl).1.trans (moves after)
    have behind := two (skip after) noted (on.moves further) here
    split
    · exact nofun
    · exact fun failed => Nat.le_trans further.pos_le (behind failed)
  · exact blamed

end Matcher.Blames

/-! ## Whole texts -/

theorem Matcher.nothing_followedBy (skip : Cursor → Cursor) (second : Matcher) (cursor : Cursor)
    (notes : Attempts) :
    Matcher.nothing.followedBy skip second cursor notes = second (skip cursor) notes := by
  unfold Matcher.followedBy Matcher.nothing
  dsimp only
  cases second (skip cursor) notes with
  | mk outcome noted => cases outcome <;> rfl

/-- A text that may not go on anywhere else stops where no blank and no comment begins. -/
theorem stop_solid {rule : Rule} {phrase : Phrase} {stop : Stop}
    (shape : rule.body = .phrase (.whole phrase))
    (blames : ∀ bound, (phrase.match (Rule.match bound)).Blames text)
    (failed : parse rule text = .error stop) : Solid (text.drop stop.pos) := by
  obtain ⟨notes, matched, rfl⟩ := match_failed_of_parse failed
  obtain ⟨bound, enough⟩ : ∃ bound, callBound text = bound + 1 :=
    Nat.exists_eq_add_one.2 (Nat.mul_pos (by decide) (Nat.succ_pos _))
  let start : Cursor := ⟨0, text⟩
  have on : start.On text := Cursor.moves_self start
  have keeps : (phrase.match (Rule.match bound)).Keeps text :=
    phrase.match_keeps (Rule.match_keeps bound)
  -- Behind what the text begins with, there is the phrase and then the end.
  let inside : Matcher :=
    (phrase.match (Rule.match bound)).followedBy Cursor.skip (Rule.match bound .finish)
  have settles : inside.Settles text (Solid ·.rest) :=
    (phrase.match_settles (Rule.match_settles bound) (Rule.match_keeps bound)).followedBy keeps
      Cursor.moves_skip Cursor.solid_skip (Rule.match_settles bound .finish)
  have noting : inside.Blames text :=
    (blames bound).followedBy keeps Cursor.moves_skip (.rule bound .finish)
  have body : rule.body.match (Rule.match bound) start {} = inside start.skip {} := by
    rw [shape]
    exact Matcher.nothing_followedBy Cursor.skip inside start {}
  have skipped := on.moves start.moves_skip
  have settled := settles start.skip {} skipped start.solid_skip ⟨Nat.zero_le _, .inl rfl⟩
  have behind := noting start.skip {} skipped (Nat.zero_le _)
  rw [enough, Rule.match, body] at matched
  split at matched
  · cases matched
  · rename_i noted result
    obtain ⟨-, rfl⟩ := Prod.mk.inj matched
    rw [result] at settled behind
    have settled : noted.Settled text := settled
    have reached : start.skip.pos ≤ noted.pos := behind rfl
    show Solid (text.drop (noted.blame rule 0 _).pos)
    rw [Attempts.blame_pos, Nat.max_eq_right (Nat.zero_le _)]
    rcases settled.solid with first | solid
    · -- Nothing was noted behind the start, so nothing was skipped there.
      have rest := skipped.rest_eq
      rw [show start.skip.pos = noted.pos by omega] at rest
      exact rest ▸ start.solid_skip
    · exact solid
  · cases matched

/-- A text stops being grammatical where no blank and no comment begins. -/
theorem parse_stop_solid {rule : Rule} {stop : Stop}
    (whole : rule ∈ [.document, .wholeType, .wholeMethodTypes, .wholeTypeParams])
    (failed : parse rule text = .error stop) : Solid (text.drop stop.pos) := by
  have list (item : Rule) (between : List Char) (bound : Nat) :
      ((Phrase.separated (.call item) between).match (Rule.match bound)).Blames text :=
    (Matcher.Blames.rule bound item).followedBy (Rule.match_keeps bound item) Cursor.moves_skip
      (.many _ _)
  simp only [List.mem_cons, List.not_mem_nil, or_false] at whole
  rcases whole with rfl | rfl | rfl | rfl
  · exact stop_solid rfl (fun bound => .many _ _) failed
  · exact stop_solid rfl (fun bound => .rule bound .typeExpr) failed
  · exact stop_solid rfl (list _ _) failed
  · exact stop_solid rfl (list _ _) failed

end Signet.Grammar

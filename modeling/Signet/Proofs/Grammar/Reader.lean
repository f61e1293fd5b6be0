import Signet.Grammar.Match
import Signet.Proofs.Grammar.Scanner

/-!
# What a text is read as

Matching carries notes for error messages and a bound on calls. Neither has a part in what a rule
matches: `Rule.read` is the result of a match as a function of the position alone, and
`Rule.read_eq` says that a rule reads what its body reads. The bound that `parse` starts with is
never exhausted (`parse_eq_ok_iff`).

Along a chain of calls the `measure` falls: either a character has been taken, or the next rule has
a lower rank.
-/

namespace Signet.Grammar

/-! ## Positions -/

namespace Cursor

variable {cursor next last : Cursor} {text more : List Char} {least m n : Nat}

/-- The text leads from one position to the other. -/
structure Passes (cursor : Cursor) (text : List Char) (next : Cursor) : Prop where
  rest_eq : cursor.rest = text ++ next.rest
  pos_eq : next.pos = cursor.pos + text.length

theorem Passes.refl (cursor : Cursor) : cursor.Passes [] cursor := ⟨rfl, rfl⟩

theorem Passes.trans (first : cursor.Passes text next) (second : next.Passes more last) :
    cursor.Passes (text ++ more) last where
  rest_eq := by rw [first.rest_eq, second.rest_eq, List.append_assoc]
  pos_eq := by rw [second.pos_eq, first.pos_eq, List.length_append, Nat.add_assoc]

theorem passes_skipFrom (inComment : Bool) (pos : Nat) (rest : List Char) :
    ∃ blanks, Cursor.Passes ⟨pos, rest⟩ blanks (skipFrom inComment pos rest) := by
  induction rest generalizing inComment pos with
  | nil => exact ⟨[], Passes.refl _⟩
  | cons c rest ih =>
      have step : ∀ inComment, ∃ blanks,
          Cursor.Passes ⟨pos, c :: rest⟩ blanks (skipFrom inComment (pos + 1) rest) := by
        intro inComment
        obtain ⟨blanks, passes⟩ := ih inComment (pos + 1)
        have first : Cursor.Passes ⟨pos, c :: rest⟩ [c] ⟨pos + 1, rest⟩ := ⟨rfl, rfl⟩
        exact ⟨_, first.trans passes⟩
      simp only [skipFrom]
      split
      · exact step _
      · split
        · exact step _
        · split
          · exact step _
          · exact ⟨[], Passes.refl _⟩

theorem passes_skip (cursor : Cursor) : ∃ blanks, cursor.Passes blanks cursor.skip :=
  passes_skipFrom false cursor.pos cursor.rest

theorem length_skip_le (cursor : Cursor) : cursor.skip.rest.length ≤ cursor.rest.length := by
  obtain ⟨blanks, passes⟩ := cursor.passes_skip
  rw [passes.rest_eq, List.length_append]
  omega

theorem passes_advance {rest : List Char} (front : cursor.rest = text ++ rest) :
    cursor.Passes text (cursor.advance rest) where
  rest_eq := front
  pos_eq := by
    show cursor.pos + (cursor.rest.length - rest.length) = cursor.pos + text.length
    rw [front, List.length_append]
    omega

theorem Passes.advance_eq (passes : cursor.Passes text next) : cursor.advance next.rest = next := by
  obtain ⟨pos, rest⟩ := next
  have rest_eq := passes.rest_eq
  have pos_eq := passes.pos_eq
  simp only at rest_eq pos_eq
  simp [advance, rest_eq, pos_eq]

/-- At least so many characters lead from one position to the other. -/
def Moves (cursor : Cursor) (least : Nat) (next : Cursor) : Prop :=
  ∃ text, cursor.Passes text next ∧ least ≤ text.length

theorem Moves.trans (first : cursor.Moves m next) (second : next.Moves n last) :
    cursor.Moves (m + n) last := by
  obtain ⟨text, passes, long⟩ := first
  obtain ⟨more, further, longer⟩ := second
  refine ⟨text ++ more, passes.trans further, ?_⟩
  rw [List.length_append]
  omega

theorem Moves.mono (moves : cursor.Moves m next) (le : n ≤ m) : cursor.Moves n next :=
  let ⟨text, passes, long⟩ := moves
  ⟨text, passes, Nat.le_trans le long⟩

theorem moves_self (cursor : Cursor) : cursor.Moves 0 cursor := ⟨[], Passes.refl _, Nat.le_refl _⟩

theorem moves_skip (cursor : Cursor) : cursor.Moves 0 cursor.skip :=
  let ⟨blanks, passes⟩ := cursor.passes_skip
  ⟨blanks, passes, Nat.zero_le _⟩

theorem Moves.length_le (moves : cursor.Moves least next) :
    next.rest.length + least ≤ cursor.rest.length := by
  obtain ⟨text, passes, long⟩ := moves
  rw [passes.rest_eq, List.length_append]
  omega

theorem moves_advance {scanner : Scanner} (takes : scanner.Takes least) {rest : List Char}
    (read : scanner cursor.rest = some rest) : cursor.Moves least (cursor.advance rest) := by
  obtain ⟨⟨text, front⟩, short⟩ := takes read
  refine ⟨text, passes_advance front.symm, ?_⟩
  rw [← front, List.length_append] at short
  omega

end Cursor

/-! ## Readers -/

/-- What is read at a position: trees, and the position after them. -/
abbrev Reader := Cursor → Option (List ParseTree × Cursor)

namespace Reader

/-- Reads and goes on after what was read. -/
def followedBy (first : Reader) (next : Cursor → Cursor) (second : Reader) : Reader :=
  fun cursor => do
    let (trees, after) ← first cursor
    let (more, last) ← second (next after)
    return (trees ++ more, last)

/-- Reads the second if the first cannot be read, at the same position. -/
def orElse (first second : Reader) : Reader := fun cursor => (first cursor).or (second cursor)

/-- Reads nothing. -/
def nothing : Reader := fun cursor => some ([], cursor)

/-- Repeats after skipping blanks, at most a given number of times. -/
def again (item : Reader) : Nat → Reader
  | 0, _ => none
  | count + 1, cursor =>
    match item cursor.skip with
    | some (trees, after) =>
      (again item count after).map fun (more, last) => (trees ++ more, last)
    | none => some ([], cursor)

end Reader

/-- Reads a phrase, given how to read a rule. -/
def Phrase.readWith (read : Rule → Reader) : Phrase → Reader
  | .nothing => Reader.nothing
  | .mark text => fun cursor =>
    (Scanner.word text cursor.rest).map fun rest => ([], cursor.advance rest)
  | .call rule => read rule
  | .seq first second => (first.readWith read).followedBy Cursor.skip (second.readWith read)
  | .alt first second => (first.readWith read).orElse (second.readWith read)
  | .opt phrase => (phrase.readWith read).orElse Reader.nothing
  | .many phrase => fun cursor =>
    ((phrase.readWith read).followedBy id
      ((phrase.readWith read).again (cursor.rest.length + 1))).orElse Reader.nothing cursor

/-- Reads what a rule is made of. -/
def Body.readWith (read : Rule → Reader) : Body → Reader
  | .token scanner => fun cursor =>
    (scanner cursor.rest).map fun rest => ([], cursor.advance rest)
  | .phrase items => items.readWith read

/-! ## Ranks -/

/-- A rule that another one may call before it takes a character has a lower rank. -/
def Rule.rank : Rule → Nat
  | .requiredParam | .wholeType => 6
  | .typeExpr => 5
  | .unionType => 4
  | .intersectionType | .overloads | .wholeMethodTypes => 3
  | .optionalType | .methodType | .wholeTypeParams | .document => 2
  | .classType | .interfaceType | .aliasType | .keywordParam | .block | .typeParam | .superclass
  | .selfTypes | .selfType | .methodMember | .mixinMember | .attributeMember | .classDecl
  | .moduleDecl => 1
  | _ => 0

/-- How many characters a rule takes at least. -/
def Rule.least : Rule → Nat
  | .finish | .document => 0
  | _ => 1

namespace Phrase

/-- How many characters a phrase takes at least. -/
def least : Phrase → Nat
  | nothing => 0
  | mark text => text.length
  | call rule => rule.least
  | seq first second => first.least + second.least
  | alt first second => min first.least second.least
  | opt _ => 0
  | many _ => 0

/-- One more than the ranks of the rules that a phrase may call before it takes a character. -/
def rank : Phrase → Nat
  | nothing | mark _ => 0
  | call rule => rule.rank + 1
  | seq first second => max first.rank (if first.least = 0 then second.rank else 0)
  | alt first second => max first.rank second.rank
  | opt phrase | many phrase => phrase.rank

/-- What is repeated takes characters. -/
def progresses : Phrase → Bool
  | nothing | mark _ | call _ => true
  | seq first second | alt first second => first.progresses && second.progresses
  | opt phrase => phrase.progresses
  | many phrase => phrase.progresses && 0 < phrase.least

end Phrase

/-- The body takes at least as much as its rule is said to take and calls rules of lower rank. -/
def Body.Fits (rule : Rule) : Body → Prop
  | .token scanner => scanner.Takes rule.least
  | .phrase items =>
    items.rank ≤ rule.rank ∧ rule.least ≤ items.least ∧ items.progresses = true

/-- Every rule fits its rank. -/
theorem Rule.fits (rule : Rule) : rule.body.Fits rule := by
  cases rule with
  | finish => exact Scanner.takes_finish
  | upperIdent => exact Scanner.takes_ident _
  | className => exact Scanner.takes_className
  | interfaceName => exact Scanner.takes_interfaceName
  | aliasName => exact Scanner.takes_aliasName
  | varName => exact Scanner.takes_varName
  | keywordName => exact Scanner.takes_keywordName
  | symbolLiteral =>
      exact ((Scanner.Takes.word [':']).andThen Scanner.takes_markedIdent).mono (by decide)
  | stringLiteral => exact (Scanner.Takes.between _).orElse (Scanner.Takes.between _)
  | integerLiteral =>
      exact ((Scanner.Takes.word ['-']).maybe.andThen
        ((Scanner.Takes.one _).andThen (Scanner.Takes.run _))).mono (by decide)
  | methodName => exact Scanner.takes_methodName
  | attributeName => exact (Scanner.Takes.one _).andThen (Scanner.Takes.run _)
  | methodKind => exact Scanner.Takes.firstOf (by decide)
  | baseType | booleanLiteral | unchecked | variance | visibility | mixinKind | attributeKind
  | classKeyword | moduleKeyword | defKeyword | endKeyword =>
      exact Scanner.Takes.wholeWord (by decide)
  | _ => exact ⟨by decide, by decide, by decide⟩

theorem Rule.rank_lt (rule : Rule) : rule.rank < Rule.all.length := by
  cases rule <;> decide

theorem Phrase.rank_le (phrase : Phrase) : phrase.rank ≤ Rule.all.length := by
  induction phrase with
  | nothing | mark _ => exact Nat.zero_le _
  | call rule => exact rule.rank_lt
  | opt phrase ih | many phrase ih => exact ih
  | alt first second one two =>
      rw [rank]
      omega
  | seq first second one two =>
      rw [rank]
      split <;> omega

/-- What falls along a chain of calls. -/
def measure (rule : Rule) (cursor : Cursor) : Nat :=
  Rule.all.length * cursor.rest.length + rule.rank

/-! ## Matching without notes and bounds -/

/-- The outcome with a result, or without one. -/
def Outcome.ofReading : Option (List ParseTree × Cursor) → Outcome
  | some (trees, next) => .matched trees next
  | none => .failed

/-- The result, if there is one. -/
def Outcome.reading : Outcome → Option (List ParseTree × Cursor)
  | .matched trees next => some (trees, next)
  | .failed | .exhausted => none

theorem Outcome.reading_ofReading (result : Option (List ParseTree × Cursor)) :
    (Outcome.ofReading result).reading = result := by
  rcases result with _ | ⟨trees, next⟩ <;> rfl

namespace Matcher

variable {first second : Matcher} {cursor : Cursor}

/-- The match has this result, whatever the notes so far. -/
def Gives (matcher : Matcher) (cursor : Cursor) (result : Option (List ParseTree × Cursor)) :
    Prop :=
  ∀ attempts, (matcher cursor attempts).1 = .ofReading result

theorem Gives.exists_notes {result : Option (List ParseTree × Cursor)}
    (gives : first.Gives cursor result) (attempts : Attempts) :
    ∃ notes, first cursor attempts = (.ofReading result, notes) :=
  ⟨(first cursor attempts).2, Prod.ext (gives attempts) rfl⟩

theorem Gives.followedBy {one two : Reader} {next : Cursor → Cursor}
    (gives : first.Gives cursor (one cursor))
    (later : ∀ trees after, one cursor = some (trees, after) →
      second.Gives (next after) (two (next after))) :
    (first.followedBy next second).Gives cursor (one.followedBy next two cursor) := by
  intro attempts
  obtain ⟨notes, here⟩ := gives.exists_notes attempts
  simp only [Matcher.followedBy, Reader.followedBy, here]
  cases read : one cursor with
  | none => rfl
  | some result =>
      obtain ⟨trees, after⟩ := result
      obtain ⟨further, there⟩ := (later trees after read).exists_notes notes
      simp only [Outcome.ofReading, there, Option.bind_eq_bind, Option.bind_some]
      cases two (next after) <;> rfl

theorem Gives.orElse {one two : Reader} (gives : first.Gives cursor (one cursor))
    (other : second.Gives cursor (two cursor)) :
    (first.orElse second).Gives cursor (one.orElse two cursor) := by
  intro attempts
  obtain ⟨notes, here⟩ := gives.exists_notes attempts
  simp only [Matcher.orElse, Reader.orElse, here]
  cases one cursor with
  | none => exact other notes
  | some result => rfl

/-- The match has the result that is read, and what is read takes at least so many characters. -/
structure Follows (matcher : Matcher) (reader : Reader) (least : Nat) (cursor : Cursor) : Prop where
  gives : matcher.Gives cursor (reader cursor)
  moves : ∀ trees after, reader cursor = some (trees, after) → cursor.Moves least after

namespace Follows

variable {one two : Reader} {m n : Nat}

theorem mono (follows : first.Follows one m cursor) (le : n ≤ m) : first.Follows one n cursor :=
  ⟨follows.gives, fun trees after read => (follows.moves trees after read).mono le⟩

protected theorem nothing (cursor : Cursor) : nothing.Follows Reader.nothing 0 cursor where
  gives := fun _ => rfl
  moves := by
    intro trees after read
    obtain ⟨rfl, rfl⟩ := Prod.mk.inj (Option.some.inj read)
    exact cursor.moves_self

theorem followedBy {next : Cursor → Cursor} (here : first.Follows one m cursor)
    (skips : ∀ after : Cursor, after.Moves 0 (next after))
    (later : ∀ trees after, one cursor = some (trees, after) →
      second.Follows two n (next after)) :
    (first.followedBy next second).Follows (one.followedBy next two) (m + n) cursor where
  gives := here.gives.followedBy fun trees after read => (later trees after read).gives
  moves := by
    intro trees last found
    obtain ⟨⟨front, after⟩, read, found⟩ := Option.bind_eq_some_iff.1 found
    obtain ⟨⟨back, last⟩, further, found⟩ := Option.bind_eq_some_iff.1 found
    obtain ⟨rfl, rfl⟩ := Prod.mk.inj (Option.some.inj found)
    have moved := (later front after read).moves back last further
    exact ((here.moves front after read).trans ((skips after).trans moved)).mono (by omega)

theorem orElse (here : first.Follows one m cursor) (there : second.Follows two n cursor) :
    (first.orElse second).Follows (one.orElse two) (min m n) cursor where
  gives := here.gives.orElse there.gives
  moves := by
    intro trees after read
    rcases Option.or_eq_some_iff.1 read with read | ⟨_, read⟩
    · exact (here.moves trees after read).mono (Nat.min_le_left _ _)
    · exact (there.moves trees after read).mono (Nat.min_le_right _ _)

/-- Repetition ends, for each item takes a character. -/
theorem again {item : Matcher} {read : Reader} {cursor : Cursor} {count : Nat}
    (follows : ∀ next : Cursor, next.rest.length ≤ cursor.rest.length → item.Follows read 1 next)
    (enough : cursor.rest.length < count) :
    (item.again count).Follows (read.again count) 0 cursor ∧
      ∃ trees last, read.again count cursor = some (trees, last) := by
  induction count generalizing cursor with
  | zero => omega
  | succ count ih =>
      have skipped := cursor.length_skip_le
      have here := follows cursor.skip skipped
      cases found : read cursor.skip with
      | none =>
          have ends : read.again (count + 1) cursor = some ([], cursor) := by
            simp only [Reader.again, found]
          refine ⟨⟨fun attempts => ?_, fun trees last repeated => ?_⟩, [], cursor, ends⟩
          · obtain ⟨notes, failed⟩ := here.gives.exists_notes attempts
            simp only [Matcher.again, Matcher.orElse, Matcher.followedBy, failed, found, ends]
            rfl
          · obtain ⟨rfl, rfl⟩ := Prod.mk.inj (Option.some.inj (ends.symm.trans repeated))
            exact cursor.moves_self
      | some result =>
          obtain ⟨trees, after⟩ := result
          have moved := here.moves trees after found
          have shorter := moved.length_le
          -- an item that was there took a character, so fewer repetitions are enough behind it
          obtain ⟨more, others, last, rest⟩ :=
            @ih after (fun next le => follows next (by omega)) (by omega)
          have goesOn : read.again (count + 1) cursor = some (trees ++ others, last) := by
            simp only [Reader.again, found, rest, Option.map_some]
          refine ⟨⟨fun attempts => ?_, fun all last repeated => ?_⟩, _, _, goesOn⟩
          · obtain ⟨notes, matched⟩ := here.gives.exists_notes attempts
            obtain ⟨remaining, repeated⟩ := more.gives.exists_notes notes
            simp only [Matcher.again, Matcher.orElse, Matcher.followedBy, matched, found,
              Outcome.ofReading, id, repeated, rest, goesOn]
          · obtain ⟨rfl, rfl⟩ := Prod.mk.inj (Option.some.inj (goesOn.symm.trans repeated))
            have further := more.moves others last rest
            exact (cursor.moves_skip.trans (moved.trans further)).mono (Nat.zero_le _)

/-- Items one after the other, the first of them without skipping blanks, or none. -/
theorem many {item : Matcher} {read : Reader} {cursor : Cursor} {count : Nat}
    (follows : ∀ next : Cursor, next.rest.length ≤ cursor.rest.length → item.Follows read 1 next)
    (enough : cursor.rest.length < count) :
    ((item.followedBy id (item.again count)).orElse .nothing).Follows
      ((read.followedBy id (read.again count)).orElse Reader.nothing) 0 cursor := by
  have here := follows cursor (Nat.le_refl _)
  have items := here.followedBy Cursor.moves_self fun trees after found =>
    have short := (here.moves trees after found).length_le
    (@again item read after count (fun next le => follows next (by omega)) (by omega)).1
  exact (items.orElse (.nothing cursor)).mono (Nat.zero_le _)

end Follows

end Matcher

/-- Behind the first part of a sequence the bound leaves room for the second: either the first part
took a character, or the rank of the sequence counts that of the second part. -/
theorem Phrase.fits_behind {first second : Phrase} {cursor after : Cursor} {bound : Nat}
    (fits : Rule.all.length * cursor.rest.length + (seq first second).rank ≤ bound)
    (moved : cursor.Moves first.least after) :
    Rule.all.length * after.skip.rest.length + second.rank ≤ bound := by
  rw [rank] at fits
  have shorter := moved.length_le
  have skipped := after.length_skip_le
  have low := second.rank_le
  by_cases empty : first.least = 0
  · rw [if_pos empty] at fits
    have := Nat.mul_le_mul_left Rule.all.length
      (show after.skip.rest.length ≤ cursor.rest.length by omega)
    omega
  · have := Nat.mul_le_mul_left Rule.all.length
      (show after.skip.rest.length + 1 ≤ cursor.rest.length by omega)
    rw [Nat.mul_add] at this
    omega

/-- A phrase is matched as it is read, if the rules of smaller measure are. -/
theorem Phrase.match_follows {call : Rule → Matcher} {read : Rule → Reader} {bound : Nat}
    (calls : ∀ rule next, measure rule next < bound →
      (call rule).Follows (read rule) rule.least next)
    (phrase : Phrase) (progresses : phrase.progresses = true) (cursor : Cursor)
    (fits : Rule.all.length * cursor.rest.length + phrase.rank ≤ bound) :
    (phrase.match call).Follows (phrase.readWith read) phrase.least cursor := by
  induction phrase generalizing cursor with
  | nothing => exact .nothing cursor
  | mark text =>
      refine ⟨fun attempts => ?_, fun trees after found => ?_⟩
      · simp only [Phrase.match, readWith]
        cases Scanner.word text cursor.rest <;> rfl
      · obtain ⟨rest, word, same⟩ := Option.map_eq_some_iff.1 found
        obtain ⟨rfl, rfl⟩ := Prod.mk.inj same
        exact Cursor.moves_advance (Scanner.Takes.word text) word
  | call rule => exact calls rule cursor fits
  | alt first second one two =>
      rw [Phrase.progresses, Bool.and_eq_true] at progresses
      rw [rank] at fits
      exact (one progresses.1 cursor (by omega)).orElse (two progresses.2 cursor (by omega))
  | opt phrase ih =>
      exact ((ih progresses cursor fits).orElse (.nothing cursor)).mono (Nat.zero_le _)
  | seq first second one two =>
      rw [Phrase.progresses, Bool.and_eq_true] at progresses
      have here := one progresses.1 cursor (by rw [rank] at fits; omega)
      exact here.followedBy Cursor.moves_skip fun trees after found =>
        two progresses.2 after.skip (fits_behind fits (here.moves trees after found))
  | many phrase ih =>
      rw [Phrase.progresses, Bool.and_eq_true, decide_eq_true_eq] at progresses
      have items : ∀ next : Cursor, next.rest.length ≤ cursor.rest.length →
          (phrase.match call).Follows (phrase.readWith read) 1 next := fun next le =>
        have room := Nat.add_le_add_right (Nat.mul_le_mul_left Rule.all.length le) phrase.rank
        (ih progresses.1 next (Nat.le_trans room fits)).mono progresses.2
      have repeated := Matcher.Follows.many items (Nat.lt_succ_self _)
      exact ⟨repeated.gives, repeated.moves⟩

/-- What a rule is made of is matched as it is read, if the rules of smaller measure are. -/
theorem Rule.body_follows {call : Rule → Matcher} {read : Rule → Reader} {rule : Rule}
    {cursor : Cursor} (calls : ∀ other next, measure other next < measure rule cursor →
      (call other).Follows (read other) other.least next) :
    (rule.body.match call).Follows (rule.body.readWith read) rule.least cursor := by
  have fits := rule.fits
  cases shape : rule.body with
  | token scanner =>
      rw [shape] at fits
      refine ⟨fun attempts => ?_, fun trees next found => ?_⟩
      · simp only [Body.match, Body.readWith]
        cases scanner cursor.rest <;> rfl
      · obtain ⟨rest, scanned, same⟩ := Option.map_eq_some_iff.1 found
        obtain ⟨rfl, rfl⟩ := Prod.mk.inj same
        exact Cursor.moves_advance fits scanned
  | phrase items =>
      rw [shape] at fits
      obtain ⟨rank, least, progresses⟩ := fits
      have followed := items.match_follows calls progresses cursor (Nat.add_le_add_left rank _)
      exact followed.mono least

/-- The tree of a rule that has read its body. -/
def Rule.grow (rule : Rule) (cursor : Cursor) :
    List ParseTree × Cursor → List ParseTree × Cursor
  | (children, next) => ([⟨rule, cursor.stretchTo next, children⟩], next)

/-- What a rule reads. -/
def Rule.read (rule : Rule) : Reader := fun cursor =>
  (rule.match (measure rule cursor + 1) cursor {}).1.reading

/-- A bound above the measure is not exhausted, and the rule reads what its body reads. -/
theorem Rule.match_follows_read (rule : Rule) (cursor : Cursor) :
    (∀ bound, measure rule cursor < bound →
      (rule.match bound).Follows rule.read rule.least cursor) ∧
    rule.read cursor = (rule.body.readWith Rule.read cursor).map (rule.grow cursor) := by
  -- the induction is on the measure, which falls from a rule to those that it calls
  generalize size : measure rule cursor = bound
  induction bound using Nat.strongRecOn generalizing rule cursor with
  | ind bound ih =>
      have body : ∀ limit, bound ≤ limit → (rule.body.match (Rule.match limit)).Follows
          (rule.body.readWith Rule.read) rule.least cursor := fun limit le =>
        rule.body_follows fun other next below => (ih _ (size ▸ below) other next rfl).1 limit
          (by omega)
      have matched : ∀ limit, bound < limit → (rule.match limit).Gives cursor
          ((rule.body.readWith Rule.read cursor).map (rule.grow cursor)) := by
        intro limit less attempts
        cases limit with
        | zero => omega
        | succ limit =>
            obtain ⟨notes, here⟩ := (body limit (by omega)).gives.exists_notes attempts
            simp only [Rule.match, here]
            cases rule.body.readWith Rule.read cursor <;> rfl
      have read_eq : rule.read cursor =
          (rule.body.readWith Rule.read cursor).map (rule.grow cursor) := by
        rw [Rule.read, size, matched (bound + 1) (Nat.lt_succ_self _) {},
          Outcome.reading_ofReading]
      refine ⟨fun limit less => ⟨read_eq ▸ matched limit less, fun trees next found => ?_⟩,
        read_eq⟩
      rw [read_eq] at found
      obtain ⟨⟨children, last⟩, inner, same⟩ := Option.map_eq_some_iff.1 found
      obtain ⟨rfl, rfl⟩ := Prod.mk.inj same
      exact (body bound (Nat.le_refl _)).moves children last inner

/-- A rule is matched as it is read. -/
theorem Rule.follows {rule : Rule} {cursor : Cursor} {bound : Nat}
    (below : measure rule cursor < bound) :
    (rule.match bound).Follows rule.read rule.least cursor :=
  (rule.match_follows_read cursor).1 bound below

/-- A rule reads one tree, whose children its body reads. -/
theorem Rule.read_eq (rule : Rule) (cursor : Cursor) :
    rule.read cursor = (rule.body.readWith Rule.read cursor).map (rule.grow cursor) :=
  (rule.match_follows_read cursor).2

theorem Rule.moves {rule : Rule} {cursor next : Cursor} {trees : List ParseTree}
    (read : rule.read cursor = some (trees, next)) : cursor.Moves rule.least next :=
  (Rule.follows (Nat.lt_succ_self _)).moves trees next read

theorem measure_lt_callBound (rule : Rule) (text : List Char) :
    measure rule ⟨0, text⟩ < callBound text := by
  have := rule.rank_lt
  rw [measure, callBound, Nat.mul_add]
  simp only
  omega

/-- A whole text is parsed as a rule exactly if the rule reads it. -/
theorem parse_eq_ok_iff {rule : Rule} {text : List Char} {tree : ParseTree} :
    parse rule text = .ok tree ↔ ∃ next, rule.read ⟨0, text⟩ = some ([tree], next) := by
  obtain ⟨notes, matched⟩ :=
    (Rule.follows (measure_lt_callBound rule text)).gives.exists_notes {}
  rw [parse, matched]
  cases rule.read ⟨0, text⟩ with
  | none => simp [Outcome.ofReading]
  | some result =>
      obtain ⟨trees, next⟩ := result
      match trees with
      | [] => simp [Outcome.ofReading]
      | [other] => simp [Outcome.ofReading]
      | _ :: _ :: _ => simp [Outcome.ofReading]

/-- A text stops being grammatical because the rule fails, and where the notes say. -/
theorem match_failed_of_parse {rule : Rule} {text : List Char} {stop : Stop}
    (failed : parse rule text = .error stop) : ∃ notes,
      rule.match (callBound text) ⟨0, text⟩ {} = (.failed, notes) ∧
        stop = ⟨notes.pos, notes.expected⟩ := by
  obtain ⟨notes, matched⟩ :=
    (Rule.follows (measure_lt_callBound rule text)).gives.exists_notes {}
  rw [parse, matched] at failed
  rw [matched]
  cases read : rule.body.readWith Rule.read ⟨0, text⟩ with
  | none =>
      rw [rule.read_eq, read] at failed ⊢
      exact ⟨notes, rfl, (Except.error.inj failed).symm⟩
  | some result =>
      rw [rule.read_eq, read] at failed
      cases failed

end Signet.Grammar

import Signet.Grammar.Phrase
import Signet.Text.Blank

/-! # Matching a text against the grammar

Matching a rule at a position of a text either gives a parse tree and the position after it or
fails. Beside that, a match keeps notes of which rules were tried in vain and where, so that an
error can say what would have been needed at the farthest position reached.

`Phrase.match` recurses on the phrase and leaves the rules in it to its argument; `Rule.match`
supplies them. A chain of rules that call each other calls none of them twice before a character
has been read, so the number of rules, once for each position, bounds the length of the chain.
-/

namespace Signet.Grammar

open Text

/-! ## Positions -/

/-- A position of a text and what follows it. -/
structure Cursor where
  pos : Nat
  rest : List Char

namespace Cursor

/-- Moves over blanks and comments. A comment runs from `#` to the end of its line. -/
def skipFrom (inComment : Bool) (pos : Nat) : List Char → Cursor
  | [] => ⟨pos, []⟩
  | c :: rest =>
    if inComment then skipFrom (c ≠ '\n') (pos + 1) rest
    else if isSpacing c then skipFrom false (pos + 1) rest
    else if c = '#' then skipFrom true (pos + 1) rest
    else ⟨pos, c :: rest⟩

/-- The position after blanks and comments. -/
def skip (cursor : Cursor) : Cursor := skipFrom false cursor.pos cursor.rest

/-- The position at which a given rest begins. -/
def advance (cursor : Cursor) (rest : List Char) : Cursor :=
  ⟨cursor.pos + (cursor.rest.length - rest.length), rest⟩

end Cursor

/-! ## Parse trees -/

/-- A stretch of a text: where it begins and how many characters it has. -/
structure Stretch where
  first : Cursor
  length : Nat

/-- The characters of a stretch. -/
def Stretch.text (stretch : Stretch) : List Char := stretch.first.rest.take stretch.length

/-- The stretch between two positions. -/
def Cursor.stretchTo (cursor next : Cursor) : Stretch := ⟨cursor, next.pos - cursor.pos⟩

/-- What a rule has matched: which stretch, and the trees of the rules that it called. -/
inductive ParseTree where
  | mk (rule : Rule) (stretch : Stretch) (children : List ParseTree)

namespace ParseTree

/-- The rule. -/
def rule : ParseTree → Rule
  | ⟨rule, _, _⟩ => rule

/-- The matched stretch. It may end in blanks and comments that the grammar skipped. -/
def stretch : ParseTree → Stretch
  | ⟨_, stretch, _⟩ => stretch

/-- The trees of the called rules, in order. -/
def children : ParseTree → List ParseTree
  | ⟨_, _, children⟩ => children

/-- The offset of the first character. -/
def start (tree : ParseTree) : Nat := tree.stretch.first.pos

/-- The matched text. -/
def text (tree : ParseTree) : List Char := tree.stretch.text

/-- The matched text as a string. -/
def string (tree : ParseTree) : String := String.ofList tree.text

end ParseTree

/-! ## Rules tried in vain -/

/-- The farthest position at which a rule failed, and the rules that failed there. -/
structure Attempts where
  pos : Nat := 0
  rules : List Rule := []

namespace Attempts

/-- How many rules are noted at a position. -/
def countAt (attempts : Attempts) (pos : Nat) : Nat :=
  if pos = attempts.pos then attempts.rules.length else 0

/-- Notes that a rule failed at a position, where `before` rules were noted when it was called. A
rule stands for what it called, unless it called a single rule in vain at the same place: that rule
says more. Failures before the farthest position do not count. -/
def blame (attempts : Attempts) (rule : Rule) (pos before : Nat) : Attempts :=
  if attempts.countAt pos = before + 1 then attempts
  else if attempts.pos = pos then ⟨pos, attempts.rules.take before ++ [rule]⟩
  else if attempts.pos < pos then ⟨pos, [rule]⟩
  else attempts

/-- The noted rules in order and without repetition. -/
def expected (attempts : Attempts) : List Rule :=
  Rule.all.filter attempts.rules.contains

end Attempts

/-! ## Matching -/

/-- How a match ends. It is `exhausted` if the bound on calls is too small. -/
inductive Outcome where
  | matched (trees : List ParseTree) (next : Cursor)
  | failed
  | exhausted

/-- Matches at a position, with the notes so far. -/
abbrev Matcher := Cursor → Attempts → Outcome × Attempts

namespace Matcher

/-- Matches and goes on after what was matched. -/
def followedBy (first : Matcher) (next : Cursor → Cursor) (second : Matcher) : Matcher :=
  fun cursor attempts =>
    match first cursor attempts with
    | (.matched trees after, attempts) =>
      match second (next after) attempts with
      | (.matched more last, attempts) => (.matched (trees ++ more) last, attempts)
      | failure => failure
    | failure => failure

/-- Matches the second if the first fails, at the same position. -/
def orElse (first second : Matcher) : Matcher := fun cursor attempts =>
  match first cursor attempts with
  | (.failed, attempts) => second cursor attempts
  | result => result

/-- Matches nothing. -/
def nothing : Matcher := fun cursor attempts => (.matched [] cursor, attempts)

/-- Repeats a match after skipping blanks. If it fails, the position is that before the blanks. -/
def again (item : Matcher) : Nat → Matcher
  | 0, _, attempts => (.exhausted, attempts)
  | count + 1, cursor, attempts =>
    orElse (fun cursor => followedBy item id (again item count) cursor.skip) nothing cursor attempts

end Matcher

/-- Matches a phrase, given how to match a rule. -/
def Phrase.match (call : Rule → Matcher) : Phrase → Matcher
  | .nothing => Matcher.nothing
  | .mark text => fun cursor attempts =>
    match Scanner.word text cursor.rest with
    | some rest => (.matched [] (cursor.advance rest), attempts)
    | none => (.failed, attempts)
  | .call rule => call rule
  | .seq first second => (first.match call).followedBy Cursor.skip (second.match call)
  | .alt first second => (first.match call).orElse (second.match call)
  | .opt phrase => (phrase.match call).orElse Matcher.nothing
  | .many phrase => fun cursor =>
    ((phrase.match call).followedBy id
      ((phrase.match call).again (cursor.rest.length + 1))).orElse Matcher.nothing cursor

/-- Matches what a rule is made of. -/
def Body.match (call : Rule → Matcher) : Body → Matcher
  | .token scanner => fun cursor attempts =>
    match scanner cursor.rest with
    | some rest => (.matched [] (cursor.advance rest), attempts)
    | none => (.failed, attempts)
  | .phrase items => items.match call

/-- Matches a rule: what it is made of becomes one tree, and a failure is noted. The number bounds
the length of a chain of calls. -/
def Rule.match : Nat → Rule → Matcher
  | 0, _, _, attempts => (.exhausted, attempts)
  | bound + 1, rule, cursor, attempts =>
    match rule.body.match (Rule.match bound) cursor attempts with
    | (.matched trees next, after) =>
      (.matched [⟨rule, cursor.stretchTo next, trees⟩] next, after)
    | (.failed, after) =>
      (.failed, after.blame rule cursor.pos (attempts.countAt cursor.pos))
    | (.exhausted, after) => (.exhausted, after)

/-! ## Whole texts -/

/-- Where a text stops being grammatical, and the rules that could have gone on there. -/
structure Stop where
  pos : Nat
  expected : List Rule

/-- Enough calls for a text: every rule once at every position. -/
def callBound (text : List Char) : Nat := Rule.all.length * (text.length + 1)

/-- Parses a text as a rule. -/
def parse (rule : Rule) (text : List Char) : Except Stop ParseTree :=
  match rule.match (callBound text) ⟨0, text⟩ {} with
  | (.matched [tree] _, _) => .ok tree
  | (_, attempts) => .error ⟨attempts.pos, attempts.expected⟩

end Signet.Grammar

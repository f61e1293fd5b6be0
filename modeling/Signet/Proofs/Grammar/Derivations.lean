import Signet.Proofs.Grammar.Phrases
import Signet.Proofs.Grammar.Positions
import Signet.Proofs.Grammar.Tokens
import Signet.Source.Range

/-!
# Derivations

A parse tree keeps where each rule was matched but not where its marks are. A derivation has both:
it says how a phrase was read, with all tokens in order, those that are marks and those that are
rules (`Derives`). Every reading has one (`Rule.exists_derives`).

The tokens of a phrase follow one another, and those of each tree are consecutive among them
(`Derives.exists_split`). Behind its last token a phrase reads nothing, or it has skipped the blanks
there in search of an item that it may have (`Derives.ends`): in this case the blanks belong to what
it has read.
-/

namespace Signet

/-- Ranges one after the other between two positions, none of them empty. -/
inductive Range.Row : Nat → List Range → Nat → Prop
  | nil {start stop : Nat} : start ≤ stop → Row start [] stop
  | cons {start stop : Nat} {range : Range} {ranges : List Range} : start ≤ range.start →
      range.start < range.stop → Row range.stop ranges stop → Row start (range :: ranges) stop

namespace Range.Row

variable {start middle stop : Nat} {range : Range} {ranges more : List Range}

theorem le (row : Row start ranges stop) : start ≤ stop := by
  induction row with
  | nil le => exact le
  | cons le nonempty _ ih => omega

theorem before (le : start ≤ middle) (row : Row middle ranges stop) : Row start ranges stop := by
  cases row with
  | nil further => exact .nil (Nat.le_trans le further)
  | cons further nonempty rest => exact .cons (Nat.le_trans le further) nonempty rest

theorem append (first : Row start ranges middle) (second : Row middle more stop) :
    Row start (ranges ++ more) stop := by
  induction first with
  | nil le => exact second.before le
  | cons le nonempty _ ih => exact .cons le nonempty (ih second)

theorem after (row : Row start ranges middle) (le : middle ≤ stop) : Row start ranges stop := by
  simpa using row.append (.nil le)

/-- Every range of a row lies between its ends. -/
theorem bounds (row : Row start ranges stop) :
    ∀ range ∈ ranges, start ≤ range.start ∧ range.start < range.stop ∧ range.stop ≤ stop := by
  induction row with
  | nil _ => exact nofun
  | @cons start stop range ranges le nonempty rest ih =>
      have here := rest.le
      refine List.forall_mem_cons.2 ⟨⟨le, nonempty, here⟩, fun other member => ?_⟩
      have := ih other member
      omega

/-- The ranges of a row do not overlap. -/
theorem pairwise (row : Row start ranges stop) :
    ranges.Pairwise fun one two => one.stop ≤ two.start := by
  induction row with
  | nil _ => exact .nil
  | cons _ _ rest ih => exact .cons (fun other member => (rest.bounds other member).1) ih

end Range.Row

namespace Grammar

open Text

/-! ## Derivations -/

/-- How a phrase reads trees between two positions, and from which tokens. An alternative is taken
if those before it cannot be read, and an item is left out only where it cannot be read. -/
inductive Derives : Phrase → Cursor → List ParseTree → List Range → Cursor → Prop
  | nothing {cursor : Cursor} : Derives .nothing cursor [] [] cursor
  | mark {cursor next : Cursor} {text : List Char} : cursor.Passes text next →
      Derives (.mark text) cursor [] [⟨cursor.pos, next.pos⟩] next
  | finish {cursor : Cursor} : cursor.rest = [] →
      Derives (.call .finish) cursor [⟨.finish, cursor.stretchTo cursor, []⟩] [] cursor
  | token {rule : Rule} {scanner : Scanner} {cursor next : Cursor} {text : List Char} :
      rule ≠ .finish → rule.body = .token scanner → cursor.Passes text next →
      scanner cursor.rest = some next.rest →
      Derives (.call rule) cursor [⟨rule, cursor.stretchTo next, []⟩] [⟨cursor.pos, next.pos⟩] next
  | call {rule : Rule} {items : Phrase} {cursor next : Cursor} {children : List ParseTree}
      {tokens : List Range} : rule.body = .phrase items →
      Derives items cursor children tokens next →
      Derives (.call rule) cursor [⟨rule, cursor.stretchTo next, children⟩] tokens next
  | seq {first second : Phrase} {cursor next last : Cursor} {front back : List ParseTree}
      {tokens more : List Range} : Derives first cursor front tokens next →
      Derives second next.skip back more last →
      Derives (.seq first second) cursor (front ++ back) (tokens ++ more) last
  | left {first second : Phrase} {cursor next : Cursor} {trees : List ParseTree}
      {tokens : List Range} : Derives first cursor trees tokens next →
      Derives (.alt first second) cursor trees tokens next
  | right {first second : Phrase} {cursor next : Cursor} {trees : List ParseTree}
      {tokens : List Range} : first.read cursor = none → Derives second cursor trees tokens next →
      Derives (.alt first second) cursor trees tokens next
  | present {phrase : Phrase} {cursor next : Cursor} {trees : List ParseTree}
      {tokens : List Range} : Derives phrase cursor trees tokens next →
      Derives (.opt phrase) cursor trees tokens next
  | absent {phrase : Phrase} {cursor : Cursor} : phrase.read cursor = none →
      Derives (.opt phrase) cursor [] [] cursor
  | never {phrase : Phrase} {cursor : Cursor} : phrase.read cursor = none →
      Derives (.many phrase) cursor [] [] cursor
  | last {phrase : Phrase} {cursor next : Cursor} {trees : List ParseTree} {tokens : List Range} :
      Derives phrase cursor trees tokens next → phrase.read next.skip = none →
      Derives (.many phrase) cursor trees tokens next
  | more {phrase : Phrase} {cursor next last : Cursor} {front back : List ParseTree}
      {tokens more : List Range} : Derives phrase cursor front tokens next →
      phrase.read next.skip ≠ none → Derives (.many phrase) next.skip back more last →
      Derives (.many phrase) cursor (front ++ back) (tokens ++ more) last

variable {phrase items : Phrase} {rule : Rule} {cursor next stop : Cursor} {tree : ParseTree}
  {trees : List ParseTree} {tokens own : List Range} {text : List Char}

/-- What is skipped can be skipped by itself. -/
theorem Cursor.exists_skippedFrom (inComment : Bool) (pos : Nat) (rest : List Char) :
    ∃ blanks, Cursor.Passes ⟨pos, rest⟩ blanks (skipFrom inComment pos rest) ∧
      (skipFrom inComment pos blanks).rest = [] := by
  induction rest generalizing inComment pos with
  | nil => exact ⟨[], .refl _, rfl⟩
  | cons c rest ih =>
      have step : ∀ further, (∀ text, skipFrom inComment pos (c :: text) =
          skipFrom further (pos + 1) text) → ∃ blanks,
            Cursor.Passes ⟨pos, c :: rest⟩ blanks (skipFrom inComment pos (c :: rest)) ∧
              (skipFrom inComment pos blanks).rest = [] := by
        intro further same
        obtain ⟨blanks, passes, skipped⟩ := ih further (pos + 1)
        have first : Cursor.Passes ⟨pos, c :: rest⟩ [c] ⟨pos + 1, rest⟩ := ⟨rfl, rfl⟩
        refine ⟨c :: blanks, ?_, ?_⟩
        · rw [same]
          exact first.trans passes
        · rw [same]
          exact skipped
      by_cases comment : inComment = true
      · exact step _ fun text => by rw [skipFrom, if_pos comment]
      · by_cases spacing : isSpacing c = true
        · exact step _ fun text => by rw [skipFrom, if_neg comment, if_pos spacing]
        · by_cases hash : c = '#'
          · exact step _ fun text => by rw [skipFrom, if_neg comment, if_neg spacing, if_pos hash]
          · -- the first character that stays
            refine ⟨[], ?_, rfl⟩
            rw [skipFrom, if_neg comment, if_neg spacing, if_neg hash]
            exact .refl _

/-- Skipping passes blanks and comments and nothing else. -/
theorem Cursor.exists_skipped (cursor : Cursor) :
    ∃ blanks, cursor.Passes blanks cursor.skip ∧ afterBlanks blanks = [] := by
  obtain ⟨blanks, passes, skipped⟩ := exists_skippedFrom false cursor.pos cursor.rest
  exact ⟨blanks, passes, (Cursor.skipFrom_rest false 0 cursor.pos blanks).trans skipped⟩

/-- No characters lead back to where they start. -/
theorem Cursor.Passes.eq_of_nil (passes : cursor.Passes [] next) : next = cursor := by
  obtain ⟨pos, rest⟩ := cursor
  obtain ⟨other, more⟩ := next
  obtain ⟨rest_eq, pos_eq⟩ := passes
  simp_all

/-- Whether or not blanks were skipped, the same ones are skipped then. -/
theorem Cursor.skip_of_skipped (skipped : next = cursor ∨ next = cursor.skip) :
    next.skip = cursor.skip := by
  rcases skipped with rfl | rfl
  · rfl
  · exact cursor.skip_skip

/-- The rule reads its tree by some derivation, wherever it is read. -/
def Derivable (tree : ParseTree) : Prop :=
  ∀ ⦃cursor next⦄, tree.rule.read cursor = some ([tree], next) →
    ∃ tokens, Derives (.call tree.rule) cursor [tree] tokens next

/-- What a phrase reads has a derivation if what the rules read has. -/
theorem Phrase.exists_derives (progresses : phrase.progresses = true)
    (read : phrase.read cursor = some (trees, next)) (derivable : ∀ tree ∈ trees, Derivable tree) :
    ∃ tokens, Derives phrase cursor trees tokens next := by
  -- The induction is on the phrase alone and stops at its calls: a rule may call itself, and only
  -- the trees that were made get smaller.
  induction phrase generalizing cursor trees next with
  | nothing =>
      obtain ⟨rfl, rfl⟩ := Prod.mk.inj (Option.some.inj read)
      exact ⟨[], .nothing⟩
  | mark text =>
      obtain ⟨rfl, passes⟩ := read_mark_iff.1 read
      exact ⟨_, .mark passes⟩
  | call rule =>
      obtain ⟨tree, rfl, rfl⟩ := Rule.exists_tree read
      exact derivable tree List.mem_cons_self read
  | seq first second one two =>
      rw [Phrase.progresses, Bool.and_eq_true] at progresses
      obtain ⟨front, middle, back, here, there, rfl⟩ := read_seq_iff.1 read
      obtain ⟨forward, backward⟩ := List.forall_mem_append.1 derivable
      obtain ⟨tokens, derives⟩ := one progresses.1 here forward
      obtain ⟨more, further⟩ := two progresses.2 there backward
      exact ⟨tokens ++ more, .seq derives further⟩
  | alt first second one two =>
      rw [Phrase.progresses, Bool.and_eq_true] at progresses
      rcases read_alt_iff.1 read with read | ⟨failed, read⟩
      · obtain ⟨tokens, derives⟩ := one progresses.1 read derivable
        exact ⟨tokens, .left derives⟩
      · obtain ⟨tokens, derives⟩ := two progresses.2 read derivable
        exact ⟨tokens, .right failed derives⟩
  | opt phrase ih =>
      rcases read_opt_iff.1 read with read | ⟨failed, rfl, rfl⟩
      · obtain ⟨tokens, derives⟩ := ih progresses read derivable
        exact ⟨tokens, .present derives⟩
      · exact ⟨[], .absent failed⟩
  | many phrase ih =>
      rw [Phrase.progresses, Bool.and_eq_true, decide_eq_true_eq] at progresses
      -- an item and what is repeated after it make a repetition
      have repeated : ∀ {middle last : Cursor} {back : List ParseTree},
          Repeats phrase.read middle back last → ∀ {cursor : Cursor} {front : List ParseTree},
            phrase.read cursor = some (front, middle) → (∀ tree ∈ front, Derivable tree) →
              (∀ tree ∈ back, Derivable tree) →
                ∃ tokens, Derives (.many phrase) cursor (front ++ back) tokens last := by
        intro middle last back repeats
        induction repeats with
        | stop failed =>
            intro cursor front here forward _
            obtain ⟨tokens, derives⟩ := ih progresses.1 here forward
            exact ⟨tokens, by simpa using Derives.last derives failed⟩
        | step found _ further =>
            intro cursor front here forward backward
            obtain ⟨inner, outer⟩ := List.forall_mem_append.1 backward
            obtain ⟨tokens, derives⟩ := ih progresses.1 here forward
            obtain ⟨more, rest⟩ := further found inner outer
            exact ⟨tokens ++ more, .more derives (by simp [found]) rest⟩
      rcases (read_many_iff progresses.1 progresses.2).1 read with ⟨failed, rfl, rfl⟩ | found
      · exact ⟨[], .never failed⟩
      · obtain ⟨front, middle, back, here, repeats, rfl⟩ := found
        obtain ⟨forward, backward⟩ := List.forall_mem_append.1 derivable
        exact repeated repeats here forward backward

/-- What a rule reads has a derivation. -/
theorem derivable : ∀ tree : ParseTree, Derivable tree
  | ⟨rule, stretch, children⟩ => by
      intro cursor next read
      have inside : ∀ child ∈ children, Derivable child := fun child _ => derivable child
      change rule.read cursor = _ at read
      have fits := rule.fits
      cases shape : rule.body with
      | phrase items =>
          rw [shape] at fits
          obtain ⟨inner, reads, whole⟩ := (Rule.read_phrase_iff shape).1 read
          obtain ⟨rfl, rfl⟩ : stretch = cursor.stretchTo next ∧ children = inner := by
            simpa using whole
          obtain ⟨tokens, derives⟩ := Phrase.exists_derives fits.2.2 reads inside
          exact ⟨tokens, .call shape derives⟩
      | token scanner =>
          obtain ⟨token, passes, scanned, whole⟩ := (Rule.read_token_iff shape).1 read
          obtain ⟨rfl, rfl⟩ : stretch = cursor.stretchTo next ∧ children = [] := by
            simpa using whole
          by_cases final : rule = .finish
          · -- the end of the text is no token
            subst final
            obtain rfl : Scanner.finish = scanner := Body.token.inj shape
            have empty : cursor.rest = [] := by
              simp only [Scanner.finish] at scanned
              split at scanned
              · simpa using ‹cursor.rest.isEmpty = true›
              · cases scanned
            obtain ⟨rfl, -⟩ := List.append_eq_nil_iff.1 (passes.rest_eq.symm.trans empty)
            obtain rfl := passes.eq_of_nil
            exact ⟨[], .finish empty⟩
          · exact ⟨_, .token final shape passes scanned⟩
termination_by tree => sizeOf tree

theorem Rule.exists_derives (read : rule.read cursor = some (trees, next)) :
    ∃ tokens, Derives (.call rule) cursor trees tokens next := by
  obtain ⟨tree, rfl, rfl⟩ := Rule.exists_tree read
  exact derivable tree read

namespace Derives

/-! ## Order -/

/-- A derivation goes forward. -/
theorem moves (derives : Derives phrase cursor trees tokens next) : cursor.Moves 0 next := by
  induction derives with
  | nothing | finish _ | absent _ | never _ => exact Cursor.moves_self _
  | mark passes | token _ _ passes _ => exact ⟨_, passes, Nat.zero_le _⟩
  | call _ _ ih | left _ ih | right _ _ ih | present _ ih | last _ _ ih => exact ih
  | seq _ _ one two | more _ _ _ one two => exact (one.trans (Cursor.moves_skip _)).trans two

/-- The stretch of a rule's tree lies between the two positions. -/
theorem stretch_eq (derives : Derives (.call rule) cursor [tree] own stop) :
    tree.rule = rule ∧ tree.stretch = cursor.stretchTo stop := by
  cases derives <;> exact ⟨rfl, rfl⟩

/-- A rule's tree is that of a token and has no children, or they are what its phrase reads. -/
theorem inner (derives : Derives (.call rule) cursor [tree] own stop) :
    (∃ scanner, rule.body = .token scanner ∧ tree.children = []) ∨
      ∃ items, rule.body = .phrase items ∧ Derives items cursor tree.children own stop := by
  cases derives with
  | finish _ => exact .inl ⟨_, rfl, rfl⟩
  | token _ shape _ _ => exact .inl ⟨_, shape, rfl⟩
  | call shape inner => exact .inr ⟨_, shape, inner⟩

/-- The text of a rule's tree leads from the one position to the other. -/
theorem passes_text (derives : Derives (.call rule) cursor [tree] own stop) :
    cursor.Passes tree.text stop := by
  obtain ⟨text, passes, -⟩ := derives.moves
  have whole : tree.text = text := by
    rw [ParseTree.text, derives.stretch_eq.2, passes.stretch_text]
  rwa [whole]

/-- A token has a character. -/
theorem token_row {text : List Char} (passes : cursor.Passes text next) (nonempty : text ≠ []) :
    Range.Row cursor.pos [⟨cursor.pos, next.pos⟩] next.pos := by
  have pos_eq := passes.pos_eq
  have := List.length_pos_iff.2 nonempty
  exact .cons (Nat.le_refl _) (show cursor.pos < next.pos by omega) (.nil (Nat.le_refl _))

/-- What a token rule reads is not empty and does not end with white space. -/
theorem exists_last_of_scanner {scanner : Scanner} {text : List Char} (rule_ne : rule ≠ .finish)
    (shape : rule.body = .token scanner) (passes : cursor.Passes text next)
    (scanned : scanner cursor.rest = some next.rest) :
    ∃ front c, text = front ++ [c] ∧ isBlank c = false := by
  have fits := rule.fits
  have firm := rule.firm
  rw [shape] at fits firm
  have least : rule.least = 1 := by
    cases rule <;> first | rfl | exact absurd rfl rule_ne | cases shape
  have shorter := (fits scanned).2
  rw [least, passes.rest_eq, List.length_append] at shorter
  refine (firm scanned).exists_last passes.rest_eq ?_
  rintro rfl
  simp only [List.length_nil] at shorter
  omega

/-- The marks of a phrase are not empty and do not end with white space. -/
theorem exists_last_of_mark {text : List Char} (inky : (Phrase.mark text).inky = true) :
    ∃ front c, text = front ++ [c] ∧ isBlank c = false := by
  rcases List.eq_nil_or_concat text with rfl | ⟨front, c, rfl⟩
  · cases inky
  · exact ⟨front, c, by simp, by simpa [Phrase.inky] using inky⟩

theorem inky_of_body (shape : rule.body = .phrase items) : items.inky = true := by
  have firm := rule.firm
  rwa [shape] at firm

/-- The tokens stand in a row between the two positions. -/
theorem row (derives : Derives phrase cursor trees tokens next) (inky : phrase.inky = true) :
    Range.Row cursor.pos tokens next.pos := by
  induction derives with
  | nothing | finish _ | absent _ | never _ => exact .nil (Nat.le_refl _)
  | mark passes =>
      obtain ⟨front, c, rfl, -⟩ := exists_last_of_mark inky
      exact token_row passes (by simp)
  | token rule_ne shape passes scanned =>
      obtain ⟨front, c, rfl, -⟩ := exists_last_of_scanner rule_ne shape passes scanned
      exact token_row passes (by simp)
  | call shape _ ih => exact ih (inky_of_body shape)
  | @seq first second cursor next _ _ _ _ _ _ _ one two =>
      obtain ⟨left, right⟩ := (Bool.and_eq_true _ _).mp inky
      exact (one left).append ((two right).before (Cursor.pos_le_skip next))
  | left _ ih => exact ih ((Bool.and_eq_true _ _).mp inky).1
  | right _ _ ih => exact ih ((Bool.and_eq_true _ _).mp inky).2
  | present _ ih | last _ _ ih => exact ih inky
  | @more _ _ next _ _ _ _ _ _ _ _ one two =>
      exact (one inky).append ((two inky).before (Cursor.pos_le_skip next))

/-- A phrase that takes a character has a token. -/
theorem tokens_ne_nil (derives : Derives phrase cursor trees tokens next)
    (least : 0 < phrase.least) : tokens ≠ [] := by
  induction derives with
  | nothing | finish _ | absent _ | never _ | present _ _ | last _ _ _ | more _ _ _ _ _ =>
      exact absurd least (Nat.lt_irrefl 0)
  | mark _ | token _ _ _ _ => simp
  | @call rule _ _ _ _ _ shape _ ih =>
      have fits := rule.fits
      rw [shape] at fits
      exact ih (Nat.lt_of_lt_of_le least fits.2.1)
  | seq _ _ one two =>
      -- one of the two takes a character
      rw [Phrase.least] at least
      intro empty
      obtain ⟨left, right⟩ := List.append_eq_nil_iff.1 empty
      have first := mt one (not_not_intro left)
      have second := mt two (not_not_intro right)
      omega
  | left _ ih | right _ _ ih =>
      rw [Phrase.least] at least
      exact ih (by omega)

/-! ## The last token -/

end Derives

/-- Where a derivation ends. Without a token it may have skipped blanks; otherwise it may have
skipped those behind its last token, and that one does not end with white space. -/
inductive Ends (cursor : Cursor) : List Range → Cursor → Prop
  | idle {next : Cursor} : next = cursor ∨ next = cursor.skip → Ends cursor [] next
  | token {before : List Range} {token : Range} {front : List Char} {c : Char}
      {stop next : Cursor} : cursor.Passes (front ++ [c]) stop → isBlank c = false →
      token.stop = stop.pos → (next = stop ∨ next = stop.skip) →
      Ends cursor (before ++ [token]) next

namespace Ends

variable {last : Cursor} {more : List Range}

/-- A single token ends where it ends. -/
theorem single {text : List Char} (passes : cursor.Passes text next)
    (inky : ∃ front c, text = front ++ [c] ∧ isBlank c = false) :
    Ends cursor [⟨cursor.pos, next.pos⟩] next := by
  obtain ⟨front, c, rfl, inky⟩ := inky
  show Ends cursor ([] ++ [_]) next
  exact .token passes inky rfl (.inl rfl)

/-- Blanks are skipped once between two derivations, whether or not the first has a token. -/
theorem seq (first : Ends cursor tokens next) (second : Ends next.skip more last) :
    Ends cursor (tokens ++ more) last := by
  cases first with
  | idle here =>
      rw [Cursor.skip_of_skipped here] at second
      cases second with
      | idle there => exact .idle (.inr (by simpa [Cursor.skip_skip] using there))
      | @token _ _ front _ _ _ passes inky stop ends =>
          obtain ⟨blanks, across⟩ := cursor.passes_skip
          have passes := across.trans passes
          rw [← List.append_assoc] at passes
          exact .token passes inky stop ends
  | @token _ _ front c stop _ passes inky stop_eq here =>
      rw [Cursor.skip_of_skipped here] at second
      cases second with
      | idle there =>
          -- the last token is that of the first derivation, and all blanks come after it
          rw [List.append_nil]
          exact .token passes inky stop_eq (.inr (by simpa [Cursor.skip_skip] using there))
      | @token _ _ back _ _ _ further inky stop_eq ends =>
          obtain ⟨blanks, across⟩ := stop.passes_skip
          rw [← List.append_assoc]
          have passes := (passes.trans across).trans further
          rw [← List.append_assoc] at passes
          exact .token passes inky stop_eq ends

end Ends

namespace Derives

/-- A derivation ends at its last token, or behind the blanks after it. -/
theorem ends (derives : Derives phrase cursor trees tokens next) (inky : phrase.inky = true) :
    Ends cursor tokens next := by
  induction derives with
  | nothing | finish _ | absent _ | never _ => exact .idle (.inl rfl)
  | mark passes => exact .single passes (exists_last_of_mark inky)
  | token rule_ne shape passes scanned =>
      exact .single passes (exists_last_of_scanner rule_ne shape passes scanned)
  | call shape _ ih => exact ih (inky_of_body shape)
  | seq _ _ one two =>
      obtain ⟨left, right⟩ := (Bool.and_eq_true _ _).mp inky
      exact (one left).seq (two right)
  | left _ ih => exact ih ((Bool.and_eq_true _ _).mp inky).1
  | right _ _ ih => exact ih ((Bool.and_eq_true _ _).mp inky).2
  | present _ ih | last _ _ ih => exact ih inky
  | more _ _ _ one two => exact (one inky).seq (two inky)

/-! ## Needed rules -/

end Derives

/-- The rules that every reading of a phrase calls. -/
def Phrase.needs : Phrase → List Rule
  | call rule => [rule]
  | seq first second => first.needs ++ second.needs
  | nothing | mark _ | alt .. | opt _ | many _ => []

/-- There is a tree of each rule that a phrase needs. -/
theorem Derives.exists_needed (derives : Derives phrase cursor trees tokens next) :
    ∀ rule ∈ phrase.needs, ∃ tree ∈ trees, tree.rule = rule := by
  induction derives with
  | nothing | mark _ | absent _ | never _ | left _ _ | right _ _ _ | present _ _ | last _ _ _
  | more _ _ _ _ _ => exact nofun
  | finish _ | token _ _ _ _ | call _ _ _ => simp [Phrase.needs, ParseTree.rule]
  | seq _ _ one two =>
      refine List.forall_mem_append.2 ⟨fun rule member => ?_, fun rule member => ?_⟩
      · obtain ⟨tree, inside, same⟩ := one rule member
        exact ⟨tree, List.mem_append_left _ inside, same⟩
      · obtain ⟨tree, inside, same⟩ := two rule member
        exact ⟨tree, List.mem_append_right _ inside, same⟩

/-- The rules that every reading of a rule calls. -/
def Rule.needs (rule : Rule) : List Rule :=
  match rule.body with
  | .token _ => []
  | .phrase items => items.needs

/-! ## Parts -/

/-- A tree that was read on the way from one position to another, among whose tokens are those of
the tree. -/
inductive Part (cursor : Cursor) (tokens : List Range) (next : Cursor) (tree : ParseTree) : Prop
  | intro {before own after : List Range} {stop : Cursor} : tokens = before ++ own ++ after →
      Derives (.call tree.rule) tree.stretch.first [tree] own stop →
      cursor.Moves 0 tree.stretch.first → stop.Moves 0 next →
      Range.Row cursor.pos before tree.start → Range.Row stop.pos after next.pos →
      Part cursor tokens next tree

namespace Part

variable {start last : Cursor} {before after : List Range}

/-- A rule's tree is a part of itself. -/
theorem whole (derives : Derives (.call rule) cursor [tree] tokens next) :
    Part cursor tokens next tree := by
  obtain ⟨same, stretch⟩ := derives.stretch_eq
  have first : tree.stretch.first = cursor := by rw [stretch]; rfl
  have split : tokens = [] ++ tokens ++ [] := by simp
  refine .intro split ?_ ?_ (Cursor.moves_self _) (.nil ?_) (.nil (Nat.le_refl _))
  · rwa [first, same]
  · exact first ▸ Cursor.moves_self _
  · exact Nat.le_of_eq (congrArg Cursor.pos first.symm)

/-- A part of what was read on a piece of the way is a part of what was read on the whole. -/
theorem widen (part : Part cursor tokens next tree) (moves : start.Moves 0 cursor)
    (further : next.Moves 0 last) (front : Range.Row start.pos before cursor.pos)
    (back : Range.Row next.pos after last.pos) :
    Part start (before ++ tokens ++ after) last tree := by
  obtain ⟨split, derives, toward, onward, row, rest⟩ := part
  refine .intro ?_ derives (moves.trans toward) (onward.trans further) (front.append row)
    (rest.append back)
  simp [split]

/-- The text of a part is a piece of the text that was read. -/
theorem exists_text (part : Part cursor tokens next tree) :
    ∃ before after, cursor.Passes (before ++ tree.text ++ after) next ∧
      tree.start = cursor.pos + before.length := by
  obtain ⟨-, derives, ⟨before, toward, -⟩, ⟨after, onward, -⟩, -, -⟩ := part
  exact ⟨before, after, (toward.trans derives.passes_text).trans onward, toward.pos_eq⟩

theorem start_le (part : Part cursor tokens next tree) : cursor.pos ≤ tree.start := by
  obtain ⟨before, after, -, start⟩ := part.exists_text
  omega

theorem stop_le (part : Part cursor tokens next tree) :
    tree.start + tree.text.length ≤ next.pos := by
  obtain ⟨before, after, passes, start⟩ := part.exists_text
  rw [passes.pos_eq, List.length_append, List.length_append]
  omega

/-- A part lies in the text at the cursor. -/
theorem stop_le_length (part : Part cursor tokens next tree) :
    tree.start + tree.text.length ≤ cursor.pos + cursor.rest.length := by
  obtain ⟨before, after, passes, start⟩ := part.exists_text
  rw [passes.rest_eq, start]
  simp only [List.length_append]
  omega

end Part

/-- The parts of a derivation and those of the one after it are parts of both. -/
theorem Part.of_append {first second : Phrase} {last : Cursor} {front back : List ParseTree}
    {more : List Range} (here : Derives first cursor front tokens next)
    (there : Derives second next.skip back more last) (left : first.inky = true)
    (right : second.inky = true) (one : ∀ tree ∈ front, Part cursor tokens next tree)
    (two : ∀ tree ∈ back, Part next.skip more last tree) :
    ∀ tree ∈ front ++ back, Part cursor (tokens ++ more) last tree := by
  have skipped := Cursor.moves_skip next
  refine List.forall_mem_append.2 ⟨fun tree member => ?_, fun tree member => ?_⟩
  · have behind := (there.row right).before skipped.pos_le
    simpa using (one tree member).widen (Cursor.moves_self _) (skipped.trans there.moves)
      (.nil (Nat.le_refl _)) behind
  · have ahead := (here.row left).after skipped.pos_le
    simpa using (two tree member).widen (here.moves.trans skipped) (Cursor.moves_self _) ahead
      (.nil (Nat.le_refl _))

/-- Each tree of a derivation is a part of it. -/
theorem Derives.part (derives : Derives phrase cursor trees tokens next)
    (inky : phrase.inky = true) : ∀ tree ∈ trees, Part cursor tokens next tree := by
  induction derives with
  | nothing | mark _ | absent _ | never _ => exact nofun
  | finish empty => exact List.forall_mem_singleton.2 (.whole (.finish empty))
  | token rule_ne shape passes scanned =>
      exact List.forall_mem_singleton.2 (.whole (.token rule_ne shape passes scanned))
  | call shape derives _ => exact List.forall_mem_singleton.2 (.whole (.call shape derives))
  | seq here there one two =>
      obtain ⟨left, right⟩ := (Bool.and_eq_true _ _).mp inky
      exact .of_append here there left right (one left) (two right)
  | left _ ih => exact ih ((Bool.and_eq_true _ _).mp inky).1
  | right _ _ ih => exact ih ((Bool.and_eq_true _ _).mp inky).2
  | present _ ih | last _ _ ih => exact ih inky
  | more here _ there one two => exact .of_append here there inky inky (one inky) (two inky)

/-- The trees of a derivation do not overlap. -/
theorem Derives.trees_pairwise (derives : Derives phrase cursor trees tokens next)
    (inky : phrase.inky = true) :
    trees.Pairwise fun one two => one.start + one.text.length ≤ two.start := by
  -- what was read first stops before what was read then begins
  have apart : ∀ {first second : Phrase} {cursor next last : Cursor} {front back : List ParseTree}
      {tokens more : List Range}, Derives first cursor front tokens next →
        Derives second next.skip back more last → first.inky = true → second.inky = true →
          ∀ one ∈ front, ∀ two ∈ back, one.start + one.text.length ≤ two.start := by
    intro first second cursor next last front back tokens more here there left right one inFront
      two inBack
    have stop := (here.part left one inFront).stop_le
    have start := (there.part right two inBack).start_le
    have := Cursor.pos_le_skip next
    omega
  induction derives with
  | nothing | mark _ | absent _ | never _ => exact .nil
  | finish _ | token _ _ _ _ | call _ _ _ => exact List.pairwise_singleton _ _
  | seq here there one two =>
      obtain ⟨left, right⟩ := (Bool.and_eq_true _ _).mp inky
      exact List.pairwise_append.2 ⟨one left, two right, apart here there left right⟩
  | left _ ih => exact ih ((Bool.and_eq_true _ _).mp inky).1
  | right _ _ ih => exact ih ((Bool.and_eq_true _ _).mp inky).2
  | present _ ih | last _ _ ih => exact ih inky
  | more here _ there one two =>
      exact List.pairwise_append.2 ⟨one inky, two inky, apart here there inky inky⟩

namespace Part

/-- The children of a part do not overlap. -/
theorem children_pairwise (part : Part cursor tokens next tree) :
    tree.children.Pairwise fun one two => one.start + one.text.length ≤ two.start := by
  obtain ⟨-, derives, -, -, -, -⟩ := part
  rcases derives.inner with ⟨-, -, leaf⟩ | ⟨items, shape, inner⟩
  · rw [leaf]
    exact .nil
  · exact inner.trees_pairwise (Derives.inky_of_body shape)

/-- What is in a part is a part. -/
theorem child (part : Part cursor tokens next tree) :
    ∀ child ∈ tree.children, Part cursor tokens next child := by
  obtain ⟨split, derives, toward, onward, row, rest⟩ := part
  intro child member
  rcases derives.inner with ⟨-, -, leaf⟩ | ⟨items, shape, inner⟩
  · rw [leaf] at member
    cases member
  · rw [split]
    exact (inner.part (Derives.inky_of_body shape) child member).widen toward onward row rest

/-- A part has a tree of each rule that its own rule needs. -/
theorem exists_child (part : Part cursor tokens next tree) :
    ∀ rule ∈ tree.rule.needs, ∃ child ∈ tree.children, child.rule = rule := by
  obtain ⟨-, derives, -, -, -, -⟩ := part
  intro rule member
  unfold Rule.needs at member
  rcases derives.inner with ⟨scanner, shape, -⟩ | ⟨items, shape, inner⟩
  · rw [shape] at member
    cases member
  · rw [shape] at member
    exact inner.exists_needed rule member

/-- The text of a child is a piece of the text of the tree. -/
theorem exists_child_text (part : Part cursor tokens next tree) :
    ∀ child ∈ tree.children, ∃ before after, tree.text = before ++ child.text ++ after ∧
      child.start = tree.start + before.length := by
  obtain @⟨_, own, _, stop, -, derives, -, -, -, -⟩ := part
  intro child member
  obtain ⟨before, after, passes, start⟩ := ((whole derives).child child member).exists_text
  have same := derives.passes_text.rest_eq.symm.trans passes.rest_eq
  exact ⟨before, after, List.append_cancel_right same, start⟩

end Part

/-- The last token of a tree. The other tokens are in front of it or behind the tree, and the text
of the tree ends with it, or with blanks and comments that were skipped after it. -/
structure LastToken (tokens : List Range) (tree : ParseTree) (token : Range) (gap : List Char) :
    Prop where
  start_le : tree.start ≤ token.start
  nonempty : token.start < token.stop
  split : ∃ before after, tokens = before ++ token :: after ∧
    (∀ other ∈ before, other.stop ≤ token.start) ∧
      ∀ other ∈ after, tree.start + tree.text.length ≤ other.start
  text_eq : ∃ front c, tree.text = front ++ c :: gap ∧ isBlank c = false ∧
    token.stop = tree.start + (front.length + 1)
  skipped : afterBlanks gap = []

/-- A part that takes a character has a last token. -/
theorem Part.exists_lastToken (part : Part cursor tokens next tree)
    (least : 0 < tree.rule.least) : ∃ token gap, LastToken tokens tree token gap := by
  obtain @⟨before, _, after, last, rfl, derives, -, -, row, rest⟩ := part
  have own := derives.row rfl
  have whole := derives.passes_text
  have nonempty := derives.tokens_ne_nil least
  cases derives.ends rfl with
  | idle _ => exact absurd rfl nonempty
  | @token others token front c stop _ passes inky stop_eq ends =>
      obtain ⟨gap, across, skipped⟩ : ∃ gap, stop.Passes gap last ∧ afterBlanks gap = [] := by
        rcases ends with rfl | rfl
        · exact ⟨[], .refl _, rfl⟩
        · exact stop.exists_skipped
      obtain ⟨low, ordered, -⟩ := own.bounds token (by simp)
      refine ⟨token, gap, low, ordered, ?_, ⟨front, c, ?_, inky, ?_⟩, skipped⟩
      · refine ⟨before ++ others, after, by simp,
          List.forall_mem_append.2 ⟨fun other member => ?_, ?_⟩, ?_⟩
        · exact Nat.le_trans (row.bounds other member).2.2 low
        · exact fun other member =>
            (List.pairwise_append.1 own.pairwise).2.2 other member token (by simp)
        · intro other member
          have := (rest.bounds other member).1
          rwa [whole.pos_eq] at this
      · have same : tree.text ++ last.rest = front ++ [c] ++ gap ++ last.rest :=
          whole.rest_eq.symm.trans (passes.trans across).rest_eq
        simpa using List.append_cancel_right same
      · rw [stop_eq, passes.pos_eq, List.length_append]
        rfl

end Grammar

end Signet

import Signet.Proofs.Grammar.Reader

/-!
# Reading phrases

How a phrase is read follows from how its parts are. One half of this module takes a reading apart:
the trees of a phrase are read one after the other (`Chain`). The other half puts one together: a
phrase `Covers` a text in front of a rest if reading stops at the rest, up to blanks.
-/

namespace Signet.Grammar

open Text

/-! ## Blanks -/

/-- The text does not start with a blank or a comment. -/
def Solid (text : List Char) : Prop := ∀ c ∈ text.head?, isSpacing c = false ∧ c ≠ '#'

theorem solid_cons {c : Char} (solid : isSpacing c = false ∧ c ≠ '#') (text : List Char) :
    Solid (c :: text) := fun _ head => Option.some.inj head ▸ solid

namespace Cursor

variable {cursor : Cursor} {pos : Nat} {rest : List Char}

theorem skip_of_solid (solid : Solid rest) : Cursor.skip ⟨pos, rest⟩ = ⟨pos, rest⟩ := by
  cases rest with
  | nil => rfl
  | cons c rest =>
      obtain ⟨spacing, hash⟩ := solid c rfl
      simp [skip, skipFrom, spacing, hash]

theorem solid_skipFrom (inComment : Bool) (pos : Nat) (rest : List Char) :
    Solid (skipFrom inComment pos rest).rest := by
  induction rest generalizing inComment pos with
  | nil =>
      intro c member
      cases member
  | cons c rest ih =>
      simp only [skipFrom]
      split
      · exact ih _ _
      · split
        · exact ih _ _
        · split
          · exact ih _ _
          · rename_i spacing hash
            intro other member
            obtain rfl := Option.some.inj member
            exact ⟨Bool.eq_false_iff.2 spacing, hash⟩

theorem solid_skip (cursor : Cursor) : Solid cursor.skip.rest :=
  solid_skipFrom false cursor.pos cursor.rest

/-- Skipping twice is skipping once. -/
theorem skip_skip (cursor : Cursor) : cursor.skip.skip = cursor.skip :=
  skip_of_solid cursor.solid_skip

theorem skip_blanks {blanks : List Char} (spacing : ∀ c ∈ blanks, isSpacing c = true) :
    Cursor.skip ⟨pos, blanks ++ rest⟩ = Cursor.skip ⟨pos + blanks.length, rest⟩ := by
  induction blanks generalizing pos with
  | nil => rfl
  | cons c blanks ih =>
      obtain ⟨here, later⟩ := List.forall_mem_cons.1 spacing
      have first : Cursor.skip ⟨pos, c :: (blanks ++ rest)⟩ =
          Cursor.skip ⟨pos + 1, blanks ++ rest⟩ := by
        simp [skip, skipFrom, here]
      rw [List.cons_append, first, ih later, List.length_cons]
      congr 2
      omega

theorem skipFrom_rest (inComment : Bool) (pos other : Nat) (rest : List Char) :
    (skipFrom inComment pos rest).rest = (skipFrom inComment other rest).rest := by
  induction rest generalizing inComment pos other with
  | nil => rfl
  | cons c rest ih =>
      simp only [skipFrom]
      split
      · exact ih ..
      · split
        · exact ih ..
        · split
          · exact ih ..
          · rfl

end Cursor

/-- What comes after the blanks and comments at the front. -/
def afterBlanks (text : List Char) : List Char := (Cursor.skip ⟨0, text⟩).rest

theorem Cursor.skip_rest (cursor : Cursor) : cursor.skip.rest = afterBlanks cursor.rest :=
  Cursor.skipFrom_rest false cursor.pos 0 cursor.rest

theorem afterBlanks_of_solid {text : List Char} (solid : Solid text) : afterBlanks text = text := by
  rw [afterBlanks, Cursor.skip_of_solid solid]

theorem afterBlanks_blanks {blanks text : List Char} (spacing : ∀ c ∈ blanks, isSpacing c = true) :
    afterBlanks (blanks ++ text) = afterBlanks text := by
  rw [afterBlanks, Cursor.skip_blanks spacing, Cursor.skip_rest]

/-! ## Taking a reading apart -/

/-- What a phrase reads. -/
abbrev Phrase.read (phrase : Phrase) : Reader := phrase.readWith Rule.read

/-- Items are read one after the other until none follows. -/
inductive Repeats (item : Reader) : Cursor → List ParseTree → Cursor → Prop
  | stop {cursor : Cursor} : item cursor.skip = none → Repeats item cursor [] cursor
  | step {cursor next last : Cursor} {trees more : List ParseTree} :
      item cursor.skip = some (trees, next) → Repeats item next more last →
      Repeats item cursor (trees ++ more) last

namespace Phrase

variable {cursor next last : Cursor} {trees : List ParseTree} {phrase first second : Phrase}
  {rule : Rule} {text : List Char}

/-- A phrase takes as much as it is said to take. -/
theorem moves (progresses : phrase.progresses = true)
    (read : phrase.read cursor = some (trees, next)) : cursor.Moves phrase.least next := by
  have followed := match_follows (fun _ _ below => Rule.follows below) phrase progresses cursor
    (Nat.le_refl _)
  exact followed.moves trees next read

theorem read_call : (call rule).read cursor = rule.read cursor := rfl

theorem read_mark_iff :
    (mark text).read cursor = some (trees, next) ↔ trees = [] ∧ cursor.Passes text next := by
  constructor
  · intro read
    obtain ⟨rest, word, same⟩ := Option.map_eq_some_iff.1 read
    obtain ⟨rfl, rfl⟩ := Prod.mk.inj same
    exact ⟨rfl, Cursor.passes_advance (Scanner.word_eq_some_iff.1 word)⟩
  · rintro ⟨rfl, passes⟩
    refine Option.map_eq_some_iff.2 ⟨_, Scanner.word_eq_some_iff.2 passes.rest_eq, ?_⟩
    rw [passes.advance_eq]

theorem read_seq_iff :
    (seq first second).read cursor = some (trees, last) ↔
      ∃ front next back, first.read cursor = some (front, next) ∧
        second.read next.skip = some (back, last) ∧ trees = front ++ back := by
  constructor
  · intro read
    obtain ⟨⟨front, next⟩, here, read⟩ := Option.bind_eq_some_iff.1 read
    obtain ⟨⟨back, last⟩, there, read⟩ := Option.bind_eq_some_iff.1 read
    obtain ⟨rfl, rfl⟩ := Prod.mk.inj (Option.some.inj read)
    exact ⟨front, next, back, here, there, rfl⟩
  · rintro ⟨front, next, back, here, there, rfl⟩
    show Reader.followedBy _ _ _ cursor = _
    simp [Reader.followedBy, here, there]

theorem read_alt_iff {result : List ParseTree × Cursor} :
    (alt first second).read cursor = some result ↔
      first.read cursor = some result ∨
        first.read cursor = none ∧ second.read cursor = some result :=
  Option.or_eq_some_iff

theorem read_opt_iff :
    (opt phrase).read cursor = some (trees, next) ↔
      phrase.read cursor = some (trees, next) ∨
        phrase.read cursor = none ∧ trees = [] ∧ next = cursor := by
  refine Option.or_eq_some_iff.trans (or_congr_right (and_congr_right fun _ => ?_))
  simp [Reader.nothing, eq_comm]

/-- Repetition ends. -/
theorem exists_repeats (progresses : phrase.progresses = true) (least : 0 < phrase.least)
    (cursor : Cursor) : ∃ trees last, Repeats phrase.read cursor trees last := by
  generalize size : cursor.rest.length = length
  induction length using Nat.strongRecOn generalizing cursor with
  | ind length ih =>
      cases found : phrase.read cursor.skip with
      | none => exact ⟨[], cursor, .stop found⟩
      | some result =>
          obtain ⟨front, next⟩ := result
          have shorter := (phrase.moves progresses found).length_le
          have skipped := cursor.length_skip_le
          obtain ⟨back, last, rest⟩ := ih next.rest.length (by omega) next rfl
          exact ⟨front ++ back, last, .step found rest⟩

theorem again_eq_some_of_repeats (progresses : phrase.progresses = true) (least : 0 < phrase.least)
    (repeats : Repeats phrase.read cursor trees last) :
    ∀ count, cursor.rest.length < count →
      phrase.read.again count cursor = some (trees, last) := by
  induction repeats with
  | @stop cursor item =>
      intro count enough
      cases count with
      | zero => omega
      | succ count => simp only [Reader.again, item]
  | @step cursor next last front back item rest ih =>
      intro count enough
      cases count with
      | zero => omega
      | succ count =>
          have shorter := (phrase.moves progresses item).length_le
          have skipped := cursor.length_skip_le
          simp only [Reader.again, item, ih count (by omega), Option.map_some]

theorem read_many_iff (progresses : phrase.progresses = true) (least : 0 < phrase.least) :
    (many phrase).read cursor = some (trees, last) ↔
      (phrase.read cursor = none ∧ trees = [] ∧ last = cursor) ∨
        ∃ front next back, phrase.read cursor = some (front, next) ∧
          Repeats phrase.read next back last ∧ trees = front ++ back := by
  show (phrase.read.followedBy id (phrase.read.again (cursor.rest.length + 1))).orElse
    Reader.nothing cursor = some (trees, last) ↔ _
  simp only [Reader.orElse, Reader.followedBy, id, Reader.nothing]
  cases found : phrase.read cursor with
  | none => simp [eq_comm]
  | some result =>
      obtain ⟨front, next⟩ := result
      have shorter := (phrase.moves progresses found).length_le
      obtain ⟨back, stop, repeats⟩ := exists_repeats progresses least next
      have again := again_eq_some_of_repeats progresses least repeats
        (cursor.rest.length + 1) (by omega)
      constructor
      · intro read
        simp only [Option.bind_eq_bind, Option.bind_some, again] at read
        obtain ⟨rfl, rfl⟩ := Prod.mk.inj (Option.some.inj read)
        exact .inr ⟨front, next, back, rfl, repeats, rfl⟩
      · rintro (⟨other, -⟩ | ⟨others, later, more, same, repeated, rfl⟩)
        · cases other
        · obtain ⟨rfl, rfl⟩ := Prod.mk.inj (Option.some.inj same)
          have := again_eq_some_of_repeats progresses least repeated
            (cursor.rest.length + 1) (by omega)
          simp only [Option.bind_eq_bind, Option.bind_some, this]
          rfl

end Phrase

/-! ## Rules -/

namespace Rule

variable {rule : Rule} {cursor next : Cursor} {trees : List ParseTree}

/-- A rule that is a phrase reads one tree around what the phrase reads. -/
theorem read_phrase_iff {items : Phrase} (shape : rule.body = .phrase items) :
    rule.read cursor = some (trees, next) ↔
      ∃ children, items.read cursor = some (children, next) ∧
        trees = [⟨rule, cursor.stretchTo next, children⟩] := by
  rw [rule.read_eq, shape]
  constructor
  · intro read
    obtain ⟨⟨children, last⟩, inner, same⟩ := Option.map_eq_some_iff.1 read
    obtain ⟨rfl, rfl⟩ := Prod.mk.inj same
    exact ⟨children, inner, rfl⟩
  · rintro ⟨children, inner, rfl⟩
    exact Option.map_eq_some_iff.2 ⟨_, inner, rfl⟩

/-- A rule that is a token reads a tree without children. -/
theorem read_token_iff {scanner : Scanner} (shape : rule.body = .token scanner) :
    rule.read cursor = some (trees, next) ↔
      ∃ token, cursor.Passes token next ∧ scanner cursor.rest = some next.rest ∧
        trees = [⟨rule, cursor.stretchTo next, []⟩] := by
  have fits := rule.fits
  rw [shape] at fits
  rw [rule.read_eq, shape]
  constructor
  · intro read
    obtain ⟨⟨children, last⟩, inner, same⟩ := Option.map_eq_some_iff.1 read
    obtain ⟨rfl, rfl⟩ := Prod.mk.inj same
    obtain ⟨rest, scanned, same⟩ := Option.map_eq_some_iff.1 inner
    obtain ⟨rfl, rfl⟩ := Prod.mk.inj same
    obtain ⟨⟨token, front⟩, -⟩ := fits scanned
    exact ⟨token, Cursor.passes_advance front.symm, scanned, rfl⟩
  · rintro ⟨token, passes, scanned, rfl⟩
    simp only [Body.readWith, scanned, Option.map_some, passes.advance_eq]
    rfl

/-- Whatever a rule reads is one tree of it. -/
theorem exists_tree (read : rule.read cursor = some (trees, next)) :
    ∃ tree, trees = [tree] ∧ tree.rule = rule := by
  rw [rule.read_eq] at read
  obtain ⟨⟨children, last⟩, inner, same⟩ := Option.map_eq_some_iff.1 read
  obtain ⟨rfl, rfl⟩ := Prod.mk.inj same
  exact ⟨_, rfl, rfl⟩

end Rule

/-- The text of a stretch is what leads over it. -/
theorem Cursor.Passes.stretch_text {cursor next : Cursor} {text : List Char}
    (passes : cursor.Passes text next) : (cursor.stretchTo next).text = text := by
  show cursor.rest.take (next.pos - cursor.pos) = text
  rw [passes.rest_eq, passes.pos_eq, Nat.add_sub_cancel_left, List.take_left]

/-! ## Trees in order -/

/-- The trees are read one after the other between two positions. -/
inductive Chain : Cursor → List ParseTree → Cursor → Prop
  | nil {cursor last : Cursor} {text : List Char} : cursor.Passes text last → Chain cursor [] last
  | cons {cursor start next last : Cursor} {text : List Char} {tree : ParseTree}
      {trees : List ParseTree} : cursor.Passes text start →
      tree.rule.read start = some ([tree], next) → Chain next trees last →
      Chain cursor (tree :: trees) last

namespace Chain

variable {cursor next last : Cursor} {trees more : List ParseTree} {text : List Char}

theorem refl (cursor : Cursor) : Chain cursor [] cursor := .nil (Cursor.Passes.refl cursor)

theorem after (passes : cursor.Passes text next) (chain : Chain next trees last) :
    Chain cursor trees last := by
  cases chain with
  | nil further => exact .nil (passes.trans further)
  | cons further read rest => exact .cons (passes.trans further) read rest

theorem append (first : Chain cursor trees next) (second : Chain next more last) :
    Chain cursor (trees ++ more) last := by
  induction first with
  | nil passes => exact second.after passes
  | cons passes read _ ih => exact .cons passes read (ih second)

/-- A rule is a chain of one tree. -/
theorem of_rule {rule : Rule} (read : rule.read cursor = some (trees, next)) :
    Chain cursor trees next ∧ ∀ tree ∈ trees, tree.rule = rule := by
  obtain ⟨tree, rfl, rfl⟩ := Rule.exists_tree read
  exact ⟨.cons (Cursor.Passes.refl cursor) read (refl next), by simp⟩

/-- Each tree of a chain was read somewhere. -/
theorem exists_read (chain : Chain cursor trees last) :
    ∀ tree ∈ trees, ∃ start next, tree.rule.read start = some ([tree], next) := by
  induction chain with
  | nil _ => exact nofun
  | cons _ read _ ih => exact List.forall_mem_cons.2 ⟨⟨_, _, read⟩, ih⟩

end Chain

/-- The rules that a phrase calls. -/
def Phrase.calls : Phrase → List Rule
  | nothing | mark _ => []
  | call rule => [rule]
  | seq first second | alt first second => first.calls ++ second.calls
  | opt phrase | many phrase => phrase.calls

/-- The marks in a phrase. -/
def Phrase.marks : Phrase → List (List Char)
  | nothing | call _ => []
  | mark text => [text]
  | seq first second | alt first second => first.marks ++ second.marks
  | opt phrase | many phrase => phrase.marks

/-- What holds of nothing, of each mark and of each tree that is called holds of all that a phrase
reads, if it holds of one thing after another and of what is behind blanks as well. -/
theorem Phrase.read_induction {motive : Cursor → List ParseTree → Cursor → Prop}
    (nothing : ∀ cursor, motive cursor [] cursor)
    (after : ∀ {cursor middle last front back}, motive cursor front middle →
      motive middle back last → motive cursor (front ++ back) last)
    (skip : ∀ {cursor last trees}, motive cursor.skip trees last → motive cursor trees last)
    {phrase : Phrase} (progresses : phrase.progresses = true)
    (mark : ∀ text ∈ phrase.marks, ∀ {cursor next}, cursor.Passes text next →
      motive cursor [] next)
    (call : ∀ tree : ParseTree, tree.rule ∈ phrase.calls → ∀ {cursor next},
      tree.rule.read cursor = some ([tree], next) → motive cursor [tree] next)
    {cursor next : Cursor} {trees : List ParseTree}
    (read : phrase.read cursor = some (trees, next)) : motive cursor trees next := by
  induction phrase generalizing cursor next trees with
  | nothing =>
      obtain ⟨rfl, rfl⟩ := Prod.mk.inj (Option.some.inj read)
      exact nothing cursor
  | mark text =>
      obtain ⟨rfl, passes⟩ := read_mark_iff.1 read
      exact mark text (List.mem_singleton.2 rfl) passes
  | call rule =>
      obtain ⟨tree, rfl, rfl⟩ := Rule.exists_tree read
      exact call tree (List.mem_singleton.2 rfl) read
  | seq first second one two =>
      rw [Phrase.progresses, Bool.and_eq_true] at progresses
      obtain ⟨front, middle, back, here, there, rfl⟩ := read_seq_iff.1 read
      exact after
        (one progresses.1 (fun text inside => mark text (List.mem_append_left _ inside))
          (fun tree inside => call tree (List.mem_append_left _ inside)) here)
        (skip (two progresses.2 (fun text inside => mark text (List.mem_append_right _ inside))
          (fun tree inside => call tree (List.mem_append_right _ inside)) there))
  | alt first second one two =>
      rw [Phrase.progresses, Bool.and_eq_true] at progresses
      rcases read_alt_iff.1 read with read | ⟨-, read⟩
      · exact one progresses.1 (fun text inside => mark text (List.mem_append_left _ inside))
          (fun tree inside => call tree (List.mem_append_left _ inside)) read
      · exact two progresses.2 (fun text inside => mark text (List.mem_append_right _ inside))
          (fun tree inside => call tree (List.mem_append_right _ inside)) read
  | opt phrase ih =>
      rcases read_opt_iff.1 read with read | ⟨-, rfl, rfl⟩
      · exact ih progresses mark call read
      · exact nothing next
  | many phrase ih =>
      rw [Phrase.progresses, Bool.and_eq_true, decide_eq_true_eq] at progresses
      have item : ∀ {cursor next trees}, phrase.read cursor = some (trees, next) →
          motive cursor trees next := ih progresses.1 mark call
      -- each item has the motive, and so has their sequence, by induction on the repetition
      have repeated : ∀ {cursor last trees}, Repeats phrase.read cursor trees last →
          motive cursor trees last := by
        intro cursor last trees repeats
        induction repeats with
        | stop _ => exact nothing _
        | step found _ rest => exact after (skip (item found)) rest
      rcases (read_many_iff progresses.1 progresses.2).1 read with ⟨-, rfl, rfl⟩ | found
      · exact nothing next
      · obtain ⟨front, middle, back, here, repeats, rfl⟩ := found
        exact after (item here) (repeated repeats)

/-- What a phrase reads are trees of the rules that it calls, in order. -/
theorem Phrase.chain {phrase : Phrase} (progresses : phrase.progresses = true)
    {cursor next : Cursor} {trees : List ParseTree}
    (read : phrase.read cursor = some (trees, next)) :
    Chain cursor trees next ∧ ∀ tree ∈ trees, tree.rule ∈ phrase.calls := by
  refine read_induction (motive := fun cursor trees next =>
    Chain cursor trees next ∧ ∀ tree ∈ trees, tree.rule ∈ phrase.calls)
    ?nothing ?after ?skip progresses ?mark ?call read
  case nothing => exact fun cursor => ⟨.refl cursor, nofun⟩
  case after =>
    rintro cursor middle last front back ⟨one, oneRules⟩ ⟨two, twoRules⟩
    exact ⟨one.append two, List.forall_mem_append.2 ⟨oneRules, twoRules⟩⟩
  case skip =>
    rintro cursor last trees ⟨chain, rules⟩
    obtain ⟨blanks, skipped⟩ := cursor.passes_skip
    exact ⟨chain.after skipped, rules⟩
  case mark => exact fun text _ _ _ passes => ⟨.nil passes, nofun⟩
  case call =>
    intro tree called cursor next found
    exact ⟨(Chain.of_rule found).1, List.forall_mem_singleton.2 called⟩

/-- The children of the tree of a phrase are what the phrase reads. -/
theorem Rule.read_children {tree : ParseTree} {rule : Rule} {items : Phrase}
    (same : tree.rule = rule) (shape : rule.body = .phrase items) {cursor next : Cursor}
    (read : tree.rule.read cursor = some ([tree], next)) :
    items.read cursor = some (tree.children, next) ∧ Chain cursor tree.children next ∧
      ∀ child ∈ tree.children, child.rule ∈ items.calls := by
  subst same
  obtain ⟨children, inner, whole⟩ := (Rule.read_phrase_iff shape).1 read
  have whole : tree.children = children := by
    obtain ⟨rest, -⟩ := List.cons.inj whole
    rw [rest]
    rfl
  have fits := tree.rule.fits
  rw [shape] at fits
  rw [whole]
  exact ⟨inner, Phrase.chain fits.2.2 inner⟩

end Signet.Grammar

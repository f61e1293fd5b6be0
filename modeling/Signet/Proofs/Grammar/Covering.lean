import Mathlib.Data.List.Forall2
import Signet.Proofs.Grammar.Phrases
import Signet.Proofs.Type.Print

/-!
# Reading what was written

A phrase `Covers` a text in front of a rest if it reads that text and stops there, up to the blanks
and comments at the front of the rest. Where reading stops depends on what follows, so each lemma
says what the rest must not start with; `Refuses` is the word for that.
-/

namespace Signet.Grammar

open Text

namespace Phrase

variable {phrase first second item : Phrase} {rule : Rule} {text more gap rest : List Char}
  {good other : List ParseTree → Prop}

/-! ## What cannot be read -/

/-- The phrase cannot be read at the front of the text. -/
def Refuses (phrase : Phrase) (text : List Char) : Prop := ∀ pos, phrase.read ⟨pos, text⟩ = none

theorem refuses_mark_iff : (mark more).Refuses text ↔ ¬more <+: text := by
  have front : more <+: text ↔ ∃ pos next, (mark more).read ⟨pos, text⟩ = some ([], next) := by
    constructor
    · rintro ⟨rest, rfl⟩
      exact ⟨0, ⟨0 + more.length, rest⟩, read_mark_iff.2 ⟨rfl, rfl, rfl⟩⟩
    · rintro ⟨pos, next, read⟩
      exact ⟨next.rest, (read_mark_iff.1 read).2.rest_eq.symm⟩
  rw [front]
  constructor
  · rintro refuses ⟨pos, next, read⟩
    exact nomatch (refuses pos).symm.trans read
  · intro never pos
    cases found : (mark more).read ⟨pos, text⟩ with
    | none => rfl
    | some result =>
        obtain ⟨trees, next⟩ := result
        obtain ⟨rfl, -⟩ := read_mark_iff.1 found
        exact (never ⟨pos, next, found⟩).elim

/-- A mark is refused where the text starts with another character. -/
theorem refuses_mark {c : Char} {marks : List Char} (head : text.head? ≠ some c) :
    (mark (c :: marks)).Refuses text := by
  refine refuses_mark_iff.2 fun front => head ?_
  obtain ⟨rest, rfl⟩ := front
  rfl

theorem refuses_mark_cons {c d : Char} {marks rest : List Char} (other : d ≠ c) :
    (mark (c :: marks)).Refuses (d :: rest) :=
  refuses_mark fun same => other (Option.some.inj same)

theorem Refuses.seq (refuses : first.Refuses text) : (Phrase.seq first second).Refuses text := by
  intro pos
  cases found : (Phrase.seq first second).read ⟨pos, text⟩ with
  | none => rfl
  | some result =>
      obtain ⟨front, next, back, here, -⟩ := read_seq_iff.1 found
      exact nomatch (refuses pos).symm.trans here

theorem Refuses.alt (one : first.Refuses text) (two : second.Refuses text) :
    (Phrase.alt first second).Refuses text := by
  intro pos
  show (first.read ⟨pos, text⟩).or (second.read ⟨pos, text⟩) = none
  rw [one pos, two pos, Option.none_or]

theorem Refuses.ofRule {items : Phrase} (shape : rule.body = .phrase items)
    (refuses : items.Refuses text) : (call rule).Refuses text := by
  intro pos
  cases found : rule.read ⟨pos, text⟩ with
  | none => exact found
  | some result =>
      obtain ⟨children, read, -⟩ := (Rule.read_phrase_iff shape).1 found
      exact nomatch (refuses pos).symm.trans read

theorem Refuses.token {scanner : Scanner} (shape : rule.body = .token scanner)
    (refuses : scanner text = none) : (call rule).Refuses text := by
  intro pos
  cases found : rule.read ⟨pos, text⟩ with
  | none => exact found
  | some result =>
      obtain ⟨token, passes, read, -⟩ := (Rule.read_token_iff shape).1 found
      exact nomatch refuses.symm.trans read

/-- The phrase reads nothing at the front of the text. -/
def Misses (phrase : Phrase) (text : List Char) : Prop :=
  ∀ pos, phrase.read ⟨pos, text⟩ = some ([], ⟨pos, text⟩)

theorem Refuses.opt (refuses : phrase.Refuses text) : (Phrase.opt phrase).Misses text :=
  fun pos => read_opt_iff.2 (.inr ⟨refuses pos, rfl, rfl⟩)

theorem Refuses.many (refuses : phrase.Refuses text) : (Phrase.many phrase).Misses text := by
  intro pos
  show Reader.orElse _ _ _ = _
  simp [Reader.orElse, Reader.followedBy, refuses pos, Reader.nothing]

/-- A sequence is refused after parts that read nothing. -/
theorem Misses.seq (misses : first.Misses text) (solid : Solid text)
    (refuses : second.Refuses text) : (Phrase.seq first second).Refuses text := by
  intro pos
  cases found : (Phrase.seq first second).read ⟨pos, text⟩ with
  | none => rfl
  | some result =>
      obtain ⟨front, next, back, here, there, -⟩ := read_seq_iff.1 found
      obtain ⟨rfl, rfl⟩ := Prod.mk.inj (Option.some.inj ((misses pos).symm.trans here))
      rw [Cursor.skip_of_solid solid] at there
      exact nomatch (refuses pos).symm.trans there

/-! ## What is read -/

/-- The phrase reads the text in front of the rest, and after it blanks at most. -/
def Covers (phrase : Phrase) (text rest : List Char) (good : List ParseTree → Prop) : Prop :=
  ∀ pos, ∃ trees next, phrase.read ⟨pos, text ++ rest⟩ = some (trees, next) ∧
    next.skip = Cursor.skip ⟨pos + text.length, rest⟩ ∧ good trees

theorem Covers.imp (covers : phrase.Covers text rest good)
    (weaker : ∀ trees, good trees → other trees) : phrase.Covers text rest other := fun pos =>
  let ⟨trees, next, read, stop, holds⟩ := covers pos
  ⟨trees, next, read, stop, weaker trees holds⟩

theorem covers_mark (text rest : List Char) : (mark text).Covers text rest (· = []) :=
  fun pos => ⟨[], ⟨pos + text.length, rest⟩, read_mark_iff.2 ⟨rfl, rfl, rfl⟩, rfl, rfl⟩

theorem covers_nothing (rest : List Char) : nothing.Covers [] rest (· = []) :=
  fun pos => ⟨[], ⟨pos, rest⟩, rfl, rfl, rfl⟩

theorem Misses.covers (misses : phrase.Misses rest) : phrase.Covers [] rest (· = []) :=
  fun pos => ⟨[], ⟨pos, rest⟩, misses pos, rfl, rfl⟩

/-- The phrase reads the text in front of the rest once blanks and comments at its front are
skipped. -/
def Resumes (phrase : Phrase) (text rest : List Char) (good : List ParseTree → Prop) : Prop :=
  ∀ pos, ∃ trees next, phrase.read (Cursor.skip ⟨pos, text ++ rest⟩) = some (trees, next) ∧
    next.skip = Cursor.skip ⟨pos + text.length, rest⟩ ∧ good trees

theorem Resumes.imp (resumes : phrase.Resumes text rest good)
    (weaker : ∀ trees, good trees → other trees) : phrase.Resumes text rest other := fun pos =>
  let ⟨trees, next, read, stop, holds⟩ := resumes pos
  ⟨trees, next, read, stop, weaker trees holds⟩

theorem Covers.resumes (covers : phrase.Covers text rest good) (gap : List Char)
    (spacing : ∀ c ∈ gap, isSpacing c = true) (solid : Solid (text ++ rest)) :
    phrase.Resumes (gap ++ text) rest good := by
  intro pos
  obtain ⟨trees, next, read, stop, holds⟩ := covers (pos + gap.length)
  refine ⟨trees, next, ?_, ?_, holds⟩
  · rw [List.append_assoc, Cursor.skip_blanks spacing, Cursor.skip_of_solid solid]
    exact read
  · rw [stop, List.length_append, Nat.add_assoc]

theorem Misses.resumes (misses : phrase.Misses (afterBlanks rest)) :
    phrase.Resumes [] rest (· = []) := by
  intro pos
  have place : Cursor.skip ⟨pos, rest⟩ = ⟨(Cursor.skip ⟨pos, rest⟩).pos, afterBlanks rest⟩ := by
    rw [← (⟨pos, rest⟩ : Cursor).skip_rest]
  refine ⟨[], Cursor.skip ⟨pos, rest⟩, ?_, Cursor.skip_skip _, rfl⟩
  rw [List.nil_append, place]
  exact misses _

/-- From where the first part stopped, a sequence goes on with the second. -/
theorem Resumes.after {cursor : Cursor} {pos : Nat} (two : second.Resumes more rest other)
    (one : ∃ front next, first.read cursor = some (front, next) ∧
      next.skip = Cursor.skip ⟨pos + text.length, more ++ rest⟩ ∧ good front) :
    ∃ trees last, (Phrase.seq first second).read cursor = some (trees, last) ∧
      last.skip = Cursor.skip ⟨pos + (text ++ more).length, rest⟩ ∧
      ∃ front back, good front ∧ other back ∧ trees = front ++ back := by
  obtain ⟨front, next, here, stop, holds⟩ := one
  obtain ⟨back, last, there, finish, other⟩ := two (pos + text.length)
  refine ⟨front ++ back, last, read_seq_iff.2 ⟨front, next, back, here, stop ▸ there, rfl⟩, ?_,
    front, back, holds, other, rfl⟩
  rw [finish, List.length_append, Nat.add_assoc]

theorem Covers.seq_resumes (one : first.Covers text (more ++ rest) good)
    (two : second.Resumes more rest other) :
    (Phrase.seq first second).Covers (text ++ more) rest fun trees =>
      ∃ front back, good front ∧ other back ∧ trees = front ++ back := by
  intro pos
  rw [List.append_assoc]
  exact two.after (one pos)

theorem Resumes.seq (one : first.Resumes text (more ++ rest) good)
    (two : second.Resumes more rest other) :
    (Phrase.seq first second).Resumes (text ++ more) rest fun trees =>
      ∃ front back, good front ∧ other back ∧ trees = front ++ back := by
  intro pos
  rw [List.append_assoc]
  exact two.after (one pos)

/-- Blanks may stand between the parts of a sequence. -/
theorem Covers.seq (gap : List Char) (one : first.Covers text (gap ++ (more ++ rest)) good)
    (two : second.Covers more rest other) (spacing : ∀ c ∈ gap, isSpacing c = true)
    (solid : Solid (more ++ rest)) :
    (Phrase.seq first second).Covers (text ++ (gap ++ more)) rest fun trees =>
      ∃ front back, good front ∧ other back ∧ trees = front ++ back :=
  Covers.seq_resumes (by rwa [List.append_assoc]) (two.resumes gap spacing solid)

/-- The last part of a sequence may be missing. -/
theorem Covers.seq_misses (one : first.Covers text rest good)
    (two : second.Misses (afterBlanks rest)) : (Phrase.seq first second).Covers text rest good := by
  have one : first.Covers text ([] ++ rest) good := one
  have whole := one.seq_resumes two.resumes
  rw [List.append_nil] at whole
  refine whole.imp ?_
  rintro _ ⟨front, _, holds, rfl, rfl⟩
  rwa [List.append_nil]

/-- A sequence is refused where its second part is refused after the first. -/
theorem Covers.seq_refuses (one : first.Covers text rest good)
    (two : second.Refuses (afterBlanks rest)) :
    (Phrase.seq first second).Refuses (text ++ rest) := by
  intro pos
  cases found : (Phrase.seq first second).read ⟨pos, text ++ rest⟩ with
  | none => rfl
  | some result =>
      obtain ⟨front, next, back, here, there, -⟩ := read_seq_iff.1 found
      obtain ⟨trees, other, read, stop, -⟩ := one pos
      obtain ⟨rfl, rfl⟩ := Prod.mk.inj (Option.some.inj (read.symm.trans here))
      have place : other.skip = ⟨other.skip.pos, afterBlanks rest⟩ := by
        rw [← (⟨pos + text.length, rest⟩ : Cursor).skip_rest, ← stop]
      rw [place] at there
      exact nomatch (two _).symm.trans there

theorem Covers.alt_left (one : first.Covers text rest good) :
    (Phrase.alt first second).Covers text rest good := fun pos =>
  let ⟨trees, next, read, stop, holds⟩ := one pos
  ⟨trees, next, read_alt_iff.2 (.inl read), stop, holds⟩

theorem Covers.alt_right (refuses : first.Refuses (text ++ rest))
    (two : second.Covers text rest good) :
    (Phrase.alt first second).Covers text rest good := fun pos =>
  let ⟨trees, next, read, stop, holds⟩ := two pos
  ⟨trees, next, read_alt_iff.2 (.inr ⟨refuses pos, read⟩), stop, holds⟩

theorem Covers.opt (one : phrase.Covers text rest good) :
    (Phrase.opt phrase).Covers text rest good := fun pos =>
  let ⟨trees, next, read, stop, holds⟩ := one pos
  ⟨trees, next, read_opt_iff.2 (.inl read), stop, holds⟩

/-- What an optional part reads. -/
theorem opt_resumes {α : Type} {value : Option α} (gap : List Char) (write : α → List Char)
    (means : α → List ParseTree → Prop) (spacing : ∀ c ∈ gap, isSpacing c = true)
    (solid : ∀ v ∈ value, Solid (write v ++ rest))
    (covers : ∀ v ∈ value, phrase.Covers (write v) rest (means v))
    (refuses : value = none → phrase.Refuses (afterBlanks rest)) :
    (Phrase.opt phrase).Resumes ((value.map fun v => gap ++ write v).getD []) rest fun trees =>
      (value = none ∧ trees = []) ∨ ∃ v ∈ value, means v trees := by
  cases value with
  | none => exact (refuses rfl).opt.resumes.imp fun _ same => .inl ⟨rfl, same⟩
  | some v =>
      exact ((covers v rfl).opt.resumes gap spacing (solid v rfl)).imp fun _ holds =>
        .inr ⟨v, rfl, holds⟩

/-- The phrase reads one tree of the rule. -/
def One (rule : Rule) (good : ParseTree → Prop) (trees : List ParseTree) : Prop :=
  ∃ tree, trees = [tree] ∧ tree.rule = rule ∧ good tree

theorem Covers.ofRule (rule : Rule) {items : Phrase} (shape : rule.body = .phrase items)
    (covers : items.Covers text rest good) :
    (call rule).Covers text rest (One rule fun tree => good tree.children) := fun pos =>
  let ⟨children, next, read, stop, holds⟩ := covers pos
  ⟨_, next, (Rule.read_phrase_iff shape).2 ⟨children, read, rfl⟩, stop, _, rfl, rfl, holds⟩

theorem covers_token (rule : Rule) {scanner : Scanner} (shape : rule.body = .token scanner)
    (read : scanner (text ++ rest) = some rest) :
    (call rule).Covers text rest
      (One rule fun tree => tree.text = text ∧ tree.children = []) := by
  intro pos
  have passes : Cursor.Passes ⟨pos, text ++ rest⟩ text ⟨pos + text.length, rest⟩ := ⟨rfl, rfl⟩
  exact ⟨_, ⟨pos + text.length, rest⟩, (Rule.read_token_iff shape).2 ⟨text, passes, read, rfl⟩,
    rfl, _, rfl, rfl, passes.stretch_text, rfl⟩

/-- What is read are trees of the rules that the phrase calls. -/
theorem Covers.calls (covers : phrase.Covers text rest good)
    (progresses : phrase.progresses = true) :
    phrase.Covers text rest fun trees => good trees ∧ ∀ tree ∈ trees, tree.rule ∈ phrase.calls :=
  fun pos =>
    let ⟨trees, next, read, stop, holds⟩ := covers pos
    ⟨trees, next, read, stop, holds, (Phrase.chain progresses read).2⟩

/-! ## Lists -/

/-- Repetition, seen from before the blanks. -/
theorem exists_read_many (progresses : phrase.progresses = true) (least : 0 < phrase.least)
    {cursor last : Cursor} {trees : List ParseTree}
    (repeats : Repeats phrase.read cursor trees last) :
    ∃ stop, (many phrase).read cursor.skip = some (trees, stop) ∧ stop.skip = last.skip := by
  cases repeats with
  | stop none =>
      exact ⟨cursor.skip, (read_many_iff progresses least).2 (.inl ⟨none, rfl, rfl⟩),
        cursor.skip_skip⟩
  | step here rest =>
      exact ⟨last, (read_many_iff progresses least).2 (.inr ⟨_, _, _, here, rest, rfl⟩), rfl⟩

section Separated

variable {α : Type} {write : α → List Char} {means : α → ParseTree → Prop}
  {follows : List Char → Prop} {before sign after : List Char} {values : List α}

/-- Further items of a list are read up to the rest, where no sign follows. -/
theorem exists_repeats_separated
    (spacing : ∀ c ∈ before ++ after, isSpacing c = true) (solidSign : ∀ text, Solid (sign ++ text))
    (solid : ∀ value ∈ values, ∀ text, Solid (write value ++ text))
    (covers : ∀ value ∈ values, ∀ rest, follows rest →
      item.Covers (write value) rest fun trees => ∃ tree, trees = [tree] ∧ means value tree)
    (continues : ∀ text, follows (before ++ (sign ++ text))) (ends : follows rest)
    (stops : (mark sign).Refuses (afterBlanks rest)) {cursor : Cursor} {pos : Nat}
    (place : cursor.skip = Cursor.skip
      ⟨pos, (values.map write).flatMap (before ++ sign ++ after ++ ·) ++ rest⟩) :
    ∃ trees last, Repeats (Phrase.seq (mark sign) item).read cursor trees last ∧
      last.skip = Cursor.skip
        ⟨pos + ((values.map write).flatMap (before ++ sign ++ after ++ ·)).length, rest⟩ ∧
      List.Forall₂ means values trees := by
  induction values generalizing cursor pos with
  | nil =>
      have stop : (Phrase.seq (mark sign) item).read cursor.skip = none := by
        have here : cursor.skip = ⟨cursor.skip.pos, afterBlanks rest⟩ := by
          rw [← (⟨pos, rest⟩ : Cursor).skip_rest, place]
          rfl
        rw [here]
        exact stops.seq _
      exact ⟨[], cursor, .stop stop, place, .nil⟩
  | cons value values ih =>
      obtain ⟨solidHere, solidLater⟩ := List.forall_mem_cons.1 solid
      obtain ⟨here, later⟩ := List.forall_mem_cons.1 covers
      obtain ⟨spaceBefore, spaceAfter⟩ := List.forall_mem_append.1 spacing
      -- behind the first value stands the next sign or the end, and both may follow it
      have remaining : follows
          ((values.map write).flatMap (before ++ sign ++ after ++ ·) ++ rest) := by
        cases values with
        | nil => exact ends
        | cons => simpa using continues _
      have both := (covers_mark sign _).seq after (here _ remaining) spaceAfter (solidHere _)
      obtain ⟨trees, next, read, stop, front, back, rfl, ⟨tree, rfl, holds⟩, rfl⟩ :=
        both (pos + before.length)
      have whole : cursor.skip = ⟨pos + before.length, sign ++ (after ++ write value) ++
          ((values.map write).flatMap (before ++ sign ++ after ++ ·) ++ rest)⟩ := by
        rw [place, List.map_cons, List.flatMap_cons]
        simp only [List.append_assoc]
        rw [Cursor.skip_blanks spaceBefore, Cursor.skip_of_solid (solidSign _)]
      obtain ⟨trees, last, rest, finish, all⟩ := ih solidLater later stop
      refine ⟨tree :: trees, last, ?_, ?_, .cons holds all⟩
      · exact Repeats.step (whole ▸ read) rest
      · rw [finish, List.map_cons, List.flatMap_cons]
        congr 2
        simp only [List.length_append]
        omega

/-- Items with a sign between each two are read as they are written. -/
theorem covers_separated (item : Phrase) (write : α → List Char) (before sign after : List Char)
    (means : α → ParseTree → Prop) (follows : List Char → Prop)
    (progresses : item.progresses = true) (nonempty : values ≠ [])
    (least : 0 < sign.length) (spacing : ∀ c ∈ before ++ after, isSpacing c = true)
    (solidSign : ∀ text, Solid (sign ++ text))
    (solid : ∀ value ∈ values, ∀ text, Solid (write value ++ text))
    (covers : ∀ value ∈ values, ∀ rest, follows rest →
      item.Covers (write value) rest fun trees => ∃ tree, trees = [tree] ∧ means value tree)
    (continues : ∀ text, follows (before ++ (sign ++ text))) (ends : follows rest)
    (stops : (mark sign).Refuses (afterBlanks rest)) :
    (separated item sign).Covers (joined (before ++ sign ++ after) (values.map write)) rest
      (List.Forall₂ means values) := by
  obtain ⟨value, values, rfl⟩ := List.exists_cons_of_ne_nil nonempty
  intro pos
  obtain ⟨solidHere, solidLater⟩ := List.forall_mem_cons.1 solid
  obtain ⟨here, later⟩ := List.forall_mem_cons.1 covers
  have remaining : follows
      ((values.map write).flatMap (before ++ sign ++ after ++ ·) ++ rest) := by
    cases values with
    | nil => exact ends
    | cons => simpa using continues _
  obtain ⟨trees, next, read, stop, tree, rfl, holds⟩ := here _ remaining pos
  obtain ⟨trees, last, repeats, finish, all⟩ := exists_repeats_separated spacing
    solidSign solidLater later continues ends stops stop
  obtain ⟨final, found, same⟩ := exists_read_many
    (by simp [Phrase.progresses, progresses]) (by simp only [Phrase.least]; omega) repeats
  refine ⟨tree :: trees, final, ?_, ?_, .cons holds all⟩
  · rw [List.map_cons, joined_cons, List.append_assoc]
    exact read_seq_iff.2 ⟨[tree], next, trees, read, found, rfl⟩
  · rw [same, finish, List.map_cons, joined_cons, List.length_append, Nat.add_assoc]

end Separated

end Phrase

end Signet.Grammar

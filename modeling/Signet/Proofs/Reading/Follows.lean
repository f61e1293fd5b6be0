import Signet.Proofs.Grammar.Alternatives
import Signet.Proofs.Reading.Parameters
import Signet.Proofs.Reading.Parts

/-!
# Types in front of a rest

Whether a type is read up to its end depends on what follows: no name may go on, and no mark may
come that continues a type (`Follows`). The looser a rule, the more marks continue it. A type is
legible in a scope if each of the rules that may read its text reads it, in front of whatever may
follow (`Ty.Legible`).
-/

namespace Signet

open Text Grammar Phrase

variable {scope : List String} {text rest : List Char} {marks more : List Char} {type : Ty}

/-! ## What may follow -/

/-- No name goes on in the rest, and it does not continue with one of the marks. -/
structure Follows (marks rest : List Char) : Prop where
  ends : Ends rest
  marks : ∀ c ∈ (afterBlanks rest).head?, c ∉ marks

namespace Follows

theorem mono (follows : Follows marks rest) (subset : ∀ c ∈ more, c ∈ marks) : Follows more rest :=
  ⟨follows.ends, fun c head member => follows.marks c head (subset c member)⟩

theorem refuses {c : Char} (follows : Follows marks rest) (member : c ∈ marks)
    (others : List Char) :
    (mark (c :: others)).Refuses (afterBlanks rest) :=
  refuses_mark fun head => follows.marks c head member

theorem nil : Follows marks [] := ⟨nofun, nofun⟩

theorem sign {c : Char} (solid : isSpacing c = false ∧ c ≠ '#')
    (ends : isIdentChar c = false ∧ c ≠ ':')
    (other : c ∉ marks) (text : List Char) : Follows marks (c :: text) := by
  refine ⟨fun d head => Option.some.inj head ▸ ends, fun d head => ?_⟩
  have : Solid (c :: text) := fun d head => Option.some.inj head ▸ solid
  rw [afterBlanks_of_solid this] at head
  exact Option.some.inj head ▸ other

theorem blank (solid : Solid text) (other : ∀ c ∈ text.head?, c ∉ marks) :
    Follows marks (' ' :: text) := by
  refine ⟨fun d head => Option.some.inj head ▸ by decide, fun c head => ?_⟩
  have : afterBlanks ([' '] ++ text) = text := by
    rw [afterBlanks_blanks (by decide), afterBlanks_of_solid solid]
  rw [← List.singleton_append, this] at head
  exact other c head

end Follows

/-- The marks that continue an optional type. -/
def singleMarks : List Char := ['[', '?']

/-- The marks that continue an intersection. -/
def memberMarks : List Char := ['[', '?', '&']

/-- The marks that continue a type. -/
def typeMarks : List Char := ['[', '?', '&', '|']

/-! ## What a type starts with -/

/-- The text starts as a type without literals does. -/
def StartsType (text : List Char) : Prop :=
  ∃ c rest, text = c :: rest ∧ (c ∈ ['(', '[', '^', ':'] ∨ c.isUpper = true ∨ isLowerStart c = true)

namespace StartsType

theorem append (starts : StartsType text) (rest : List Char) : StartsType (text ++ rest) := by
  obtain ⟨c, others, rfl, first⟩ := starts
  exact ⟨c, others ++ rest, rfl, first⟩

theorem of_ident {c : Char} (first : c.isUpper = true ∨ isLowerStart c = true) (rest : List Char) :
    StartsType (c :: rest) := ⟨c, rest, rfl, .inr first⟩

theorem head_ne (starts : StartsType text) {mark : Char} (other : mark ∉ ['(', '[', '^', ':'])
    (ident : isIdentChar mark = false) : text.head? ≠ some mark := by
  obtain ⟨c, rest, rfl, first⟩ := starts
  rintro same
  obtain rfl := Option.some.inj same
  rcases first with mark | upper | lower
  · exact other mark
  · exact nomatch (Char.isIdentChar_of_isUpper upper).symm.trans ident
  · exact nomatch (Char.isIdentChar_of_isLowerStart lower).symm.trans ident

theorem solid (starts : StartsType text) : Solid text := by
  have different := fun (mark : Char) (other : mark ∉ ['(', '[', '^', ':'])
    (ident : isIdentChar mark = false) => starts.head_ne other ident
  intro c head
  refine ⟨Bool.eq_false_iff.2 fun spacing => ?_, ?_⟩
  · simp only [isSpacing, Bool.or_eq_true, decide_eq_true_eq] at spacing
    rcases spacing with ((rfl | rfl) | rfl) | rfl
    all_goals exact different _ (by decide) (by decide) head
  · rintro rfl
    exact different _ (by decide) (by decide) head

end StartsType

/-! ## Legible types -/

/-- The trees are one tree of the rule, which means the type. -/
abbrev Means (scope : List String) (rule : Rule) (type : Ty) : List ParseTree → Prop :=
  One rule fun tree => readTypeTree scope tree = .ok type

/-- A type with as many optional marks. -/
def Ty.optionals : Nat → Ty → Ty
  | 0, type => type
  | count + 1, type => optionals count ⟨.optional type⟩

theorem markOptional_eq (type : Ty) (trees : List ParseTree) :
    markOptional type trees = type.optionals trees.length := by
  induction trees generalizing type with
  | nil => rfl
  | cons tree trees ih => exact ih ⟨.optional type⟩

/-- The text of the type is read as the type by every rule that is loose enough for it; marks after
a closed type make it optional. -/
structure Ty.Legible (scope : List String) (type : Ty) : Prop where
  starts : StartsType type.print
  keyless : Keyless type.print
  marked : type.tightness = .closed → ∀ count rest, Follows singleMarks rest →
    (call .optionalType).Covers (type.print ++ List.replicate count '?') rest
      (Means scope .optionalType (type.optionals count))
  single : type.tightness.isLoose = false → ∀ rest, Follows singleMarks rest →
    (call .optionalType).Covers type.print rest (Means scope .optionalType type)
  member : type.tightness ≠ .union → ∀ rest, Follows memberMarks rest →
    (call .intersectionType).Covers type.print rest (Means scope .intersectionType type)
  whole : ∀ rest, Follows typeMarks rest →
    (call .typeExpr).Covers type.print rest (Means scope .typeExpr type)

end Signet

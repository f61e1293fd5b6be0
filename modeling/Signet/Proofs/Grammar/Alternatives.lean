import Signet.Proofs.Grammar.Covering
import Signet.Proofs.Grammar.Names

/-!
# Which alternative is taken

Choices are ordered, so that an alternative is read means that all before it were refused. What a
text starts with decides between the alternatives for a type, but for names: there the order
matters.
-/

namespace Signet.Grammar

open Text

namespace Phrase

variable {first rule : Rule} {others : List Rule} {text rest : List Char} {cursor next : Cursor}
  {trees : List ParseTree}

/-! ## Ordered choice -/

/-- A tree of a choice was read by its rule, and the rules before it failed. -/
theorem exists_read_oneOf (read : (oneOf first others).read cursor = some (trees, next)) :
    ∃ tree, trees = [tree] ∧ tree.rule ∈ first :: others ∧
      tree.rule.read cursor = some ([tree], next) ∧
      ∀ other ∈ (first :: others).takeWhile (· ≠ tree.rule), other.read cursor = none := by
  induction others generalizing first with
  | nil =>
      obtain ⟨tree, rfl, rfl⟩ := Rule.exists_tree read
      exact ⟨tree, rfl, List.mem_cons_self, read, by simp⟩
  | cons second others ih =>
      rcases read_alt_iff.1 read with here | ⟨refused, later⟩
      · obtain ⟨tree, rfl, rfl⟩ := Rule.exists_tree here
        exact ⟨tree, rfl, List.mem_cons_self, here, by simp⟩
      · obtain ⟨tree, rfl, member, inner, before⟩ := ih later
        refine ⟨tree, rfl, List.mem_cons_of_mem _ member, inner, fun other inFront => ?_⟩
        rw [List.takeWhile_cons] at inFront
        split at inFront
        · rcases List.mem_cons.1 inFront with rfl | inFront
          · exact refused
          · exact before other inFront
        · cases inFront

theorem covers_oneOf (rule : Rule) {good : List ParseTree → Prop} (member : rule ∈ first :: others)
    (earlier : ∀ other ∈ (first :: others).takeWhile (· ≠ rule),
      (call other).Refuses (text ++ rest))
    (covers : (call rule).Covers text rest good) : (oneOf first others).Covers text rest good := by
  induction others generalizing first with
  | nil =>
      obtain rfl := List.mem_singleton.1 member
      exact covers
  | cons second others ih =>
      by_cases same : first = rule
      · subst same
        exact covers.alt_left
      · rw [List.takeWhile_cons_of_pos (by simpa using same)] at earlier
        obtain ⟨here, later⟩ := List.forall_mem_cons.1 earlier
        refine .alt_right here (ih ?_ later)
        exact (List.mem_cons.1 member).resolve_left (Ne.symm same)

theorem refuses_oneOf (all : ∀ rule ∈ first :: others, (call rule).Refuses text) :
    (oneOf first others).Refuses text := by
  induction others generalizing first with
  | nil => exact all first List.mem_cons_self
  | cons second others ih =>
      obtain ⟨here, later⟩ := List.forall_mem_cons.1 all
      exact here.alt (ih later)

/-! ## What a type starts with -/

/-- The rules for a type without optional mark, in the order in which they are tried. -/
abbrev primaryRules : List Rule :=
  [.parenType, .tupleType, .procType, .symbolLiteral, .stringLiteral, .integerLiteral,
    .booleanLiteral, .baseType, .interfaceType, .classType, .aliasType]

theorem parenType_refuses (head : text.head? ≠ some '(') : (call .parenType).Refuses text :=
  .ofRule rfl (.seq (refuses_mark head))

theorem tupleType_refuses (head : text.head? ≠ some '[') : (call .tupleType).Refuses text :=
  .ofRule rfl (.seq (refuses_mark head))

theorem procType_refuses (head : text.head? ≠ some '^') : (call .procType).Refuses text :=
  .ofRule rfl (.seq (refuses_mark head))

theorem stringLiteral_refuses (head : ∀ c ∈ text.head?, c ≠ '"' ∧ c ≠ '\'') :
    (call .stringLiteral).Refuses text := by
  refine .token rfl ?_
  cases text with
  | nil => rfl
  | cons c text =>
      obtain ⟨double, single⟩ := head c rfl
      simp [Scanner.stringLiteral, Scanner.orElse, Scanner.between, double, single]

theorem integerLiteral_refuses (head : ∀ c ∈ text.head?, c ≠ '-' ∧ c.isDigit = false) :
    (call .integerLiteral).Refuses text := by
  refine .token rfl ?_
  cases text with
  | nil => rfl
  | cons c text =>
      obtain ⟨minus, digit⟩ := head c rfl
      have none : Scanner.word ['-'] (c :: text) = none := by
        simp [Scanner.word, List.isPrefixOf, Ne.symm minus]
      simp [Scanner.integerLiteral, Scanner.andThen, Scanner.maybe, none, Scanner.one, digit]

theorem symbolLiteral_refuses (head : text.head? ≠ some ':' ∨ text.tail.head? = some ':') :
    (call .symbolLiteral).Refuses text := by
  refine .token rfl ?_
  cases text with
  | nil => rfl
  | cons c text =>
      by_cases colon : c = ':'
      · subst colon
        rcases head with other | second
        · exact (other rfl).elim
        · cases text with
          | nil => rfl
          | cons d text =>
              obtain rfl := Option.some.inj second
              rfl
      · have none : Scanner.word [':'] (c :: text) = none := by
          simp [Scanner.word, List.isPrefixOf, Ne.symm colon]
        simp [Scanner.symbolLiteral, Scanner.andThen, none]

/-- The text starts as a name does. -/
def StartsName (text : List Char) : Prop :=
  (∃ c rest, text = c :: rest ∧ (c.isUpper = true ∨ isLowerStart c = true)) ∨
    ∃ rest, text = Namespace.separator ++ rest

theorem StartsName.append (starts : StartsName text) (rest : List Char) :
    StartsName (text ++ rest) := by
  rcases starts with ⟨c, word, rfl, first⟩ | ⟨word, rfl⟩
  · exact .inl ⟨c, word ++ rest, rfl, first⟩
  · exact .inr ⟨word ++ rest, rfl⟩

theorem Char.isDigit_of_starts {c : Char} (starts : c.isUpper = true ∨ isLowerStart c = true) :
    c.isDigit = false := by
  refine Bool.eq_false_iff.2 fun digit => ?_
  have low : c.val.toNat ≤ 57 := by
    simp only [Char.isDigit, Bool.and_eq_true, decide_eq_true_eq, UInt32.le_iff_toNat_le] at digit
    exact digit.2
  rcases starts with upper | lower
  · have := (Char.isUpper_iff_bounds.1 upper).1
    omega
  · rw [isLowerStart, Bool.or_eq_true] at lower
    rcases lower with lower | bar
    · have := (Char.isLower_iff_bounds.1 lower).1
      omega
    · obtain rfl : c = '_' := by simpa using bar
      exact absurd low (by decide)

/-- At the start of a name only names, base types and truth values can be read. -/
theorem refuses_of_startsName (starts : StartsName text) : ∀ rule ∈
    [Rule.parenType, .tupleType, .procType, .symbolLiteral, .stringLiteral, .integerLiteral],
      (call rule).Refuses text := by
  -- a name begins with a letter or with `::`: with no mark, no digit and no single `:`
  have unmarked : ∀ mark : Char, isIdentChar mark = false → mark ≠ ':' →
      text.head? ≠ some mark := by
    rintro mark other colon same
    rcases starts with ⟨c, rest, rfl, first⟩ | ⟨rest, rfl⟩
    · obtain rfl := Option.some.inj same
      have ident := first.elim Char.isIdentChar_of_isUpper Char.isIdentChar_of_isLowerStart
      exact nomatch ident.symm.trans other
    · exact colon (Option.some.inj same).symm
  have digit : ∀ c ∈ text.head?, c.isDigit = false := by
    rintro c member
    rcases starts with ⟨d, rest, rfl, first⟩ | ⟨rest, rfl⟩
    · obtain rfl := Option.some.inj member
      exact Char.isDigit_of_starts first
    · obtain rfl := Option.some.inj member
      decide
  have symbol : text.head? ≠ some ':' ∨ text.tail.head? = some ':' := by
    rcases starts with ⟨c, rest, rfl, first⟩ | ⟨rest, rfl⟩
    · refine .inl fun same => ?_
      obtain rfl := Option.some.inj same
      exact absurd first (by decide)
    · exact .inr rfl
  simp only [List.forall_mem_cons]
  refine ⟨parenType_refuses (unmarked _ (by decide) (by decide)),
    tupleType_refuses (unmarked _ (by decide) (by decide)),
    procType_refuses (unmarked _ (by decide) (by decide)), symbolLiteral_refuses symbol,
    stringLiteral_refuses fun c member => ⟨?_, ?_⟩,
    integerLiteral_refuses fun c member => ⟨?_, digit c member⟩, nofun⟩
  · rintro rfl
    exact unmarked _ (by decide) (by decide) member
  · rintro rfl
    exact unmarked _ (by decide) (by decide) member
  · rintro rfl
    exact unmarked _ (by decide) (by decide) member

/-! ## What no type starts with -/

theorem typeExpr_refuses_of_primary (refuses : primaryType.Refuses text) :
    (call .typeExpr).Refuses text :=
  .ofRule rfl (.ofRule rfl (.seq (.ofRule rfl (.seq (.ofRule rfl (.seq refuses))))))

/-- A bracket that closes is not the start of a type. -/
theorem typeExpr_refuses_closing {c : Char} (closing : c = ')' ∨ c = ']') (rest : List Char) :
    (call .typeExpr).Refuses (c :: rest) := by
  have ends : ∀ x ∈ (c :: rest).head?, isIdentChar x = false := by
    rintro x member
    obtain rfl := Option.some.inj member
    rcases closing with rfl | rfl <;> decide
  have boolean : Scanner.booleanLiteral (c :: rest) = none := wholeWord_eq_none (by decide) ends
  have base : Scanner.baseType (c :: rest) = none := wholeWord_eq_none (by decide) ends
  have keyword : Scanner.wholeWord Scanner.reservedWords (c :: rest) = none :=
    wholeWord_eq_none (by decide) ends
  have var : Scanner.varName (c :: rest) = none := by
    rw [Scanner.varName, keyword]
    rcases closing with rfl | rfl <;> rfl
  have qualifier : Scanner.qualifier (c :: rest) = some (c :: rest) := by
    rcases closing with rfl | rfl <;> rfl
  have alias_ : Scanner.aliasName (c :: rest) = none := by
    rw [Scanner.aliasName, Scanner.andThen, qualifier]
    exact var
  refine typeExpr_refuses_of_primary (refuses_oneOf ?_)
  simp only [List.forall_mem_cons]
  refine ⟨parenType_refuses ?_, tupleType_refuses ?_, procType_refuses ?_, .token rfl ?_,
    .token rfl ?_, .token rfl ?_, .token rfl boolean, .token rfl base,
    .ofRule rfl (.seq (.token rfl ?_)), .ofRule rfl (.seq (.token rfl ?_)),
    .ofRule rfl (.seq (.token rfl alias_)), List.forall_mem_nil _⟩
  all_goals rcases closing with rfl | rfl
  all_goals first | rfl | simp

/-- A closing parenthesis is not the start of a parameter. -/
theorem param_refuses_closing (rest : List Char) : param.Refuses (')' :: rest) := by
  have type := typeExpr_refuses_closing (c := ')') (.inl rfl) rest
  have solid : Solid (')' :: rest) := fun c member => Option.some.inj member ▸ by decide
  have noMark : (call .optionalMark).Refuses (')' :: rest) := .ofRule rfl (refuses_mark nofun)
  refine refuses_oneOf ?_
  simp only [List.forall_mem_cons]
  refine ⟨.ofRule rfl (.seq (refuses_mark nofun)), .ofRule rfl (.seq (refuses_mark nofun)),
    .ofRule rfl (noMark.opt.seq solid (.seq (.token rfl rfl))),
    .ofRule rfl (.seq (refuses_mark nofun)), .ofRule rfl (.seq type), nofun⟩

/-- What is read where a closing parenthesis is refused starts with something else. -/
theorem exists_start {phrase : Phrase} (progresses : phrase.progresses = true)
    (least : 0 < phrase.least) (refuses : ∀ rest, phrase.Refuses (')' :: rest))
    (read : phrase.read cursor = some (trees, next)) :
    ∃ c rest, cursor.rest = c :: rest ∧ c ≠ ')' := by
  obtain ⟨pos, text⟩ := cursor
  cases text with
  | nil =>
      have := (phrase.moves progresses read).length_le
      simp only [List.length_nil] at this
      omega
  | cons c rest =>
      refine ⟨c, rest, rfl, ?_⟩
      rintro rfl
      exact nomatch (refuses rest pos).symm.trans read

end Phrase

end Signet.Grammar

import Signet.Proofs.Reading.Printing
import Signet.Proofs.Reading.Recital
import Signet.Proofs.Reading.Types

/-!
# Types of literals

Literals are written in a syntax of their own, and not each of them can be printed in it: there are
no escapes in a string, and the mark of an optional type becomes part of a symbol without mark. A
type of literals is read again from its printed text exactly if neither happens in it
(`Ty.ofString_literary_iff`).

One direction shows that each level of the type is read as printed. For the other the literals that
the printed text says are compared with those of the type (`Ty.Literary.retraced`): up to the first
one that is printed in another way they agree, and there they do not.
-/

namespace Signet

open Text Grammar Phrase Scanner

variable {scope : List String} {text rest : List Char} {type : Ty} {types : List Ty}
  {literal : Literal}

/-! ## Faithful types -/

instance : DecidablePred Literal.Plain
  | .string text => inferInstanceAs (Decidable (∀ c ∈ text.toList, quoteChar c = [c]))
  | .symbol _ | .integer _ | .bool _ => isTrue trivial

instance : DecidablePred Literal.Sealed
  | .symbol name => inferInstanceAs (Decidable (IsMarked name.toList))
  | .string _ | .integer _ | .bool _ => isTrue trivial

/-- An optional mark after the type cannot become part of a symbol. -/
def Ty.Sealed : Ty → Prop
  | ⟨.literal value⟩ => value.Sealed
  | _ => True

instance : DecidablePred Ty.Sealed
  | ⟨.literal value⟩ => inferInstanceAs (Decidable value.Sealed)
  | ⟨.base _⟩ | ⟨.var _⟩ | ⟨.named _ _ _⟩ | ⟨.optional _⟩ | ⟨.union _⟩ | ⟨.intersection _⟩
  | ⟨.tuple _⟩ | ⟨.proc _ _⟩ => isTrue trivial

/-- Strings need no escapes, and symbols that are optional have a mark of their own. -/
def Layer.Faithful : Layer Ty → Prop
  | .literal value => value.Plain
  | .optional type => type.Sealed
  | _ => True

instance : DecidablePred Layer.Faithful
  | .literal value => inferInstanceAs (Decidable value.Plain)
  | .optional type => inferInstanceAs (Decidable type.Sealed)
  | .base _ | .var _ | .named _ _ _ | .union _ | .intersection _ | .tuple _ | .proc _ _ =>
    isTrue trivial

/-! ## The literals of the printed text -/

namespace Ty

/-- The type does not go on in the rest. -/
structure Stops (type : Ty) (rest : List Char) : Prop where
  ends : ∀ c ∈ rest.head?, isIdentChar c = false
  marks : (∀ c ∈ rest.head?, isNameMark c = false) ∨ type.tightness = .closed ∧ type.Sealed

theorem stops_cons {c : Char} (ident : isIdentChar c = false) (mark : isNameMark c = false)
    (type : Ty) (rest : List Char) : type.Stops (c :: rest) :=
  ⟨fun _ head => Option.some.inj head ▸ ident, .inl fun _ head => Option.some.inj head ▸ mark⟩

/-- If the printed text says the literals of the type first, they are printed faithfully, and what
follows the type says the rest. -/
def Retraced (type : Ty) : Prop :=
  ∀ ⦃rest⦄, type.Stops rest → type.literals <+: recital (type.print ++ rest) →
    type.Everywhere Layer.Faithful ∧
      recital (type.print ++ rest) = type.literals ++ recital rest

theorem retraced_literal (literal : Literal) : Retraced ⟨.literal literal⟩ := by
  intro rest stops front
  have front : [literal] <+: recital (print ⟨.literal literal⟩ ++ rest) := front
  suffices plain : literal.Plain by
    have written := written_of_mem_recital (front.subset (List.mem_singleton.2 rfl))
    have ends : literal.Stops rest := ⟨stops.ends, fun open_ => stops.marks.resolve_right
      fun closed => open_ closed.2⟩
    exact ⟨everywhere_mk.2 ⟨plain, nofun⟩, recital_front (written.front? plain ends)⟩
  cases literal with
  | symbol _ | integer _ | bool _ => trivial
  | string text =>
      -- the string that is read goes up to the next quote, which may be one in the text
      obtain ⟨inner, after, whole, outside⟩ := List.eq_append_cons_of_mem
        (show '"' ∈ text.toList.flatMap quoteChar ++ '"' :: rest by simp)
      have start : print ⟨.literal (.string text)⟩ ++ rest = '"' :: (inner ++ '"' :: after) := by
        show quote text.toList ++ rest = _
        rw [← whole]
        simp [quote]
      rw [start, recital_front (Literal.front?_quoted outside), List.cons_prefix_cons] at front
      obtain rfl : text = String.ofList inner := Literal.string.inj front.1
      rw [String.toList_ofList] at whole
      show ∀ c ∈ (String.ofList inner).toList, quoteChar c = [c]
      rw [String.toList_ofList]
      exact quoteChar_eq_of_append whole

/-- Retraced types with blanks and signs between them are retraced one after the other. -/
theorem retraced_flatMap {between : List Char}
    (unsaid : ∀ text, recital (between ++ text) = recital text)
    (stops : ∀ (type : Ty) text, type.Stops (between ++ text))
    (retraced : ∀ type ∈ types, type.Retraced) (ends : ∀ type : Ty, type.Stops rest)
    (front : types.flatMap literals <+:
      recital ((types.map print).flatMap (between ++ ·) ++ rest)) :
    (∀ type ∈ types, type.Everywhere Layer.Faithful) ∧
      recital ((types.map print).flatMap (between ++ ·) ++ rest) =
        types.flatMap literals ++ recital rest := by
  induction types with
  | nil => exact ⟨List.forall_mem_nil _, rfl⟩
  | cons type types ih =>
      obtain ⟨here, later⟩ := List.forall_mem_cons.1 retraced
      rw [List.map_cons, List.flatMap_cons, List.flatMap_cons, List.append_assoc, List.append_assoc,
        unsaid] at front ⊢
      have stop : type.Stops ((types.map print).flatMap (between ++ ·) ++ rest) := by
        cases types with
        | nil => exact ends type
        | cons other types => simpa using stops type _
      obtain ⟨faithful, first⟩ := here stop ((List.prefix_append _ _).trans front)
      rw [first, List.prefix_append_right_inj] at front
      obtain ⟨others, after⟩ := ih later front
      exact ⟨List.forall_mem_cons.2 ⟨faithful, others⟩, by rw [first, after, List.append_assoc]⟩

/-- Retraced types with blanks and signs between them are retraced one after the other. -/
theorem retraced_joined {between : List Char}
    (unsaid : ∀ text, recital (between ++ text) = recital text)
    (stops : ∀ (type : Ty) text, type.Stops (between ++ text))
    (retraced : ∀ type ∈ types, type.Retraced) (ends : ∀ type : Ty, type.Stops rest)
    (front : types.flatMap literals <+: recital (joined between (types.map print) ++ rest)) :
    (∀ type ∈ types, type.Everywhere Layer.Faithful) ∧
      recital (joined between (types.map print) ++ rest) =
        types.flatMap literals ++ recital rest := by
  cases types with
  | nil => exact ⟨List.forall_mem_nil _, rfl⟩
  | cons type types =>
      -- a sign before the first type changes nothing
      have same : recital (joined between ((type :: types).map print) ++ rest) =
          recital (((type :: types).map print).flatMap (between ++ ·) ++ rest) := by
        rw [List.map_cons, joined_cons, List.flatMap_cons, List.append_assoc, List.append_assoc,
          List.append_assoc, unsaid]
      rw [same] at front ⊢
      exact retraced_flatMap unsaid stops retraced ends front

theorem retraced_tuple (retraced : ∀ type ∈ types, type.Retraced) : Retraced ⟨.tuple types⟩ := by
  intro rest stops front
  have opened : recital (print ⟨.tuple types⟩ ++ rest) =
      recital (joined comma (types.map print) ++ ']' :: rest) := by
    rw [print_tuple, List.append_assoc, List.append_assoc]
    exact recital_sign (by decide) _
  have unsaid : ∀ text, recital (comma ++ text) = recital text := fun text => by
    rw [comma, List.cons_append, recital_sign (by decide), recital_blanks (by decide)]
  rw [opened, literals_mk] at front
  rw [opened, literals_mk]
  obtain ⟨faithful, whole⟩ := retraced_joined unsaid
    (fun type text => stops_cons (by decide) (by decide) type _) retraced
    (fun type => stops_cons (by decide) (by decide) type _) front
  rw [recital_sign (by decide)] at whole
  exact ⟨everywhere_mk.2 ⟨trivial, faithful⟩, whole⟩

theorem retraced_union (retraced : ∀ type ∈ types, type.Retraced) : Retraced ⟨.union types⟩ := by
  intro rest stops front
  have ends : ∀ type : Ty, type.Stops rest := fun type =>
    ⟨stops.ends, .inl (stops.marks.resolve_right fun closed => nomatch closed.1)⟩
  have unsaid : ∀ text, recital ([' ', '|', ' '] ++ text) = recital text := fun text => by
    have bar : recital ([' '] ++ '|' :: ([' '] ++ text)) = recital text := by
      rw [recital_blanks (by decide), recital_sign (by decide), recital_blanks (by decide)]
    exact bar
  rw [print_union, literals_mk] at front
  rw [print_union, literals_mk]
  obtain ⟨faithful, whole⟩ := retraced_joined unsaid
    (fun type text => stops_cons (by decide) (by decide) type _) retraced ends front
  exact ⟨everywhere_mk.2 ⟨trivial, faithful⟩, whole⟩

theorem sealed_of_loose (loose : type.tightness ≠ .closed) : type.Sealed := by
  obtain ⟨layer⟩ := type
  cases layer with
  | literal value => exact (loose rfl).elim
  | _ => trivial

/-- A symbol without mark is not said by its text if an optional mark follows. -/
theorem sealed_of_prefix (ends : ∀ c ∈ rest.head?, isIdentChar c = false)
    (front : type.literals <+: recital (type.print ++ '?' :: rest)) : type.Sealed := by
  obtain ⟨layer⟩ := type
  cases layer with
  | literal value =>
      cases value with
      | symbol name =>
          by_contra unmarked
          have symbol : IsSymbol name.toList :=
            written_of_mem_recital (front.subset (List.mem_singleton.2 rfl))
          have found : Literal.front? (print ⟨.literal (.symbol name)⟩ ++ '?' :: rest) = _ :=
            Literal.front?_marked symbol unmarked ends
          rw [recital_front found] at front
          have same := Literal.symbol.inj (List.cons_prefix_cons.1 front).1
          have longer := congrArg String.length same
          simp at longer
      | _ => trivial
  | _ => trivial

theorem retraced_optional (retraced : type.Retraced) : Retraced ⟨.optional type⟩ := by
  intro rest stops front
  -- what is needed is about the type in front of the mark
  suffices inside : type.Sealed ∧ type.Everywhere Layer.Faithful ∧
      recital (print ⟨.optional type⟩ ++ rest) = type.literals ++ recital rest by
    rw [literals_optional]
    exact ⟨everywhere_mk.2 ⟨inside.1, List.forall_mem_singleton.2 inside.2.1⟩, inside.2.2⟩
  rw [literals_optional, print_optional, inOptional_eq] at front
  rw [print_optional, inOptional_eq]
  split at front <;> rename_i tight
  · rw [List.append_assoc, List.singleton_append] at front
    rw [if_pos tight, List.append_assoc, List.singleton_append]
    -- without parentheses the mark could become part of a symbol
    have sealed := sealed_of_prefix stops.ends front
    have mark : ∀ c ∈ ('?' :: rest).head?, isIdentChar c = false := fun _ head =>
      Option.some.inj head ▸ by decide
    obtain ⟨faithful, whole⟩ := retraced ⟨mark, .inr ⟨tight, sealed⟩⟩ front
    rw [recital_sign (by decide)] at whole
    exact ⟨sealed, faithful, whole⟩
  · have opened : recital (['('] ++ type.print ++ [')'] ++ ['?'] ++ rest) =
        recital (type.print ++ ')' :: '?' :: rest) := by
      simp only [List.append_assoc, List.singleton_append]
      exact recital_sign (by decide) _
    rw [opened] at front
    rw [if_neg tight, opened]
    obtain ⟨faithful, whole⟩ := retraced (stops_cons (by decide) (by decide) type _) front
    rw [recital_sign (by decide), recital_sign (by decide)] at whole
    exact ⟨sealed_of_loose tight, faithful, whole⟩

/-- Types of literals are retraced. -/
theorem Literary.retraced (literary : type.Literary) : type.Retraced := by
  induction literary with
  | @mk layer here parts ih =>
      cases layer with
      | literal value => exact retraced_literal value
      | optional type =>
          exact retraced_optional (ih type (List.mem_singleton.2 rfl))
      | tuple types => exact retraced_tuple ih
      | union types => exact retraced_union ih
      | base _ | var _ | named _ _ _ | intersection _ | proc _ _ => exact here.elim

end Ty

/-! ## Faithful types are read again -/

/-- A mark of a symbol does not follow if such marks are excluded. -/
theorem Follows.unmarked {marks : List Char} (follows : Follows ('!' :: '=' :: marks) rest)
    (question : '?' ∈ marks) : ∀ c ∈ rest.head?, isNameMark c = false := by
  intro c head
  refine Bool.eq_false_iff.2 fun mark => ?_
  obtain ⟨others, rfl⟩ : ∃ others, rest = c :: others := List.head?_eq_some_iff.1 head
  have solid : isSpacing c = false ∧ c ≠ '#' ∧ c ∈ '!' :: '=' :: marks := by
    simp only [isNameMark, Bool.or_eq_true, decide_eq_true_eq] at mark
    rcases mark with (rfl | rfl) | rfl
    · exact ⟨by decide, by decide, by simp [question]⟩
    · exact ⟨by decide, by decide, by simp⟩
    · exact ⟨by decide, by decide, by simp⟩
  refine follows.marks c ?_ solid.2.2
  rw [afterBlanks_of_solid (solid_cons ⟨solid.1, solid.2.1⟩ others)]
  rfl

/-- A literal is read where it does not go on. -/
theorem covers_literal (written : literal.Written) (plain : literal.Plain)
    (stops : literal.Stops rest) :
    primaryType.Covers literal.print rest (MeansOne scope ⟨.literal literal⟩) := by
  have scanned := written.scan plain stops
  obtain ⟨c, others, same, start⟩ := LiteralKind.exists_start scanned
  refine covers_oneOf literal.kind.rule (by cases literal.kind <;> decide) ?_
    ((covers_token _ literal.kind.body_rule scanned).imp ?_)
  · rw [same]
    exact LiteralKind.refuses_of_start start
  · rintro _ ⟨tree, rfl, rule, text, children⟩
    exact ⟨tree, rfl, (literal.kind.readTypeTree_eq_ok_iff rule children).2
      ⟨literal, text ▸ written.literal?_print plain, rfl⟩⟩

namespace Ty

/-- The text of the type is read as the type by every rule that is loose enough for it, where no
mark follows that a symbol may end with; a closed type may be followed by optional marks. -/
structure Retold (scope : List String) (type : Ty) : Prop where
  solid : ∀ text, Solid (type.print ++ text)
  marked : type.tightness = .closed → ∀ count rest, count = 0 ∨ type.Sealed →
    Follows ('!' :: '=' :: singleMarks) rest →
      (call .optionalType).Covers (type.print ++ List.replicate count '?') rest
        (Means scope .optionalType (type.optionals count))
  member : type.tightness ≠ .union →
    type.CoveredBy scope .intersectionType ('!' :: '=' :: memberMarks)
  whole : type.CoveredBy scope .typeExpr ('!' :: '=' :: typeMarks)

theorem retold_of_marked (solid : ∀ text, Solid (type.print ++ text))
    (marked : ∀ count rest, count = 0 ∨ type.Sealed →
      Follows ('!' :: '=' :: singleMarks) rest →
        (call .optionalType).Covers (type.print ++ List.replicate count '?') rest
          (Means scope .optionalType (type.optionals count))) : type.Retold scope := by
  have member : type.CoveredBy scope .intersectionType ('!' :: '=' :: memberMarks) := by
    intro rest follows
    have single := marked 0 rest (.inl rfl) (follows.mono (by decide))
    rw [List.replicate_zero, List.append_nil] at single
    exact covers_member_of_single (follows.mono (by decide)) single
  exact ⟨solid, fun _ => marked, fun _ => member, fun rest follows =>
    covers_typeExpr_of_member (follows.mono (by decide)) (member rest (follows.mono (by decide)))⟩

theorem retold_literal (written : literal.Written) (plain : literal.Plain) :
    Retold scope ⟨.literal literal⟩ := by
  refine retold_of_marked (fun text => ?_) fun count rest sealed follows => ?_
  · have found := written.front? plain (⟨nofun, fun _ => nofun⟩ : literal.Stops [])
    obtain ⟨c, others, same, -, solid⟩ := Literal.exists_start found
    rw [List.append_nil] at same
    show Solid (literal.print ++ text)
    rw [same]
    exact solid_cons solid _
  · refine covers_optionals count (follows.mono (by decide)) (covers_literal written plain ?_)
    cases count with
    | zero => exact ⟨follows.ends.ident, fun _ => follows.unmarked (by decide)⟩
    | succ count =>
        refine ⟨fun _ head => Option.some.inj head ▸ by decide, fun open_ => ?_⟩
        exact (open_ (sealed.resolve_left nofun)).elim

theorem retold_optional (retold : type.Retold scope) (sealed : type.Sealed) :
    Retold scope ⟨.optional type⟩ := by
  refine retold_of_marked (fun more => ?_) fun count rest _ follows => ?_
  · rw [print_optional, inOptional_eq]
    split
    · rw [List.append_assoc]
      exact retold.solid _
    · exact solid_cons (by decide) _
  · exact covers_optional count (follows.mono (by decide)) retold.solid
      (fun closed => retold.marked closed (count + 1) rest (.inr sealed) follows)
      (fun rest => retold.whole _ (.sign (by decide) (by decide) (by decide) rest))

theorem retold_tuple (retold : ∀ type ∈ types, type.Retold scope) :
    Retold scope ⟨.tuple types⟩ := by
  refine retold_of_marked (fun text => ?_) fun count rest _ follows => ?_
  · rw [print_tuple]
    exact solid_cons (by decide) _
  · exact covers_optionals count (follows.mono (by decide))
      (covers_tuple ('!' :: '=' :: typeMarks) (by decide) (by decide)
        (fun type member => (retold type member).solid)
        (fun type member => (retold type member).whole) _)

theorem retold_union (retold : ∀ type ∈ types, type.Retold scope) (many : 2 ≤ types.length)
    (flat : ∀ type ∈ types, type.tightness ≠ .union) : Retold scope ⟨.union types⟩ where
  solid := by
    intro text
    obtain ⟨type, types, rfl⟩ := List.exists_cons_of_ne_nil (ne_nil_of_length many)
    rw [print_union, List.map_cons, joined_cons, List.append_assoc]
    exact (retold type List.mem_cons_self).solid _
  marked := nofun
  member := fun loose => (loose rfl).elim
  whole := fun rest follows => covers_union ('!' :: '=' :: memberMarks) (by decide)
    (fun type member => (retold type member).solid)
    (fun type member => (retold type member).member (flat type member)) many
    (follows.mono (by decide))

/-- A faithful type of literals is read again from its text. -/
theorem Literary.retold (literary : type.Literary)
    (readable : type.Everywhere (Layer.Readable scope))
    (written : ∀ literal ∈ type.literals, literal.Written)
    (faithful : type.Everywhere Layer.Faithful) : type.Retold scope := by
  induction literary with
  | @mk layer here parts ih =>
      obtain ⟨readableHere, readableParts⟩ := everywhere_mk.1 readable
      obtain ⟨faithfulHere, faithfulParts⟩ := everywhere_mk.1 faithful
      have inside : ∀ part ∈ layer.parts, part.Retold scope := fun part member =>
        ih part member (readableParts part member)
          (fun literal inner => written literal (mem_literals_mk member inner))
          (faithfulParts part member)
      cases layer with
      | literal value => exact retold_literal (written value (List.mem_singleton.2 rfl)) faithfulHere
      | optional type => exact retold_optional (inside type (List.mem_singleton.2 rfl)) faithfulHere
      | tuple types => exact retold_tuple inside
      | union types => exact retold_union inside readableHere here
      | base _ | var _ | named _ _ _ | intersection _ | proc _ _ => exact here.elim

/-- A text that is read as a type of literals says these literals. -/
theorem recital_of_readType {buffer : Buffer} (read : readType buffer buffer.all scope = .ok type)
    (literary : type.Literary) : recital buffer.content = type.literals := by
  obtain ⟨tree, next, found, ends, means⟩ := readType_all_eq_ok_iff.1 read
  obtain ⟨_, same, rule⟩ := Rule.exists_tree found
  obtain ⟨rfl, -⟩ := List.cons.inj same
  have said : Cursor.Recites ⟨0, buffer.content⟩ (tree.literals scope) next :=
    (tree.recited (by rw [rule]; decide) means literary (by rwa [rule])).after_skip
  rw [Cursor.Recites, recital_of_nil ends, List.append_nil, literals_of_means means] at said
  exact said

/-- A type of literals that was read is read again from its printed text exactly if it is
faithful. -/
theorem ofString_literary_iff {text : String} (read : ofString text = .ok type)
    (literary : type.Literary) :
    ofString (toString type) = .ok type ↔ type.Everywhere Layer.Faithful := by
  have content : (toString type).toList = type.print := String.toList_ofList
  constructor
  · intro again
    have said : recital (toString type).toList = type.literals := recital_of_readType again literary
    rw [content, ← List.append_nil type.print] at said
    have stops : type.Stops [] := ⟨nofun, .inl nofun⟩
    exact (literary.retraced stops (said ▸ List.prefix_rfl)).1
  · intro faithful
    have said : recital text.toList = type.literals := recital_of_readType read literary
    have retold : type.Retold [] := literary.retold (readable_of_readType read)
      (fun literal member => written_of_mem_recital (said ▸ member)) faithful
    refine readType_eq_ok_of_covers ?_ ?_
    · show (call .typeExpr).Covers (toString type).toList [] _
      rw [content]
      exact retold.whole [] .nil
    · show Solid (toString type).toList
      rw [content, ← List.append_nil type.print]
      exact retold.solid []

/-- Symbols with and without marks, a string in the other quotes, and a number with bars are read
again. -/
theorem ofString_literary_iff_nested : ∃ type,
    ofString "[:a?, ('x#' | -1_0 | true)?, (:b!)??]" = .ok type ∧ type.Literary ∧
      toString type = "[:a?, (\"x#\" | -10 | true)?, :b!??]" ∧
      ofString (toString type) = .ok type := by
  obtain ⟨type, read, literary, text, faithful⟩ : ∃ type,
      ofString "[:a?, ('x#' | -1_0 | true)?, (:b!)??]" = .ok type ∧ type.Literary ∧
        toString type = "[:a?, (\"x#\" | -10 | true)?, :b!??]" ∧
        type.Everywhere Layer.Faithful := by decide +kernel
  exact ⟨type, read, literary, text, (ofString_literary_iff read literary).2 faithful⟩

/-- A quote is printed with a backslash, and an optional symbol without the parentheses that keep
the mark out of it: neither type is read again. -/
theorem ofString_unfaithful :
    (∃ type, ofString "'\"'" = .ok type ∧ type.Literary ∧
      ofString (toString type) ≠ .ok type) ∧
    ∃ type, ofString "(:a)?" = .ok type ∧ type.Literary ∧ ofString (toString type) ≠ .ok type := by
  constructor
  · obtain ⟨type, read, literary, refused⟩ : ∃ type, ofString "'\"'" = .ok type ∧ type.Literary ∧
        (ofString (toString type)).toOption.isNone = true := by decide +kernel
    refine ⟨type, read, literary, fun again => ?_⟩
    rw [again] at refused
    cases refused
  · obtain ⟨type, read, literary, other, again, different⟩ : ∃ type, ofString "(:a)?" = .ok type ∧
        type.Literary ∧ ∃ other, ofString (toString type) = .ok other ∧
          other.literals ≠ type.literals := by decide +kernel
    refine ⟨type, read, literary, fun same => different ?_⟩
    rw [Except.ok.inj (again.symm.trans same)]

end Ty

end Signet

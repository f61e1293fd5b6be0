import Signet.Proofs.Reading.Follows

/-!
# What is printed is read

A readable type without literals, whose unions and intersections are not nested and whose functions
return neither, is legible (`Ty.legible`): what is printed for it is read as it.
-/

namespace Signet

open Text Grammar Phrase

variable {scope : List String} {text rest : List Char} {type : Ty}

/-! ## From one level to the next -/

theorem readTypeTrees_single {trees : List ParseTree} {rule : Rule}
    (inner : Means scope rule type trees) :
    readTypeTrees scope trees = .ok [type] := by
  obtain ⟨tree, rfl, -, means⟩ := inner
  exact readTypeTrees_eq_ok_iff.2 (.cons means .nil)

theorem covers_typeExpr {union : Ty}
    (covers : (call .unionType).Covers text rest (Means scope .unionType union)) :
    (call .typeExpr).Covers text rest (Means scope .typeExpr union) := by
  refine (Covers.ofRule .typeExpr rfl covers).imp ?_
  rintro _ ⟨tree, rfl, rule, child, children, -, means⟩
  exact ⟨tree, rfl, rule, (readTypeTree_typeExpr rule children).trans means⟩

/-- What is read as a member of unions is read as a type where no bar follows. -/
theorem covers_typeExpr_of_member (follows : Follows typeMarks rest)
    (covers : (call .intersectionType).Covers text rest (Means scope .intersectionType type)) :
    (call .typeExpr).Covers text rest (Means scope .typeExpr type) := by
  refine covers_typeExpr ((Covers.ofRule .unionType rfl (covers.seq_misses
    (Refuses.many (.seq (follows.refuses (c := '|') (by decide) []))))).imp ?_)
  rintro _ ⟨tree, rfl, rule, inner⟩
  refine ⟨tree, rfl, rule, ?_⟩
  show readTypeTree scope tree = _
  rw [readTypeTree_unionType rule, readTypeTrees_single inner]
  rfl

/-- What is read as a member of intersections is read as one where no ampersand follows. -/
theorem covers_member_of_single (follows : Follows memberMarks rest)
    (covers : (call .optionalType).Covers text rest (Means scope .optionalType type)) :
    (call .intersectionType).Covers text rest (Means scope .intersectionType type) := by
  refine (Covers.ofRule .intersectionType rfl (covers.seq_misses
    (Refuses.many (.seq (follows.refuses (c := '&') (by decide) []))))).imp ?_
  rintro _ ⟨tree, rfl, rule, inner⟩
  refine ⟨tree, rfl, rule, ?_⟩
  show readTypeTree scope tree = _
  rw [readTypeTree_intersectionType rule, readTypeTrees_single inner]
  rfl

/-! ## Optional marks -/

theorem covers_optionalMark (rest : List Char) :
    (call .optionalMark).Covers ['?'] rest (One .optionalMark fun _ => True) :=
  (Covers.ofRule .optionalMark rfl (covers_mark ['?'] rest)).imp fun _ ⟨tree, same, rule, _⟩ =>
    ⟨tree, same, rule, trivial⟩

/-- Marks are read up to where none follows. -/
theorem exists_repeats_marks (follows : Follows singleMarks rest) (count : Nat) {cursor : Cursor}
    {pos : Nat} (place : cursor.skip = Cursor.skip ⟨pos, List.replicate count '?' ++ rest⟩) :
    ∃ trees last, Repeats (call .optionalMark).read cursor trees last ∧
      last.skip = Cursor.skip ⟨pos + count, rest⟩ ∧ trees.length = count := by
  -- The induction is on how many marks are left; blanks are skipped before each of them.
  induction count generalizing cursor pos with
  | zero =>
      have refused : (call .optionalMark).Refuses (afterBlanks rest) :=
        .ofRule rfl (follows.refuses (c := '?') (by decide) [])
      have here : cursor.skip = ⟨cursor.skip.pos, afterBlanks rest⟩ := by
        rw [← (⟨pos, rest⟩ : Cursor).skip_rest, place]
        rfl
      refine ⟨[], cursor, .stop ?_, place, rfl⟩
      rw [here]
      exact refused _
  | succ count ih =>
      obtain ⟨trees, next, read, stop, tree, rfl, -⟩ :=
        covers_optionalMark (List.replicate count '?' ++ rest) pos
      have solid : Solid ('?' :: (List.replicate count '?' ++ rest)) := fun c head =>
        Option.some.inj head ▸ by decide
      rw [List.replicate_succ, List.cons_append, Cursor.skip_of_solid solid] at place
      obtain ⟨trees, last, repeats, finish, length⟩ := ih stop
      refine ⟨tree :: trees, last, .step (place ▸ read) repeats, ?_, by simp [length]⟩
      rw [finish, List.length_singleton]
      congr 2
      omega

/-- Marks after a type without marks are read. -/
theorem covers_marks {good : List ParseTree → Prop} (count : Nat)
    (follows : Follows singleMarks rest)
    (covers : primaryType.Covers text (List.replicate count '?' ++ rest) good) :
    (seq primaryType (Phrase.many (call .optionalMark))).Covers
      (text ++ List.replicate count '?') rest fun trees =>
        ∃ front marks, good front ∧ marks.length = count ∧ trees = front ++ marks := by
  intro pos
  obtain ⟨front, next, read, stop, holds⟩ := covers pos
  obtain ⟨marks, last, repeats, finish, length⟩ := exists_repeats_marks follows count stop
  obtain ⟨final, found, same⟩ := exists_read_many rfl (by decide) repeats
  refine ⟨front ++ marks, final, ?_, ?_, front, marks, holds, length, rfl⟩
  · rw [List.append_assoc]
    exact read_seq_iff.2 ⟨front, next, marks, read, found, rfl⟩
  · rw [same, finish, List.length_append, List.length_replicate, Nat.add_assoc]

/-- What is read as a type without marks is read as optional with them. -/
theorem covers_optionals (count : Nat) (follows : Follows singleMarks rest)
    (covers : primaryType.Covers text (List.replicate count '?' ++ rest) fun trees =>
      ∃ tree, trees = [tree] ∧ readTypeTree scope tree = .ok type) :
    (call .optionalType).Covers (text ++ List.replicate count '?') rest
      (Means scope .optionalType (type.optionals count)) := by
  refine (Covers.ofRule .optionalType rfl (covers_marks count follows covers)).imp ?_
  rintro _ ⟨tree, rfl, rule, front, marks, ⟨child, rfl, means⟩, rfl, children⟩
  refine ⟨tree, rfl, rule, ?_⟩
  show readTypeTree scope tree = _
  rw [readTypeTree_optionalType rule children, means, ← markOptional_eq]
  rfl

/-! ## Closed types -/

theorem follows_marks (follows : Follows singleMarks rest) (count : Nat) :
    Follows ['['] (List.replicate count '?' ++ rest) := by
  cases count with
  | zero => exact follows.mono (by decide)
  | succ count => exact .sign (by decide) (by decide) (by decide) _

/-- The tree means the type. -/
abbrev MeansOne (scope : List String) (type : Ty) (trees : List ParseTree) : Prop :=
  ∃ tree, trees = [tree] ∧ readTypeTree scope tree = .ok type

namespace Ty

theorem legible_of_member (starts : StartsType type.print) (keyless : Keyless type.print)
    (loose : type.tightness = .intersection) (member : ∀ rest, Follows memberMarks rest →
      (call .intersectionType).Covers type.print rest (Means scope .intersectionType type)) :
    type.Legible scope where
  starts := starts
  keyless := keyless
  marked := fun closed => absurd (loose.symm.trans closed) nofun
  single := by
    intro tight
    rw [loose] at tight
    cases tight
  member := fun _ => member
  whole := fun rest follows => covers_typeExpr_of_member follows
    (member rest (follows.mono (by decide)))

theorem legible_of_marked (starts : StartsType type.print) (keyless : Keyless type.print)
    (marked : ∀ count rest, Follows singleMarks rest →
      (call .optionalType).Covers (type.print ++ List.replicate count '?') rest
        (Means scope .optionalType (type.optionals count))) : type.Legible scope := by
  have single : ∀ rest, Follows singleMarks rest →
      (call .optionalType).Covers type.print rest (Means scope .optionalType type) := by
    intro rest follows
    have := marked 0 rest follows
    rwa [List.replicate_zero, List.append_nil] at this
  have member := fun rest (follows : Follows memberMarks rest) =>
    covers_member_of_single follows (single rest (follows.mono (by decide)))
  exact ⟨starts, keyless, fun _ => marked, fun _ => single, fun _ => member, fun rest follows =>
    covers_typeExpr_of_member follows (member rest (follows.mono (by decide)))⟩

/-- A type that is read in front of marks is legible. -/
theorem legible_of_primary (starts : StartsType type.print) (keyless : Keyless type.print)
    (primary : ∀ rest, Follows ['['] rest →
      primaryType.Covers type.print rest (MeansOne scope type)) : type.Legible scope :=
  legible_of_marked starts keyless fun count _ follows =>
    covers_optionals count follows (primary _ (follows_marks follows count))

theorem legible_of_proc (starts : StartsType type.print) (keyless : Keyless type.print)
    (proc : type.tightness = .proc) (primary : ∀ rest, Follows singleMarks rest →
      primaryType.Covers type.print rest (MeansOne scope type)) : type.Legible scope := by
  have single : ∀ rest, Follows singleMarks rest →
      (call .optionalType).Covers type.print rest (Means scope .optionalType type) := by
    intro rest follows
    have := covers_optionals 0 follows (primary rest follows)
    rwa [List.replicate_zero, List.append_nil] at this
  have member := fun rest (follows : Follows memberMarks rest) =>
    covers_member_of_single follows (single rest (follows.mono (by decide)))
  refine ⟨starts, keyless, fun closed => ?_, fun _ => single, fun _ => member, fun rest follows =>
    covers_typeExpr_of_member follows (member rest (follows.mono (by decide)))⟩
  rw [proc] at closed
  cases closed

end Ty

/-! ## Brackets -/

/-- A type in parentheses is read as the type. -/
theorem covers_parenthesized (solid : Solid (text ++ (')' :: rest)))
    (covers : (call .typeExpr).Covers text (')' :: rest) (Means scope .typeExpr type)) :
    primaryType.Covers (['('] ++ text ++ [')']) rest (MeansOne scope type) := by
  have close := covers_mark [')'] rest
  have inner := Covers.seq [] covers close nofun (solid_cons (by decide) rest)
  have items := (covers_mark ['('] ([] ++ (text ++ ([] ++ [')']) ++ rest))).seq [] inner nofun
    (by simpa using solid)
  rw [List.append_assoc]
  refine covers_oneOf .parenType List.mem_cons_self (by simp)
    ((Covers.ofRule .parenType rfl items).imp ?_)
  rintro _ ⟨tree, rfl, rule, _, _, rfl, ⟨_, _, ⟨child, rfl, -, means⟩, rfl, rfl⟩, children⟩
  exact ⟨tree, rfl, (readTypeTree_parenType rule children).trans means⟩

theorem Ty.Legible.covers_parenthesized (legible : type.Legible scope) (rest : List Char) :
    primaryType.Covers (['('] ++ type.print ++ [')']) rest (MeansOne scope type) :=
  Signet.covers_parenthesized (legible.starts.append _).solid
    (legible.whole _ (.sign (by decide) (by decide) (by decide) _))

/-! ## Optional types -/

namespace Ty

/-- An optional type is read with further marks if the type in it is, or the type in it in
parentheses. -/
theorem covers_optional (count : Nat) (follows : Follows singleMarks rest)
    (solid : ∀ text, Solid (type.print ++ text))
    (marked : type.tightness = .closed →
      (call .optionalType).Covers (type.print ++ List.replicate (count + 1) '?') rest
        (Means scope .optionalType (type.optionals (count + 1))))
    (whole : ∀ rest, (call .typeExpr).Covers type.print (')' :: rest) (Means scope .typeExpr type)) :
    (call .optionalType).Covers (print ⟨.optional type⟩ ++ List.replicate count '?') rest
      (Means scope .optionalType (optionals count ⟨.optional type⟩)) := by
  have marks : print ⟨.optional type⟩ ++ List.replicate count '?' =
      type.inOptional ++ List.replicate (count + 1) '?' := by
    rw [print_optional, List.append_assoc]
    rfl
  rw [marks, inOptional_eq]
  split
  · rename_i closed
    exact marked closed
  · exact covers_optionals (count + 1) follows (covers_parenthesized (solid _) (whole _))

theorem legible_optional (legible : type.Legible scope) : Legible scope ⟨.optional type⟩ := by
  have text : print ⟨.optional type⟩ = type.inOptional ++ ['?'] := print_optional type
  have starts : StartsType type.inOptional := by
    rw [inOptional_eq]
    split
    · exact legible.starts
    · exact ⟨'(', _, rfl, .inl (by decide)⟩
  have keyless : Keyless type.inOptional := by
    rw [inOptional_eq]
    split
    · exact legible.keyless
    · exact keyless_cons (by decide) (by decide) _
  refine legible_of_marked ?_ ?_ fun count rest follows => ?_
  · rw [text]
    exact starts.append _
  · rw [text]
    exact keyless.append fun rest c head => Option.some.inj head ▸ by decide
  · exact covers_optional count follows (fun text => (legible.starts.append text).solid)
      (fun closed => legible.marked closed (count + 1) rest follows)
      (fun rest => legible.whole _ (.sign (by decide) (by decide) (by decide) rest))

/-! ## Lists of types -/

variable {types : List Ty}

theorem readTypeTrees_of_means {rule : Rule} {trees : List ParseTree}
    (all : List.Forall₂ (fun type tree => tree.rule = rule ∧ readTypeTree scope tree = .ok type)
      types trees) : readTypeTrees scope trees = .ok types :=
  readTypeTrees_eq_ok_iff.2 (all.imp fun _ _ means => means.2).flip

/-- The text of the type is read as the type by a rule, where no mark follows that continues it. -/
abbrev CoveredBy (scope : List String) (rule : Rule) (marks : List Char) (type : Ty) : Prop :=
  ∀ rest, Follows marks rest → (call rule).Covers type.print rest (Means scope rule type)

/-- Types with commas between them are read in front of a bracket that closes. -/
theorem covers_types (marks : List Char) (between : ',' ∉ marks) (close : ']' ∉ marks)
    (solid : ∀ type ∈ types, ∀ text, Solid (type.print ++ text))
    (covers : ∀ type ∈ types, type.CoveredBy scope .typeExpr marks) (nonempty : types ≠ [])
    (rest : List Char) : (separated (call .typeExpr) [',']).Covers (joined comma (types.map print))
      (']' :: rest) fun trees => readTypeTrees scope trees = .ok types := by
  have follows : Follows marks (']' :: rest) := .sign (by decide) (by decide) close rest
  refine (covers_separated (call .typeExpr) print [] [','] [' ']
    (fun type tree => tree.rule = .typeExpr ∧ readTypeTree scope tree = .ok type)
    (Follows marks) rfl nonempty (by decide) (by decide) (fun text => solid_cons (by decide) text)
    solid covers (fun text => .sign (by decide) (by decide) between text) follows ?_).imp
    fun trees all => readTypeTrees_of_means all
  rw [afterBlanks_of_solid (solid_cons (by decide) rest)]
  exact refuses_mark nofun

theorem starts_joined {write : Ty → List Char} (between : List Char) (nonempty : types ≠ [])
    (starts : ∀ type ∈ types, StartsType (write type)) :
    StartsType (joined between (types.map write)) := by
  obtain ⟨type, types, rfl⟩ := List.exists_cons_of_ne_nil nonempty
  rw [List.map_cons, joined_cons]
  exact (starts type List.mem_cons_self).append _

theorem keyless_joined {write : Ty → List Char} (between : List Char) (nonempty : types ≠ [])
    (blank : ∃ text, between = ' ' :: text) (keyless : ∀ type ∈ types, Keyless (write type)) :
    Keyless (joined between (types.map write)) := by
  obtain ⟨type, types, rfl⟩ := List.exists_cons_of_ne_nil nonempty
  obtain ⟨text, rfl⟩ := blank
  intro rest ends
  rw [List.map_cons, joined_cons, List.append_assoc]
  refine keyless type List.mem_cons_self _ ?_
  cases types with
  | nil => exact ends
  | cons other types => exact fun c head => Option.some.inj head ▸ by decide

theorem ne_nil_of_length {types : List Ty} (many : 2 ≤ types.length) : types ≠ [] := by
  rintro rfl
  exact absurd many (by decide)

theorem combine_of_length {whole : List Ty → Layer Ty} (many : 2 ≤ types.length) :
    combine whole types = ⟨whole types⟩ := by
  match types with
  | [] => exact absurd many (by decide)
  | [_] => exact absurd many (Nat.not_succ_le_self 1)
  | _ :: _ :: _ => rfl

/-- A tuple is read if its types are. -/
theorem covers_tuple (marks : List Char) (between : ',' ∉ marks) (close : ']' ∉ marks)
    (solid : ∀ type ∈ types, ∀ text, Solid (type.print ++ text))
    (covers : ∀ type ∈ types, type.CoveredBy scope .typeExpr marks) (rest : List Char) :
    primaryType.Covers (print ⟨.tuple types⟩) rest (MeansOne scope ⟨.tuple types⟩) := by
  have bracket := covers_mark [']'] rest
  have items : (opt (separated (call .typeExpr) [','])).Covers (joined comma (types.map print))
      ([] ++ ([']'] ++ rest)) fun trees => readTypeTrees scope trees = .ok types := by
    -- An empty list is read as nothing, since no type begins with a bracket that closes.
    by_cases nonempty : types = []
    · subst nonempty
      have none : (separated (call .typeExpr) [',']).Refuses (']' :: rest) :=
        (typeExpr_refuses_closing (.inr rfl) rest).seq
      refine none.opt.covers.imp ?_
      rintro _ rfl
      rfl
    · exact (covers_types marks between close solid covers nonempty rest).opt
  have inside : Solid (joined comma (types.map print) ++ ([] ++ [']']) ++ rest) := by
    cases types with
    | nil => exact solid_cons (by decide) rest
    | cons type types =>
        rw [List.map_cons, joined_cons]
        simp only [List.append_assoc]
        exact solid type List.mem_cons_self _
  have inner := items.seq [] bracket nofun (solid_cons (by decide) rest)
  have all := (covers_mark ['['] _).seq [] inner nofun inside
  rw [print_tuple, List.append_assoc]
  refine covers_oneOf .tupleType (by simp) ?_ ((Covers.ofRule .tupleType rfl all).imp ?_)
  · intro other member
    obtain rfl : other = .parenType := by simpa using member
    exact parenType_refuses nofun
  · rintro _ ⟨tree, rfl, rule, _, _, rfl, ⟨trees, _, means, rfl, rfl⟩, children⟩
    refine ⟨tree, rfl, ?_⟩
    rw [readTypeTree_tupleType rule, children, List.nil_append, List.append_nil, means]
    rfl

theorem legible_tuple (legible : ∀ type ∈ types, type.Legible scope) :
    Legible scope ⟨.tuple types⟩ := by
  have text : print ⟨.tuple types⟩ = ['['] ++ joined comma (types.map print) ++ [']'] :=
    print_tuple types
  refine legible_of_primary ?_ ?_ fun rest _ => ?_
  · rw [text]
    exact ⟨'[', _, rfl, .inl (by decide)⟩
  · rw [text]
    exact keyless_cons (by decide) (by decide) _
  · exact covers_tuple typeMarks (by decide) (by decide)
      (fun type member text => ((legible type member).starts.append text).solid)
      (fun type member => (legible type member).whole) rest

/-! ## Unions and intersections -/

/-- A union is read if its members are, where no bar follows. -/
theorem covers_union (marks : List Char) (bar : '|' ∉ marks)
    (solid : ∀ type ∈ types, ∀ text, Solid (type.print ++ text))
    (covers : ∀ type ∈ types, type.CoveredBy scope .intersectionType marks)
    (many : 2 ≤ types.length) (follows : Follows ('|' :: marks) rest) :
    (call .typeExpr).Covers (print ⟨.union types⟩) rest (Means scope .typeExpr ⟨.union types⟩) := by
  have list := covers_separated (call .intersectionType) print [' '] ['|'] [' ']
    (fun type tree => tree.rule = .intersectionType ∧ readTypeTree scope tree = .ok type)
    (Follows marks) rfl (ne_nil_of_length many) (by decide) (by decide)
    (fun text => solid_cons (by decide) text) solid covers
    (fun text => .blank (solid_cons (by decide) _) (by simpa using bar))
    (follows.mono fun _ => List.mem_cons_of_mem _) (follows.refuses List.mem_cons_self [])
  rw [print_union]
  refine covers_typeExpr ((Covers.ofRule .unionType rfl list).imp ?_)
  rintro _ ⟨tree, rfl, rule, all⟩
  refine ⟨tree, rfl, rule, ?_⟩
  show readTypeTree scope tree = _
  rw [readTypeTree_unionType rule, readTypeTrees_of_means all, ← combine_of_length many]
  rfl

theorem legible_union (legible : ∀ type ∈ types, type.Legible scope) (many : 2 ≤ types.length)
    (flat : ∀ type ∈ types, type.tightness ≠ .union) : Legible scope ⟨.union types⟩ := by
  have nonempty := ne_nil_of_length many
  have text : print ⟨.union types⟩ = joined [' ', '|', ' '] (types.map print) := print_union types
  have starts := starts_joined [' ', '|', ' '] nonempty fun type member =>
    (legible type member).starts
  have keyless := keyless_joined [' ', '|', ' '] nonempty ⟨_, rfl⟩ fun type member =>
    (legible type member).keyless
  exact ⟨text ▸ starts, text ▸ keyless, nofun, nofun, fun loose => (loose rfl).elim,
    fun rest follows => covers_union memberMarks (by decide)
      (fun type member text => ((legible type member).starts.append text).solid)
      (fun type member => (legible type member).member (flat type member)) many
      (follows.mono (by decide))⟩

/-- A member of an intersection is read with the parentheses that are printed around it. -/
theorem Legible.covers_inIntersection (legible : type.Legible scope)
    (flat : type.tightness ≠ .intersection) (follows : Follows singleMarks rest) :
    (call .optionalType).Covers type.inIntersection rest (Means scope .optionalType type) := by
  rw [inIntersection_eq]
  split
  · have := covers_optionals 0 follows (legible.covers_parenthesized _)
    rwa [List.replicate_zero, List.append_nil] at this
  · rename_i other
    refine legible.single ?_ rest follows
    cases tight : type.tightness with
    | closed | proc => rfl
    | union => exact (other tight).elim
    | intersection => exact (flat tight).elim

theorem legible_intersection (legible : ∀ type ∈ types, type.Legible scope)
    (many : 2 ≤ types.length)
    (flat : ∀ type ∈ types, type.tightness ≠ .intersection) :
    Legible scope ⟨.intersection types⟩ := by
  have nonempty := ne_nil_of_length many
  have text : print ⟨.intersection types⟩ = joined [' ', '&', ' '] (types.map inIntersection) :=
    print_intersection types
  -- A union among the members is in parentheses, and anything else is printed as it is.
  have starts : ∀ type ∈ types, StartsType type.inIntersection := by
    intro type member
    rw [inIntersection_eq]
    split
    · exact ⟨'(', _, rfl, .inl (by decide)⟩
    · exact (legible type member).starts
  have keyless : ∀ type ∈ types, Keyless type.inIntersection := by
    intro type member
    rw [inIntersection_eq]
    split
    · exact keyless_cons (by decide) (by decide) _
    · exact (legible type member).keyless
  refine legible_of_member (text ▸ starts_joined _ nonempty starts)
    (text ▸ keyless_joined _ nonempty ⟨_, rfl⟩ keyless) rfl fun rest follows => ?_
  have list := covers_separated (call .optionalType) inIntersection [' '] ['&'] [' ']
    (fun type tree => tree.rule = .optionalType ∧ readTypeTree scope tree = .ok type)
    (Follows singleMarks) rfl nonempty (by decide) (by decide)
    (fun text => solid_cons (by decide) text)
    (fun type member text => ((starts type member).append text).solid)
    (fun type member rest follows =>
      (legible type member).covers_inIntersection (flat type member) follows)
    (fun text => .blank (solid_cons (by decide) _) (by simp [singleMarks]))
    (follows.mono (by decide)) (follows.refuses (c := '&') (by decide) [])
  rw [text]
  refine (Covers.ofRule .intersectionType rfl list).imp ?_
  rintro _ ⟨tree, rfl, rule, all⟩
  refine ⟨tree, rfl, rule, ?_⟩
  show readTypeTree scope tree = _
  rw [readTypeTree_intersectionType rule, readTypeTrees_of_means all, ← combine_of_length many]
  rfl

end Ty

/-! ## Names -/

section Names

variable {kind : NameKind} {name : TypeName} {types : List Ty}

theorem NameKind.scanner_print (spells : name.Spells kind) (ends : Ends rest) :
    kind.scanner (name.print ++ rest) = some rest := by
  cases kind with
  | ofClass => exact className_print spells ends
  | ofInterface => exact interfaceName_print spells ends
  | ofAlias => exact aliasName_print spells ends

theorem IsUpper.startsName {part : String} (upper : IsUpper part) (rest : List Char) :
    StartsName (part.toList ++ rest) := by
  obtain ⟨c, word, spelled, first, -⟩ := upper
  exact .inl ⟨c, word ++ rest, by rw [spelled, List.cons_append], .inl first⟩

theorem TypeName.Spells.startsName (spells : name.Spells kind) (rest : List Char) :
    StartsName (name.print ++ rest) := by
  rw [name.print_eq, List.append_assoc, List.append_assoc]
  cases name.scope.absolute with
  | true => exact .inr ⟨_, rfl⟩
  | false =>
      show StartsName (components name.scope.path ++ (name.base.toList ++ rest))
      cases path_eq : name.scope.path with
      | cons part path =>
          rw [components_cons, List.append_assoc]
          exact (spells.path_all part (by simp [path_eq])).startsName _
      | nil =>
          cases kind with
          | ofClass => exact spells.2.startsName rest
          | ofInterface =>
              obtain ⟨word, spelled, -⟩ := spells.2
              exact .inl ⟨'_', word ++ rest, by rw [spelled]; rfl, .inr (by decide)⟩
          | ofAlias =>
              obtain ⟨c, word, spelled, first, -⟩ := spells.2.1.1
              exact .inl ⟨c, word ++ rest, by rw [spelled]; rfl, .inr first⟩

theorem Grammar.Phrase.StartsName.startsType (starts : StartsName text) : StartsType text := by
  rcases starts with ⟨c, rest, rfl, first⟩ | ⟨rest, rfl⟩
  · exact ⟨c, rest, rfl, .inr first⟩
  · exact ⟨':', _, rfl, .inl (by decide)⟩

/-- Where a name of a kind stands, the alternatives before that kind are refused. -/
theorem TypeName.Spells.refuses (spells : name.Spells kind) (ends : Ends rest) :
    ∀ other ∈ primaryRules.takeWhile (· ≠ kind.rule),
      (call other).Refuses (name.print ++ rest) := by
  have marked := refuses_of_startsName (spells.startsName rest)
  have boolean : (call .booleanLiteral).Refuses (name.print ++ rest) :=
    .token rfl (spells.wholeWord_eq_none ends (by decide))
  have base : (call .baseType).Refuses (name.print ++ rest) :=
    .token rfl (spells.wholeWord_eq_none ends (by decide))
  have interface : kind ≠ .ofInterface → (call .interfaceType).Refuses (name.print ++ rest) :=
    fun other => .ofRule rfl (.seq (.token rfl (interfaceName_eq_none spells other ends)))
  simp only [List.forall_mem_cons] at marked
  obtain ⟨paren, tuple, proc, symbol, string, integer, -⟩ := marked
  -- Names come last among the primary types, and aliases last among names.
  cases kind with
  | ofInterface =>
      show ∀ other ∈ [Rule.parenType, .tupleType, .procType, .symbolLiteral, .stringLiteral,
        .integerLiteral, .booleanLiteral, .baseType], _
      simp only [List.forall_mem_cons]
      exact ⟨paren, tuple, proc, symbol, string, integer, boolean, base, nofun⟩
  | ofClass =>
      show ∀ other ∈ [Rule.parenType, .tupleType, .procType, .symbolLiteral, .stringLiteral,
        .integerLiteral, .booleanLiteral, .baseType, .interfaceType], _
      simp only [List.forall_mem_cons]
      exact ⟨paren, tuple, proc, symbol, string, integer, boolean, base, interface nofun, nofun⟩
  | ofAlias =>
      have class_ : (call .classType).Refuses (name.print ++ rest) :=
        .ofRule rfl (.seq (.token rfl (className_eq_none spells)))
      show ∀ other ∈ [Rule.parenType, .tupleType, .procType, .symbolLiteral, .stringLiteral,
        .integerLiteral, .booleanLiteral, .baseType, .interfaceType, .classType], _
      simp only [List.forall_mem_cons]
      exact ⟨paren, tuple, proc, symbol, string, integer, boolean, base, interface nofun, class_,
        nofun⟩

theorem TypeName.Spells.covers_nameRule (spells : name.Spells kind) (ends : Ends rest) :
    (call kind.nameRule).Covers name.print rest
      (One kind.nameRule fun tree => tree.text = name.print) :=
  (covers_token kind.nameRule kind.body_nameRule (kind.scanner_print spells ends)).imp
    fun _ ⟨tree, same, rule, text, _⟩ => ⟨tree, same, rule, text⟩

/-- Type arguments are read in brackets. -/
theorem covers_typeArgs (legible : ∀ type ∈ types, type.Legible scope) (nonempty : types ≠ [])
    (rest : List Char) :
    (call .typeArgs).Covers (['['] ++ joined comma (types.map Ty.print) ++ [']']) rest
      (One .typeArgs fun tree => readTypeTrees scope tree.children = .ok types) := by
  have list := Ty.covers_types typeMarks (by decide) (by decide)
    (fun type member text => ((legible type member).starts.append text).solid)
    (fun type member => (legible type member).whole) nonempty rest
  have inner := list.seq [] (covers_mark [']'] rest) nofun (solid_cons (by decide) rest)
  have starts := Ty.starts_joined comma nonempty fun type member => (legible type member).starts
  have solid : Solid (joined comma (types.map Ty.print) ++ ([] ++ [']']) ++ rest) := by
    rw [List.append_assoc]
    exact (starts.append _).solid
  have all := (covers_mark ['['] _).seq [] inner nofun solid
  rw [List.append_assoc]
  refine (Covers.ofRule .typeArgs rfl all).imp ?_
  rintro _ ⟨tree, rfl, rule, _, _, rfl, ⟨trees, _, means, rfl, rfl⟩, children⟩
  refine ⟨tree, rfl, rule, ?_⟩
  show readTypeTrees scope tree.children = _
  rw [children, List.nil_append, List.append_nil, means]

/-- A name with its arguments is read where no further bracket opens. -/
theorem covers_applied (spells : name.Spells kind) (legible : ∀ type ∈ types, type.Legible scope)
    (follows : Follows ['['] rest) :
    primaryType.Covers (name.print ++ printArgs (types.map Ty.print)) rest
      (MeansOne scope (applyName scope kind name types)) := by
  have earlier : ∀ other ∈ primaryRules.takeWhile (· ≠ kind.rule),
      (call other).Refuses (name.print ++ printArgs (types.map Ty.print) ++ rest) := by
    rw [List.append_assoc]
    refine spells.refuses ?_
    rw [printArgs]
    split
    · exact follows.ends
    · exact fun c head => Option.some.inj head ▸ by decide
  refine covers_oneOf kind.rule (by cases kind <;> decide) earlier ?_
  by_cases nonempty : types = []
  · subst nonempty
    have args : (call .typeArgs).Refuses (afterBlanks rest) :=
      .ofRule rfl (.seq (follows.refuses (c := '[') (by decide) []))
    rw [printArgs, List.map_nil, List.isEmpty_nil, if_pos rfl, List.append_nil]
    refine (Covers.ofRule kind.rule kind.body_rule
      ((spells.covers_nameRule follows.ends).seq_misses args.opt)).imp ?_
    rintro _ ⟨tree, rfl, rule, nameTree, children, -, text⟩
    refine ⟨tree, rfl, ?_⟩
    rw [readTypeTree_name rule children, text, spells.ofChars_print]
  · have bracket : printArgs (types.map Ty.print) =
        ['['] ++ joined comma (types.map Ty.print) ++ [']'] := by
      rw [printArgs, if_neg (by simpa using nonempty)]
    rw [bracket]
    have args := covers_typeArgs legible nonempty rest
    have ends : Ends ([] ++ (['['] ++ joined comma (types.map Ty.print) ++ [']'] ++ rest)) :=
      fun c head => Option.some.inj head ▸ by decide
    have all := (spells.covers_nameRule ends).seq [] args.opt nofun (solid_cons (by decide) _)
    refine (Covers.ofRule kind.rule kind.body_rule all).imp ?_
    rintro _ ⟨tree, rfl, rule, _, _, ⟨nameTree, rfl, -, text⟩, ⟨argsTree, rfl, argsRule, means⟩,
      children⟩
    refine ⟨tree, rfl, ?_⟩
    rw [readTypeTree_applied rule children argsRule, means, text, spells.ofChars_print]
    rfl

theorem Ty.legible_of_print (kind : NameKind) (name : TypeName) (types : List Ty)
    (spells : name.Spells kind) (legible : ∀ type ∈ types, type.Legible scope)
    (applied : applyName scope kind name types = type)
    (text : type.print = name.print ++ printArgs (types.map print)) : type.Legible scope := by
  have starts := (spells.startsName []).startsType
  rw [List.append_nil] at starts
  refine legible_of_primary (text ▸ starts.append _) ?_ fun rest follows => ?_
  · rw [text, printArgs]
    split
    · rw [List.append_nil]
      exact spells.keyless
    · exact spells.keyless.append fun rest c head => Option.some.inj head ▸ by decide
  · rw [text, ← applied]
    exact covers_applied spells legible follows

theorem Ty.legible_named (spells : name.Spells kind)
    (free : kind = .ofClass → types = [] → name.isSimple = true → name.base ∉ scope)
    (legible : ∀ type ∈ types, type.Legible scope) : Legible scope ⟨.named kind name types⟩ := by
  refine legible_of_print kind name types spells legible ?_ (print_named name kind types)
  rw [applyName]
  unfold bindLayer
  split
  · rename_i bare same
    obtain ⟨rfl, rfl, rfl⟩ := Layer.named.inj same
    refine if_neg fun bound => ?_
    rw [Bool.and_eq_true] at bound
    exact free rfl rfl bound.1 (by simpa using bound.2)
  · rfl

theorem Ty.legible_var {name : String} (member : name ∈ scope) (upper : IsUpper name) :
    Legible scope ⟨.var name⟩ := by
  refine legible_of_print .ofClass ⟨.empty, name⟩ []
    ⟨nofun, upper⟩ nofun ?_ ?_
  · show (if _ then _ else _) = _
    exact if_pos (by simpa [TypeName.isSimple, TypeName.isAbsolute, Namespace.isEmpty,
      Namespace.empty] using member)
  · rw [print_var, TypeName.print_eq]
    simp [Namespace.empty, printArgs]

theorem Ty.legible_base (keyword : BaseType) : Legible scope ⟨.base keyword⟩ := by
  have ident : ∀ c ∈ keyword.keyword.toList, isIdentChar c = true := by cases keyword <;> decide
  have starts : StartsName keyword.keyword.toList := by
    cases keyword <;> exact .inl ⟨_, _, rfl, .inr (by decide)⟩
  refine legible_of_primary starts.startsType (keyless_ident ident) fun rest follows => ?_
  have read : Scanner.baseType (keyword.keyword.toList ++ rest) = some rest := by
    rw [Scanner.baseType, wholeWord_append ident follows.ends.ident, if_pos]
    cases keyword <;> decide
  have marked := refuses_of_startsName (starts.append rest)
  -- The words of base types are tried behind those of booleans.
  have boolean : (call .booleanLiteral).Refuses (keyword.keyword.toList ++ rest) := by
    refine .token rfl ?_
    rw [Scanner.booleanLiteral, wholeWord_append ident follows.ends.ident, if_neg]
    cases keyword <;> decide
  simp only [List.forall_mem_cons] at marked
  obtain ⟨paren, tuple, proc, symbol, string, integer, -⟩ := marked
  refine covers_oneOf .baseType (by decide) ?_ ((covers_token .baseType rfl read).imp ?_)
  · show ∀ other ∈ [Rule.parenType, .tupleType, .procType, .symbolLiteral, .stringLiteral,
      .integerLiteral, .booleanLiteral], _
    simp only [List.forall_mem_cons]
    exact ⟨paren, tuple, proc, symbol, string, integer, boolean, List.forall_mem_nil _⟩
  · rintro _ ⟨tree, rfl, rule, text, children⟩
    refine ⟨tree, rfl, ?_⟩
    rw [readTypeTree_atom rule children, readAtom, rule]
    have word : tree.string = keyword.keyword := by
      rw [ParseTree.string, text, String.ofList_toList]
    dsimp only
    rw [word, BaseType.ofKeyword?_keyword]

end Names

end Signet

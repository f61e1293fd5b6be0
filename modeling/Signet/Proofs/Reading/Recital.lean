import Signet.Proofs.Reading.LiteralTokens
import Signet.Proofs.Reading.Soundness
import Signet.Proofs.Type.Scopes

/-!
# The literals that a text says

Apart from blanks, comments and the signs of optional types, unions, tuples and parentheses, the
text of a type without names and functions consists of literals, and where one ends another can
begin. So the literals can be listed without parsing (`recital`), and whatever type such a text is
read as has just these literals, in this order (`Grammar.ParseTree.recited`).
-/

namespace Signet

open Text Grammar Scanner

variable {c : Char} {text rest : List Char} {literal : Literal}

/-! ## The first literal -/

/-- The signs between literals. -/
def signs : List Char := ['(', ')', '[', ']', ',', '?', '|', '&']

namespace Literal

/-- The literal that a text starts with, and what comes after it. -/
def front? (text : List Char) : Option (Literal × List Char) := do
  let kind ← text.head?.bind LiteralKind.ofStart?
  let rest ← kind.scanner text
  let literal ← kind.literal? (text.take (text.length - rest.length))
  pure (literal, rest)

theorem front?_eq_some_iff : front? text = some (literal, rest) ↔ ∃ kind : LiteralKind, ∃ token,
    text = token ++ rest ∧ kind.scanner text = some rest ∧ kind.literal? token = some literal := by
  constructor
  · intro found
    obtain ⟨kind, -, found⟩ := Option.bind_eq_some_iff.1 found
    obtain ⟨after, scanned, found⟩ := Option.bind_eq_some_iff.1 found
    obtain ⟨value, said, same⟩ := Option.bind_eq_some_iff.1 found
    obtain ⟨rfl, rfl⟩ := Prod.mk.inj (Option.some.inj same)
    obtain ⟨⟨token, rfl⟩, -⟩ := kind.takes scanned
    refine ⟨kind, token, rfl, scanned, ?_⟩
    rwa [List.length_append, Nat.add_sub_cancel, List.take_left] at said
  · rintro ⟨kind, token, rfl, scanned, said⟩
    obtain ⟨c, others, same, start⟩ := LiteralKind.exists_start scanned
    refine Option.bind_eq_some_iff.2 ⟨kind, by rw [same]; exact start,
      Option.bind_eq_some_iff.2 ⟨rest, scanned, Option.bind_eq_some_iff.2 ⟨literal, ?_, rfl⟩⟩⟩
    rwa [List.length_append, Nat.add_sub_cancel, List.take_left]

/-- A literal starts with neither a sign nor a blank. -/
theorem exists_start (found : front? text = some (literal, rest)) :
    ∃ c others, text = c :: others ∧ c ∉ signs ∧ isSpacing c = false ∧ c ≠ '#' := by
  obtain ⟨kind, -, -, scanned, -⟩ := front?_eq_some_iff.1 found
  obtain ⟨c, others, rfl, start⟩ := LiteralKind.exists_start scanned
  have different : ∀ d, LiteralKind.ofStart? d = none → c ≠ d := by
    rintro d none rfl
    exact nomatch start.symm.trans none
  refine ⟨c, others, rfl, fun sign => ?_, Bool.eq_false_iff.2 fun spacing => ?_,
    different '#' (by decide)⟩
  · have none : ∀ d ∈ signs, LiteralKind.ofStart? d = none := by decide
    exact different c (none c sign) rfl
  · simp only [isSpacing, Bool.or_eq_true, decide_eq_true_eq] at spacing
    rcases spacing with ((rfl | rfl) | rfl) | rfl
    all_goals exact different _ (by decide) rfl

/-- After a literal there is less text than before. -/
theorem length_lt_of_front? (found : front? text = some (literal, rest)) :
    rest.length < text.length := by
  obtain ⟨kind, _, -, scanned, -⟩ := front?_eq_some_iff.1 found
  have := (kind.takes scanned).2
  omega

/-- What a text starts with can be written. -/
theorem written_of_front? (found : front? text = some (literal, rest)) : literal.Written := by
  obtain ⟨kind, token, rfl, scanned, said⟩ := front?_eq_some_iff.1 found
  cases kind with
  | symbol =>
      obtain rfl := Option.some.inj said
      obtain ⟨middle, colon, marked⟩ := Option.bind_eq_some_iff.1 scanned
      obtain ⟨name, symbol, rfl⟩ := exists_symbol marked
      have whole := word_eq_some_iff.1 colon
      obtain rfl : token = ':' :: name := List.append_cancel_right whole
      show IsSymbol (String.ofList _).toList
      rwa [String.toList_ofList, symbol.dropWhile_colon]
  | string | bool =>
      obtain rfl := Option.some.inj said
      trivial
  | integer =>
      rw [LiteralKind.literal?] at said
      split at said
      · rename_i fits
        obtain rfl := Option.some.inj said
        simpa [Written] using fits
      · cases said

/-- A literal in front of a rest in which it does not go on. -/
theorem Written.front? (written : literal.Written) (plain : literal.Plain)
    (stops : literal.Stops rest) : front? (literal.print ++ rest) = some (literal, rest) :=
  front?_eq_some_iff.2
    ⟨literal.kind, literal.print, rfl, written.scan plain stops, written.literal?_print plain⟩

/-- A string in double quotes. -/
theorem front?_quoted (outside : '"' ∉ text) : front? ('"' :: (text ++ '"' :: rest)) =
    some (.string (String.ofList text), rest) := by
  refine front?_eq_some_iff.2 ⟨.string, '"' :: (text ++ ['"']), by simp, ?_, ?_⟩
  · show stringLiteral _ = _
    rw [stringLiteral, orElse, between_append outside, Option.some_or]
  · show some (string (unquoted _)) = _
    rw [unquoted, List.drop_one, List.tail_cons, List.dropLast_concat]

/-- An optional mark after a symbol without mark is read as part of the symbol. -/
theorem front?_marked {name : String} (symbol : IsSymbol name.toList)
    (unmarked : ¬IsMarked name.toList) (ends : ∀ c ∈ rest.head?, isIdentChar c = false) :
    front? ((Literal.symbol name).print ++ '?' :: rest) = some (.symbol (name ++ "?"), rest) := by
  have whole : (name ++ "?").toList = name.toList ++ ['?'] := String.toList_append
  have longer : Written (.symbol (name ++ "?")) := by
    show IsSymbol (name ++ "?").toList
    rw [whole]
    exact symbol.concat unmarked (by decide)
  have marked : Sealed (.symbol (name ++ "?")) := ⟨'?', by simp [whole], by decide⟩
  have text : (Literal.symbol name).print ++ '?' :: rest =
      (Literal.symbol (name ++ "?")).print ++ rest := by
    show ':' :: name.toList ++ '?' :: rest = ':' :: (name ++ "?").toList ++ rest
    simp [whole]
  rw [text]
  exact longer.front? trivial ⟨ends, fun open_ => (open_ marked).elim⟩

end Literal

/-! ## All literals -/

/-- The literals in a text up to the first character that belongs to something else. -/
def recital (text : List Char) : List Literal :=
  match _ : afterBlanks text with
  | [] => []
  | c :: rest =>
    if c ∈ signs then recital rest
    else
      match _ : Literal.front? (c :: rest) with
      | some (literal, after) => literal :: recital after
      | none => []
termination_by text.length
decreasing_by
  all_goals
    have shorter : (afterBlanks text).length ≤ text.length := Cursor.length_skip_le ⟨0, text⟩
    rename afterBlanks text = _ => blanks
    rw [blanks] at shorter
  · exact shorter
  · rename Literal.front? _ = _ => found
    exact Nat.lt_of_lt_of_le (Literal.length_lt_of_front? found) shorter

theorem recital_eq (text : List Char) : recital text =
    match afterBlanks text with
    | [] => []
    | c :: rest =>
      if c ∈ signs then recital rest
      else
        match Literal.front? (c :: rest) with
        | some (literal, after) => literal :: recital after
        | none => [] := by
  rw [recital]
  split
  · rename_i blanks
    rw [blanks]
  · rename_i blanks
    rw [blanks]
    dsimp only
    congr 1
    split <;> rename_i found <;> rw [found]

theorem recital_of_nil (blanks : afterBlanks text = []) : recital text = [] := by
  rw [recital_eq, blanks]

/-- Blanks and comments say nothing. -/
theorem recital_afterBlanks (text : List Char) : recital (afterBlanks text) = recital text := by
  have twice : afterBlanks (afterBlanks text) = afterBlanks text :=
    afterBlanks_of_solid (Cursor.solid_skip _)
  rw [recital_eq, twice, ← recital_eq]

theorem recital_blanks {blanks : List Char} (spacing : ∀ c ∈ blanks, isSpacing c = true)
    (text : List Char) : recital (blanks ++ text) = recital text := by
  rw [← recital_afterBlanks, afterBlanks_blanks spacing, recital_afterBlanks]

theorem solid_of_sign (sign : c ∈ signs) (rest : List Char) : Solid (c :: rest) := by
  have all : ∀ c ∈ signs, isSpacing c = false ∧ c ≠ '#' := by decide
  exact solid_cons (all c sign) rest

/-- A sign says nothing. -/
theorem recital_sign (sign : c ∈ signs) (rest : List Char) :
    recital (c :: rest) = recital rest := by
  rw [recital_eq, afterBlanks_of_solid (solid_of_sign sign rest)]
  exact if_pos sign

/-- A literal says itself. -/
theorem recital_front (found : Literal.front? text = some (literal, rest)) :
    recital text = literal :: recital rest := by
  obtain ⟨c, others, rfl, unsigned, solid⟩ := Literal.exists_start found
  rw [recital_eq, afterBlanks_of_solid (solid_cons solid others)]
  simp [unsigned, found]

/-- Whatever a text says can be written. -/
theorem written_of_mem_recital (member : literal ∈ recital text) : literal.Written := by
  fun_induction recital text with
  | case1 => cases member
  | case2 text c rest blanks sign ih => exact ih member
  | case3 text c rest blanks sign said after found ih =>
      rcases List.mem_cons.1 member with rfl | member
      · exact Literal.written_of_front? found
      · exact ih member
  | case4 => cases member

/-! ## What is said between two positions -/

section Recites

variable {cursor next last : Cursor} {said more : List Literal} {trees : List ParseTree}

/-- The text between the positions says the literals. -/
def Grammar.Cursor.Recites (cursor : Cursor) (said : List Literal) (next : Cursor) : Prop :=
  recital cursor.rest = said ++ recital next.rest

theorem Grammar.Cursor.Recites.trans (first : cursor.Recites said next) (second : next.Recites more last) :
    cursor.Recites (said ++ more) last := by
  rw [Cursor.Recites, List.append_assoc, ← second]
  exact first

/-- What is said after the blanks at a position is said from there on. -/
theorem Grammar.Cursor.Recites.after_skip (later : cursor.skip.Recites said next) :
    cursor.Recites said next := by
  rw [Cursor.Recites, cursor.skip_rest, recital_afterBlanks] at later
  exact later

/-- If only signs are between the trees of a phrase, it says what its trees say. -/
theorem Grammar.Phrase.recites {phrase : Phrase} (progresses : phrase.progresses = true)
    (signs_only : ∀ text ∈ phrase.marks, text ∈ signs.map ([·]))
    {saying : ParseTree → List Literal}
    (each : ∀ tree ∈ trees, ∀ ⦃start stop⦄, tree.rule.read start = some ([tree], stop) →
      start.Recites (saying tree) stop)
    (read : phrase.read cursor = some (trees, next)) : cursor.Recites (trees.flatMap saying) next := by
  refine Phrase.read_induction (motive := fun cursor trees next =>
    (∀ tree ∈ trees, ∀ ⦃start stop⦄, tree.rule.read start = some ([tree], stop) →
      start.Recites (saying tree) stop) → cursor.Recites (trees.flatMap saying) next)
    ?nothing ?after ?skip progresses ?mark ?call read each
  case nothing => exact fun _ _ => rfl
  case after =>
    intro cursor middle last front back one two each
    obtain ⟨eachOne, eachTwo⟩ := List.forall_mem_append.1 each
    rw [List.flatMap_append]
    exact (one eachOne).trans (two eachTwo)
  case skip => exact fun behind each => (behind each).after_skip
  case mark =>
    intro text inside cursor next passes _
    obtain ⟨sign, member, rfl⟩ := List.mem_map.1 (signs_only text inside)
    rw [Cursor.Recites, passes.rest_eq]
    exact recital_sign member next.rest
  case call =>
    intro tree _ cursor next found each
    rw [List.flatMap_singleton]
    exact each tree List.mem_cons_self found

end Recites

/-! ## The literals of a type -/

/-- The literals in a layer, given those of the types in it. -/
def Layer.literals : Layer (List Literal) → List Literal
  | .literal value => [value]
  | layer => layer.parts.flatten

namespace Ty

/-- The literals in a type from left to right. -/
def literals : Ty → List Literal := fold Layer.literals

theorem literals_mk (layer : Layer Ty) : literals ⟨layer⟩ =
    match layer with
    | .literal value => [value]
    | layer => layer.parts.flatMap literals := by
  rw [literals, fold_mk]
  cases layer with
  | literal value => rfl
  | _ => exact (congrArg List.flatten (Layer.parts_map _ _)).trans (List.flatMap_def).symm

theorem mem_literals_mk {layer : Layer Ty} {part : Ty} {literal : Literal}
    (member : part ∈ layer.parts) (inner : literal ∈ part.literals) : literal ∈ literals ⟨layer⟩ := by
  rw [literals_mk]
  split
  · cases member
  · exact List.mem_flatMap_of_mem member inner

theorem literals_optional (type : Ty) : literals ⟨.optional type⟩ = type.literals :=
  (literals_mk _).trans (List.flatMap_singleton _ _)

theorem literals_markOptional (type : Ty) (marks : List ParseTree) :
    (markOptional type marks).literals = type.literals := by
  induction marks generalizing type with
  | nil => rfl
  | cons mark marks ih => exact (ih ⟨.optional type⟩).trans type.literals_optional

end Ty

/-- The layer consists of literals: a literal, an optional type, a tuple, or a union none of whose
members is one. -/
def Layer.Literary : Layer Ty → Prop
  | .literal _ | .optional _ | .tuple _ => True
  | .union types => ∀ type ∈ types, type.tightness ≠ .union
  | .base _ | .var _ | .named _ _ _ | .intersection _ | .proc _ _ => False

instance : DecidablePred Layer.Literary
  | .literal _ | .optional _ | .tuple _ => isTrue trivial
  | .union types => inferInstanceAs (Decidable (∀ type ∈ types, type.tightness ≠ .union))
  | .base _ | .var _ | .named _ _ _ | .intersection _ | .proc _ _ => isFalse id

/-- All layers of the type consist of literals. -/
abbrev Ty.Literary (type : Ty) : Prop := type.Everywhere Layer.Literary

theorem Ty.Literary.of_markOptional {type : Ty} {marks : List ParseTree}
    (literary : (markOptional type marks).Literary) : type.Literary := by
  induction marks generalizing type with
  | nil => exact literary
  | cons mark marks ih =>
      exact (everywhere_mk.1 (ih literary)).2 type (List.mem_singleton.2 rfl)

theorem literals_combine (whole : List Ty → Layer Ty)
    (all : ∀ types, Ty.literals ⟨whole types⟩ = types.flatMap Ty.literals) (types : List Ty) :
    (combine whole types).literals = types.flatMap Ty.literals := by
  match types with
  | [type] => exact (List.flatMap_singleton _ _).symm
  | [] | _ :: _ :: _ => exact all _

theorem literary_of_combine {whole : List Ty → Layer Ty}
    (parts : ∀ types, (whole types).parts = types) {types : List Ty}
    (literary : (combine whole types).Literary) : ∀ type ∈ types, type.Literary := by
  match types with
  | [type] => exact List.forall_mem_singleton.2 literary
  | [] => exact List.forall_mem_nil _
  | first :: second :: types =>
      have inside := (Ty.everywhere_mk.1 literary).2
      rwa [parts] at inside

/-- A name is not a literal. -/
theorem not_literary_applyName (scope : List String) (kind : NameKind) (name : TypeName)
    (types : List Ty) : ¬(applyName scope kind name types).Literary := by
  intro literary
  rw [applyName] at literary
  rcases Ty.bindLayer_cases scope (.named kind name types) with ⟨-, kept⟩ | ⟨_, -, -, -, put⟩
  · rw [kept] at literary
    exact (Ty.everywhere_mk.1 literary).1
  · rw [put] at literary
    exact (Ty.everywhere_mk.1 literary).1

/-! ## Trees -/

section Trees

variable {scope : List String} {tree : ParseTree} {type : Ty} {types : List Ty}
  {cursor next : Cursor}

/-- The rules by which types are read. -/
def typeRules : List Rule :=
  [.typeExpr, .unionType, .intersectionType, .optionalType] ++ Phrase.primaryRules

/-- The literals of the type that a tree means. -/
def Grammar.ParseTree.literals (scope : List String) (tree : ParseTree) : List Literal :=
  match readTypeTree scope tree with
  | .ok type => type.literals
  | .error _ => []

theorem literals_of_means (means : readTypeTree scope tree = .ok type) :
    tree.literals scope = type.literals := by
  rw [ParseTree.literals, means]

theorem flatMap_literals {trees : List ParseTree} (means : readTypeTrees scope trees = .ok types) :
    trees.flatMap (ParseTree.literals scope) = types.flatMap Ty.literals := by
  have all := readTypeTrees_eq_ok_iff.1 means
  clear means
  induction all with
  | nil => rfl
  | cons here _ ih => rw [List.flatMap_cons, List.flatMap_cons, literals_of_means here, ih]

theorem exists_of_mem_trees {trees : List ParseTree} (means : readTypeTrees scope trees = .ok types)
    (member : tree ∈ trees) : ∃ type ∈ types, readTypeTree scope tree = .ok type := by
  have all := readTypeTrees_eq_ok_iff.1 means
  clear means
  induction all with
  | nil => cases member
  | @cons _ type _ _ here _ ih =>
      rcases List.mem_cons.1 member with rfl | member
      · exact ⟨type, List.mem_cons_self, here⟩
      · obtain ⟨type, inside, read⟩ := ih member
        exact ⟨type, List.mem_cons_of_mem _ inside, read⟩

/-- Where the tree is read, the text says the literals of the type that the tree means. -/
def Grammar.ParseTree.Recited (scope : List String) (tree : ParseTree) : Prop :=
  ∀ ⦃cursor next⦄, tree.rule.read cursor = some ([tree], next) →
    cursor.Recites (tree.literals scope) next

/-- An optional mark says nothing. -/
theorem recited_optionalMark (rule : tree.rule = .optionalMark)
    (found : tree.rule.read cursor = some ([tree], next)) :
    tree.literals scope = [] ∧ cursor.Recites [] next := by
  obtain ⟨inner, -, -⟩ := Rule.read_children rule rfl found
  obtain ⟨children, passes⟩ := Phrase.read_mark_iff.1 inner
  constructor
  · obtain ⟨treeRule, stretch, trees⟩ := tree
    obtain rfl : treeRule = _ := rule
    obtain rfl : trees = _ := children
    rfl
  · rw [Cursor.Recites, passes.rest_eq]
    exact recital_sign (by decide) next.rest

/-- A tree says what the trees in it say. -/
theorem recites_children {rule : Rule} {items : Phrase} (same : tree.rule = rule)
    (shape : rule.body = .phrase items)
    (signs_only : ∀ text ∈ items.marks, text ∈ signs.map ([·]))
    (each : ∀ child ∈ tree.children, child.Recited scope)
    (found : tree.rule.read cursor = some ([tree], next)) :
    cursor.Recites (tree.children.flatMap (ParseTree.literals scope)) next := by
  obtain ⟨inner, -, -⟩ := Rule.read_children same shape found
  have fits := rule.fits
  rw [shape] at fits
  exact Phrase.recites fits.2.2 signs_only each inner

/-- A tree with the rule of a name means a name. -/
theorem exists_applyName (kind : NameKind) (rule : tree.rule = kind.rule)
    (means : readTypeTree scope tree = .ok type)
    (found : tree.rule.read cursor = some ([tree], next)) :
    ∃ name types, type = applyName scope kind name types := by
  obtain ⟨inner, -, -⟩ := Rule.read_children rule kind.body_rule found
  obtain ⟨front, middle, back, here, there, children⟩ := Phrase.read_seq_iff.1 inner
  obtain ⟨nameTree, rfl, -⟩ := Rule.exists_tree here
  rcases Phrase.read_opt_iff.1 there with args | ⟨-, rfl, -⟩
  · obtain ⟨argsTree, rfl, argsRule⟩ := Rule.exists_tree args
    rw [readTypeTree_applied rule children argsRule, bind_eq_ok_iff] at means
    obtain ⟨types, -, same⟩ := means
    exact ⟨_, types, (Except.ok.inj same).symm⟩
  · rw [readTypeTree_name rule (by simpa using children)] at means
    exact ⟨_, [], (Except.ok.inj means).symm⟩

/-- The tree of a literal says the literal. -/
theorem recites_literal (kind : LiteralKind) (rule : tree.rule = kind.rule)
    (means : readTypeTree scope tree = .ok type)
    (found : tree.rule.read cursor = some ([tree], next)) :
    cursor.Recites type.literals next := by
  obtain ⟨children, scanned, whole⟩ := exists_token kind.body_rule rule found
  obtain ⟨literal, said, rfl⟩ := (kind.readTypeTree_eq_ok_iff rule children).1 means
  exact recital_front (Literal.front?_eq_some_iff.2 ⟨kind, tree.text, whole, scanned, said⟩)

section Smaller

variable (smaller : ∀ child ∈ tree.children, child.rule ∈ typeRules →
  ∀ ⦃type⦄, readTypeTree scope child = .ok type → type.Literary → child.Recited scope)

include smaller

/-- A tree whose children mean literary types says their literals. -/
theorem recites_types {rule : Rule} {items : Phrase} (same : tree.rule = rule)
    (shape : rule.body = .phrase items)
    (signs_only : ∀ text ∈ items.marks, text ∈ signs.map ([·]))
    (calls : ∀ rule ∈ items.calls, rule ∈ typeRules)
    (means : readTypeTrees scope tree.children = .ok types)
    (literary : ∀ type ∈ types, type.Literary)
    (found : tree.rule.read cursor = some ([tree], next)) :
    cursor.Recites (types.flatMap Ty.literals) next := by
  obtain ⟨-, -, rules⟩ := Rule.read_children same shape found
  rw [← flatMap_literals means]
  refine recites_children same shape signs_only (fun child member => ?_) found
  obtain ⟨type, inside, read⟩ := exists_of_mem_trees means member
  exact smaller child member (calls _ (rules child member)) read (literary type inside)

/-- A tree that means what its only child means says what the child says. -/
theorem recites_single {rule : Rule} {items : Phrase} {child : ParseTree} (same : tree.rule = rule)
    (shape : rule.body = .phrase items)
    (signs_only : ∀ text ∈ items.marks, text ∈ signs.map ([·]))
    (calls : ∀ rule ∈ items.calls, rule ∈ typeRules) (children : tree.children = [child])
    (through : readTypeTree scope tree = readTypeTree scope child)
    (means : readTypeTree scope tree = .ok type) (literary : type.Literary)
    (found : tree.rule.read cursor = some ([tree], next)) :
    cursor.Recites type.literals next := by
  have single : readTypeTrees scope tree.children = .ok [type] := by
    rw [children]
    exact readTypeTrees_eq_ok_iff.2 (.cons (through ▸ means) .nil)
  have all :=
    recites_types smaller same shape signs_only calls single (by simpa using literary) found
  rwa [List.flatMap_singleton] at all

/-- A union or an intersection says what its members say. -/
theorem recites_combined {rule : Rule} {items : Phrase} {whole : List Ty → Layer Ty}
    (same : tree.rule = rule) (shape : rule.body = .phrase items)
    (signs_only : ∀ text ∈ items.marks, text ∈ signs.map ([·]))
    (calls : ∀ rule ∈ items.calls, rule ∈ typeRules)
    (parts : ∀ types, (whole types).parts = types)
    (plain : ∀ types, Ty.literals ⟨whole types⟩ = types.flatMap Ty.literals)
    (combined : readTypeTree scope tree =
      readTypeTrees scope tree.children >>= fun types => .ok (combine whole types))
    (means : readTypeTree scope tree = .ok type) (literary : type.Literary)
    (found : tree.rule.read cursor = some ([tree], next)) :
    cursor.Recites type.literals next := by
  rw [combined, bind_eq_ok_iff] at means
  obtain ⟨types, read, same'⟩ := means
  obtain rfl := Except.ok.inj same'
  rw [literals_combine _ plain]
  exact recites_types smaller same shape signs_only calls read (literary_of_combine parts literary)
    found

theorem recites_typeExpr (rule : tree.rule = .typeExpr)
    (means : readTypeTree scope tree = .ok type) (literary : type.Literary)
    (found : tree.rule.read cursor = some ([tree], next)) :
    cursor.Recites type.literals next := by
  obtain ⟨inner, -, -⟩ := Rule.read_children rule rfl found
  obtain ⟨child, children, -⟩ := Rule.exists_tree inner
  exact recites_single smaller rule rfl (by decide) (by decide) children
    (readTypeTree_typeExpr rule children) means literary found

theorem recites_parenType (rule : tree.rule = .parenType)
    (means : readTypeTree scope tree = .ok type) (literary : type.Literary)
    (found : tree.rule.read cursor = some ([tree], next)) :
    cursor.Recites type.literals next := by
  obtain ⟨inner, -, -⟩ := Rule.read_children rule rfl found
  obtain ⟨_, _, _, front, inner, children⟩ := Phrase.read_seq_iff.1 inner
  obtain ⟨_, _, _, middle, back, rfl⟩ := Phrase.read_seq_iff.1 inner
  obtain ⟨rfl, -⟩ := Phrase.read_mark_iff.1 front
  obtain ⟨rfl, -⟩ := Phrase.read_mark_iff.1 back
  obtain ⟨child, rfl, -⟩ := Rule.exists_tree middle
  rw [List.nil_append, List.append_nil] at children
  exact recites_single smaller rule rfl (by decide) (by decide) children
    (readTypeTree_parenType rule children) means literary found

theorem recites_tupleType (rule : tree.rule = .tupleType)
    (means : readTypeTree scope tree = .ok type) (literary : type.Literary)
    (found : tree.rule.read cursor = some ([tree], next)) :
    cursor.Recites type.literals next := by
  rw [readTypeTree_tupleType rule, bind_eq_ok_iff] at means
  obtain ⟨types, read, same⟩ := means
  obtain rfl := Except.ok.inj same
  rw [Ty.literals_mk]
  exact recites_types smaller rule rfl (by decide) (by decide) read
    (Ty.everywhere_mk.1 literary).2 found

theorem recites_optionalType (rule : tree.rule = .optionalType)
    (means : readTypeTree scope tree = .ok type) (literary : type.Literary)
    (found : tree.rule.read cursor = some ([tree], next)) :
    cursor.Recites type.literals next := by
  obtain ⟨inner, -, -⟩ := Rule.read_children rule rfl found
  obtain ⟨front, middle, marks, here, there, children⟩ := Phrase.read_seq_iff.1 inner
  obtain ⟨child, rfl, member, -⟩ := Phrase.exists_read_oneOf here
  obtain ⟨chain, rules⟩ := Phrase.chain (by decide) there
  rw [List.singleton_append] at children
  rw [readTypeTree_optionalType rule children, bind_eq_ok_iff] at means
  obtain ⟨inside, read, same⟩ := means
  obtain rfl := Except.ok.inj same
  have ofMark : ∀ mark ∈ marks, mark.rule = .optionalMark := fun mark member => by
    simpa [Phrase.calls] using rules mark member
  -- the marks behind the type say no literal
  have unsaid : marks.flatMap (ParseTree.literals scope) = [] := by
    refine List.flatMap_eq_nil_iff.2 fun mark member => ?_
    obtain ⟨_, _, read⟩ := chain.exists_read mark member
    exact (recited_optionalMark (ofMark mark member) read).1
  have all : cursor.Recites (tree.children.flatMap (ParseTree.literals scope)) next :=
    recites_children rule rfl (by decide) (fun other inOther => ?_) found
  · rw [children, List.flatMap_cons, unsaid, List.append_nil, literals_of_means read] at all
    rwa [Ty.literals_markOptional]
  · rw [children] at inOther
    rcases List.mem_cons.1 inOther with rfl | isMark
    · exact smaller other (by simp [children]) (List.mem_append_right _ member) read
        literary.of_markOptional
    · intro start stop found
      obtain ⟨nothing, unsaid⟩ : other.literals scope = [] ∧ start.Recites [] stop :=
        recited_optionalMark (ofMark other isMark) found
      rwa [nothing]

end Smaller

/-- A base type is no literary type. -/
theorem not_literary_of_baseType (rule : tree.rule = .baseType)
    (means : readTypeTree scope tree = .ok type)
    (found : tree.rule.read cursor = some ([tree], next)) : ¬type.Literary := by
  intro literary
  obtain ⟨children, -, -⟩ := exists_token rfl rule found
  rw [readTypeTree_atom rule children, readAtom, rule] at means
  dsimp only at means
  split at means
  · obtain rfl := Except.ok.inj means
    exact (Ty.everywhere_mk.1 literary).1
  · cases means

/-- Where a tree means a literary type, the text that it was read from says the literals of it. -/
theorem Grammar.ParseTree.recited (tree : ParseTree) {type : Ty} (rule : tree.rule ∈ typeRules)
    (means : readTypeTree scope tree = .ok type) (literary : type.Literary) :
    tree.Recited scope := by
  intro cursor next found
  rw [literals_of_means means]
  have smaller : ∀ child ∈ tree.children, child.rule ∈ typeRules →
      ∀ ⦃type⦄, readTypeTree scope child = .ok type → type.Literary → child.Recited scope := by
    intro child member rule type means literary
    have := mem_children_lt member
    exact child.recited rule means literary
  have notName : ∀ kind, tree.rule ≠ NameKind.rule kind := by
    intro kind rule
    obtain ⟨name, types, rfl⟩ := exists_applyName kind rule means found
    exact not_literary_applyName scope kind name types literary
  simp only [typeRules, List.cons_append, List.nil_append, List.mem_cons, List.not_mem_nil,
    or_false] at rule
  rcases rule with rule | rule | rule | rule | rule | rule | rule | rule | rule | rule | rule |
    rule | rule | rule | rule
  · exact recites_typeExpr smaller rule means literary found
  · exact recites_combined smaller rule rfl (by decide) (by decide) (fun _ => rfl)
      (fun _ => Ty.literals_mk _) (readTypeTree_unionType rule) means literary found
  · exact recites_combined smaller rule rfl (by decide) (by decide) (fun _ => rfl)
      (fun _ => Ty.literals_mk _) (readTypeTree_intersectionType rule) means literary found
  · exact recites_optionalType smaller rule means literary found
  · exact recites_parenType smaller rule means literary found
  · exact recites_tupleType smaller rule means literary found
  · -- procs, base types and names are no literary types
    obtain ⟨parts, -, rfl⟩ := (readTypeTree_proc_eq_ok_iff rule).1 means
    exact (Ty.everywhere_mk.1 literary).1.elim
  · exact recites_literal .symbol rule means found
  · exact recites_literal .string rule means found
  · exact recites_literal .integer rule means found
  · exact recites_literal .bool rule means found
  · exact (not_literary_of_baseType rule means found literary).elim
  · exact (notName .ofInterface rule).elim
  · exact (notName .ofClass rule).elim
  · exact (notName .ofAlias rule).elim
termination_by sizeOf tree

end Trees

end Signet

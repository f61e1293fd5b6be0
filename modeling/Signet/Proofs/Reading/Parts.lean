import Mathlib.Data.List.Forall2
import Signet.Reading.Methods

/-!
# Meanings from the meanings of trees

The meaning of a list of trees is put together tree by tree. Each statement says exactly when a
list has a meaning, and which, so that it serves to take a meaning apart as well as to build one.
-/

namespace Signet

open Grammar

variable {scope : List String} {tree : ParseTree} {trees : List ParseTree}

theorem bind_eq_ok_iff {ε α β : Type} {first : Except ε α} {second : α → Except ε β} {b : β} :
    first >>= second = .ok b ↔ ∃ a, first = .ok a ∧ second a = .ok b := by
  cases first with
  | error error => exact ⟨nofun, fun ⟨_, same, _⟩ => nomatch same⟩
  | ok a => exact ⟨fun same => ⟨a, rfl, same⟩, fun ⟨_, same, rest⟩ => Except.ok.inj same ▸ rest⟩

/-- What is shown of a result tells that there is one. -/
theorem exists_of_toOption_map {ε α β : Type} {result : Except ε α} {f : α → β} {b : β}
    (shown : result.toOption.map f = some b) : ∃ a, result = .ok a ∧ f a = b := by
  cases result with
  | error error => cases shown
  | ok a => exact ⟨a, rfl, Option.some.inj shown⟩

/-- An item is read, and others after it. -/
theorem bind_cons_eq_ok_iff {ε α β : Type} {one : Except ε α} {more : Except ε (List β)}
    {f : α → β} {items : List β} :
    (do
      let first ← one
      let others ← more
      return f first :: others) = .ok items ↔
        ∃ first others, one = .ok first ∧ more = .ok others ∧ items = f first :: others := by
  rw [bind_eq_ok_iff]
  constructor
  · rintro ⟨first, here, read⟩
    obtain ⟨others, later, same⟩ := bind_eq_ok_iff.1 read
    exact ⟨first, others, here, later, (Except.ok.inj same).symm⟩
  · rintro ⟨first, others, here, later, rfl⟩
    exact ⟨first, here, bind_eq_ok_iff.2 ⟨others, later, rfl⟩⟩

/-- What stands on the right of a relation of lists has something on the left. -/
theorem exists_of_forall₂ {α β : Type} {R : α → β → Prop} {as : List α} {bs : List β}
    (all : List.Forall₂ R as bs) : ∀ b ∈ bs, ∃ a ∈ as, R a b := by
  induction all with
  | nil => exact nofun
  | cons here _ ih =>
      refine List.forall_mem_cons.2 ⟨⟨_, List.mem_cons_self, here⟩, fun b member => ?_⟩
      obtain ⟨a, inside, related⟩ := ih b member
      exact ⟨a, List.mem_cons_of_mem _ inside, related⟩

/-- Whether something is read that has a property is decided by reading. -/
instance decidableExistsOk {ε α : Type} {good : α → Prop} [DecidablePred good]
    (result : Except ε α) : Decidable (∃ value, result = .ok value ∧ good value) :=
  match result with
  | .ok value => decidable_of_iff (good value) (by simp)
  | .error _ => isFalse (by simp)

/-- So is whether reading fails in some way. -/
instance decidableExistsError {ε α : Type} {bad : ε → Prop} [DecidablePred bad]
    (result : Except ε α) : Decidable (∃ error, result = .error error ∧ bad error) :=
  match result with
  | .ok _ => isFalse (by simp)
  | .error error => decidable_of_iff (bad error) (by simp)

/-! ## Trees of a rule -/

theorem exists_of_findTree {rule : Rule} (found : findTree rule trees = some tree) :
    tree ∈ trees ∧ tree.rule = rule :=
  ⟨List.mem_of_find?_eq_some found, by simpa using List.find?_some found⟩

/-- A tree of a rule is found where there is one. -/
theorem exists_findTree {rule : Rule} (there : ∃ tree ∈ trees, tree.rule = rule) :
    ∃ tree, findTree rule trees = some tree := by
  obtain ⟨tree, member, same⟩ := there
  exact Option.isSome_iff_exists.1 (List.find?_isSome.2 ⟨tree, member, by simpa using same⟩)

theorem findTree_of_needTree {rule : Rule} {child : ParseTree}
    (found : needTree tree rule = .ok child) : findTree rule tree.children = some child := by
  unfold needTree at found
  split at found
  · rw [‹findTree rule tree.children = _›, Except.ok.inj found]
  · cases found

/-! ## Lists of types -/

theorem readTypeTrees_eq_ok_iff {types : List Ty} : readTypeTrees scope trees = .ok types ↔
    List.Forall₂ (fun tree type => readTypeTree scope tree = .ok type) trees types := by
  induction trees generalizing types with
  | nil =>
      rw [readTypeTrees, List.forall₂_nil_left_iff]
      exact ⟨fun same => (Except.ok.inj same).symm, fun same => same ▸ rfl⟩
  | cons tree trees ih =>
      rw [readTypeTrees, bind_eq_ok_iff]
      constructor
      · rintro ⟨type, here, read⟩
        obtain ⟨types, later, same⟩ := bind_eq_ok_iff.1 read
        obtain rfl := Except.ok.inj same
        exact .cons here (ih.1 later)
      · intro all
        cases all with
        | @cons _ type _ types here later =>
            exact ⟨type, here, bind_eq_ok_iff.2 ⟨types, ih.2 later, rfl⟩⟩

/-! ## Types by rule -/

section Rules

variable {child : ParseTree}

theorem readTypeTree_typeExpr (rule : tree.rule = .typeExpr) (children : tree.children = [child]) :
    readTypeTree scope tree = readTypeTree scope child := by
  obtain ⟨treeRule, stretch, trees⟩ := tree
  obtain rfl : treeRule = _ := rule
  obtain rfl : trees = _ := children
  rw [readTypeTree]

theorem readTypeTree_parenType (rule : tree.rule = .parenType)
    (children : tree.children = [child]) :
    readTypeTree scope tree = readTypeTree scope child := by
  obtain ⟨treeRule, stretch, trees⟩ := tree
  obtain rfl : treeRule = _ := rule
  obtain rfl : trees = _ := children
  rw [readTypeTree]

theorem readTypeTree_unionType (rule : tree.rule = .unionType) : readTypeTree scope tree =
    readTypeTrees scope tree.children >>= fun types => .ok (combine .union types) := by
  obtain ⟨treeRule, stretch, trees⟩ := tree
  obtain rfl : treeRule = _ := rule
  rw [readTypeTree]
  rfl

theorem readTypeTree_intersectionType (rule : tree.rule = .intersectionType) :
    readTypeTree scope tree =
      readTypeTrees scope tree.children >>= fun types => .ok (combine .intersection types) := by
  obtain ⟨treeRule, stretch, trees⟩ := tree
  obtain rfl : treeRule = _ := rule
  rw [readTypeTree]
  rfl

theorem readTypeTree_tupleType (rule : tree.rule = .tupleType) : readTypeTree scope tree =
    readTypeTrees scope tree.children >>= fun types => .ok ⟨.tuple types⟩ := by
  obtain ⟨treeRule, stretch, trees⟩ := tree
  obtain rfl : treeRule = _ := rule
  rw [readTypeTree]
  rfl

theorem readTypeTree_optionalType {marks : List ParseTree} (rule : tree.rule = .optionalType)
    (children : tree.children = child :: marks) : readTypeTree scope tree =
      readTypeTree scope child >>= fun type => .ok (markOptional type marks) := by
  obtain ⟨treeRule, stretch, trees⟩ := tree
  obtain rfl : treeRule = _ := rule
  obtain rfl : trees = _ := children
  rw [readTypeTree]
  rfl

theorem readTypeTree_atom (rule : tree.rule = .baseType) (children : tree.children = []) :
    readTypeTree scope tree = readAtom tree := by
  obtain ⟨treeRule, stretch, trees⟩ := tree
  obtain rfl : treeRule = _ := rule
  obtain rfl : trees = _ := children
  rfl

end Rules

/-! ## Names -/

/-- The rule for a kind of names with arguments. -/
def NameKind.rule : NameKind → Rule
  | ofClass => .classType
  | ofInterface => .interfaceType
  | ofAlias => .aliasType

/-- The rule for the name alone. -/
def NameKind.nameRule : NameKind → Rule
  | ofClass => .className
  | ofInterface => .interfaceName
  | ofAlias => .aliasName

/-- The scanner for a kind of names. -/
def NameKind.scanner : NameKind → Scanner
  | ofClass => Scanner.className
  | ofInterface => Scanner.interfaceName
  | ofAlias => Scanner.aliasName

theorem NameKind.body_rule (kind : NameKind) :
    kind.rule.body = .phrase (Phrase.applied (.call kind.nameRule)) := by
  cases kind <;> rfl

theorem NameKind.body_nameRule (kind : NameKind) : kind.nameRule.body = .token kind.scanner := by
  cases kind <;> rfl

theorem readTypeTree_name {kind : NameKind} {name : ParseTree} (rule : tree.rule = kind.rule)
    (children : tree.children = [name]) : readTypeTree scope tree =
      .ok (applyName scope kind (.ofChars name.text) []) := by
  obtain ⟨treeRule, stretch, trees⟩ := tree
  obtain ⟨nameRule, nameStretch, nameTrees⟩ := name
  obtain rfl : treeRule = _ := rule
  obtain rfl : trees = _ := children
  cases kind <;> rfl

theorem readTypeTree_applied {kind : NameKind} {name args : ParseTree}
    (rule : tree.rule = kind.rule) (children : tree.children = [name, args])
    (argsRule : args.rule = .typeArgs) : readTypeTree scope tree =
      readTypeTrees scope args.children >>= fun types =>
        .ok (applyName scope kind (.ofChars name.text) types) := by
  obtain ⟨treeRule, stretch, trees⟩ := tree
  obtain ⟨nameRule, nameStretch, nameTrees⟩ := name
  obtain ⟨other, argsStretch, argTrees⟩ := args
  obtain rfl : treeRule = _ := rule
  obtain rfl : other = _ := argsRule
  obtain rfl : trees = _ := children
  cases kind <;> rfl

theorem readTypeTree_proc_eq_ok_iff {type : Ty} (rule : tree.rule = .procType) :
    readTypeTree scope tree = .ok type ↔
      ∃ parts, readSignatureTrees scope tree.children = .ok parts ∧
      type = ⟨.proc parts.function parts.block⟩ := by
  obtain ⟨treeRule, stretch, children⟩ := tree
  obtain rfl : treeRule = _ := rule
  rw [readTypeTree, bind_eq_ok_iff]
  exact exists_congr fun parts => and_congr_right fun _ =>
    ⟨fun same => (Except.ok.inj same).symm, fun same => same ▸ rfl⟩

/-! ## Parts of a parameter -/

/-- What a tree adds to the parts of a parameter that come after it. -/
inductive ParamPart (scope : List String) (tree : ParseTree) (rest : ParamParts) :
    ParamParts → Prop
  | optional : tree.rule = .optionalMark → ParamPart scope tree rest { rest with optional := true }
  | key : tree.rule = .keywordName → ParamPart scope tree rest { rest with key := tree.string }
  | type {type : Ty} : tree.rule = .typeExpr → readTypeTree scope tree = .ok type →
      ParamPart scope tree rest { rest with type }
  | name : tree.rule = .varName → ParamPart scope tree rest { rest with name := some tree.string }
  | nothing : tree.rule ∉ [.optionalMark, .keywordName, .typeExpr, .varName] →
      ParamPart scope tree rest rest

theorem readParamParts_cons_eq_ok_iff {parts : ParamParts} :
    readParamParts scope (tree :: trees) = .ok parts ↔
      ∃ rest, readParamParts scope trees = .ok rest ∧ ParamPart scope tree rest parts := by
  obtain ⟨rule, stretch, children⟩ := tree
  constructor
  · intro read
    rw [readParamParts.eq_def] at read
    split at read
    · rename_i none
      cases none
    · rename_i same
      obtain ⟨⟨⟩, rfl⟩ := List.cons.inj same
      obtain ⟨rest, later, same⟩ := bind_eq_ok_iff.1 read
      exact ⟨rest, later, Except.ok.inj same ▸ .optional rfl⟩
    · rename_i same
      obtain ⟨⟨⟩, rfl⟩ := List.cons.inj same
      obtain ⟨rest, later, same⟩ := bind_eq_ok_iff.1 read
      exact ⟨rest, later, Except.ok.inj same ▸ .key rfl⟩
    · rename_i same
      obtain ⟨⟨⟩, rfl⟩ := List.cons.inj same
      obtain ⟨type, means, read⟩ := bind_eq_ok_iff.1 read
      obtain ⟨rest, later, same⟩ := bind_eq_ok_iff.1 read
      exact ⟨rest, later, Except.ok.inj same ▸ .type rfl means⟩
    · rename_i same
      obtain ⟨⟨⟩, rfl⟩ := List.cons.inj same
      obtain ⟨rest, later, same⟩ := bind_eq_ok_iff.1 read
      exact ⟨rest, later, Except.ok.inj same ▸ .name rfl⟩
    · rename_i notMark notKey notType notName same
      obtain ⟨rfl, rfl⟩ := List.cons.inj same
      refine ⟨parts, read, .nothing ?_⟩
      simp only [ParseTree.rule, List.mem_cons, List.not_mem_nil, or_false]
      rintro (rfl | rfl | rfl | rfl)
      · exact notMark _ _ rfl
      · exact notKey _ _ rfl
      · exact notType _ _ rfl
      · exact notName _ _ rfl
  · rintro ⟨rest, later, part⟩
    cases part with
    | optional same =>
        obtain rfl : rule = _ := same
        rw [readParamParts, bind_eq_ok_iff]
        exact ⟨rest, later, rfl⟩
    | key same =>
        obtain rfl : rule = _ := same
        rw [readParamParts, bind_eq_ok_iff]
        exact ⟨rest, later, rfl⟩
    | name same =>
        obtain rfl : rule = _ := same
        rw [readParamParts, bind_eq_ok_iff]
        exact ⟨rest, later, rfl⟩
    | @type type same means =>
        obtain rfl : rule = _ := same
        rw [readParamParts, bind_eq_ok_iff]
        exact ⟨type, means, bind_eq_ok_iff.2 ⟨rest, later, rfl⟩⟩
    | nothing other =>
        rw [readParamParts]
        · exact later
        all_goals
          rintro stretch children same
          obtain ⟨rfl, -, -⟩ := ParseTree.mk.inj same
          exact other (by simp [ParseTree.rule])

/-! ## Parts of a function -/

/-- What a tree adds to the parts of a function that come after it. -/
inductive SignaturePart (scope : List String) (tree : ParseTree) (rest : SignatureParts) :
    SignatureParts → Prop
  | params {params : Params Ty} : tree.rule = .params →
      readParamTrees scope {} tree.children = .ok params →
      SignaturePart scope tree rest { rest with params }
  | untyped : tree.rule = .untypedParams →
      SignaturePart scope tree rest { rest with untyped := true }
  | block {parts : SignatureParts} : tree.rule = .block →
      readSignatureTrees scope tree.children = .ok parts →
      SignaturePart scope tree rest { rest with
        block := some ⟨parts.function, !tree.children.any fun tree => tree.rule = .optionalMark⟩ }
  | result {result : Ty} : tree.rule = .optionalType → readTypeTree scope tree = .ok result →
      SignaturePart scope tree rest { rest with result }
  | nothing : tree.rule ∉ [.params, .untypedParams, .block, .optionalType] →
      SignaturePart scope tree rest rest

theorem readSignatureTrees_cons_eq_ok_iff {parts : SignatureParts} :
    readSignatureTrees scope (tree :: trees) = .ok parts ↔
      ∃ rest, readSignatureTrees scope trees = .ok rest ∧ SignaturePart scope tree rest parts := by
  obtain ⟨rule, stretch, children⟩ := tree
  constructor
  · intro read
    rw [readSignatureTrees.eq_def] at read
    split at read
    · rename_i none
      cases none
    · rename_i same
      obtain ⟨⟨⟩, rfl⟩ := List.cons.inj same
      obtain ⟨params, means, read⟩ := bind_eq_ok_iff.1 read
      obtain ⟨rest, later, same⟩ := bind_eq_ok_iff.1 read
      exact ⟨rest, later, Except.ok.inj same ▸ .params rfl means⟩
    · rename_i same
      obtain ⟨⟨⟩, rfl⟩ := List.cons.inj same
      obtain ⟨rest, later, same⟩ := bind_eq_ok_iff.1 read
      exact ⟨rest, later, Except.ok.inj same ▸ .untyped rfl⟩
    · rename_i same
      obtain ⟨⟨⟩, rfl⟩ := List.cons.inj same
      obtain ⟨inner, means, read⟩ := bind_eq_ok_iff.1 read
      obtain ⟨rest, later, same⟩ := bind_eq_ok_iff.1 read
      exact ⟨rest, later, Except.ok.inj same ▸ .block rfl means⟩
    · rename_i same
      obtain ⟨⟨⟩, rfl⟩ := List.cons.inj same
      obtain ⟨result, means, read⟩ := bind_eq_ok_iff.1 read
      obtain ⟨rest, later, same⟩ := bind_eq_ok_iff.1 read
      exact ⟨rest, later, Except.ok.inj same ▸ .result rfl means⟩
    · rename_i notParams notUntyped notBlock notResult same
      obtain ⟨rfl, rfl⟩ := List.cons.inj same
      refine ⟨parts, read, .nothing ?_⟩
      simp only [ParseTree.rule, List.mem_cons, List.not_mem_nil, or_false]
      rintro (rfl | rfl | rfl | rfl)
      · exact notParams _ _ rfl
      · exact notUntyped _ _ rfl
      · exact notBlock _ _ rfl
      · exact notResult _ _ rfl
  · rintro ⟨rest, later, part⟩
    cases part with
    | @params params same means =>
        obtain rfl : rule = _ := same
        rw [readSignatureTrees, bind_eq_ok_iff]
        exact ⟨params, means, bind_eq_ok_iff.2 ⟨rest, later, rfl⟩⟩
    | untyped same =>
        obtain rfl : rule = _ := same
        rw [readSignatureTrees, bind_eq_ok_iff]
        exact ⟨rest, later, rfl⟩
    | @block inner same means =>
        obtain rfl : rule = _ := same
        rw [readSignatureTrees, bind_eq_ok_iff]
        exact ⟨inner, means, bind_eq_ok_iff.2 ⟨rest, later, rfl⟩⟩
    | @result result same means =>
        obtain rfl : rule = _ := same
        rw [readSignatureTrees, bind_eq_ok_iff]
        exact ⟨result, means, bind_eq_ok_iff.2 ⟨rest, later, rfl⟩⟩
    | nothing other =>
        rw [readSignatureTrees]
        · exact later
        all_goals
          rintro stretch children same
          obtain ⟨rfl, -, -⟩ := ParseTree.mk.inj same
          exact other (by simp [ParseTree.rule])

end Signet

import Signet.Proofs.Reading.Soundness
import Signet.Proofs.Source.Carving
import Signet.Reading.Document

/-!
# Method types that are read are readable

The own type parameters of a method type are read before the rest, in the scope around it. What is
read as a whole text is readable, and the text has the parentheses that it needs
(`MethodType.readable_of_ofString`).
-/

namespace Signet

open Text Grammar Phrase

variable {excerpt : Excerpt} {scope : List String} {cursor next : Cursor} {tree : ParseTree}
  {trees : List ParseTree}

/-! ## Meanings -/

theorem mapM_eq_ok_iff {ε α β : Type} {f : α → Except ε β} {items : List α} {values : List β} :
    items.mapM f = .ok values ↔
      List.Forall₂ (fun item value => f item = .ok value) items values := by
  induction items generalizing values with
  | nil =>
      rw [List.mapM_nil, List.forall₂_nil_left_iff]
      exact ⟨fun same => (Except.ok.inj same).symm, fun same => same ▸ rfl⟩
  | cons item items ih =>
      rw [List.mapM_cons, bind_eq_ok_iff]
      constructor
      · rintro ⟨value, here, read⟩
        obtain ⟨values, later, same⟩ := bind_eq_ok_iff.1 read
        obtain rfl := Except.ok.inj same
        exact .cons here (ih.1 later)
      · intro all
        cases all with
        | @cons _ value _ values here later =>
            exact ⟨value, here, bind_eq_ok_iff.2 ⟨values, ih.2 later, rfl⟩⟩

/-- A buffer is read as a whole exactly if its text is. -/
theorem readRange_all_eq_ok_iff {α : Type} {rule : Rule} {buffer : Buffer}
    {meaning : Excerpt → ParseTree → Except Fault α} {value : α} :
    readRange rule buffer buffer.all meaning = .ok value ↔
      ∃ tree last, rule.read ⟨0, buffer.content⟩ = some ([tree], last) ∧
        meaning ⟨buffer, 0, buffer.content⟩ tree = .ok value := by
  have whole : Excerpt.ofRange buffer buffer.all = .ok ⟨buffer, 0, buffer.content⟩ := by
    rw [Excerpt.ofRange, Buffer.slice_all]
    rfl
  rw [readRange, whole]
  show Excerpt.read _ rule _ = _ ↔ _
  rw [Excerpt.read]
  constructor
  · intro read
    split at read
    · cases read
    · rename_i tree parsed
      obtain ⟨last, found⟩ := parse_eq_ok_iff.1 parsed
      refine ⟨tree, last, found, ?_⟩
      cases means : meaning ⟨buffer, 0, buffer.content⟩ tree with
      | ok other =>
          rw [means] at read
          obtain rfl : other = value := Except.ok.inj read
          rfl
      | error fault =>
          rw [means] at read
          cases read
  · rintro ⟨tree, last, found, means⟩
    rw [parse_eq_ok_iff.2 ⟨last, found⟩]
    dsimp only
    rw [means]
    rfl

theorem readMethodType_eq_ok_iff {type : MethodType} :
    readMethodType excerpt scope tree = .ok type ↔ ∃ typeParams parts,
      readTypeParams excerpt scope (childrenOf .typeParams tree.children) = .ok typeParams ∧
      readSignatureTrees (scope ++ TypeParam.names typeParams) tree.children = .ok parts ∧
      type = ⟨typeParams, parts.function, parts.block, some (excerpt.location tree)⟩ := by
  rw [readMethodType, bind_eq_ok_iff]
  refine exists_congr fun typeParams => ?_
  rw [bind_eq_ok_iff, ← exists_and_left]
  refine exists_congr fun parts => and_congr_right fun _ => and_congr_right fun _ => ?_
  exact ⟨fun same => (Except.ok.inj same).symm, fun same => same ▸ rfl⟩

/-- A method type is read from a text exactly if the text is a single one. -/
theorem MethodType.ofString_eq_ok_iff {text : String} {type : MethodType} :
    MethodType.ofString text = .ok type ↔ ∃ tree last,
      Rule.wholeMethodTypes.read ⟨0, text.toList⟩ = some ([tree], last) ∧
      readMethodTypes ⟨.ofString "(method type)" text, 0, text.toList⟩ [] tree.children =
        .ok [type] := by
  have overloads : ∀ types, readOverloads (.ofString "(method type)" text)
      (Buffer.ofString "(method type)" text).all [] = .ok types ↔ ∃ tree last,
        Rule.wholeMethodTypes.read ⟨0, text.toList⟩ = some ([tree], last) ∧
        readMethodTypes ⟨.ofString "(method type)" text, 0, text.toList⟩ [] tree.children =
          .ok types := fun types => readRange_all_eq_ok_iff
  rw [MethodType.ofString, bind_eq_ok_iff, ← overloads]
  constructor
  · rintro ⟨types, read, single⟩
    match types with
    | [] => cases single
    | [other] =>
        obtain rfl := Except.ok.inj single
        exact read
    | _ :: _ :: _ => cases single
  · exact fun read => ⟨[type], read, rfl⟩

/-! ## Bounds -/

theorem readWrapped_cons (rule : Rule) (tree : ParseTree) (trees : List ParseTree) :
    readWrapped scope rule (tree :: trees) =
      if tree.rule = rule then needTree tree .typeExpr >>= fun inner =>
        readTypeTree scope inner >>= fun type => .ok (some type)
      else readWrapped scope rule trees := by
  rw [readWrapped, readWrapped, findTree, findTree, List.find?_cons]
  by_cases same : tree.rule = rule
  · rw [if_pos same]
    simp only [same, decide_true]
    rfl
  · rw [if_neg same]
    simp only [same, decide_false]

/-- The type in a tree that wraps a type is readable and paid for. -/
theorem sound_wrapped {rule : Rule} {bound : Option Ty} {sign : List Char}
    (same : tree.rule = rule) (shape : rule.body = .phrase (inOrder [mark sign, call .typeExpr]))
    (found : tree.rule.read cursor = some ([tree], next))
    (read : (needTree tree .typeExpr >>= fun inner =>
      readTypeTree scope inner >>= fun type => .ok (some type)) = .ok bound) :
    (∀ type ∈ bound.toList, type.Everywhere (Layer.Readable scope)) ∧
      cursor.Pays (bound.toList.map Ty.needed).sum next := by
  obtain ⟨inner, -, -⟩ := Rule.read_children same shape found
  obtain ⟨_, start, _, front, there, children⟩ := read_seq_iff.1 inner
  obtain ⟨rfl, passes⟩ := read_mark_iff.1 front
  obtain ⟨child, rfl, childRule⟩ := Rule.exists_tree there
  have need : needTree tree .typeExpr = .ok child := by
    rw [needTree, findTree, children]
    simp [childRule]
  rw [need] at read
  obtain ⟨_, ⟨⟩, read⟩ := bind_eq_ok_iff.1 read
  obtain ⟨type, means, equal⟩ := bind_eq_ok_iff.1 read
  obtain rfl := Except.ok.inj equal
  obtain ⟨readable, paid⟩ := child.sound.of_rule childRule there means
  refine ⟨fun other member => ?_, passes.pays.after (start.pays_skip.after (paid.mono ?_))⟩
  · obtain rfl := List.mem_singleton.1 member
    exact readable
  · exact Nat.le_refl _

theorem sound_readWrapped {rule : Rule} {sign : List Char} {bound : Option Ty}
    (shape : rule.body = .phrase (inOrder [mark sign, call .typeExpr]))
    (chain : Chain cursor trees next) (read : readWrapped scope rule trees = .ok bound) :
    (∀ type ∈ bound.toList, type.Everywhere (Layer.Readable scope)) ∧
      cursor.Pays (bound.toList.map Ty.needed).sum next := by
  induction chain with
  | nil passes =>
      obtain rfl := Except.ok.inj read
      exact ⟨nofun, passes.pays⟩
  | @cons cursor start middle last text tree trees passes found chain ih =>
      rw [readWrapped_cons] at read
      split at read
      · rename_i same
        obtain ⟨readable, paid⟩ := sound_wrapped same shape found read
        exact ⟨readable, passes.pays.after (paid.through chain.pays_nothing)⟩
      · obtain ⟨readable, paid⟩ := ih read
        exact ⟨readable, passes.pays.after ((Rule.pays found).after paid)⟩

/-- Both bounds of a type parameter are paid for. -/
theorem sound_bounds {upper default : Option Ty} (chain : Chain cursor trees next)
    (upperRead : readWrapped scope .upperBound trees = .ok upper)
    (defaultRead : readWrapped scope .defaultType trees = .ok default) :
    (∀ type ∈ upper.toList ++ default.toList, type.Everywhere (Layer.Readable scope)) ∧
      cursor.Pays ((upper.toList ++ default.toList).map Ty.needed).sum next := by
  rw [List.forall_mem_append]
  refine ⟨⟨(sound_readWrapped rfl chain upperRead).1, (sound_readWrapped rfl chain defaultRead).1⟩,
    ?_⟩
  rw [List.map_append, List.sum_append]
  -- The bounds are found by their rules, in whatever order the trees are.
  induction chain with
  | nil passes =>
      obtain rfl := Except.ok.inj upperRead
      obtain rfl := Except.ok.inj defaultRead
      exact passes.pays
  | @cons cursor start middle last text tree trees passes found chain ih =>
      rw [readWrapped_cons] at upperRead defaultRead
      by_cases isUpper : tree.rule = .upperBound
      · rw [if_pos isUpper] at upperRead
        rw [if_neg (by rw [isUpper]; decide)] at defaultRead
        have first := (sound_wrapped isUpper rfl found upperRead).2
        have second := (sound_readWrapped rfl chain defaultRead).2
        exact passes.pays.after (first.trans second)
      · rw [if_neg isUpper] at upperRead
        by_cases isDefault : tree.rule = .defaultType
        · rw [if_pos isDefault] at defaultRead
          have first := (sound_wrapped isDefault rfl found defaultRead).2
          have second := (sound_readWrapped rfl chain upperRead).2
          refine passes.pays.after ((first.trans second).mono (Nat.le_of_eq ?_))
          exact Nat.add_comm _ _
        · rw [if_neg isDefault] at defaultRead
          exact passes.pays.after ((Rule.pays found).after (ih upperRead defaultRead))

/-! ## Type parameters -/

/-- The name of the type parameter is spelled as one, and its bounds can be read in a scope. -/
structure TypeParam.Readable (scope : List String) (param : TypeParam) : Prop where
  name : IsUpper param.name
  types : ∀ type ∈ param.types, type.Everywhere (Layer.Readable scope)

theorem sound_typeParam {param : TypeParam} (rule : tree.rule = .typeParam)
    (found : tree.rule.read cursor = some ([tree], next))
    (read : readTypeParam excerpt scope tree = .ok param) :
    param.Readable scope ∧ cursor.Pays (param.types.map Ty.needed).sum next := by
  obtain ⟨-, chain, -⟩ := Rule.read_children rule rfl found
  rw [readTypeParam, bind_eq_ok_iff] at read
  obtain ⟨name, named, read⟩ := read
  obtain ⟨upper, upperRead, read⟩ := bind_eq_ok_iff.1 read
  obtain ⟨default, defaultRead, same⟩ := bind_eq_ok_iff.1 read
  obtain rfl := Except.ok.inj same
  obtain ⟨readable, paid⟩ := sound_bounds chain upperRead defaultRead
  refine ⟨⟨?_, readable⟩, paid⟩
  -- The name was scanned as an upper identifier, and so it is one.
  have member : name ∈ tree.children ∧ name.rule = .upperIdent := by
    rw [needTree] at named
    split at named
    · rename_i inner
      obtain rfl := Except.ok.inj named
      exact exists_of_findTree inner
    · cases named
  obtain ⟨start, last, inner⟩ := chain.exists_read name member.1
  obtain ⟨-, scanned, text⟩ := exists_token rfl member.2 inner
  obtain ⟨word, upper, written, -⟩ := exists_upperIdent scanned
  show IsUpper name.string
  rwa [ParseTree.string, List.append_cancel_right (text.symm.trans written), String.ofList_toList]

/-- The type parameters in brackets are readable and paid for. -/
theorem sound_typeParams {params : List TypeParam} (rule : tree.rule = .typeParams)
    (found : tree.rule.read cursor = some ([tree], next))
    (read : readTypeParams excerpt scope tree.children = .ok params) :
    (∀ param ∈ params, param.Readable scope) ∧
      cursor.Pays ((params.flatMap TypeParam.types).map Ty.needed).sum next := by
  obtain ⟨-, chain, rules⟩ := Rule.read_children rule rfl found
  have rules : ∀ child ∈ tree.children, child.rule = .typeParam := fun child member => by
    simpa [inOrder, separated, calls] using rules child member
  have all : tree.children.filter (fun tree => tree.rule = .typeParam) = tree.children :=
    List.filter_eq_self.2 fun child member => decide_eq_true (rules child member)
  rw [readTypeParams, all, mapM_eq_ok_iff] at read
  obtain ⟨good, paid⟩ := chain.pays (TypeParam.Readable scope)
    (fun param => (param.types.map Ty.needed).sum) read
    fun child member param start next means found =>
      sound_typeParam (rules child member) found means
  refine ⟨good, paid.mono (Nat.le_of_eq ?_)⟩
  rw [List.map_flatMap, List.flatMap_def, List.sum_flatten, List.map_map]
  rfl

/-! ## Method types -/

theorem childrenOf_eq_nil {rule : Rule} (absent : ∀ tree ∈ trees, tree.rule ≠ rule) :
    childrenOf rule trees = [] := by
  have : findTree rule trees = none :=
    List.find?_eq_none.2 fun tree member same => absent tree member (by simpa using same)
  rw [childrenOf, this]
  rfl

theorem childrenOf_cons {rule : Rule} (same : tree.rule = rule) :
    childrenOf rule (tree :: trees) = tree.children := by
  rw [childrenOf, findTree, List.find?_cons_of_pos (by simpa using same)]
  rfl

/-- What a method type needs. -/
def MethodType.needed (type : MethodType) : Nat := type.opened + type.missing

theorem MethodType.needed_eq (type : MethodType) : type.needed =
    ((type.typeParams.flatMap TypeParam.types).map Ty.needed).sum + type.body.needed := by
  have : type.needed = (type.types.map Ty.needed).sum := by
    rw [needed, opened, missing, ← List.sum_map_add]
    rfl
  rw [this, types, List.map_cons, List.sum_cons, Nat.add_comm]

theorem sound_methodType {type : MethodType} (rule : tree.rule = .methodType)
    (found : tree.rule.read cursor = some ([tree], next))
    (read : readMethodType excerpt [] tree = .ok type) :
    type.Readable ∧ cursor.Pays type.needed next := by
  obtain ⟨inner, -, -⟩ := Rule.read_children rule rfl found
  obtain ⟨front, middle, back, here, there, children⟩ := read_seq_iff.1 inner
  obtain ⟨chain, rules⟩ := (inOrder signature).chain (by decide) there
  have absent : ∀ tree ∈ back, tree.rule ≠ .typeParams := by
    intro tree member same
    exact absurd (same ▸ rules tree member) (by decide)
  obtain ⟨typeParams, parts, paramsRead, partsRead, rfl⟩ := readMethodType_eq_ok_iff.1 read
  -- with type parameters or without, the rest is read from the trees after them
  have params : readSignatureTrees ([] ++ TypeParam.names typeParams) back = .ok parts ∧
      (∀ param ∈ typeParams, param.Readable []) ∧
      cursor.Pays ((typeParams.flatMap TypeParam.types).map Ty.needed).sum middle := by
    rw [children] at paramsRead partsRead
    rcases read_opt_iff.1 here with here | ⟨-, rfl, rfl⟩
    · obtain ⟨paramsTree, rfl, paramsRule⟩ := Rule.exists_tree here
      rw [List.singleton_append, childrenOf_cons paramsRule] at paramsRead
      obtain ⟨readable, paid⟩ := sound_typeParams paramsRule (by rwa [paramsRule]) paramsRead
      obtain ⟨rest, later, part⟩ := readSignatureTrees_cons_eq_ok_iff.1 partsRead
      cases part with
      | nothing _ => exact ⟨later, readable, paid⟩
      | params same | untyped same | block same | result same =>
          exact absurd (paramsRule.symm.trans same) (by decide)
    · rw [List.nil_append, childrenOf_eq_nil absent] at paramsRead
      obtain rfl := Except.ok.inj paramsRead
      exact ⟨partsRead, nofun, Nat.le_of_eq (Nat.zero_add _)⟩
  obtain ⟨partsRead, readable, paid⟩ := params
  obtain ⟨partsReadable, partsPaid⟩ :=
    sound_signature back (fun other _ => other.sound) chain partsRead
  refine ⟨⟨fun param member => (readable param member).name,
    fun param member => (readable param member).types, ?_⟩, ?_⟩
  · exact partsReadable.proc
  · rw [MethodType.needed_eq, MethodType.body, Ty.needed_proc, ← SignatureParts.needed_eq]
    exact paid.trans (middle.pays_skip.after partsPaid)

/-- A text that is read as a method type has the parentheses that the type needs. -/
theorem MethodType.readable_of_ofString {text : String} {type : MethodType}
    (read : MethodType.ofString text = .ok type) :
    type.Readable ∧ type.needed ≤ opens text.toList := by
  obtain ⟨tree, last, found, means⟩ := MethodType.ofString_eq_ok_iff.1 read
  obtain ⟨children, inner, same⟩ := (Rule.read_phrase_iff rfl).1 found
  obtain ⟨rfl, -⟩ := List.cons.inj same
  obtain ⟨chain, -⟩ := Phrase.chain (by decide) inner
  have all : List.Forall₂ _ (children.filter fun tree => tree.rule = .methodType) [type] :=
    mapM_eq_ok_iff.1 means
  generalize listed : children.filter (fun tree => tree.rule = .methodType) = trees at all
  cases all with
  | @cons method _ trees _ means rest =>
      have member : method ∈ children.filter fun tree => tree.rule = .methodType := by
        rw [listed]
        exact List.mem_cons_self
      obtain ⟨inside, rule⟩ := List.mem_filter.1 member
      obtain ⟨start, next, before, found, after⟩ := chain.exists_between method inside
      obtain ⟨readable, paid⟩ := sound_methodType (by simpa using rule) found means
      refine ⟨readable, ?_⟩
      have total : Cursor.Pays ⟨0, text.toList⟩ type.needed last :=
        before.after (paid.through after)
      exact Nat.le_trans (Nat.le_add_right _ _) total

end Signet

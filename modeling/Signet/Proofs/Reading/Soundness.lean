import Signet.Proofs.Grammar.Alternatives
import Signet.Proofs.Reading.Parts
import Signet.Proofs.Reading.Payment

/-!
# What is read is readable

Whatever type a text is read as is readable, and the text has at least as many parentheses as
the type needs (`ParseTree.sound`). Parentheses are needed where a constructor of the type does not
hold together as tightly as the rule asks that reads it (`Rule.owed`).
-/

namespace Signet

open Text Grammar Phrase

variable {scope : List String} {cursor next : Cursor} {tree : ParseTree} {trees : List ParseTree}

/-! ## What types need -/

/-- The parentheses without which a type cannot be written. -/
def Ty.needed (type : Ty) : Nat := type.opened + type.missing

theorem Ty.needed_mk (layer : Layer Ty) :
    needed ⟨layer⟩ = layer.opened + layer.missing + (layer.parts.map needed).sum := by
  have parts : (layer.parts.map needed).sum =
      (layer.parts.map opened).sum + (layer.parts.map missing).sum := List.sum_map_add
  rw [needed, opened_mk, missing_mk, parts]
  omega

/-- What the parameters of a function need. -/
def Params.needed (params : Params Ty) : Nat :=
  (if params.isEmpty then 0 else 1) + (params.parts.map Ty.needed).sum

/-- What a type needs as a result. -/
def Ty.neededAsResult (type : Ty) : Nat :=
  type.needed + if type.tightness.isLoose then 1 else 0

/-- What a function needs. -/
def Function.needed : Function Ty → Nat
  | .typed params result => params.needed + result.neededAsResult
  | .untyped result => 1 + result.neededAsResult

theorem Ty.needed_proc (function : Function Ty) (block : Option (Block Ty)) :
    needed ⟨.proc function block⟩ =
      function.needed + ((block.map fun block => block.function.needed).getD 0) := by
  have single : ∀ function : Function Ty, function.needed =
      function.opened + (function.paramTypes.map needed).sum + function.result.neededAsResult := by
    intro function
    cases function with
    | typed params result => rfl
    | untyped result => rfl
  rw [needed_mk, single]
  cases block with
  | none =>
      simp only [Layer.opened, Layer.missing, Layer.results, Layer.parts, List.countP_cons,
        Option.map_none, Option.getD_none, Option.toList_none, List.countP_nil, List.append_nil,
        Function.parts_eq, List.map_append, List.sum_append, List.map_cons, List.map_nil,
        List.sum_cons, List.sum_nil, neededAsResult]
      omega
  | some block =>
      simp only [Layer.opened, Layer.missing, Layer.results, Layer.parts, List.countP_cons,
        Option.map_some, Option.getD_some, Option.toList_some, List.countP_nil, Function.parts_eq,
        List.map_append, List.sum_append, List.map_cons, List.map_nil, List.sum_cons,
        List.sum_nil, neededAsResult, single]
      omega

/-- What a rule asks for a type that holds together only so tightly. -/
def Grammar.Rule.owed (rule : Rule) (tightness : Tightness) : Nat :=
  match rule with
  | .typeExpr | .unionType | .procType => 0
  | .intersectionType => if tightness = .union then 1 else 0
  | .optionalType => if tightness.isLoose then 1 else 0
  | _ => if tightness = .closed then 0 else 1

/-- The phrase by which a type of the rule is read. -/
def Grammar.Rule.place (rule : Rule) : Phrase :=
  if rule ∈ [.typeExpr, .unionType, .intersectionType, .optionalType] then call rule
  else primaryType

/-- What the tree means is readable, and it is paid for. -/
def Grammar.ParseTree.Sound (scope : List String) (tree : ParseTree) : Prop :=
  ∀ ⦃cursor next type⦄, tree.rule.place.read cursor = some ([tree], next) →
    readTypeTree scope tree = .ok type →
    type.Everywhere (Layer.Readable scope) ∧
      cursor.Pays (type.needed + tree.rule.owed type.tightness) next

theorem Grammar.ParseTree.Sound.of_rule {rule : Rule} {type : Ty} (sound : tree.Sound scope)
    (same : tree.rule = rule) (found : rule.place.read cursor = some ([tree], next))
    (read : readTypeTree scope tree = .ok type) :
    type.Everywhere (Layer.Readable scope) ∧
      cursor.Pays (type.needed + rule.owed type.tightness) next := by
  subst same
  exact sound found read

/-! ## Lists of types -/

/-- The types in a list are readable and paid for if the trees are sound. -/
theorem sound_types (rule : Rule) {types : List Ty} (place : rule.place = call rule)
    (sound : ∀ tree ∈ trees, tree.Sound scope) (rules : ∀ tree ∈ trees, tree.rule = rule)
    (chain : Chain cursor trees next) (read : readTypeTrees scope trees = .ok types) :
    (∀ type ∈ types, type.Everywhere (Layer.Readable scope)) ∧
      cursor.Pays ((types.map fun type => type.needed + rule.owed type.tightness).sum) next := by
  refine chain.pays _ _ (readTypeTrees_eq_ok_iff.1 read)
    fun tree member type start next means found => ?_
  have same := rules tree member
  exact (sound tree member).of_rule same (by rw [place, ← same]; exact found) means

/-! ## Parameters -/

/-- A token that is read is what was scanned. -/
theorem exists_token {rule : Rule} {scanner : Scanner} (shape : rule.body = .token scanner)
    (rules : tree.rule = rule) (read : tree.rule.read cursor = some ([tree], next)) :
    tree.children = [] ∧ scanner cursor.rest = some next.rest ∧
      cursor.rest = tree.text ++ next.rest := by
  subst rules
  obtain ⟨token, passes, scanned, same⟩ := (Rule.read_token_iff shape).1 read
  obtain ⟨whole, -⟩ := List.cons.inj same
  have text : tree.text = token := by
    rw [whole]
    exact passes.stretch_text
  have children : tree.children = [] := by
    rw [whole]
    rfl
  exact ⟨children, scanned, text ▸ passes.rest_eq⟩

theorem untyped_readable : Ty.untyped.Everywhere (Layer.Readable scope) :=
  Ty.everywhere_mk.2 ⟨trivial, nofun⟩

/-- The parts of a parameter are spelled as such, and its type is readable and paid for. -/
theorem sound_paramParts {parts : ParamParts} (sound : ∀ tree ∈ trees, tree.Sound scope)
    (chain : Chain cursor trees next) (read : readParamParts scope trees = .ok parts) :
    parts.type.Everywhere (Layer.Readable scope) ∧
      (∀ name, parts.name = some name → IsVarName name) ∧
      ((∃ tree ∈ trees, tree.rule = .keywordName) → IsKey parts.key) ∧
      cursor.Pays parts.type.needed next := by
  induction chain generalizing parts with
  | nil passes =>
      rw [readParamParts] at read
      obtain rfl := Except.ok.inj read
      refine ⟨untyped_readable, ?_, ?_, passes.pays⟩
      · rintro name ⟨⟩
      · rintro ⟨_, member, -⟩
        cases member
  | @cons cursor start next last text tree trees passes found chain ih =>
      obtain ⟨here, later⟩ := List.forall_mem_cons.1 sound
      obtain ⟨rest, read, part⟩ := readParamParts_cons_eq_ok_iff.1 read
      obtain ⟨readable, named, keyed, paid⟩ := ih later read
      have later := passes.pays.after ((Rule.pays found).after paid)
      -- Unless this tree is a keyword name, the one that there is stands behind it.
      have keyed : tree.rule ≠ .keywordName →
          (∃ other ∈ tree :: trees, other.rule = .keywordName) → IsKey rest.key := by
        rintro different ⟨other, member, same⟩
        refine keyed ⟨other, (List.mem_cons.1 member).resolve_left ?_, same⟩
        rintro rfl
        exact different same
      cases part with
      | optional same => exact ⟨readable, named, keyed (by rw [same]; decide), later⟩
      | nothing other =>
          refine ⟨readable, named, keyed fun same => other ?_, later⟩
          rw [same]
          decide
      | key same =>
          obtain ⟨-, scanned, whole⟩ := exists_token rfl same found
          obtain ⟨name, key, spelled⟩ := exists_keywordName scanned
          have text := List.append_cancel_right (whole.symm.trans spelled)
          refine ⟨readable, named, fun _ => ?_, later⟩
          rwa [ParseTree.string, text, String.ofList_toList]
      | @type type same means =>
          obtain ⟨typeReadable, typePaid⟩ := here.of_rule same (same ▸ found) means
          exact ⟨typeReadable, named, keyed (by rw [same]; decide),
            passes.pays.after (typePaid.through chain.pays_nothing)⟩
      | name same =>
          obtain ⟨-, scanned, whole⟩ := exists_token rfl same found
          obtain ⟨name, variable_, spelled, -⟩ := exists_varName scanned
          have text := List.append_cancel_right (whole.symm.trans spelled)
          refine ⟨readable, fun other equal => ?_, keyed (by rw [same]; decide), later⟩
          obtain rfl := Option.some.inj equal
          rwa [ParseTree.string, text, String.ofList_toList]

/-- A parameter is spelled as such, and its type is readable and paid for. -/
theorem sound_param {item : ParamItem} (sound : ∀ part ∈ tree.children, part.Sound scope)
    (found : tree.rule.read cursor = some ([tree], next)) (means : tree.IsParam scope item) :
    (item.Spelled ∧ item.2.type.Everywhere (Layer.Readable scope)) ∧
      cursor.Pays item.2.type.needed next := by
  obtain ⟨role, parts⟩ := item
  obtain ⟨rules, read⟩ := means
  have chain : Chain cursor tree.children next := by
    cases rule : tree.rule with
    | requiredParam | optionalParam | restParam | keywordParam | restKeywordsParam =>
        exact (Rule.read_children rule rfl found).2.1
    | _ =>
        rw [rule] at rules
        cases rules
  obtain ⟨readable, named, keyed, paid⟩ := sound_paramParts sound chain read
  refine ⟨⟨⟨named, fun same => keyed ?_⟩, readable⟩, paid⟩
  have rule : tree.rule = .keywordParam := by
    obtain rfl : role = .keyword := same
    cases rule : tree.rule <;> rw [rule] at rules <;> first | rfl | cases rules
  have inner := (Rule.read_children rule rfl found).1
  obtain ⟨front, _, back, -, inner, whole⟩ := read_seq_iff.1 inner
  obtain ⟨key, _, later, here, -, rfl⟩ := read_seq_iff.1 inner
  obtain ⟨tree, rfl, same⟩ := Rule.exists_tree here
  exact ⟨tree, by simp [whole], same⟩

/-- A parameter list is regular, and its types are readable and paid for. -/
theorem sound_params {params : Params Ty} (rule : tree.rule = .params)
    (sound : ∀ param ∈ tree.children, ∀ part ∈ param.children, part.Sound scope)
    (found : tree.rule.read cursor = some ([tree], next))
    (read : readParamTrees scope {} tree.children = .ok params) :
    params.Regular ∧ (∀ type ∈ params.parts, type.Everywhere (Layer.Readable scope)) ∧
      cursor.Pays params.needed next := by
  obtain ⟨items, all, added⟩ := readParamTrees_eq_ok_iff.1 read
  obtain ⟨inner, -, -⟩ := Rule.read_children rule rfl found
  obtain ⟨nothing, start, more, front, inner, whole⟩ := read_seq_iff.1 inner
  obtain ⟨list, last, nothing', middle, back, rfl⟩ := read_seq_iff.1 inner
  obtain ⟨rfl, opened⟩ := read_mark_iff.1 front
  obtain ⟨rfl, closed⟩ := read_mark_iff.1 back
  simp only [List.nil_append, List.append_nil] at whole
  obtain ⟨chain, rules⟩ := Phrase.chain (by decide) middle
  rw [whole] at all sound
  obtain ⟨good, paid⟩ := chain.pays
    (fun item : ParamItem => item.Spelled ∧ item.2.type.Everywhere (Layer.Readable scope))
    (fun item => item.2.type.needed) all
    fun tree member item start next means found => sound_param (sound tree member) found means
  obtain ⟨regular, perm⟩ := Params.built_of_addAll Params.regular_empty added
    fun item member => (good item member).1
  -- The types of the parts are those of the items in another order, so they need the same.
  have types : params.parts.Perm (items.map (·.2.type)) := by
    rw [params.parts_eq_map_every]
    have := perm.map (·.type)
    rwa [List.map_append, List.map_map] at this
  have total : (params.parts.map Ty.needed).sum = (items.map (·.2.type.needed)).sum := by
    rw [(types.map Ty.needed).sum_eq, List.map_map]
    rfl
  refine ⟨regular, fun type member => ?_, ?_⟩
  · obtain ⟨item, inside, rfl⟩ := List.mem_map.1 (types.mem_iff.1 member)
    exact (good item inside).2
  · have rest := (last.pays_skip.after closed.pays)
    rcases read_opt_iff.1 middle with list_read | ⟨-, rfl, -⟩
    · have open_ := opened.pays_open (exists_start (by decide) (by decide)
        (fun rest => (param_refuses_closing rest).seq) list_read)
      refine ((open_.trans paid).through rest).mono ?_
      rw [Params.needed, total]
      split <;> omega
    · cases all
      obtain rfl := Option.some.inj added
      exact Rule.pays found

/-! ## Functions -/

/-- The function can be read in a scope. -/
def Function.Readable (scope : List String) (function : Function Ty) : Prop :=
  (∀ params ∈ function.params?.toList, params.Regular) ∧
    ∀ type ∈ function.parts, type.Everywhere (Layer.Readable scope)

namespace SignatureParts

variable {parts : SignatureParts}

/-- The parts of a function can be read in a scope. -/
structure Readable (scope : List String) (parts : SignatureParts) : Prop where
  regular : parts.params.Regular
  params : ∀ type ∈ parts.params.parts, type.Everywhere (Layer.Readable scope)
  block : ∀ block ∈ parts.block, block.function.Readable scope
  result : parts.result.Everywhere (Layer.Readable scope)

/-- What the parts of a function need. -/
def needed (parts : SignatureParts) : Nat :=
  (if parts.untyped then 1 else parts.params.needed) +
    ((parts.block.map fun block => block.function.needed).getD 0) + parts.result.neededAsResult

theorem needed_eq (parts : SignatureParts) : parts.needed =
    parts.function.needed + ((parts.block.map fun block => block.function.needed).getD 0) := by
  obtain ⟨params, untyped, block, result⟩ := parts
  cases untyped <;> simp [needed, function, Function.needed] <;> omega

theorem Readable.function (readable : parts.Readable scope) : parts.function.Readable scope := by
  obtain ⟨params, untyped, block, result⟩ := parts
  cases untyped with
  | true =>
      refine ⟨nofun, fun type member => ?_⟩
      obtain rfl := List.mem_singleton.1 member
      exact readable.result
  | false =>
      refine ⟨fun other member => ?_, fun type member => ?_⟩
      · obtain rfl := List.mem_singleton.1 member
        exact readable.regular
      · rcases List.mem_append.1 member with member | member
        · exact readable.params type member
        · obtain rfl := List.mem_singleton.1 member
          exact readable.result

theorem Readable.proc (readable : parts.Readable scope) :
    Ty.Everywhere (Layer.Readable scope) ⟨.proc parts.function parts.block⟩ := by
  have function := readable.function
  refine Ty.everywhere_mk.2 ⟨fun params member => ?_, fun part member => ?_⟩
  · rcases List.mem_append.1 member with member | member
    · exact function.1 params member
    · obtain ⟨block, same, inside⟩ := Option.bind_eq_some_iff.1 (Option.mem_toList.1 member)
      exact (readable.block block same).1 params (Option.mem_toList.2 inside)
  · rcases List.mem_append.1 member with member | member
    · exact function.2 part member
    · cases same : parts.block with
      | none => simp [same] at member
      | some block =>
          rw [same] at member
          exact (readable.block block same).2 part member

end SignatureParts

theorem sizeOf_children_lt (tree : ParseTree) : sizeOf tree.children < sizeOf tree := by
  obtain ⟨rule, stretch, children⟩ := tree
  simp [ParseTree.children]

theorem untypedParams_pays (rule : tree.rule = .untypedParams)
    (found : tree.rule.read cursor = some ([tree], next)) : cursor.Pays 1 next := by
  obtain ⟨inner, -, -⟩ := Rule.read_children rule rfl found
  obtain ⟨_, start, _, front, inner, -⟩ := read_seq_iff.1 inner
  obtain ⟨_, last, _, middle, back, -⟩ := read_seq_iff.1 inner
  obtain ⟨-, opened⟩ := read_mark_iff.1 front
  obtain ⟨-, question⟩ := read_mark_iff.1 middle
  obtain ⟨-, closed⟩ := read_mark_iff.1 back
  have open_ := opened.pays_open ⟨'?', last.rest, question.rest_eq, by decide⟩
  exact open_.through (question.pays.after (last.pays_skip.after closed.pays))

/-- The parts of a function are readable and paid for if smaller trees are sound. -/
theorem sound_signature {cursor next : Cursor} {parts : SignatureParts} (trees : List ParseTree)
    (sound : ∀ tree : ParseTree, sizeOf tree < sizeOf trees → tree.Sound scope)
    (chain : Chain cursor trees next) (read : readSignatureTrees scope trees = .ok parts) :
    parts.Readable scope ∧ cursor.Pays parts.needed next := by
  -- What the first tree pays comes on top of what the trees behind it pay. The trees in a block are
  -- a list of their own, of smaller size.
  cases chain with
  | nil passes =>
      rw [readSignatureTrees] at read
      obtain rfl := Except.ok.inj read
      refine ⟨⟨Params.regular_empty, List.forall_mem_nil _, fun block same => ?_, untyped_readable⟩,
        passes.pays⟩
      cases same
  | @cons _ start middle _ text tree trees passes found chain =>
      obtain ⟨rest, later, part⟩ := readSignatureTrees_cons_eq_ok_iff.1 read
      have children := sizeOf_children_lt tree
      have size : sizeOf (tree :: trees) = 1 + sizeOf tree + sizeOf trees := by simp
      obtain ⟨readable, paid⟩ := sound_signature trees
        (fun other less => sound other (by omega)) chain later
      cases part with
      | nothing other => exact ⟨readable, passes.pays.after ((Rule.pays found).after paid)⟩
      | @params params rule means =>
          obtain ⟨regular, types, paidParams⟩ := sound_params rule (fun param inside part deep => by
            have := List.sizeOf_lt_of_mem inside
            have := List.sizeOf_lt_of_mem deep
            have := sizeOf_children_lt param
            exact sound part (by omega)) found means
          refine ⟨⟨regular, types, readable.block, readable.result⟩,
            passes.pays.after ((paidParams.trans paid).mono ?_)⟩
          simp only [SignatureParts.needed]
          split <;> omega
      | untyped rule =>
          refine ⟨⟨readable.regular, readable.params, readable.block, readable.result⟩,
            passes.pays.after (((untypedParams_pays rule found).trans paid).mono ?_)⟩
          simp only [SignatureParts.needed, if_true]
          split <;> omega
      | @block inner rule means =>
          obtain ⟨-, inside, -⟩ := Rule.read_children rule rfl found
          obtain ⟨innerReadable, innerPaid⟩ := sound_signature tree.children
            (fun other less => sound other (by omega)) inside means
          refine ⟨⟨readable.regular, readable.params, fun block same => ?_, readable.result⟩,
            passes.pays.after ((innerPaid.trans paid).mono ?_)⟩
          · obtain rfl := Option.some.inj same
            exact innerReadable.function
          · have := inner.needed_eq
            simp only [SignatureParts.needed, Option.map_some, Option.getD_some] at *
            omega
      | @result result rule means =>
          obtain ⟨resultReadable, resultPaid⟩ :=
            (sound tree (by omega)).of_rule rule (rule ▸ found) means
          refine ⟨⟨readable.regular, readable.params, readable.block, resultReadable⟩,
            passes.pays.after ((resultPaid.trans paid).mono ?_)⟩
          simp only [SignatureParts.needed, Ty.neededAsResult, Rule.owed]
          omega
termination_by sizeOf trees

/-! ## Levels of types -/

/-- Where an optional type has been read, no further mark follows. -/
theorem optionalMark_refused {start : Cursor}
    (read : Rule.optionalType.read start = some (trees, next)) :
    Rule.optionalMark.read next.skip = none := by
  obtain ⟨children, inner, -⟩ := (Rule.read_phrase_iff rfl).1 read
  obtain ⟨front, middle, back, -, marks, -⟩ := read_seq_iff.1 inner
  have stop : ∀ {cursor last trees}, Repeats (call .optionalMark).read cursor trees last →
      Rule.optionalMark.read last.skip = none := by
    intro cursor last trees repeats
    induction repeats with
    | stop none => exact none
    | step _ _ ih => exact ih
  rcases (read_many_iff (by decide) (by decide)).1 marks with ⟨none, -, rfl⟩ | found
  · rw [Cursor.skip_skip]
    exact none
  · obtain ⟨_, _, _, -, repeats, -⟩ := found
    exact stop repeats

theorem optionalMark_refused_of_procType {start : Cursor}
    (read : Rule.procType.read start = some (trees, next)) :
    Rule.optionalMark.read next.skip = none := by
  obtain ⟨children, inner, -⟩ := (Rule.read_phrase_iff rfl).1 read
  obtain ⟨_, _, _, -, inner, -⟩ := read_seq_iff.1 inner
  obtain ⟨_, _, _, -, inner, -⟩ := read_seq_iff.1 inner
  obtain ⟨_, _, _, -, inner, -⟩ := read_seq_iff.1 inner
  obtain ⟨_, _, _, -, inner, -⟩ := read_seq_iff.1 inner
  exact optionalMark_refused inner

/-- Several members of a union are readable as a union, and a single one is what it is. -/
theorem sound_union {types : List Ty} (nonempty : types ≠ [])
    (readable : ∀ type ∈ types, type.Everywhere (Layer.Readable scope)) :
    (combine .union types).Everywhere (Layer.Readable scope) ∧ (combine .union types).needed ≤
      (types.map fun type => type.needed + Rule.owed .intersectionType type.tightness).sum := by
  match types with
  | [] => exact (nonempty rfl).elim
  | [type] =>
      refine ⟨readable type List.mem_cons_self, ?_⟩
      simp only [combine, List.map_cons, List.map_nil, List.sum_cons, List.sum_nil]
      omega
  | first :: second :: types =>
      refine ⟨Ty.everywhere_mk.2 ⟨?_, readable⟩, ?_⟩
      · show 2 ≤ types.length + 1 + 1
        omega
      · rw [combine, Ty.needed_mk, List.sum_map_add]
        · show 0 + 0 + ((first :: second :: types).map Ty.needed).sum ≤ _
          omega
        · nofun

theorem sound_intersection {types : List Ty} (nonempty : types ≠ [])
    (readable : ∀ type ∈ types, type.Everywhere (Layer.Readable scope)) :
    (combine .intersection types).Everywhere (Layer.Readable scope) ∧
      (combine .intersection types).needed +
        Rule.owed .intersectionType (combine .intersection types).tightness ≤
      (types.map fun type => type.needed + Rule.owed .optionalType type.tightness).sum := by
  -- A member owes at least as much as the whole would owe for it.
  have owed : ∀ type : Ty, Rule.owed .intersectionType type.tightness ≤
      Rule.owed .optionalType type.tightness := by
    intro type
    cases type.tightness <;> decide
  match types with
  | [] => exact (nonempty rfl).elim
  | [type] =>
      refine ⟨readable type List.mem_cons_self, ?_⟩
      have := owed type
      show type.needed + Rule.owed .intersectionType type.tightness ≤
        type.needed + Rule.owed .optionalType type.tightness + 0
      omega
  | first :: second :: types =>
      refine ⟨Ty.everywhere_mk.2 ⟨?_, readable⟩, ?_⟩
      · show 2 ≤ types.length + 1 + 1
        omega
      · have members : ∀ types : List Ty,
            (types.map fun type => Rule.owed .intersectionType type.tightness).sum ≤
              (types.map fun type => Rule.owed .optionalType type.tightness).sum := by
          intro types
          induction types with
          | nil => exact Nat.le_refl 0
          | cons type types ih => exact Nat.add_le_add (owed type) ih
        have := members (first :: second :: types)
        rw [combine, Ty.needed_mk, List.sum_map_add]
        · show ((first :: second :: types).map fun type =>
              Rule.owed .intersectionType type.tightness).sum + 0 +
            ((first :: second :: types).map Ty.needed).sum + 0 ≤ _
          omega
        · nofun

/-- A type with marks is readable, and parentheses around it are needed once at most. -/
theorem sound_markOptional {type : Ty} (readable : type.Everywhere (Layer.Readable scope))
    (marks : List ParseTree) :
    (markOptional type marks).Everywhere (Layer.Readable scope) ∧
      (type.tightness = .closed → (markOptional type marks).tightness = .closed ∧
        (markOptional type marks).needed = type.needed) ∧
      (marks ≠ [] → (markOptional type marks).tightness = .closed ∧
        (markOptional type marks).needed =
          type.needed + if type.tightness = .closed then 0 else 1) := by
  induction marks generalizing type with
  | nil => exact ⟨readable, fun closed => ⟨closed, rfl⟩, fun none => (none rfl).elim⟩
  | cons mark marks ih =>
      have optional : Ty.Everywhere (Layer.Readable scope) ⟨.optional type⟩ :=
        Ty.everywhere_mk.2 ⟨trivial, by simpa [Layer.parts] using readable⟩
      obtain ⟨all, once, -⟩ := ih optional
      obtain ⟨closed, needed⟩ := once rfl
      have whole : Ty.needed ⟨.optional type⟩ =
          type.needed + if type.tightness = .closed then 0 else 1 := by
        rw [Ty.needed_mk]
        simp [Layer.opened, Layer.missing, Layer.results, Layer.parts, Nat.add_comm]
      refine ⟨all, fun here => ⟨closed, ?_⟩, fun _ => ⟨closed, needed.trans whole⟩⟩
      rw [if_pos here] at whole
      exact needed.trans whole

/-- Every rule but that of a proc is asked for parentheses around what is not closed. -/
theorem place_and_owed {rule : Rule} (member : rule ∈ primaryRules) :
    rule.place = primaryType ∧ (rule = .procType ∨
      ∀ tightness, rule.owed tightness = if tightness = .closed then 0 else 1) := by
  simp only [List.mem_cons, List.not_mem_nil, or_false] at member
  rcases member with rfl | rfl | rfl | rfl | rfl | rfl | rfl | rfl | rfl | rfl | rfl
  case inr.inr.inl => exact ⟨rfl, .inl rfl⟩
  all_goals exact ⟨rfl, .inr fun _ => rfl⟩

theorem sound_applyName {kind : NameKind} {name : TypeName} (spells : name.Spells kind)
    {types : List Ty} (readable : ∀ type ∈ types, type.Everywhere (Layer.Readable scope)) :
    (applyName scope kind name types).Everywhere (Layer.Readable scope) ∧
      (applyName scope kind name types).needed = (types.map Ty.needed).sum ∧
      (applyName scope kind name types).tightness = .closed := by
  have named : (kind = .ofClass → types = [] → name.isSimple = true → name.base ∉ scope) →
      Ty.Everywhere (Layer.Readable scope) ⟨.named kind name types⟩ ∧
        Ty.needed ⟨.named kind name types⟩ = (types.map Ty.needed).sum ∧
        Ty.tightness ⟨.named kind name types⟩ = .closed := by
    intro free
    refine ⟨Ty.everywhere_mk.2 ⟨⟨spells, free⟩, readable⟩, ?_, rfl⟩
    rw [Ty.needed_mk]
    exact Nat.zero_add _
  -- Only a simple class name without arguments can be a variable; any other name is kept.
  rw [applyName]
  unfold Ty.bindLayer
  split
  · rename_i bare same
    obtain ⟨rfl, rfl, rfl⟩ := Layer.named.inj same
    split
    · rename_i bound
      rw [Bool.and_eq_true] at bound
      refine ⟨Ty.everywhere_mk.2 ⟨⟨by simpa using bound.2, spells.2⟩, nofun⟩, ?_, rfl⟩
      rw [Ty.needed_mk]
      rfl
    · rename_i unbound
      refine named fun _ _ simple member => unbound ?_
      rw [simple]
      simpa using member
  · rename_i other
    refine named fun class_ none _ => ?_
    subst class_ none
    exact (other name rfl).elim

/-- A token that is a type by itself is a base type or a literal. -/
theorem exists_atom {type : Ty} (read : readAtom tree = .ok type) :
    ∃ layer : Layer Ty, type = ⟨layer⟩ ∧
      ((∃ keyword, layer = .base keyword) ∨ ∃ value, layer = .literal value) := by
  unfold readAtom at read
  split at read
  · split at read
    · obtain rfl := Except.ok.inj read
      exact ⟨_, rfl, .inl ⟨_, rfl⟩⟩
    · cases read
  · obtain rfl := Except.ok.inj read
    exact ⟨_, rfl, .inr ⟨_, rfl⟩⟩
  · obtain rfl := Except.ok.inj read
    exact ⟨_, rfl, .inr ⟨_, rfl⟩⟩
  · unfold readInteger at read
    dsimp only at read
    split at read
    · obtain rfl := Except.ok.inj read
      exact ⟨_, rfl, .inr ⟨_, rfl⟩⟩
    · cases read
  · obtain rfl := Except.ok.inj read
    exact ⟨_, rfl, .inr ⟨_, rfl⟩⟩
  · cases read

theorem sound_atom {type : Ty} (read : readAtom tree = .ok type) :
    type.Everywhere (Layer.Readable scope) ∧ type.needed = 0 ∧ type.tightness = .closed := by
  obtain ⟨layer, rfl, ⟨keyword, rfl⟩ | ⟨value, rfl⟩⟩ := exists_atom read
  · exact ⟨Ty.everywhere_mk.2 ⟨trivial, nofun⟩, by rw [Ty.needed_mk]; rfl, rfl⟩
  · exact ⟨Ty.everywhere_mk.2 ⟨trivial, nofun⟩, by rw [Ty.needed_mk]; rfl, rfl⟩

/-! ## One rule at a time

In what follows the trees inside a tree are sound. -/

section Rules

variable {type : Ty} (smaller : ∀ other : ParseTree, sizeOf other < sizeOf tree → other.Sound scope)

theorem mem_children_lt {child : ParseTree} (member : child ∈ tree.children) :
    sizeOf child < sizeOf tree :=
  Nat.lt_trans (List.sizeOf_lt_of_mem member) (sizeOf_children_lt tree)

/-- What is read with signs between has members. -/
theorem types_nonempty {rule : Rule} {sign : List Char} {types : List Ty}
    (inner : (separated (call rule) sign).read cursor = some (tree.children, next))
    (read : readTypeTrees scope tree.children = .ok types) : types ≠ [] := by
  obtain ⟨front, _, back, here, -, whole⟩ := read_seq_iff.1 inner
  obtain ⟨child, rfl, -⟩ := Rule.exists_tree here
  rintro rfl
  have length := (readTypeTrees_eq_ok_iff.1 read).length_eq
  rw [whole] at length
  cases length

include smaller

theorem sound_typeExpr (rule : tree.rule = .typeExpr)
    (found : tree.rule.read cursor = some ([tree], next))
    (read : readTypeTree scope tree = .ok type) :
    type.Everywhere (Layer.Readable scope) ∧ cursor.Pays type.needed next := by
  obtain ⟨inner, -, -⟩ := Rule.read_children rule rfl found
  obtain ⟨child, children, same⟩ := Rule.exists_tree inner
  have sound := smaller child (mem_children_lt (by simp [children]))
  rw [readTypeTree_typeExpr rule children] at read
  rw [children] at inner
  exact sound.of_rule same inner read

theorem sound_unionType (rule : tree.rule = .unionType)
    (found : tree.rule.read cursor = some ([tree], next))
    (read : readTypeTree scope tree = .ok type) :
    type.Everywhere (Layer.Readable scope) ∧ cursor.Pays type.needed next := by
  obtain ⟨inner, chain, rules⟩ := Rule.read_children rule rfl found
  rw [readTypeTree_unionType rule, bind_eq_ok_iff] at read
  obtain ⟨types, read, same⟩ := read
  obtain rfl := Except.ok.inj same
  obtain ⟨readable, paid⟩ := sound_types .intersectionType rfl
    (fun child member => smaller child (mem_children_lt member))
    (fun child member => by simpa [separated, calls] using rules child member) chain read
  obtain ⟨whole, enough⟩ := sound_union (types_nonempty inner read) readable
  exact ⟨whole, paid.mono enough⟩

theorem sound_intersectionType (rule : tree.rule = .intersectionType)
    (found : tree.rule.read cursor = some ([tree], next))
    (read : readTypeTree scope tree = .ok type) :
    type.Everywhere (Layer.Readable scope) ∧
      cursor.Pays (type.needed + Rule.owed .intersectionType type.tightness) next := by
  obtain ⟨inner, chain, rules⟩ := Rule.read_children rule rfl found
  rw [readTypeTree_intersectionType rule, bind_eq_ok_iff] at read
  obtain ⟨types, read, same⟩ := read
  obtain rfl := Except.ok.inj same
  obtain ⟨readable, paid⟩ := sound_types .optionalType rfl
    (fun child member => smaller child (mem_children_lt member))
    (fun child member => by simpa [separated, calls] using rules child member) chain read
  obtain ⟨whole, enough⟩ := sound_intersection (types_nonempty inner read) readable
  exact ⟨whole, paid.mono enough⟩

theorem sound_optionalType (rule : tree.rule = .optionalType)
    (found : tree.rule.read cursor = some ([tree], next))
    (read : readTypeTree scope tree = .ok type) :
    type.Everywhere (Layer.Readable scope) ∧
      cursor.Pays (type.needed + Rule.owed .optionalType type.tightness) next := by
  obtain ⟨inner, -, -⟩ := Rule.read_children rule rfl found
  obtain ⟨front, middle, marks, here, there, children⟩ := read_seq_iff.1 inner
  obtain ⟨child, rfl, member, childRead, -⟩ := exists_read_oneOf here
  obtain ⟨place, owed⟩ := place_and_owed member
  have rest := middle.pays_skip.after (Phrase.chain (by decide) there).1.pays_nothing
  have sound := smaller child (mem_children_lt (by simp [children]))
  rw [List.singleton_append] at children
  rw [readTypeTree_optionalType rule children, bind_eq_ok_iff] at read
  obtain ⟨inside, read, same⟩ := read
  obtain rfl := Except.ok.inj same
  obtain ⟨readable, paid⟩ := sound (place ▸ here) read
  have paid := paid.through rest
  obtain ⟨whole, -, marked⟩ := sound_markOptional readable marks
  refine ⟨whole, paid.mono ?_⟩
  -- A proc ends with its result, which takes all the marks that follow.
  have marked_eq : marks ≠ [] → child.rule ≠ .procType := by
    rintro nonempty proc
    rw [proc] at childRead
    have refused := optionalMark_refused_of_procType childRead
    rcases (read_many_iff (by decide) (by decide)).1 there with ⟨-, none, -⟩ | ⟨_, _, _, mark, -⟩
    · exact nonempty none
    · exact nomatch refused.symm.trans mark
  cases marks with
  | nil =>
      refine Nat.add_le_add_left ?_ _
      rcases owed with proc | owed
      · obtain ⟨parts, -, rfl⟩ := (readTypeTree_proc_eq_ok_iff proc).1 read
        rw [proc]
        exact Nat.le_refl 0
      · rw [owed]
        show Rule.owed .optionalType inside.tightness ≤ _
        cases inside.tightness <;> decide
  | cons mark marks =>
      obtain ⟨closed, needed⟩ := marked (List.cons_ne_nil _ _)
      rw [owed.resolve_left (marked_eq (List.cons_ne_nil _ _)), needed, closed]
      exact Nat.le_refl _

theorem sound_parenType (rule : tree.rule = .parenType)
    (found : tree.rule.read cursor = some ([tree], next))
    (read : readTypeTree scope tree = .ok type) :
    type.Everywhere (Layer.Readable scope) ∧ cursor.Pays (type.needed + 1) next := by
  obtain ⟨inner, -, -⟩ := Rule.read_children rule rfl found
  obtain ⟨_, start, _, front, inner, children⟩ := read_seq_iff.1 inner
  obtain ⟨_, last, _, middle, back, rfl⟩ := read_seq_iff.1 inner
  obtain ⟨rfl, opened⟩ := read_mark_iff.1 front
  obtain ⟨rfl, closed⟩ := read_mark_iff.1 back
  obtain ⟨child, rfl, same⟩ := Rule.exists_tree middle
  simp only [List.nil_append, List.append_nil] at children
  have open_ := opened.pays_open (exists_start (by decide) (by decide)
    (typeExpr_refuses_closing (.inl rfl)) middle)
  rw [readTypeTree_parenType rule children] at read
  obtain ⟨readable, paid⟩ :=
    (smaller child (mem_children_lt (by simp [children]))).of_rule same middle read
  refine ⟨readable, ((open_.trans paid).through (last.pays_skip.after closed.pays)).mono ?_⟩
  show type.needed + 1 ≤ 1 + (type.needed + 0)
  omega

theorem sound_tupleType (rule : tree.rule = .tupleType)
    (found : tree.rule.read cursor = some ([tree], next))
    (read : readTypeTree scope tree = .ok type) :
    type.Everywhere (Layer.Readable scope) ∧ cursor.Pays type.needed next ∧
      type.tightness = .closed := by
  obtain ⟨-, chain, rules⟩ := Rule.read_children rule rfl found
  rw [readTypeTree_tupleType rule, bind_eq_ok_iff] at read
  obtain ⟨types, read, same⟩ := read
  obtain rfl := Except.ok.inj same
  obtain ⟨readable, paid⟩ := sound_types .typeExpr rfl
    (fun child member => smaller child (mem_children_lt member))
    (fun child member => by simpa [inOrder, separated, calls] using rules child member) chain read
  refine ⟨Ty.everywhere_mk.2 ⟨trivial, readable⟩, paid.mono ?_, rfl⟩
  rw [Ty.needed_mk]
  show 0 + 0 + (types.map Ty.needed).sum ≤ (types.map Ty.needed).sum
  omega

theorem sound_procType (rule : tree.rule = .procType)
    (found : tree.rule.read cursor = some ([tree], next))
    (read : readTypeTree scope tree = .ok type) :
    type.Everywhere (Layer.Readable scope) ∧ cursor.Pays type.needed next := by
  obtain ⟨-, chain, -⟩ := Rule.read_children rule rfl found
  obtain ⟨parts, means, rfl⟩ := (readTypeTree_proc_eq_ok_iff rule).1 read
  obtain ⟨readable, paid⟩ := sound_signature tree.children
    (fun other less => smaller other (Nat.lt_trans less (sizeOf_children_lt tree))) chain means
  refine ⟨readable.proc, ?_⟩
  rw [Ty.needed_proc, ← SignatureParts.needed_eq]
  exact paid

theorem sound_name (kind : NameKind) (rule : tree.rule = kind.rule)
    (found : tree.rule.read cursor = some ([tree], next))
    (spelled : ∀ rest, kind.scanner cursor.rest = some rest →
      ∃ name : TypeName, name.Spells kind ∧ cursor.rest = name.print ++ rest)
    (read : readTypeTree scope tree = .ok type) :
    type.Everywhere (Layer.Readable scope) ∧ cursor.Pays type.needed next ∧
      type.tightness = .closed := by
  obtain ⟨inner, -, -⟩ := Rule.read_children rule kind.body_rule found
  obtain ⟨front, middle, back, here, there, children⟩ := read_seq_iff.1 inner
  obtain ⟨nameTree, rfl, nameRule⟩ := Rule.exists_tree here
  obtain ⟨-, scanned, text⟩ := exists_token kind.body_nameRule nameRule (by rwa [nameRule])
  obtain ⟨name, spells, written⟩ := spelled _ scanned
  have same : TypeName.ofChars nameTree.text = name := by
    rw [List.append_cancel_right (text.symm.trans written), spells.ofChars_print]
  have nothing : cursor.Pays 0 middle := Rule.pays here
  -- There are no parentheses in a name, so only its arguments pay.
  rcases read_opt_iff.1 there with args | ⟨-, rfl, rfl⟩
  · obtain ⟨argsTree, rfl, argsRule⟩ := Rule.exists_tree args
    rw [readTypeTree_applied rule children argsRule, bind_eq_ok_iff, same] at read
    obtain ⟨types, read, equal⟩ := read
    obtain rfl := Except.ok.inj equal
    obtain ⟨-, chain, rules⟩ := Rule.read_children argsRule rfl (by rwa [argsRule])
    have inside : argsTree ∈ tree.children := by simp [children]
    have sound : ∀ child ∈ argsTree.children, child.Sound scope := fun child member =>
      smaller child (Nat.lt_trans (mem_children_lt member) (mem_children_lt inside))
    obtain ⟨readable, paid⟩ := sound_types .typeExpr rfl sound
      (fun child member => by simpa [inOrder, separated, calls] using rules child member) chain read
    obtain ⟨all, needed, closed⟩ := sound_applyName spells readable
    refine ⟨all, (nothing.after (middle.pays_skip.after paid)).mono ?_, closed⟩
    rw [needed]
    exact Nat.le_refl _
  · rw [readTypeTree_name rule (by simpa using children), same] at read
    obtain rfl := Except.ok.inj read
    have none : ∀ type ∈ ([] : List Ty), type.Everywhere (Layer.Readable scope) :=
      List.forall_mem_nil _
    obtain ⟨all, needed, closed⟩ := sound_applyName spells none
    refine ⟨all, (nothing.through middle.pays_skip).mono ?_, closed⟩
    rw [needed]
    exact Nat.le_refl _

end Rules

theorem scanner_eq_none (rule : Rule) {scanner : Scanner} (shape : rule.body = .token scanner)
    (refused : rule.read cursor = none) : scanner cursor.rest = none := by
  rw [rule.read_eq, shape] at refused
  cases found : scanner cursor.rest with
  | none => rfl
  | some rest =>
      simp only [Body.readWith, found] at refused
      cases refused

/-- If a name with arguments is refused, so is the name. -/
theorem NameKind.scanner_eq_none (kind : NameKind) (refused : kind.rule.read cursor = none) :
    kind.scanner cursor.rest = none := by
  refine Signet.scanner_eq_none kind.nameRule kind.body_nameRule ?_
  cases found : kind.nameRule.read cursor with
  | none => rfl
  | some result =>
      obtain ⟨trees, middle⟩ := result
      have applied : ∃ trees last,
          (applied (call kind.nameRule)).read cursor = some (trees, last) := by
        cases args : Rule.typeArgs.read middle.skip with
        | none =>
            exact ⟨_, _, read_seq_iff.2 ⟨trees, middle, [], found,
              read_opt_iff.2 (.inr ⟨args, rfl, rfl⟩), rfl⟩⟩
        | some result =>
            exact ⟨_, _, read_seq_iff.2 ⟨trees, middle, result.1, found,
              read_opt_iff.2 (.inl args), rfl⟩⟩
      obtain ⟨children, last, read⟩ := applied
      exact nomatch refused.symm.trans ((Rule.read_phrase_iff kind.body_rule).2 ⟨_, read, rfl⟩)

/-- What is read as a name is spelled as one; an alias is what is neither a class nor an interface
nor a word. -/
theorem exists_spelled {kind : NameKind} (rule : tree.rule = kind.rule)
    (before : ∀ other ∈ primaryRules.takeWhile (· ≠ tree.rule), other.read cursor = none)
    {rest : List Char}
    (scanned : kind.scanner cursor.rest = some rest) :
    ∃ name : TypeName, name.Spells kind ∧ cursor.rest = name.print ++ rest := by
  rw [rule] at before
  cases kind with
  | ofClass => exact exists_className scanned
  | ofInterface => exact exists_interfaceName scanned
  | ofAlias =>
      refine exists_aliasName scanned (NameKind.ofClass.scanner_eq_none ?_)
        (NameKind.ofInterface.scanner_eq_none ?_) (scanner_eq_none .baseType rfl ?_)
        (scanner_eq_none .booleanLiteral rfl ?_)
      · exact before .classType (by decide)
      · exact before .interfaceType (by decide)
      · exact before .baseType (by decide)
      · exact before .booleanLiteral (by decide)

/-- Whatever is read as a type is readable and paid for. -/
theorem Grammar.ParseTree.sound (tree : ParseTree) : tree.Sound scope := by
  intro cursor next type found read
  have smaller : ∀ other : ParseTree, sizeOf other < sizeOf tree → other.Sound scope :=
    fun other _ => other.sound
  by_cases level : tree.rule ∈ [Rule.typeExpr, .unionType, .intersectionType, .optionalType]
  · rw [Rule.place, if_pos level] at found
    simp only [List.mem_cons, List.not_mem_nil, or_false] at level
    rcases level with rule | rule | rule | rule
    · have := sound_typeExpr smaller rule found read
      rwa [rule]
    · have := sound_unionType smaller rule found read
      rwa [rule]
    · have := sound_intersectionType smaller rule found read
      rwa [rule]
    · have := sound_optionalType smaller rule found read
      rwa [rule]
  · rw [Rule.place, if_neg level] at found
    obtain ⟨other, same, member, found, before⟩ := exists_read_oneOf found
    obtain ⟨rfl, -⟩ := List.cons.inj same
    -- The primary types but those in parentheses are closed, and for a closed type nothing is owed.
    have closed : ∀ {rule}, tree.rule = rule → (∀ tightness, rule.owed tightness =
        if tightness = .closed then 0 else 1) → type.Everywhere (Layer.Readable scope) ∧
          cursor.Pays type.needed next ∧ type.tightness = .closed →
        type.Everywhere (Layer.Readable scope) ∧
          cursor.Pays (type.needed + tree.rule.owed type.tightness) next := by
      rintro _ rfl owed ⟨readable, paid, closed⟩
      refine ⟨readable, ?_⟩
      rwa [owed, if_pos closed]
    have atom : ∀ {rule scanner}, tree.rule = rule → rule.body = .token scanner →
        (∀ stretch, readTypeTree scope ⟨rule, stretch, []⟩ = readAtom ⟨rule, stretch, []⟩) →
        type.Everywhere (Layer.Readable scope) ∧ cursor.Pays type.needed next ∧
          type.tightness = .closed := by
      intro rule scanner same shape means
      obtain ⟨children, -, -⟩ := exists_token shape same found
      have paid : cursor.Pays 0 next := Rule.pays found
      obtain ⟨treeRule, stretch, trees⟩ := tree
      obtain rfl : treeRule = _ := same
      obtain rfl : trees = _ := children
      rw [means] at read
      obtain ⟨readable, needed, closed⟩ := sound_atom read
      exact ⟨readable, needed ▸ paid, closed⟩
    simp only [List.mem_cons, List.not_mem_nil, or_false] at member
    rcases member with rule | rule | rule | rule | rule | rule | rule | rule | rule | rule | rule
    · have ⟨readable, paid⟩ := sound_parenType smaller rule found read
      refine ⟨readable, paid.mono (Nat.add_le_add_left ?_ _)⟩
      rw [rule]
      show (if type.tightness = .closed then 0 else 1) ≤ 1
      split <;> omega
    · exact closed rule (fun _ => rfl) (sound_tupleType smaller rule found read)
    · have := sound_procType smaller rule found read
      rwa [rule]
    · exact closed rule (fun _ => rfl) (atom rule rfl fun _ => rfl)
    · exact closed rule (fun _ => rfl) (atom rule rfl fun _ => rfl)
    · exact closed rule (fun _ => rfl) (atom rule rfl fun _ => rfl)
    · exact closed rule (fun _ => rfl) (atom rule rfl fun _ => rfl)
    · exact closed rule (fun _ => rfl) (atom rule rfl fun _ => rfl)
    · exact closed rule (fun _ => rfl) (sound_name smaller .ofInterface rule found
        (fun _ => exists_spelled rule before) read)
    · exact closed rule (fun _ => rfl) (sound_name smaller .ofClass rule found
        (fun _ => exists_spelled rule before) read)
    · exact closed rule (fun _ => rfl) (sound_name smaller .ofAlias rule found
        (fun _ => exists_spelled rule before) read)
termination_by sizeOf tree

end Signet

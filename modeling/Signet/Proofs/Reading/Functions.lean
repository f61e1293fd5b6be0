import Signet.Proofs.Reading.Printing

/-!
# Functions that are printed are read

Parameters, blocks and results of a function, each in front of what stands after it in the text. A
result must be a single type: an optional type is all that is read there.
-/

namespace Signet

open Text Grammar Phrase

variable {scope : List String} {text more rest : List Char} {type : Ty}

/-! ## What comes after a parameter -/

/-- The rest starts as it does after a parameter. -/
def EndsItem (rest : List Char) : Prop := ∃ c text, rest = c :: text ∧ (c = ',' ∨ c = ')')

namespace EndsItem

theorem follows (ends : EndsItem rest) : Follows typeMarks rest := by
  obtain ⟨c, text, rfl, rfl | rfl⟩ := ends
  · exact .sign (by decide) (by decide) (by decide) text
  · exact .sign (by decide) (by decide) (by decide) text

theorem varName_refuses (ends : EndsItem rest) : (call .varName).Refuses (afterBlanks rest) := by
  have solid : Solid rest := by
    obtain ⟨c, text, rfl, rfl | rfl⟩ := ends
    · exact solid_cons (by decide) text
    · exact solid_cons (by decide) text
  rw [afterBlanks_of_solid solid]
  have keyword : Scanner.wholeWord Scanner.reservedWords rest = none :=
    wholeWord_eq_none (by decide) ends.follows.ends.ident
  refine .token rfl ?_
  rw [Scanner.varName, keyword]
  obtain ⟨c, text, rfl, rfl | rfl⟩ := ends
  · rfl
  · rfl

end EndsItem

/-! ## Parts of a parameter -/

theorem readParamParts_type {tree : ParseTree} {trees : List ParseTree} {parts : ParamParts}
    (rule : tree.rule = .typeExpr) (means : readTypeTree scope tree = .ok type)
    (rest : readParamParts scope trees = .ok parts) :
    readParamParts scope (tree :: trees) = .ok { parts with type } :=
  readParamParts_cons_eq_ok_iff.2 ⟨parts, rest, .type rule means⟩

theorem readParamParts_varName {tree : ParseTree} {name : String} (rule : tree.rule = .varName)
    (text : tree.text = name.toList) :
    readParamParts scope [tree] = .ok { name := some name } := by
  refine readParamParts_cons_eq_ok_iff.2 ⟨{}, by rw [readParamParts]; rfl, ?_⟩
  have part : ParamPart scope tree {} { name := some tree.string } := .name rule
  rwa [ParseTree.string, text, String.ofList_toList] at part

theorem IsVarName.solid {name : String} (variable_ : IsVarName name) (rest : List Char) :
    Solid (name.toList ++ rest) := by
  obtain ⟨c, word, spelled, first, -⟩ := variable_.1
  rw [spelled]
  exact (StartsType.of_ident (.inr first) (word ++ rest)).solid

/-- The type and the name of a parameter are read. -/
theorem covers_positional {param : Param Ty} (legible : param.type.Legible scope)
    (named : ∀ name, param.name = some name → IsVarName name) (ends : EndsItem rest) :
    (inOrder positional).Covers (param.print Ty.print) rest fun trees =>
      readParamParts scope trees = .ok { type := param.type, name := param.name } := by
  obtain ⟨type, name⟩ := param
  cases name with
  | none =>
      refine ((legible.whole rest ends.follows).seq_misses ends.varName_refuses.opt).imp ?_
      rintro _ ⟨tree, rfl, rule, means⟩
      exact readParamParts_type rule means (by rw [readParamParts]; rfl)
  | some name =>
      have variable_ := named name rfl
      have token := covers_token .varName rfl (variable_.read ends.follows.ends.ident)
      have solid := variable_.solid rest
      -- The type stops at the blank: no mark of a type begins a name.
      have follows : Follows typeMarks ([' '] ++ (name.toList ++ rest)) := by
        refine .blank solid fun c head => ?_
        obtain ⟨d, word, spelled, first, -⟩ := variable_.1
        rw [spelled] at head
        obtain rfl := Option.some.inj head
        intro member
        simp only [typeMarks, List.mem_cons, List.not_mem_nil, or_false] at member
        rcases member with rfl | rfl | rfl | rfl <;> exact absurd first (by decide)
      have both := (legible.whole _ follows).seq [' '] token.opt (by decide) solid
      refine both.imp ?_
      rintro _ ⟨_, _, ⟨tree, rfl, rule, means⟩, ⟨nameTree, rfl, nameRule, text, -⟩, rfl⟩
      exact readParamParts_type rule means (readParamParts_varName nameRule text)

/-! ## Parameters in their roles -/

theorem Ty.Legible.starts_param {param : Param Ty} (legible : param.type.Legible scope) :
    StartsType (param.print Ty.print) := by
  obtain ⟨type, name⟩ := param
  cases name with
  | none => exact legible.starts
  | some name => exact legible.starts.append _

/-- A parameter without key does not look like a key. -/
theorem Ty.Legible.no_key {param : Param Ty} (legible : param.type.Legible scope)
    (ends : EndsItem rest) : Scanner.keywordName (param.print Ty.print ++ rest) = none := by
  obtain ⟨type, name⟩ := param
  cases name with
  | none => exact keywordName_eq_none (legible.keyless rest ends.follows.ends)
  | some name =>
      show Scanner.keywordName (type.print ++ ' ' :: name.toList ++ rest) = none
      rw [List.append_assoc]
      exact keywordName_eq_none
        (legible.keyless _ fun c head => Option.some.inj head ▸ by decide)

theorem keywordParam_refuses (keyless : Scanner.keywordName text = none) (solid : Solid text)
    (unmarked : text.head? ≠ some '?') : (call .keywordParam).Refuses text := by
  have noMark : (call .optionalMark).Refuses text := .ofRule rfl (refuses_mark unmarked)
  exact .ofRule rfl (noMark.opt.seq solid (.seq (.token rfl keyless)))

theorem keywordParam_refuses_marked (keyless : Scanner.keywordName text = none)
    (solid : Solid text) : (call .keywordParam).Refuses ('?' :: text) := by
  refine .ofRule rfl ((covers_optionalMark text).opt.seq_refuses ?_)
  rw [afterBlanks_of_solid solid]
  exact .seq (.token rfl keyless)

/-- A parameter in a role without key is read in front of what ends it. -/
theorem covers_item {param : Param Ty} {role : ParamRole} (other : role ≠ .keyword)
    (legible : param.type.Legible scope)
    (named : ∀ name, param.name = some name → IsVarName name) (ends : EndsItem rest) :
    Phrase.param.Covers (ParamItem.print (Params.item role param)) rest
      (∃ tree, · = [tree] ∧ tree.IsParam scope (Params.item role param)) := by
  have covers := covers_positional legible named ends
  have starts := legible.starts_param.append rest
  have head := fun (mark : Char) (other : mark ∉ ['(', '[', '^', ':'])
    (ident : isIdentChar mark = false) => starts.head_ne other ident
  have keyless := legible.no_key ends
  -- the mark of a role is read in front of the type
  have marked := fun mark : List Char =>
    (covers_mark mark _).seq [] covers nofun starts.solid
  cases role with
  | keyword => exact (other rfl).elim
  | required =>
      refine covers_oneOf .requiredParam (by decide) ?_
        ((Covers.ofRule .requiredParam rfl covers).imp ?_)
      · show ∀ other ∈ [Rule.restKeywordsParam, .restParam, .keywordParam, .optionalParam], _
        simp only [List.forall_mem_cons]
        exact ⟨.ofRule rfl (.seq (refuses_mark (head '*' (by decide) (by decide)))),
          .ofRule rfl (.seq (refuses_mark (head '*' (by decide) (by decide)))),
          keywordParam_refuses keyless starts.solid (head '?' (by decide) (by decide)),
          .ofRule rfl (.seq (refuses_mark (head '?' (by decide) (by decide)))), nofun⟩
      · rintro _ ⟨tree, rfl, rule, means⟩
        exact ⟨tree, rfl, by rw [rule]; rfl, means⟩
  | optional =>
      refine covers_oneOf .optionalParam (by decide) ?_
        ((Covers.ofRule .optionalParam rfl (marked ['?'])).imp ?_)
      · show ∀ other ∈ [Rule.restKeywordsParam, .restParam, .keywordParam], _
        simp only [List.forall_mem_cons]
        exact ⟨.ofRule rfl (.seq (refuses_mark_cons (by decide))),
          .ofRule rfl (.seq (refuses_mark_cons (by decide))),
          keywordParam_refuses_marked keyless starts.solid, nofun⟩
      · rintro _ ⟨tree, rfl, rule, _, back, rfl, means, children⟩
        exact ⟨tree, rfl, by rw [rule]; rfl, by rw [children]; exact means⟩
  | rest =>
      refine covers_oneOf .restParam (by decide) ?_
        ((Covers.ofRule .restParam rfl (marked ['*'])).imp ?_)
      · show ∀ other ∈ [Rule.restKeywordsParam], _
        simp only [List.forall_mem_cons]
        refine ⟨.ofRule rfl (.seq (refuses_mark_iff.2 fun front => ?_)), nofun⟩
        obtain ⟨more, same⟩ := front
        refine head '*' (by decide) (by decide) ?_
        exact (congrArg List.head? (List.cons.inj same).2).symm
      · rintro _ ⟨tree, rfl, rule, _, back, rfl, means, children⟩
        exact ⟨tree, rfl, by rw [rule]; rfl, by rw [children]; exact means⟩
  | restKeywords =>
      refine covers_oneOf .restKeywordsParam (by decide) nofun
        ((Covers.ofRule .restKeywordsParam rfl (marked ['*', '*'])).imp ?_)
      rintro _ ⟨tree, rfl, rule, _, back, rfl, means, children⟩
      exact ⟨tree, rfl, by rw [rule]; rfl, by rw [children]; exact means⟩

theorem IsKey.starts {name : String} (key : IsKey name) (rest : List Char) :
    StartsType (name.toList ++ rest) := by
  rcases key with ⟨c, word, spelled, first, -⟩ | ⟨c, word, spelled, first, -⟩
  · exact ⟨c, word ++ rest, by rw [spelled]; rfl, .inr (.inr first)⟩
  · exact ⟨c, word ++ rest, by rw [spelled]; rfl, .inr (.inl first)⟩

/-- A key and a parameter after it are read. -/
theorem covers_keyed {keyword : Keyword Ty} (key : IsKey keyword.key)
    (legible : keyword.param.type.Legible scope)
    (named : ∀ name, keyword.param.name = some name → IsVarName name) (ends : EndsItem rest) :
    (inOrder ([call .keywordName, mark [':']] ++ positional)).Covers (keyword.print Ty.print) rest
      fun trees => readParamParts scope trees = .ok
        { key := keyword.key, type := keyword.param.type, name := keyword.param.name } := by
  have value := (covers_mark [':'] _).seq [' '] (covers_positional legible named ends)
    (by decide) (legible.starts_param.append rest).solid
  have token := covers_token .keywordName rfl
    (key.read ([' '] ++ keyword.param.print Ty.print ++ rest) nofun)
  have whole := token.seq [] value nofun (solid_cons (by decide) _)
  have text : keyword.print Ty.print = keyword.key.toList ++
      ([] ++ ([':'] ++ ([' '] ++ keyword.param.print Ty.print))) := by
    rw [Keyword.print, List.append_assoc]
    rfl
  rw [text]
  refine whole.imp ?_
  rintro _ ⟨_, _, ⟨tree, rfl, rule, spelled, -⟩, ⟨_, trees, rfl, means, rfl⟩, rfl⟩
  refine readParamParts_cons_eq_ok_iff.2 ⟨_, means, ?_⟩
  have part : ParamPart scope tree { type := keyword.param.type, name := keyword.param.name } _ :=
    .key rule
  rwa [ParseTree.string, spelled, String.ofList_toList] at part

/-- A keyword parameter is read in front of what ends it. -/
theorem covers_keywordItem {keyword : Keyword Ty} (optional : Bool) (key : IsKey keyword.key)
    (legible : keyword.param.type.Legible scope)
    (named : ∀ name, keyword.param.name = some name → IsVarName name) (ends : EndsItem rest) :
    Phrase.param.Covers (ParamItem.print (Params.keywordItem optional keyword)) rest
      (∃ tree, · = [tree] ∧ tree.IsParam scope (Params.keywordItem optional keyword)) := by
  have covers := covers_keyed key legible named ends
  have starts : StartsType (keyword.print Ty.print ++ rest) := by
    rw [Keyword.print, List.append_assoc, List.append_assoc]
    exact key.starts _
  have head := fun (mark : Char) (other : mark ∉ ['(', '[', '^', ':'])
    (ident : isIdentChar mark = false) => starts.head_ne other ident
  cases optional with
  | false =>
      have noMark : (call .optionalMark).Refuses (keyword.print Ty.print ++ rest) :=
        .ofRule rfl (refuses_mark (head '?' (by decide) (by decide)))
      have whole := noMark.opt.covers.seq [] covers (List.forall_mem_nil _) starts.solid
      -- The rules that begin with `*` are tried before that of a keyword.
      refine covers_oneOf .keywordParam (by decide) ?_
        ((Covers.ofRule .keywordParam rfl whole).imp ?_)
      · show ∀ other ∈ [Rule.restKeywordsParam, .restParam], _
        simp only [List.forall_mem_cons]
        exact ⟨.ofRule rfl (.seq (refuses_mark (head '*' (by decide) (by decide)))),
          .ofRule rfl (.seq (refuses_mark (head '*' (by decide) (by decide)))),
          List.forall_mem_nil _⟩
      · rintro _ ⟨tree, rfl, rule, _, back, rfl, means, children⟩
        exact ⟨tree, rfl, by rw [rule]; rfl, by rw [children]; exact means⟩
  | true =>
      have whole := (covers_optionalMark _).opt.seq [] covers (List.forall_mem_nil _) starts.solid
      refine covers_oneOf .keywordParam (by decide) ?_
        ((Covers.ofRule .keywordParam rfl whole).imp ?_)
      · show ∀ other ∈ [Rule.restKeywordsParam, .restParam], _
        simp only [List.forall_mem_cons]
        exact ⟨.ofRule rfl (.seq (refuses_mark_cons (by decide))),
          .ofRule rfl (.seq (refuses_mark_cons (by decide))), List.forall_mem_nil _⟩
      · rintro _ ⟨tree, rfl, rule, _, back, ⟨mark, rfl, markRule, -⟩, means, children⟩
        refine ⟨tree, rfl, by rw [rule]; rfl, ?_⟩
        rw [children]
        exact readParamParts_cons_eq_ok_iff.2 ⟨_, means, .optional markRule⟩

/-! ## Parameter lists -/

section Lists

variable {params : Params Ty} (regular : params.Regular)
  (legible : ∀ type ∈ params.parts, type.Legible scope)

include regular legible

theorem covers_listed : ∀ found ∈ params.listed, ∀ rest, EndsItem rest →
    Phrase.param.Covers found.print rest (∃ tree, · = [tree] ∧ tree.IsParam scope found) := by
  have every : ∀ param ∈ params.every, param.type.Legible scope := fun param member =>
    legible _ (params.parts_eq_map_every ▸ List.mem_map_of_mem member)
  intro found member rest ends
  rcases Params.exists_of_mem_listed member with
    ⟨role, other, param, inside, rfl⟩ | ⟨optional, keyword, inside, rfl⟩
  · exact covers_item other (every param inside) (regular.names param inside) ends
  · have inEvery := Params.param_mem_every inside
    exact covers_keywordItem optional (regular.keys keyword inside) (every _ inEvery)
      (regular.names _ inEvery) ends

/-- What is listed starts as a type does, after marks. -/
theorem exists_starts_listed {found : ParamItem} (member : found ∈ params.listed) :
    ∃ marks text, found.print = marks ++ text ∧ marks ∈ [[], ['?'], ['*'], ['*', '*']] ∧
      StartsType text := by
  have every : ∀ param ∈ params.every, StartsType (param.print Ty.print) := fun param member =>
    (legible _ (params.parts_eq_map_every ▸ List.mem_map_of_mem member)).starts_param
  rcases Params.exists_of_mem_listed member with
    ⟨role, other, param, inside, rfl⟩ | ⟨optional, keyword, inside, rfl⟩
  · cases role with
    | keyword => exact (other rfl).elim
    | required => exact ⟨[], _, rfl, by decide, every param inside⟩
    | optional => exact ⟨['?'], _, rfl, by decide, every param inside⟩
    | rest => exact ⟨['*'], _, rfl, by decide, every param inside⟩
    | restKeywords => exact ⟨['*', '*'], _, rfl, by decide, every param inside⟩
  · have starts : StartsType (keyword.print Ty.print) := by
      rw [Keyword.print, List.append_assoc]
      exact (regular.keys keyword inside).starts _
    cases optional with
    | false => exact ⟨[], _, rfl, by decide, starts⟩
    | true => exact ⟨['?'], _, rfl, by decide, starts⟩

theorem solid_listed : ∀ found ∈ params.listed, ∀ text, Solid (found.print ++ text) := by
  intro found member text
  obtain ⟨marks, front, same, among, starts⟩ := exists_starts_listed regular legible member
  rw [same, List.append_assoc]
  simp only [List.mem_cons, List.not_mem_nil, or_false] at among
  rcases among with rfl | rfl | rfl | rfl
  · exact (starts.append text).solid
  all_goals exact solid_cons (by decide) _

/-- A parameter list in parentheses is read. -/
theorem covers_params (rest : List Char) :
    (call .params).Covers (['('] ++ params.print Ty.print ++ [')']) rest
      (One .params fun tree => readParamTrees scope {} tree.children = .ok params) := by
  have close := covers_mark [')'] rest
  have solid := solid_listed regular legible
  have text : params.print Ty.print = joined comma (params.listed.map ParamItem.print) := by
    rw [Params.print, params.items_eq]
  have items : (opt (separated param [','])).Covers (params.print Ty.print) ([] ++ ([')'] ++ rest))
      fun trees => readParamTrees scope {} trees = .ok params := by
    have added := Params.addAll_listed regular
    rw [text]
    -- Between the parentheses there is a list only if it is not empty.
    by_cases nonempty : params.listed = []
    · rw [nonempty] at added ⊢
      have none : (separated param [',']).Refuses (')' :: rest) := (param_refuses_closing rest).seq
      refine none.opt.covers.imp ?_
      rintro _ rfl
      exact readParamTrees_eq_ok_iff.2 ⟨[], .nil, added⟩
    · have ends : EndsItem (')' :: rest) := ⟨')', rest, rfl, .inr rfl⟩
      refine (covers_separated param ParamItem.print [] [','] [' ']
        (fun found tree => tree.IsParam scope found) EndsItem rfl nonempty (by decide) (by decide)
        (fun text => solid_cons (by decide) text) solid (covers_listed regular legible)
        (fun text => ⟨',', text, rfl, .inl rfl⟩) ends ?_).opt.imp ?_
      · rw [afterBlanks_of_solid (solid_cons (by decide) rest)]
        exact refuses_mark_cons (by decide)
      · intro trees all
        exact readParamTrees_eq_ok_iff.2 ⟨params.listed, all.flip, added⟩
  have start : Solid (params.print Ty.print ++ ([] ++ [')']) ++ rest) := by
    rw [text]
    cases listed : params.listed with
    | nil => exact solid_cons (by decide) rest
    | cons first others =>
        rw [List.map_cons, joined_cons, List.append_assoc, List.append_assoc]
        exact solid first (listed ▸ List.mem_cons_self) _
  have inner := items.seq [] close (List.forall_mem_nil _) (solid_cons (by decide) rest)
  have all := (covers_mark ['('] _).seq [] inner (List.forall_mem_nil _) start
  rw [List.append_assoc]
  refine (Covers.ofRule .params rfl all).imp ?_
  rintro _ ⟨tree, rfl, rule, _, _, rfl, ⟨trees, _, means, rfl, rfl⟩, children⟩
  refine ⟨tree, rfl, rule, ?_⟩
  show readParamTrees scope {} tree.children = _
  rw [children, List.nil_append, List.append_nil, means]

/-- A parameter list is not the mark of parameters that are not checked. -/
theorem untypedParams_refuses (rest : List Char) :
    (call .untypedParams).Refuses (['('] ++ params.print Ty.print ++ [')'] ++ rest) := by
  have solid := solid_listed regular legible
  have text : params.print Ty.print = joined comma (params.listed.map ParamItem.print) := by
    rw [Params.print, params.items_eq]
  rw [List.append_assoc, List.append_assoc]
  refine .ofRule rfl ((covers_mark ['('] _).seq_refuses ?_)
  rw [text]
  cases listed : params.listed with
  | nil =>
      show (seq (mark ['?']) (mark [')'])).Refuses (afterBlanks (')' :: rest))
      rw [afterBlanks_of_solid (solid_cons (by decide) rest)]
      exact .seq (refuses_mark_cons (by decide))
  | cons first others =>
      have member : first ∈ params.listed := listed ▸ List.mem_cons_self
      rw [List.map_cons, joined_cons, List.append_assoc,
        afterBlanks_of_solid (solid first member _)]
      obtain ⟨marks, front, same, among, starts⟩ := exists_starts_listed regular legible member
      have starts := starts.append
        ((others.map ParamItem.print).flatMap (comma ++ ·) ++ ([')'] ++ rest))
      rw [same, List.append_assoc]
      simp only [List.mem_cons, List.not_mem_nil, or_false] at among
      -- Only an optional parameter begins as `(?)` does, and it goes on otherwise.
      rcases among with rfl | rfl | rfl | rfl
      · exact .seq (refuses_mark (starts.head_ne (by decide) (by decide)))
      · refine (covers_mark ['?'] _).seq_refuses ?_
        rw [afterBlanks_of_solid starts.solid]
        exact refuses_mark (starts.head_ne (by decide) (by decide))
      all_goals exact .seq (refuses_mark_cons (by decide))

end Lists

/-! ## Functions -/

/-- The tree changes the parts of the function that is written after it, and is no optional mark. -/
def Changes (scope : List String) (change : SignatureParts → SignatureParts)
    (trees : List ParseTree) : Prop :=
  ∃ tree, trees = [tree] ∧ tree.rule ≠ .optionalMark ∧
    ∀ after, SignaturePart scope tree after (change after)

namespace Changes

variable {change : SignatureParts → SignatureParts} {front back : List ParseTree}

theorem read {parts : SignatureParts} (changes : Changes scope change front)
    (after : readSignatureTrees scope back = .ok parts) :
    readSignatureTrees scope (front ++ back) = .ok (change parts) := by
  obtain ⟨tree, rfl, -, part⟩ := changes
  exact readSignatureTrees_cons_eq_ok_iff.2 ⟨parts, after, part parts⟩

/-- The last part is read after nothing. -/
theorem read_last (changes : Changes scope change front) :
    readSignatureTrees scope front = .ok (change {}) := by
  have nothing : readSignatureTrees scope [] = .ok {} := by
    rw [readSignatureTrees]
    rfl
  have read := changes.read nothing
  rwa [List.append_nil] at read

theorem unmarked (changes : Changes scope change front) :
    (front.any fun tree => decide (tree.rule = .optionalMark)) = false := by
  obtain ⟨tree, rfl, other, -⟩ := changes
  simp [other]

end Changes

/-- The parameters of the function, added to what is written after them. -/
def Function.addParams (function : Function Ty) (after : SignatureParts) : SignatureParts :=
  match function with
  | .typed params _ => { after with params }
  | .untyped _ => { after with untyped := true }

/-- The parameters of a function are read in front of anything. -/
theorem covers_parameterList {function : Function Ty}
    (regular : ∀ params ∈ function.params?.toList, params.Regular)
    (legible : ∀ type ∈ function.parts, type.Legible scope) (rest : List Char) :
    parameterList.Covers (function.printParams Ty.print) rest
      (Changes scope function.addParams) := by
  cases function with
  | typed params result =>
      have regular := regular params (by simp [Function.params?])
      have legible : ∀ type ∈ params.parts, type.Legible scope :=
        fun type member => legible type (List.mem_append_left _ member)
      -- The rule for `(?)` is tried first.
      have untyped := untypedParams_refuses regular legible rest
      refine covers_oneOf .params (by decide) ?_
        ((covers_params regular legible rest).imp ?_)
      · show ∀ other ∈ [Rule.untypedParams], _
        simp only [List.forall_mem_cons]
        exact ⟨untyped, List.forall_mem_nil _⟩
      · rintro _ ⟨tree, rfl, rule, means⟩
        exact ⟨tree, rfl, by rw [rule]; decide, fun after => .params rule means⟩
  | untyped result =>
      have inner := (covers_mark ['?'] ([] ++ ([')'] ++ rest))).seq []
        (covers_mark [')'] rest) (List.forall_mem_nil _) (solid_cons (by decide) rest)
      have whole := (covers_mark ['('] _).seq [] inner (List.forall_mem_nil _)
        (solid_cons (by decide) _)
      refine covers_oneOf .untypedParams (by decide) (List.forall_mem_nil _)
        ((Covers.ofRule .untypedParams rfl whole).imp ?_)
      rintro _ ⟨tree, rfl, rule, -⟩
      exact ⟨tree, rfl, by rw [rule]; decide, fun after => .untyped rule⟩

theorem covers_arrow (scope : List String) (rest : List Char) :
    (call .arrow).Covers ['-', '>'] rest (Changes scope id) := by
  refine (Covers.ofRule .arrow rfl (covers_mark ['-', '>'] rest)).imp ?_
  rintro _ ⟨tree, rfl, rule, -⟩
  exact ⟨tree, rfl, by rw [rule]; decide, fun after => .nothing (by rw [rule]; decide)⟩

/-- A result that is a single type is read. -/
theorem Ty.Legible.covers_result (legible : type.Legible scope)
    (tight : type.tightness.isLoose = false) (follows : Follows singleMarks rest) :
    (call .optionalType).Covers type.print rest
      (Changes scope fun after => { after with result := type }) :=
  (legible.single tight rest follows).imp fun _ ⟨tree, same, rule, means⟩ =>
    ⟨tree, same, by rw [rule]; decide, fun _ => .result rule means⟩

theorem solid_printParams (function : Function Ty) (rest : List Char) :
    Solid (function.printParams Ty.print ++ rest) := by
  cases function with
  | typed params result => exact solid_cons (by decide) _
  | untyped result => exact solid_cons (by decide) _

theorem Function.result_mem_parts (function : Function Ty) : function.result ∈ function.parts := by
  cases function with
  | typed params result => exact List.mem_append_right _ List.mem_cons_self
  | untyped result => exact List.mem_cons_self

theorem Function.addParams_function (function : Function Ty) (block : Option (Block Ty)) :
    (function.addParams { block, result := function.result }).function = function := by
  cases function <;> rfl

theorem Function.addParams_block (function : Function Ty) (after : SignatureParts) :
    (function.addParams after).block = after.block := by
  cases function <;> rfl

/-- A block is read in front of anything. -/
theorem covers_block {block : Block Ty}
    (regular : ∀ params ∈ block.function.params?.toList, params.Regular)
    (legible : ∀ type ∈ block.function.parts, type.Legible scope)
    (tight : block.function.result.tightness.isLoose = false) (rest : List Char) :
    (call .block).Covers (block.print Ty.print) rest
      (Changes scope fun after => { after with block := some block }) := by
  obtain ⟨function, required⟩ := block
  have legibleResult := legible _ function.result_mem_parts
  have close := covers_mark ['\x7d'] rest
  have follows : Follows singleMarks ([' '] ++ (['\x7d'] ++ rest)) :=
    .blank (solid_cons (by decide) rest) (by simp [singleMarks])
  -- from the end of the block to its start
  have result := (legibleResult.covers_result tight follows).seq [' '] close (by decide)
    (solid_cons (by decide) rest)
  have arrowed := (covers_arrow scope _).seq [' '] result (by decide) (by
    rw [List.append_assoc]
    exact (legibleResult.starts.append _).solid)
  have params := (covers_parameterList regular legible _).opt.seq [' '] arrowed (by decide)
    (solid_cons (by decide) _)
  have inner := ((covers_mark ['\x7b'] _).seq [' '] params (by decide) (by
    rw [List.append_assoc]
    exact solid_printParams function _)).imp fun trees => (by
    rintro ⟨_, _, rfl, ⟨_, _, params, ⟨_, _, arrow_, ⟨_, _, result, rfl, rfl⟩, rfl⟩, rfl⟩, rfl⟩
    rw [List.nil_append, List.append_nil]
    refine ⟨_, params.read (arrow_.read result.read_last), function.addParams_function none, ?_⟩
    rw [List.any_append, List.any_append, params.unmarked, arrow_.unmarked, result.unmarked]
    rfl : _ → ∃ parts, readSignatureTrees scope trees = .ok parts ∧ parts.function = function ∧
      trees.any (fun tree => decide (tree.rule = .optionalMark)) = false)
  have text : Block.print Ty.print ⟨function, required⟩ = (if required then [] else ['?']) ++
      (['\x7b'] ++ ([' '] ++ (function.printParams Ty.print ++ ([' '] ++ (['-', '>'] ++
        ([' '] ++ (function.result.print ++ ([' '] ++ ['\x7d'])))))))) := by
    simp [Block.print, Function.print, arrow]
  rw [text]
  cases required with
  | true =>
      have noMark : ∀ text, (call .optionalMark).Refuses ('\x7b' :: text) := fun text =>
        .ofRule rfl (refuses_mark_cons (by decide))
      have whole := (noMark _).opt.covers.seq [] inner (List.forall_mem_nil _)
        (solid_cons (by decide) _)
      refine (Covers.ofRule .block rfl whole).imp ?_
      rintro _ ⟨tree, rfl, rule, _, _, rfl, ⟨parts, read, same, unmarked⟩, children⟩
      refine ⟨tree, rfl, by rw [rule]; decide, fun after => ?_⟩
      rw [List.nil_append] at children
      have part : SignaturePart scope tree after _ := .block rule (children ▸ read)
      rwa [same, children, unmarked] at part
  | false =>
      have whole := (covers_optionalMark _).opt.seq [] inner (List.forall_mem_nil _)
        (solid_cons (by decide) _)
      refine (Covers.ofRule .block rfl whole).imp ?_
      rintro _ ⟨tree, rfl, rule, _, _, ⟨mark, rfl, markRule, -⟩, ⟨parts, read, same, -⟩, children⟩
      refine ⟨tree, rfl, by rw [rule]; decide, fun after => ?_⟩
      have skipped : readSignatureTrees scope tree.children = .ok parts := by
        rw [children]
        exact readSignatureTrees_cons_eq_ok_iff.2 ⟨parts, read, .nothing (by rw [markRule]; decide)⟩
      have part : SignaturePart scope tree after _ := .block rule skipped
      have marked : (tree.children.any fun tree => decide (tree.rule = .optionalMark)) = true := by
        rw [children]
        simp [markRule]
      rwa [same, marked] at part

theorem solid_block (block : Block Ty) (rest : List Char) :
    Solid (block.print Ty.print ++ rest) := by
  rw [Block.print]
  split <;> exact solid_cons (by decide) _

/-- An arrow is not the start of a block. -/
theorem block_refuses (text : List Char) :
    (call .block).Refuses (afterBlanks ([' '] ++ '-' :: text)) := by
  have solid := solid_cons (c := '-') (by decide) text
  have noMark : (call .optionalMark).Refuses ('-' :: text) :=
    .ofRule rfl (refuses_mark_cons (by decide))
  rw [afterBlanks_blanks (by decide), afterBlanks_of_solid solid]
  exact .ofRule rfl (noMark.opt.seq solid (.seq (refuses_mark_cons (by decide))))

/-- The parts of a function are read as they are printed, if no result runs on. -/
theorem covers_signature {function : Function Ty} {block : Option (Block Ty)}
    (regular : ∀ params ∈ (Layer.proc function block).paramLists, params.Regular)
    (legible : ∀ type ∈ (Layer.proc function block).parts, type.Legible scope)
    (tight : (Layer.proc function block).ResultsTight) (follows : Follows singleMarks rest) :
    (inOrder signature).Covers (printSignature Ty.print function block) rest fun trees =>
      ∃ parts, readSignatureTrees scope trees = .ok parts ∧ parts.function = function ∧
        parts.block = block := by
  have legibleResult := legible _ (List.mem_append_left _ function.result_mem_parts)
  -- From the last part to the first, for how a part is read depends on what follows it.
  have result := legibleResult.covers_result (tight _ List.mem_cons_self) follows
  have arrowed := ((covers_arrow scope _).seq [' '] result (by decide)
    (legibleResult.starts.append _).solid).resumes [' '] (by decide)
    (solid_cons (by decide) _)
  have inBlock : ∀ inner ∈ block, (∀ params ∈ inner.function.params?.toList, params.Regular) ∧
      (∀ type ∈ inner.function.parts, type.Legible scope) ∧
      inner.function.result.tightness.isLoose = false := by
    rintro inner rfl
    exact ⟨fun params member => regular params (by simp_all [Layer.paramLists]),
      fun type member => legible type (by simp [Layer.parts, member]),
      tight _ (by simp [Layer.results])⟩
  have blocked := opt_resumes [' '] (Block.print Ty.print)
    (fun inner => Changes scope fun after => { after with block := some inner }) (by decide)
    (fun inner _ => solid_block inner
      ([' '] ++ (['-', '>'] ++ ([' '] ++ function.result.print)) ++ rest))
    (fun inner member => covers_block (inBlock inner member).1 (inBlock inner member).2.1
      (inBlock inner member).2.2 _)
    (fun _ => block_refuses _)
  have whole := (covers_parameterList
    (fun params member => regular params (List.mem_append_left _ member))
    (fun type member => legible type (List.mem_append_left _ member)) _).opt.seq_resumes
    (blocked.seq arrowed)
  have text : printSignature Ty.print function block = function.printParams Ty.print ++
      ((block.map fun inner => [' '] ++ inner.print Ty.print).getD [] ++
        ([' '] ++ (['-', '>'] ++ ([' '] ++ function.result.print)))) := by
    simp [printSignature, arrow]
  rw [text]
  refine whole.imp ?_
  rintro _ ⟨_, _, params, ⟨_, _, between, ⟨_, _, arrow_, result, rfl⟩, rfl⟩, rfl⟩
  have after := arrow_.read result.read_last
  rcases between with ⟨rfl, rfl⟩ | ⟨inner, rfl, block_⟩
  · exact ⟨_, params.read after, function.addParams_function none, function.addParams_block _⟩
  · exact ⟨_, params.read (block_.read after), function.addParams_function (some inner),
      function.addParams_block _⟩

theorem solid_printSignature (function : Function Ty) (block : Option (Block Ty))
    (rest : List Char) : Solid (printSignature Ty.print function block ++ rest) := by
  rw [printSignature, List.append_assoc, List.append_assoc, List.append_assoc]
  exact solid_printParams function _

namespace Ty

theorem legible_proc {function : Function Ty} {block : Option (Block Ty)}
    (regular : ∀ params ∈ (Layer.proc function block).paramLists, params.Regular)
    (legible : ∀ type ∈ (Layer.proc function block).parts, type.Legible scope)
    (tight : (Layer.proc function block).ResultsTight) : Legible scope ⟨.proc function block⟩ := by
  have text : print ⟨.proc function block⟩ = '^' :: printSignature print function block :=
    print_proc function block
  refine legible_of_proc ?_ ?_ rfl fun rest follows => ?_
  · rw [text]
    exact ⟨'^', _, rfl, .inl (by decide)⟩
  · rw [text]
    exact keyless_cons (by decide) (by decide) _
  · have covers := (covers_mark ['^'] _).seq []
      (covers_signature regular legible tight follows) nofun
        (solid_printSignature function block rest)
    rw [text]
    refine covers_oneOf .procType (by decide) ?_ ((Covers.ofRule .procType rfl covers).imp ?_)
    · show ∀ other ∈ [Rule.parenType, .tupleType], _
      simp only [List.forall_mem_cons]
      exact ⟨parenType_refuses nofun, tupleType_refuses nofun, nofun⟩
    · rintro _ ⟨tree, rfl, rule, _, _, rfl, ⟨parts, read, function_eq, block_eq⟩, children⟩
      refine ⟨tree, rfl, (readTypeTree_proc_eq_ok_iff rule).2 ⟨parts, children ▸ read, ?_⟩⟩
      rw [function_eq, block_eq]

/-- What is printed for a readable type without literals is read as the type, unless nested unions
or
intersections run together, or a result with what comes after it. -/
theorem legible (readable : type.Everywhere (Layer.Readable scope))
    (plain : type.Everywhere Layer.NotLiteral) (flat : type.Everywhere Layer.Flat)
    (tight : type.Everywhere Layer.ResultsTight) : type.Legible scope := by
  induction type using induction with
  | step layer ih =>
      obtain ⟨readableHere, readable⟩ := everywhere_mk.1 readable
      obtain ⟨plainHere, plain⟩ := everywhere_mk.1 plain
      obtain ⟨flatHere, flat⟩ := everywhere_mk.1 flat
      obtain ⟨tightHere, tight⟩ := everywhere_mk.1 tight
      have parts : ∀ part ∈ layer.parts, part.Legible scope := fun part member =>
        ih part member (readable part member) (plain part member) (flat part member)
          (tight part member)
      cases layer with
      | base keyword => exact legible_base keyword
      | var name => exact legible_var readableHere.1 readableHere.2
      | named kind name types => exact legible_named readableHere.1 readableHere.2 parts
      | literal value => exact plainHere.elim
      | optional type => exact legible_optional (parts type (by simp [Layer.parts]))
      | union types => exact legible_union parts readableHere flatHere
      | intersection types => exact legible_intersection parts readableHere flatHere
      | tuple types => exact legible_tuple parts
      | proc function block => exact legible_proc readableHere parts tightHere

end Ty

end Signet

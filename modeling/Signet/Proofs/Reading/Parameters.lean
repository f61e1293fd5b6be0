import Mathlib.Data.List.Forall2
import Signet.Proofs.Type.Readable
import Signet.Reading.Methods

/-!
# Parameter lists one parameter at a time

A parameter list is read by adding parameters in their roles (`Params.addAll`). Adding those of a
regular list in the order in which it is written gives the list back (`Params.addAll_listed`), and
whatever is put together in this way is regular and has the types that were added
(`Params.Built`).
-/

namespace Signet

open Grammar

/-- A parameter in its role. -/
abbrev ParamItem := ParamRole × ParamParts

/-- The parameter itself, without its role. -/
def ParamParts.param (parts : ParamParts) : Param Ty := ⟨parts.type, parts.name⟩

/-- The name of a parameter is spelled as one, and so is the key of a keyword parameter. -/
structure ParamItem.Spelled (item : ParamItem) : Prop where
  name : ∀ name, item.2.name = some name → IsVarName name
  key : item.1 = .keyword → IsKey item.2.key

/-- A parameter with the mark of its role. -/
def ParamItem.print (item : ParamItem) : List Char :=
  match item.1 with
  | .required => item.2.param.print Ty.print
  | .optional => '?' :: item.2.param.print Ty.print
  | .rest => '*' :: item.2.param.print Ty.print
  | .keyword => (if item.2.optional then ['?'] else []) ++
      Keyword.print Ty.print ⟨item.2.key, item.2.param⟩
  | .restKeywords => ['*', '*'] ++ item.2.param.print Ty.print

namespace Params

variable {params next : Params Ty} {items more : List ParamItem} {role : ParamRole}
  {parts : ParamParts}

/-- Adds parameters in their roles, if each may stand where it does. -/
def addAll (params : Params Ty) : List ParamItem → Option (Params Ty)
  | [] => some params
  | (role, parts) :: items =>
    if params.admits role then
      match params.add role parts with
      | .ok next => next.addAll items
      | .error _ => none
    else none

theorem addAll_append :
    params.addAll (items ++ more) = (params.addAll items).bind fun next => next.addAll more := by
  induction items generalizing params with
  | nil => rfl
  | cons item items ih =>
      obtain ⟨role, parts⟩ := item
      simp only [List.cons_append, addAll]
      split
      · cases params.add role parts with
        | ok next => exact ih
        | error cause => rfl
      · rfl

/-! ## The parameters of a list -/

/-- A parameter passed by position, in a role. -/
def item (role : ParamRole) (param : Param Ty) : ParamItem :=
  (role, { type := param.type, name := param.name })

/-- A keyword parameter. -/
def keywordItem (optional : Bool) (keyword : Keyword Ty) : ParamItem :=
  (.keyword,
    { optional, key := keyword.key, type := keyword.param.type, name := keyword.param.name })

/-- The parameters of a list in the order in which they are written. -/
def listed (params : Params Ty) : List ParamItem :=
  params.required.map (item .required) ++ params.optional.map (item .optional)
    ++ params.rest.toList.map (item .rest) ++ params.trailing.map (item .required)
    ++ params.requiredKeywords.map (keywordItem false)
    ++ params.optionalKeywords.map (keywordItem true)
    ++ params.restKeywords.toList.map (item .restKeywords)

/-- What is listed is a parameter in a role without key, or a keyword parameter. -/
theorem exists_of_mem_listed {found : ParamItem} (member : found ∈ params.listed) :
    (∃ role, role ≠ .keyword ∧ ∃ param ∈ params.every, found = item role param) ∨
      ∃ optional, ∃ keyword ∈ params.keywords, found = keywordItem optional keyword := by
  have inRole : ∀ {role} {more : List (Param Ty)}, found ∈ more.map (item role) → role ≠ .keyword →
      (∀ param ∈ more, param ∈ params.every) →
        ∃ role, role ≠ .keyword ∧ ∃ param ∈ params.every, found = item role param := by
    intro role more member other subset
    obtain ⟨param, inside, rfl⟩ := List.mem_map.1 member
    exact ⟨role, other, param, subset param inside, rfl⟩
  simp only [listed, List.mem_append] at member
  rcases member with (((((first | second) | third) | fourth) | fifth) | sixth) | last
  · exact .inl (inRole first (by decide) fun _ inside => by simp [every, positionals, inside])
  · exact .inl (inRole second (by decide) fun _ inside => by simp [every, positionals, inside])
  · exact .inl (inRole third (by decide) fun _ inside => by simp_all [every, positionals])
  · exact .inl (inRole fourth (by decide) fun _ inside => by simp [every, positionals, inside])
  · obtain ⟨keyword, inside, rfl⟩ := List.mem_map.1 fifth
    exact .inr ⟨false, keyword, List.mem_append_left _ inside, rfl⟩
  · obtain ⟨keyword, inside, rfl⟩ := List.mem_map.1 sixth
    exact .inr ⟨true, keyword, List.mem_append_right _ inside, rfl⟩
  · exact .inl (inRole last (by decide) fun _ inside => by simp_all [every])

theorem param_mem_every {keyword : Keyword Ty} (member : keyword ∈ params.keywords) :
    keyword.param ∈ params.every :=
  List.mem_append_left _ (List.mem_append_right _ (List.mem_map_of_mem member))

/-- The parameters of a regular list are spelled as such. -/
theorem Regular.spelled (regular : params.Regular) : ∀ item ∈ params.listed, item.Spelled := by
  intro found member
  rcases exists_of_mem_listed member with
    ⟨role, other, param, inside, rfl⟩ | ⟨optional, keyword, inside, rfl⟩
  · exact ⟨regular.names param inside, fun same => (other same).elim⟩
  · exact ⟨regular.names keyword.param (param_mem_every inside),
      fun _ => regular.keys keyword inside⟩

/-- The parameters of a list are printed as they are listed. -/
theorem items_eq (params : Params Ty) :
    params.items Ty.print = params.listed.map ParamItem.print := by
  simp only [items, listed, List.map_append, List.map_map]
  rfl

/-- The types of the parameters as they are written are those of the list. -/
theorem parts_eq_map_listed (params : Params Ty) :
    params.parts = params.listed.map (·.2.type) := by
  simp [parts, positionals, keywords, listed, item, keywordItem, Function.comp_def]

theorem addAll_required (required more : List (Param Ty)) :
    ({ required } : Params Ty).addAll (more.map (item .required)) =
      some { required := required ++ more } := by
  induction more generalizing required with
  | nil => simp [addAll]
  | cons param more ih =>
      have := ih (required ++ [param])
      simpa [addAll, item, admits, hasKeywords, keywords, add, addRequired] using this

theorem addAll_optional (required optional more : List (Param Ty)) :
    ({ required, optional } : Params Ty).addAll (more.map (item .optional)) =
      some { required, optional := optional ++ more } := by
  induction more generalizing optional with
  | nil => simp [addAll]
  | cons param more ih =>
      have := ih (optional ++ [param])
      simpa [addAll, item, admits, hasKeywords, keywords, add] using this

theorem addAll_rest (required optional trailing : List (Param Ty)) (rest : Option (Param Ty)) :
    ({ required, optional, trailing } : Params Ty).addAll (rest.toList.map (item .rest)) =
      some { required, optional, rest, trailing } := by
  cases rest <;> simp [addAll, item, admits, hasKeywords, keywords, add]

theorem addAll_trailing (required : List (Param Ty)) {optional : List (Param Ty)}
    {rest : Option (Param Ty)} (trailing more : List (Param Ty))
    (after : more ≠ [] → optional ≠ [] ∨ rest.isSome = true) :
    ({ required, optional, rest, trailing } : Params Ty).addAll (more.map (item .required)) =
      some { required, optional, rest, trailing := trailing ++ more } := by
  induction more generalizing trailing with
  | nil => simp [addAll]
  | cons param more ih =>
      have := ih (trailing ++ [param]) fun _ => after (List.cons_ne_nil _ _)
      have late : ¬(optional = [] ∧ rest = none) := by
        rintro ⟨rfl, rfl⟩
        exact (after (List.cons_ne_nil _ _)).elim (fun h => h rfl) (by simp)
      simpa [addAll, item, admits, hasKeywords, keywords, add, addRequired, late] using this

/-- A list with more keyword parameters, required or optional. -/
def withKeywords (params : Params Ty) (optional : Bool) (more : List (Keyword Ty)) : Params Ty :=
  if optional then { params with optionalKeywords := params.optionalKeywords ++ more }
  else { params with requiredKeywords := params.requiredKeywords ++ more }

theorem addAll_keywords (params : Params Ty) (optional : Bool) (none : params.restKeywords = none)
    (more : List (Keyword Ty)) (nodup : (more.map (·.key)).Nodup)
    (fresh : ∀ keyword ∈ more, params.hasKey keyword.key = false) :
    params.addAll (more.map (keywordItem optional)) = some (params.withKeywords optional more) := by
  induction more generalizing params with
  | nil => cases optional <;> simp [addAll, withKeywords]
  | cons keyword more ih =>
      obtain ⟨different, nodup⟩ := List.nodup_cons.1 nodup
      obtain ⟨here, later⟩ := List.forall_mem_cons.1 fresh
      have added : params.add .keyword (keywordItem optional keyword).2 =
          .ok (params.withKeywords optional [keyword]) := by
        rw [add, if_neg (by simpa [keywordItem] using here)]
        cases optional <;> rfl
      -- The names differ, so adding one leaves the others fresh.
      have still : ∀ other ∈ more,
          (params.withKeywords optional [keyword]).hasKey other.key = false := by
        intro other member
        have unequal : keyword.key ≠ other.key := fun same =>
          different (List.mem_map.2 ⟨other, member, same.symm⟩)
        have := later other member
        cases optional <;>
          simp_all [hasKey, keywords, withKeywords]
      have rest := ih (params.withKeywords optional [keyword])
        (by cases optional <;> exact none) nodup still
      rw [List.map_cons, addAll]
      show (if params.admits .keyword then _ else _) = _
      rw [if_pos (by simp [admits, none])]
      show (match params.add .keyword (keywordItem optional keyword).2 with
        | .ok next => next.addAll (more.map (keywordItem optional))
        | .error _ => Option.none) = _
      rw [added]
      refine rest.trans ?_
      cases optional <;> simp [withKeywords]

/-- Adding the parameters of a regular list as they are written gives the list. -/
theorem addAll_listed (regular : params.Regular) :
    ({} : Params Ty).addAll params.listed = some params := by
  obtain ⟨required, optional, rest, trailing, requiredKeywords, optionalKeywords, restKeywords⟩ :=
    params
  have nodup := regular.nodup
  simp only [keywords, List.map_append] at nodup
  obtain ⟨requiredNodup, optionalNodup, disjoint⟩ := List.nodup_append.1 nodup
  -- One kind after another, each added to the kinds in front of it.
  have first := addAll_required [] required
  have second := addAll_optional required [] optional
  have third := addAll_rest required optional [] rest
  have fourth := addAll_trailing required [] trailing regular.trailing
  have fifth := addAll_keywords { required, optional, rest, trailing } false rfl
    requiredKeywords requiredNodup (by simp [hasKey, keywords])
  have sixth := addAll_keywords { required, optional, rest, trailing, requiredKeywords } true rfl
    optionalKeywords optionalNodup (by
      intro keyword member
      simp only [hasKey, keywords, List.append_nil, List.any_eq_false, decide_eq_true_eq]
      intro other inside same
      exact disjoint other.key (List.mem_map_of_mem inside) keyword.key
        (List.mem_map_of_mem member) same)
  simp only [listed, addAll_append]
  rw [first, Option.bind_some, List.nil_append, second, Option.bind_some, List.nil_append, third,
    Option.bind_some, fourth, Option.bind_some, List.nil_append, fifth, Option.bind_some]
  show (addAll { required, optional, rest, trailing, requiredKeywords := [] ++ requiredKeywords }
    _).bind _ = _
  rw [List.nil_append, sixth, Option.bind_some]
  cases restKeywords <;> simp [withKeywords, addAll, item, admits, add]

/-! ## What is put together -/

/-- What adding a parameter to a list can do. -/
inductive Added (params : Params Ty) (parts : ParamParts) : ParamRole → Params Ty → Prop
  | required : params.hasKeywords = false → params.optional = [] → params.rest = none →
      Added params parts .required { params with required := params.required ++ [parts.param] }
  | trailing : params.hasKeywords = false → params.optional ≠ [] ∨ params.rest.isSome = true →
      Added params parts .required { params with trailing := params.trailing ++ [parts.param] }
  | optional : params.hasKeywords = false → params.rest = none → params.trailing = [] →
      Added params parts .optional { params with optional := params.optional ++ [parts.param] }
  | rest : params.hasKeywords = false → params.rest = none →
      Added params parts .rest { params with rest := some parts.param }
  | keyword : params.restKeywords = none → params.hasKey parts.key = false →
      Added params parts .keyword
        (params.withKeywords parts.optional [⟨parts.key, parts.param⟩])
  | restKeywords : params.restKeywords = none →
      Added params parts .restKeywords { params with restKeywords := some parts.param }

theorem added_of_add (admitted : params.admits role = true)
    (added : params.add role parts = .ok next) : params.Added parts role next := by
  cases role with
  | required =>
      obtain rfl := Except.ok.inj added
      have plain : params.hasKeywords = false := by simpa [admits] using admitted
      by_cases early : params.optional.isEmpty && params.rest.isNone
      · rw [addRequired, if_pos early]
        rw [Bool.and_eq_true, List.isEmpty_iff, Option.isNone_iff_eq_none] at early
        exact .required plain early.1 early.2
      · rw [addRequired, if_neg early]
        refine .trailing plain ?_
        simpa [Decidable.or_iff_not_imp_left, Option.isSome_iff_ne_none] using early
  | optional =>
      obtain rfl := Except.ok.inj added
      simp only [admits, Bool.and_eq_true, Bool.not_eq_true', Option.isNone_iff_eq_none,
        List.isEmpty_iff] at admitted
      exact .optional admitted.1.1 admitted.1.2 admitted.2
  | rest =>
      obtain rfl := Except.ok.inj added
      simp only [admits, Bool.and_eq_true, Bool.not_eq_true', Option.isNone_iff_eq_none] at admitted
      exact .rest admitted.1 admitted.2
  | keyword =>
      rw [add] at added
      split at added
      · cases added
      · rename_i fresh
        obtain rfl := Except.ok.inj added
        exact .keyword (by simpa [admits] using admitted) (by simpa using fresh)
  | restKeywords =>
      obtain rfl := Except.ok.inj added
      exact .restKeywords (by simpa [admits] using admitted)

theorem parts_eq_map_every (params : Params Ty) : params.parts = params.every.map (·.type) := by
  simp [Params.parts, every, Function.comp_def]

/-- Adding a parameter adds it to the parameters and leaves the others. -/
theorem Added.perm_every (added : params.Added parts role next) :
    next.every.Perm (parts.param :: params.every) := by
  classical
  rw [List.perm_iff_count]
  intro param
  cases added with
  | keyword none fresh =>
      unfold withKeywords
      split <;>
      · simp only [every, positionals, keywords, List.map_append, List.count_append,
          List.count_cons, List.map_cons, List.map_nil, List.count_nil]
        omega
  | rest plain none | restKeywords none =>
      simp only [every, positionals, keywords, List.count_append, none, List.count_cons,
        List.count_nil, Option.toList]
      omega
  | required | trailing | optional =>
      simp only [every, positionals, keywords, List.count_append, List.count_cons, List.count_nil]
      omega

/-- Adding a parameter that is spelled as one keeps the list regular. -/
theorem Added.regular (added : params.Added parts role next) (regular : params.Regular)
    (spelled : ParamItem.Spelled (role, parts)) : next.Regular := by
  have named : ∀ param ∈ next.every, ∀ name, param.name = some name → IsVarName name := by
    intro param member other named
    rcases List.mem_cons.1 (added.perm_every.mem_iff.1 member) with rfl | member
    · exact spelled.name other named
    · exact regular.names param member other named
  obtain ⟨-, keys, nodup, trailing⟩ := regular
  -- Only a keyword adds a key, and that one is fresh.
  cases added with
  | required => exact ⟨named, keys, nodup, trailing⟩
  | trailing plain late => exact ⟨named, keys, nodup, fun _ => late⟩
  | optional => exact ⟨named, keys, nodup, fun _ => .inl (by simp)⟩
  | rest => exact ⟨named, keys, nodup, fun _ => .inr rfl⟩
  | restKeywords => exact ⟨named, keys, nodup, trailing⟩
  | keyword none fresh =>
      have perm : (params.withKeywords parts.optional [⟨parts.key, parts.param⟩]).keywords.Perm
          (⟨parts.key, parts.param⟩ :: params.keywords) := by
        unfold withKeywords
        split
        · simp only [keywords, ← List.append_assoc]
          exact List.perm_append_singleton _ _
        · simp only [keywords, List.append_assoc]
          exact List.perm_middle
      have different : parts.key ∉ params.keywords.map (·.key) := by
        simpa [hasKey] using fresh
      refine ⟨named, fun keyword member => ?_, ?_, ?_⟩
      · rcases List.mem_cons.1 (perm.mem_iff.1 member) with rfl | member
        · exact spelled.key rfl
        · exact keys keyword member
      · rw [(perm.map _).nodup_iff]
        exact List.nodup_cons.2 ⟨different, nodup⟩
      · unfold withKeywords
        split <;> exact trailing

/-- A list that is put together from parameters that are spelled as such is regular and consists of
them. -/
theorem built_of_addAll (regular : params.Regular) (added : params.addAll items = some next)
    (spelled : ∀ item ∈ items, item.Spelled) :
    next.Regular ∧ next.every.Perm (params.every ++ items.map (·.2.param)) := by
  induction items generalizing params with
  | nil =>
      obtain rfl := Option.some.inj added
      exact ⟨regular, by simp⟩
  | cons item items ih =>
      obtain ⟨role, parts⟩ := item
      obtain ⟨here, later⟩ := List.forall_mem_cons.1 spelled
      rw [addAll] at added
      split at added
      · rename_i admitted
        split at added
        · rename_i middle step
          have step := added_of_add admitted step
          obtain ⟨done, perm⟩ := ih (step.regular regular here) added later
          refine ⟨done, perm.trans ((step.perm_every.append_right _).trans ?_)⟩
          rw [List.map_cons, List.cons_append]
          exact List.perm_middle.symm
        · cases added
      · cases added

theorem regular_empty : ({} : Params Ty).Regular :=
  ⟨by simp [every, positionals, keywords], by simp [keywords], by simp [keywords], by simp⟩

end Params

/-! ## Trees of parameters -/

/-- The tree is a parameter. -/
def Grammar.ParseTree.IsParam (scope : List String) (tree : ParseTree) (item : ParamItem) : Prop :=
  paramRole? tree.rule = some item.1 ∧ readParamParts scope tree.children = .ok item.2

theorem readParamTrees_cons_eq_ok_iff {scope : List String} {params next : Params Ty}
    {tree : ParseTree} {trees : List ParseTree} :
    readParamTrees scope params (tree :: trees) = .ok next ↔
      ∃ role parts middle, tree.IsParam scope (role, parts) ∧ params.admits role = true ∧
        params.add role parts = .ok middle ∧ readParamTrees scope middle trees = .ok next := by
  obtain ⟨rule, stretch, children⟩ := tree
  rw [readParamTrees]
  simp only [ParseTree.IsParam, ParseTree.rule, ParseTree.children]
  -- There are four ways to stop at the first tree: no parameter, out of order, without meaning, or
  -- with a name that is taken.
  cases paramRole? rule with
  | none =>
      dsimp only
      constructor
      · rintro ⟨⟩
      · rintro ⟨_, _, _, ⟨⟨⟩, -⟩, -⟩
  | some role =>
      dsimp only
      cases admitted : params.admits role with
      | false =>
          constructor
          · rintro ⟨⟩
          · rintro ⟨_, _, _, ⟨⟨⟩, -⟩, admits, -⟩
            cases admitted.symm.trans admits
      | true =>
          rw [Bool.not_true, if_neg Bool.false_ne_true]
          cases read : readParamParts scope children with
          | error fault =>
              constructor
              · rintro ⟨⟩
              · rintro ⟨_, _, _, ⟨-, ⟨⟩⟩, -⟩
          | ok parts =>
              show (params.add role parts).mapError _ >>= _ = _ ↔ _
              cases added : params.add role parts with
              | error cause =>
                  constructor
                  · rintro ⟨⟩
                  · rintro ⟨_, _, _, ⟨⟨⟩, ⟨⟩⟩, -, add, -⟩
                    cases added.symm.trans add
              | ok middle =>
                  constructor
                  · intro rest
                    exact ⟨role, parts, middle, ⟨rfl, rfl⟩, admitted, added, rest⟩
                  · rintro ⟨_, _, _, found, -, add, rest⟩
                    obtain rfl := Option.some.inj found.1
                    obtain rfl := Except.ok.inj found.2
                    obtain rfl := Except.ok.inj (added.symm.trans add)
                    exact rest

/-- Trees of parameters are read by adding the parameters. -/
theorem readParamTrees_eq_ok_iff {scope : List String} {params next : Params Ty}
    {trees : List ParseTree} :
    readParamTrees scope params trees = .ok next ↔
      ∃ items, List.Forall₂ (ParseTree.IsParam scope) trees items ∧
        params.addAll items = some next := by
  induction trees generalizing params with
  | nil =>
      rw [readParamTrees]
      constructor
      · intro same
        obtain rfl := Except.ok.inj same
        exact ⟨[], .nil, rfl⟩
      · rintro ⟨items, all, added⟩
        cases all
        obtain rfl := Option.some.inj added
        rfl
  | cons tree trees ih =>
      rw [readParamTrees_cons_eq_ok_iff]
      constructor
      · rintro ⟨role, parts, middle, here, admitted, add, rest⟩
        obtain ⟨items, all, added⟩ := ih.1 rest
        refine ⟨(role, parts) :: items, .cons here all, ?_⟩
        rw [Params.addAll, if_pos admitted, add]
        exact added
      · rintro ⟨items, all, added⟩
        cases all with
        | @cons _ item _ items here all =>
            obtain ⟨role, parts⟩ := item
            rw [Params.addAll] at added
            split at added
            · rename_i admitted
              split at added
              · rename_i middle add
                exact ⟨role, parts, middle, here, admitted, add, ih.2 ⟨items, all, added⟩⟩
              · cases added
            · cases added

end Signet

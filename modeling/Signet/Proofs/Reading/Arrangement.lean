import Signet.Proofs.Grammar.Phrases
import Signet.Proofs.Reading.Parameters
import Signet.Reading.Document

/-!
# The order of parameters

A parameter list that is read is an *arrangement* of its parameters: required ones, optional ones, a
rest parameter, trailing ones, keyword parameters and a rest of keywords. Adding a parameter where
it is admitted keeps to an arrangement (`Arrangement.exists_of_added`), and every arrangement can be
added (`Arrangement.addAll_items`). But trailing parameters may stand on both sides of the rest
parameter, and the list that is read has all of them behind it. So it has the order in which it was
written exactly if no rest parameter stands behind a trailing one
(`readParamTrees_keeps_order_iff`).
-/

namespace Signet

open Grammar

/-! ## Roles in a row -/

namespace ParamRole

/-- A parameter in this role is passed by position. -/
def isPositional : ParamRole → Bool
  | required | optional | rest => true
  | keyword | restKeywords => false

/-- The order that is asked for: required, optional, rest, trailing, keyword parameters, and a rest
of keywords. -/
def InOrder (roles : List ParamRole) : Prop :=
  ∃ first optional rest trailing keywords restKeywords : Nat, rest ≤ 1 ∧ restKeywords ≤ 1 ∧
    roles = .replicate first required ++ .replicate optional .optional ++ .replicate rest .rest
      ++ .replicate trailing required ++ .replicate keywords keyword
      ++ .replicate restKeywords .restKeywords

/-- A rest parameter stands behind a trailing one: a required one behind an optional one. -/
def LateRest (roles : List ParamRole) : Prop := [optional, required, rest].Sublist roles

/-- What is passed by keyword stands behind all that is passed by position, and the rest of keywords
behind all others. -/
def KeywordsLast (roles : List ParamRole) : Prop :=
  ∃ (positional : List ParamRole) (keywords restKeywords : Nat), restKeywords ≤ 1 ∧
    (∀ role ∈ positional, role.isPositional = true) ∧
    roles = positional ++ .replicate keywords keyword ++ .replicate restKeywords .restKeywords

instance (roles : List ParamRole) : Decidable (LateRest roles) :=
  inferInstanceAs (Decidable (List.Sublist _ roles))

/-- What does not begin with an entry is found behind all copies of it. -/
theorem sublist_of_replicate_append {α : Type} {first other : α} {rest more : List α} {count : Nat}
    (inside : (first :: rest).Sublist (.replicate count other ++ more)) (ne : first ≠ other) :
    (first :: rest).Sublist more := by
  induction count with
  | zero => exact inside
  | succ count ih =>
      rw [List.replicate_succ, List.cons_append] at inside
      cases inside with
      | cons _ inside => exact ih inside
      | cons_cons => exact (ne rfl).elim

/-- In the order that is asked for no rest parameter is late. -/
theorem not_lateRest {roles : List ParamRole} (inOrder : InOrder roles) : ¬LateRest roles := by
  obtain ⟨_, _, _, _, _, _, -, -, rfl⟩ := inOrder
  intro late
  simp only [LateRest, List.append_assoc] at late
  -- the optional one is found first, then the required one is behind the rest parameter
  have late := sublist_of_replicate_append late nofun
  have late := sublist_of_replicate_append (List.sublist_of_cons_sublist late) nofun
  have late := sublist_of_replicate_append late nofun
  have late := sublist_of_replicate_append (List.sublist_of_cons_sublist late) nofun
  have late := sublist_of_replicate_append late nofun
  rw [← List.append_nil (List.replicate _ ParamRole.restKeywords)] at late
  exact nomatch sublist_of_replicate_append late nofun

end ParamRole

open ParamRole

/-! ## Parameters in their roles -/

namespace ParamItem

/-- The parameter without what its role does not use. -/
def essential (item : ParamItem) : ParamItem :=
  match item.1 with
  | .keyword => item
  | role => Params.item role item.2.param

/-- The keyword parameter, if it is one of the kind. -/
def keyword? (optional : Bool) (item : ParamItem) : Option (Keyword Ty) :=
  if item.1 = .keyword ∧ item.2.optional = optional then some ⟨item.2.key, item.2.param⟩ else none

/-- The rest of keywords, if it is one. -/
def restKeywords? (item : ParamItem) : Option (Param Ty) :=
  if item.1 = .restKeywords then some item.2.param else none

/-- What is passed by position, in its roles and in the order in which it is written. -/
def positionals (items : List ParamItem) : List (ParamRole × Param Ty) :=
  (items.filter fun item => item.1.isPositional).map fun item => (item.1, item.2.param)

/-- The keys of keyword parameters. -/
def keys (items : List ParamItem) : List String :=
  (items.filter fun item => item.1 = .keyword).map fun item => item.2.key

variable {item : ParamItem} {items more : List ParamItem}

@[simp] theorem essential_fst (item : ParamItem) : item.essential.1 = item.1 := by
  obtain ⟨role, parts⟩ := item
  cases role <;> rfl

theorem param_essential (item : ParamItem) : item.essential.2.param = item.2.param := by
  obtain ⟨role, parts⟩ := item
  cases role <;> rfl

theorem keyword?_essential (optional : Bool) (item : ParamItem) :
    item.essential.keyword? optional = item.keyword? optional := by
  obtain ⟨role, parts⟩ := item
  cases role <;> rfl

theorem restKeywords?_essential (item : ParamItem) :
    item.essential.restKeywords? = item.restKeywords? := by
  obtain ⟨role, parts⟩ := item
  cases role <;> rfl

end ParamItem

namespace Params

variable {params next : Params Ty} {items : List ParamItem}

/-- What is passed by position, role by role. -/
def inRoles (params : Params Ty) : List (ParamRole × Param Ty) :=
  params.required.map (.required, ·) ++ params.optional.map (.optional, ·)
    ++ params.rest.toList.map (.rest, ·) ++ params.trailing.map (.required, ·)

/-- The list consists of the parameters that are written, each of them once. Keyword parameters of
one kind keep their order. -/
structure Collects (params : Params Ty) (items : List ParamItem) : Prop where
  positionals : (ParamItem.positionals items).Perm params.inRoles
  requiredKeywords : params.requiredKeywords = items.filterMap (ParamItem.keyword? false)
  optionalKeywords : params.optionalKeywords = items.filterMap (ParamItem.keyword? true)
  restKeywords : params.restKeywords.toList = items.filterMap ParamItem.restKeywords?
  nodup : (params.keywords.map (·.key)).Nodup

theorem hasKeywords_eq_false_iff :
    params.hasKeywords = false ↔ params.keywords = [] ∧ params.restKeywords = none := by
  simp [hasKeywords]

theorem add_essential (params : Params Ty) (item : ParamItem) :
    params.add item.1 item.essential.2 = params.add item.1 item.2 := by
  obtain ⟨role, parts⟩ := item
  cases role <;> rfl

/-- A parameter is not added only if it is passed by keyword and its key is used. -/
theorem refused_of_add {role : ParamRole} {parts : ParamParts} {cause : ParseCause}
    (refused : params.add role parts = .error cause) :
    role = .keyword ∧ params.hasKey parts.key = true ∧ cause = .duplicatedKeyword parts.key := by
  cases role with
  | keyword =>
      rw [add] at refused
      split at refused
      · rename_i used
        exact ⟨rfl, used, (Except.error.inj refused).symm⟩
      · cases refused
  | _ => cases refused

theorem addAll_essential (params : Params Ty) (items : List ParamItem) :
    params.addAll (items.map ParamItem.essential) = params.addAll items := by
  induction items generalizing params with
  | nil => rfl
  | cons item items ih =>
      obtain ⟨role, parts⟩ := item
      have same := params.add_essential (role, parts)
      rw [List.map_cons, ← Prod.mk.eta (p := ParamItem.essential _), addAll, addAll]
      simp only [ParamItem.essential_fst, same]
      split
      · cases params.add role parts with
        | ok next => exact ih next
        | error cause => rfl
      · rfl

end Params

/-! ## Arrangements -/

/-- Parameters as they may be written one after the other. Early ones are trailing, but stand in
front of the rest parameter. -/
structure Arrangement where
  required : List (Param Ty) := []
  optional : List (Param Ty) := []
  early : List (Param Ty) := []
  rest : Option (Param Ty) := none
  late : List (Param Ty) := []
  keywords : List (Bool × Keyword Ty) := []
  restKeywords : Option (Param Ty) := none
  early_between : early ≠ [] → optional ≠ [] ∧ rest.isSome = true := by simp
  late_behind : late ≠ [] → optional ≠ [] ∨ rest.isSome = true := by simp
  nodup : (keywords.map (·.2.key)).Nodup := by simp

namespace Arrangement

/-- The parameter list that is read. -/
def params (arrangement : Arrangement) : Params Ty where
  required := arrangement.required
  optional := arrangement.optional
  rest := arrangement.rest
  trailing := arrangement.early ++ arrangement.late
  requiredKeywords := (arrangement.keywords.filter (!·.1)).map (·.2)
  optionalKeywords := (arrangement.keywords.filter (·.1)).map (·.2)
  restKeywords := arrangement.restKeywords

/-- The parameters in the order in which they are written. -/
def items (arrangement : Arrangement) : List ParamItem :=
  arrangement.required.map (Params.item .required)
    ++ arrangement.optional.map (Params.item .optional)
    ++ arrangement.early.map (Params.item .required)
    ++ arrangement.rest.toList.map (Params.item .rest)
    ++ arrangement.late.map (Params.item .required)
    ++ arrangement.keywords.map (fun keyword => Params.keywordItem keyword.1 keyword.2)
    ++ arrangement.restKeywords.toList.map (Params.item .restKeywords)

variable {next : Params Ty} {role : ParamRole} {parts : ParamParts} {more : List ParamItem}

/-- Whether a key is used. -/
theorem hasKey_params (arrangement : Arrangement) (key : String) :
    arrangement.params.hasKey key = true ↔ key ∈ arrangement.keywords.map (·.2.key) := by
  simp only [Params.hasKey, Params.keywords, params, List.any_append, List.any_map, Bool.or_eq_true,
    List.any_eq_true, List.mem_filter, List.mem_map, Function.comp, decide_eq_true_eq]
  constructor
  · rintro (⟨keyword, ⟨inside, -⟩, same⟩ | ⟨keyword, ⟨inside, -⟩, same⟩)
    · exact ⟨keyword, inside, same⟩
    · exact ⟨keyword, inside, same⟩
  · rintro ⟨⟨optional, keyword⟩, inside, same⟩
    cases optional with
    | false => exact .inl ⟨(false, keyword), ⟨inside, rfl⟩, same⟩
    | true => exact .inr ⟨(true, keyword), ⟨inside, rfl⟩, same⟩

/-- Nothing is passed by keyword if the list says so. -/
theorem keywords_eq_nil {arrangement : Arrangement}
    (plain : arrangement.params.hasKeywords = false) :
    arrangement.keywords = [] ∧ arrangement.restKeywords = none := by
  obtain ⟨none, noRest⟩ := Params.hasKeywords_eq_false_iff.1 plain
  refine ⟨List.eq_nil_iff_forall_not_mem.2 fun keyword inside => ?_, noRest⟩
  have used := (arrangement.hasKey_params keyword.2.key).2 (List.mem_map_of_mem inside)
  simp [Params.hasKey, none] at used

/-- A parameter that is added comes after the others. -/
theorem exists_of_added (arrangement : Arrangement)
    (added : arrangement.params.Added parts role next) : ∃ longer : Arrangement,
      longer.params = next ∧
      longer.items = arrangement.items ++ [ParamItem.essential (role, parts)] := by
  obtain ⟨required, optional, early, rest, late, keywords, restKeywords, between, behind, nodup⟩ :=
    arrangement
  cases added with
  | required plain none noRest =>
      obtain ⟨rfl, rfl⟩ := keywords_eq_nil plain
      obtain rfl : optional = [] := none
      obtain rfl : rest = .none := noRest
      obtain rfl : early = [] := by_contra fun there => (between there).1 rfl
      obtain rfl : late = [] := by_contra fun there => by simpa using behind there
      exact ⟨{ required := required ++ [parts.param] }, rfl, by simp [items]; rfl⟩
  | trailing plain follows =>
      obtain ⟨rfl, rfl⟩ := keywords_eq_nil plain
      refine ⟨{ required, optional, early, rest, late := late ++ [parts.param]
                early_between := between, late_behind := fun _ => follows }, ?_, ?_⟩
      · simp [params]
      · simp [items]; rfl
  | optional plain noRest none =>
      obtain ⟨rfl, rfl⟩ := keywords_eq_nil plain
      obtain rfl : rest = .none := noRest
      obtain ⟨rfl, rfl⟩ := List.append_eq_nil_iff.1 none
      exact ⟨{ required, optional := optional ++ [parts.param] }, rfl, by simp [items]; rfl⟩
  | rest plain noRest =>
      obtain ⟨rfl, rfl⟩ := keywords_eq_nil plain
      obtain rfl : rest = .none := noRest
      obtain rfl : early = [] := by_contra fun there => by simpa using (between there).2
      -- the parameters that were trailing so far stand in front of the rest parameter
      refine ⟨{ required, optional, early := late, rest := some parts.param
                early_between := fun there => ⟨by simpa using behind there, rfl⟩ }, ?_, ?_⟩
      · simp [params]
      · simp [items]; rfl
  | keyword noRest fresh =>
      obtain rfl : restKeywords = .none := noRest
      have different : parts.key ∉ keywords.map (·.2.key) := fun used => by
        rw [(hasKey_params ⟨required, optional, early, rest, late, keywords, .none, between, behind,
          nodup⟩ parts.key).2 used] at fresh
        cases fresh
      refine ⟨{ required, optional, early, rest, late
                keywords := keywords ++ [(parts.optional, ⟨parts.key, parts.param⟩)]
                early_between := between, late_behind := behind
                nodup := ?_ }, ?_, ?_⟩
      · rw [List.map_append, List.map_singleton]
        refine List.nodup_append.2 ⟨nodup, List.nodup_singleton _, ?_⟩
        intro key inside other last same
        obtain rfl := List.mem_singleton.1 last
        obtain rfl : key = parts.key := same
        exact different inside
      · cases same : parts.optional <;> simp [params, Params.withKeywords]
      · simp [items]; rfl
  | restKeywords noRest =>
      obtain rfl : restKeywords = .none := noRest
      refine ⟨{ required, optional, early, rest, late, keywords
                restKeywords := some parts.param
                early_between := between, late_behind := behind, nodup }, rfl, ?_⟩
      simp [items]; rfl

/-- So do all that are added. -/
theorem exists_of_addAll (arrangement : Arrangement)
    (added : arrangement.params.addAll more = some next) : ∃ longer : Arrangement,
      longer.params = next ∧
      longer.items = arrangement.items ++ more.map ParamItem.essential := by
  induction more generalizing arrangement with
  | nil => exact ⟨arrangement, Option.some.inj added, by simp⟩
  | cons item more ih =>
      obtain ⟨role, parts⟩ := item
      rw [Params.addAll] at added
      split at added
      · rename_i admitted
        split at added
        · rename_i middle step
          obtain ⟨longer, rfl, here⟩ :=
            arrangement.exists_of_added (Params.added_of_add admitted step)
          obtain ⟨longest, done, later⟩ := ih longer added
          exact ⟨longest, done, by rw [later, here]; simp⟩
        · cases added
      · cases added

/-! ## Every arrangement can be added -/

/-- Keyword parameters of both kinds may follow one another. -/
theorem addAll_keywordItems (params : Params Ty) (noRest : params.restKeywords = none)
    (keywords : List (Bool × Keyword Ty)) (nodup : (keywords.map (·.2.key)).Nodup)
    (fresh : ∀ keyword ∈ keywords, params.hasKey keyword.2.key = false) :
    params.addAll (keywords.map fun keyword => Params.keywordItem keyword.1 keyword.2) =
      some { params with
        requiredKeywords := params.requiredKeywords ++ (keywords.filter (!·.1)).map (·.2)
        optionalKeywords := params.optionalKeywords ++ (keywords.filter (·.1)).map (·.2) } := by
  induction keywords generalizing params with
  | nil => simp [Params.addAll]
  | cons keyword keywords ih =>
      obtain ⟨optional, keyword⟩ := keyword
      obtain ⟨different, nodup⟩ := List.nodup_cons.1 nodup
      obtain ⟨here, later⟩ := List.forall_mem_cons.1 fresh
      have first := params.addAll_keywords optional noRest [keyword] (List.nodup_singleton _)
        (List.forall_mem_singleton.2 here)
      -- The names differ, so adding one leaves the others fresh.
      have still : ∀ other ∈ keywords,
          (params.withKeywords optional [keyword]).hasKey other.2.key = false := by
        intro other inside
        have unequal : keyword.key ≠ other.2.key := fun same =>
          different (List.mem_map.2 ⟨other, inside, same.symm⟩)
        have := later other inside
        cases optional <;> simp_all [Params.hasKey, Params.keywords, Params.withKeywords]
      have rest := ih (params.withKeywords optional [keyword]) (by cases optional <;> exact noRest)
        nodup still
      rw [List.map_cons, ← List.singleton_append, Params.addAll_append]
      show ((params.addAll ([keyword].map (Params.keywordItem optional))).bind _) = _
      rw [first, Option.bind_some, rest]
      cases optional <;> simp [Params.withKeywords]

/-- Adding the parameters of an arrangement as they are written gives its list. -/
theorem addAll_items (arrangement : Arrangement) :
    ({} : Params Ty).addAll arrangement.items = some arrangement.params := by
  obtain ⟨required, optional, early, rest, late, keywords, restKeywords, between, behind, nodup⟩ :=
    arrangement
  have first := Params.addAll_required [] required
  have second := Params.addAll_optional required [] optional
  have third := Params.addAll_trailing required [] early fun there =>
    .inl (b := (none : Option (Param Ty)).isSome = true) (between there).1
  have fourth := Params.addAll_rest required optional early rest
  have fifth := Params.addAll_trailing required early late behind
  have sixth := addAll_keywordItems { required, optional, rest, trailing := early ++ late } rfl
    keywords nodup (by simp [Params.hasKey, Params.keywords])
  simp only [items, Params.addAll_append]
  rw [first, Option.bind_some, List.nil_append, second, Option.bind_some, List.nil_append, third,
    Option.bind_some, List.nil_append, fourth, Option.bind_some, fifth, Option.bind_some, sixth,
    Option.bind_some]
  cases restKeywords <;> simp [params, Params.addAll, Params.item, Params.admits, Params.add]

end Arrangement

/-- What is read is an arrangement of the parameters that are written. -/
theorem readParamTrees_eq_ok_iff_arranged {scope : List String} {trees : List ParseTree}
    {params : Params Ty} : readParamTrees scope {} trees = .ok params ↔
      ∃ items, List.Forall₂ (ParseTree.IsParam scope) trees items ∧
        ∃ arrangement : Arrangement, arrangement.params = params ∧
          arrangement.items = items.map ParamItem.essential := by
  rw [readParamTrees_eq_ok_iff]
  refine exists_congr fun items => and_congr_right fun _ => ⟨fun added => ?_, ?_⟩
  · obtain ⟨arrangement, same, written⟩ := ({} : Arrangement).exists_of_addAll added
    exact ⟨arrangement, same, written⟩
  · rintro ⟨arrangement, rfl, written⟩
    rw [← Params.addAll_essential, ← written]
    exact arrangement.addAll_items

/-! ## What an arrangement keeps -/

namespace Arrangement

variable (arrangement : Arrangement)

/-- The roles of an arrangement, in the order in which they are written. -/
theorem map_fst_items : arrangement.items.map (·.1) =
    .replicate arrangement.required.length .required
      ++ .replicate arrangement.optional.length .optional
      ++ .replicate arrangement.early.length .required
      ++ .replicate arrangement.rest.toList.length .rest
      ++ .replicate arrangement.late.length .required
      ++ .replicate arrangement.keywords.length .keyword
      ++ .replicate arrangement.restKeywords.toList.length .restKeywords := by
  simp [items, Params.item, Params.keywordItem, Function.comp_def]

theorem length_toList_le {α : Type} (option : Option α) : option.toList.length ≤ 1 := by
  cases option <;> simp

theorem keywordsLast : KeywordsLast (arrangement.items.map (·.1)) := by
  refine ⟨_, _, _, length_toList_le arrangement.restKeywords, ?_, arrangement.map_fst_items⟩
  intro role inside
  simp only [List.mem_append, List.mem_replicate] at inside
  rcases inside with (((⟨-, rfl⟩ | ⟨-, rfl⟩) | ⟨-, rfl⟩) | ⟨-, rfl⟩) | ⟨-, rfl⟩ <;> rfl

/-- Without early parameters an arrangement is in the order that is asked for. -/
theorem inOrder (none : arrangement.early = []) : InOrder (arrangement.items.map (·.1)) := by
  refine ⟨arrangement.required.length, arrangement.optional.length, _, arrangement.late.length,
    arrangement.keywords.length, _, length_toList_le arrangement.rest,
    length_toList_le arrangement.restKeywords, ?_⟩
  rw [map_fst_items, none]
  simp

theorem lateRest_iff : LateRest (arrangement.items.map (·.1)) ↔ arrangement.early ≠ [] := by
  constructor
  · exact fun late none => not_lateRest (arrangement.inOrder none) late
  · intro there
    obtain ⟨before, rest⟩ := arrangement.early_between there
    rw [map_fst_items]
    have one : [ParamRole.optional].Sublist (.replicate arrangement.optional.length .optional) := by
      simpa [List.length_pos_iff] using before
    have two : [ParamRole.required].Sublist (.replicate arrangement.early.length .required) := by
      simpa [List.length_pos_iff] using there
    have three : [ParamRole.rest].Sublist (.replicate arrangement.rest.toList.length .rest) := by
      obtain ⟨param, same⟩ := Option.isSome_iff_exists.1 rest
      simp [same]
    have all := ((one.append two).append three)
    refine (all.trans (List.sublist_append_right
      (.replicate arrangement.required.length .required) _)).trans ?_
    simp only [← List.append_assoc]
    exact (((List.sublist_append_left _ _).trans (List.sublist_append_left _ _)).trans
      (List.sublist_append_left _ _))

/-- What is passed by position, as it is written. -/
theorem positionals_items : ParamItem.positionals arrangement.items =
    arrangement.required.map (.required, ·) ++ arrangement.optional.map (.optional, ·)
      ++ arrangement.early.map (.required, ·) ++ arrangement.rest.toList.map (.rest, ·)
      ++ arrangement.late.map (.required, ·) := by
  simp [ParamItem.positionals, items, Params.item, Params.keywordItem, isPositional,
    List.filter_map, Function.comp_def, ParamParts.param]

/-- The keyword parameters of one kind, as they are written. -/
theorem filterMap_keyword? (optional : Bool) :
    arrangement.items.filterMap (ParamItem.keyword? optional) =
      (arrangement.keywords.filter (·.1 = optional)).map (·.2) := by
  have keywords : ∀ keywords : List (Bool × Keyword Ty),
      (keywords.map fun keyword => Params.keywordItem keyword.1 keyword.2).filterMap
        (ParamItem.keyword? optional) = (keywords.filter (·.1 = optional)).map (·.2) := by
    intro keywords
    induction keywords with
    | nil => rfl
    | cons keyword keywords ih =>
        rw [List.map_cons, List.filterMap_cons, ih, List.filter_cons]
        by_cases same : keyword.1 = optional <;>
          simp [ParamItem.keyword?, Params.keywordItem, ParamParts.param, same]
  simp [items, keywords, ParamItem.keyword?, Params.item, Function.comp_def]

/-- The list has everything that is written. -/
theorem collects : arrangement.params.Collects arrangement.items where
  positionals := by
    rw [positionals_items]
    simp only [Params.inRoles, params, List.map_append, List.append_assoc]
    refine .append_left _ (.append_left _ ?_)
    simp only [← List.append_assoc]
    exact List.perm_append_comm.append_right _
  requiredKeywords := by simp [filterMap_keyword?, params]
  optionalKeywords := by simp [filterMap_keyword?, params]
  restKeywords := by
    have rest : (arrangement.restKeywords.toList.map (Params.item .restKeywords)).filterMap
        ParamItem.restKeywords? = arrangement.restKeywords.toList := by
      cases arrangement.restKeywords <;> rfl
    simp [items, params, rest, ParamItem.restKeywords?, Params.item, Params.keywordItem,
      Function.comp_def]
  nodup := by
    have perm : (arrangement.params.keywords.map (·.key)).Perm
        (arrangement.keywords.map (·.2.key)) := by
      simp only [Params.keywords, params, ← List.map_append, List.map_map]
      exact (List.perm_append_comm.trans (List.filter_append_perm _ _)).map _
    exact perm.nodup_iff.2 arrangement.nodup

/-- The list has the order in which it is written if nothing is early, and only then: the rest
parameter would come first. -/
theorem positionals_eq_iff :
    ParamItem.positionals arrangement.items = arrangement.params.inRoles ↔
      arrangement.early = [] := by
  rw [positionals_items, Params.inRoles]
  simp only [params, List.map_append, List.append_assoc, List.append_cancel_left_eq]
  simp only [← List.append_assoc, List.append_cancel_right_eq]
  constructor
  · intro same
    by_contra there
    obtain ⟨param, others, spelled⟩ := List.exists_cons_of_ne_nil there
    obtain ⟨rest, found⟩ := Option.isSome_iff_exists.1 (arrangement.early_between there).2
    rw [spelled, found] at same
    exact nomatch congrArg (·.head?.map (·.1)) same
  · intro none
    simp [none]

end Arrangement

namespace ParamItem

variable {items : List ParamItem}

theorem positionals_essential (items : List ParamItem) :
    positionals (items.map essential) = positionals items := by
  simp [positionals, List.filter_map, Function.comp_def, param_essential]

theorem collects_essential {params : Params Ty}
    (collects : params.Collects (items.map essential)) : params.Collects items where
  positionals := positionals_essential items ▸ collects.positionals
  requiredKeywords := by
    simpa [List.filterMap_map, Function.comp_def, keyword?_essential] using
      collects.requiredKeywords
  optionalKeywords := by
    simpa [List.filterMap_map, Function.comp_def, keyword?_essential] using
      collects.optionalKeywords
  restKeywords := by
    simpa [List.filterMap_map, Function.comp_def, restKeywords?_essential] using
      collects.restKeywords
  nodup := collects.nodup

/-! ## Lists in the order that is asked for -/

/-- Parameters in a role without key. -/
theorem map_essential_of_role {role : ParamRole} {count : Nat}
    (same : items.map (·.1) = .replicate count role) (other : role ≠ .keyword) :
    items.map essential = (items.map (·.2.param)).map (Params.item role) := by
  rw [List.map_map]
  refine List.map_congr_left fun item inside => ?_
  obtain ⟨found, parts⟩ := item
  obtain rfl : found = role :=
    (List.eq_replicate_iff.1 same).2 _ (List.mem_map_of_mem (f := (·.1)) inside)
  cases found with
  | keyword => exact (other rfl).elim
  | _ => rfl

/-- Parameters that are passed by keyword. -/
theorem map_essential_of_keyword {count : Nat}
    (same : items.map (·.1) = .replicate count .keyword) : items.map essential =
      (items.map fun item => (item.2.optional, (⟨item.2.key, item.2.param⟩ : Keyword Ty))).map
        fun keyword => Params.keywordItem keyword.1 keyword.2 := by
  rw [List.map_map]
  refine List.map_congr_left fun item inside => ?_
  obtain ⟨role, parts⟩ := item
  obtain rfl : role = .keyword :=
    (List.eq_replicate_iff.1 same).2 _ (List.mem_map_of_mem (f := (·.1)) inside)
  rfl

theorem keys_of_keyword {count : Nat} (same : items.map (·.1) = .replicate count .keyword) :
    keys items = items.map (·.2.key) := by
  rw [keys, List.filter_eq_self.2]
  exact fun item inside => decide_eq_true
    ((List.eq_replicate_iff.1 same).2 _ (List.mem_map_of_mem (f := (·.1)) inside))

theorem length_le_one_of_role {role : ParamRole} {count : Nat}
    (same : items.map (·.1) = .replicate count role) (atMost : count ≤ 1) :
    (items.map (·.2.param)).length ≤ 1 := by
  have length := congrArg List.length same
  simp only [List.length_map, List.length_replicate] at length ⊢
  omega

/-- At most one parameter. -/
theorem toList_head? {α : Type} {values : List α} (atMost : values.length ≤ 1) :
    values.head?.toList = values := by
  match values, atMost with
  | [], _ => rfl
  | [value], _ => rfl

/-- Parameters in the order that is asked for are an arrangement, if no key is used twice. -/
theorem exists_arrangement (inOrder : InOrder (items.map (·.1))) (nodup : (keys items).Nodup) :
    ∃ arrangement : Arrangement, arrangement.items = items.map essential := by
  obtain ⟨_, _, rests, _, _, ends, atMost, atMost', same⟩ := inOrder
  obtain ⟨items, last, rfl, same, lastSame⟩ := List.map_eq_append_iff.1 same
  obtain ⟨items, keyed, rfl, same, keyedSame⟩ := List.map_eq_append_iff.1 same
  obtain ⟨items, trailing, rfl, same, trailingSame⟩ := List.map_eq_append_iff.1 same
  obtain ⟨items, rest, rfl, same, restSame⟩ := List.map_eq_append_iff.1 same
  obtain ⟨required, optional, rfl, requiredSame, optionalSame⟩ := List.map_eq_append_iff.1 same
  have restLength := length_le_one_of_role restSame atMost
  have lastLength := length_le_one_of_role lastSame atMost'
  have keywordsWritten := map_essential_of_keyword keyedSame
  generalize keywords_eq : keyed.map
    (fun item => (item.2.optional, (⟨item.2.key, item.2.param⟩ : Keyword Ty))) = keywords
    at keywordsWritten
  have keysNodup : (keywords.map (·.2.key)).Nodup := by
    have same : keywords.map (·.2.key) = keys keyed := by
      rw [keys_of_keyword keyedSame, ← keywords_eq, List.map_map]
      rfl
    rw [same]
    refine List.Nodup.sublist (List.Sublist.map _ (List.Sublist.filter _ ?_)) nodup
    exact (List.sublist_append_right _ _).trans (List.sublist_append_left _ _)
  have written : ∀ {role : ParamRole} {part : List ParamItem} {count : Nat},
      part.map (·.1) = .replicate count role → role ≠ .keyword →
        part.map essential = (part.map (·.2.param)).map (Params.item role) :=
    fun same => map_essential_of_role same
  by_cases plain : optional = [] ∧ rest = []
  · -- nothing tells trailing parameters from required ones
    obtain ⟨rfl, rfl⟩ := plain
    refine ⟨{ required := required.map (·.2.param) ++ trailing.map (·.2.param)
              keywords, restKeywords := (last.map (·.2.param)).head?, nodup := keysNodup }, ?_⟩
    simp only [Arrangement.items, toList_head? lastLength, ← keywordsWritten, List.map_append,
      written requiredSame nofun, written trailingSame nofun, written lastSame nofun]
    simp
  · refine ⟨{ required := required.map (·.2.param), optional := optional.map (·.2.param)
              rest := (rest.map (·.2.param)).head?, late := trailing.map (·.2.param)
              keywords, restKeywords := (last.map (·.2.param)).head?, nodup := keysNodup
              late_behind := fun _ => ?_ }, ?_⟩
    · rw [Decidable.not_and_iff_or_not] at plain
      simpa using plain
    · simp only [Arrangement.items, toList_head? lastLength, toList_head? restLength,
        ← keywordsWritten, List.map_append, written requiredSame nofun,
        written optionalSame nofun, written restSame nofun, written trailingSame nofun,
        written lastSame nofun]
      simp

end ParamItem

/-! ## Parameters that are refused -/

/-- Why a parameter is refused behind others: it must not stand there, its key is used before, or
what is written in it has no meaning by itself. -/
inductive Grammar.ParseTree.Refused (scope : List String) (params : Params Ty) (tree : ParseTree) :
    Fault → Prop
  | misplaced {role : ParamRole} : paramRole? tree.rule = some role → params.admits role = false →
      Refused scope params tree ⟨.parameterOrder, tree.range⟩
  | repeated {parts : ParamParts} : tree.IsParam scope (.keyword, parts) →
      params.hasKey parts.key = true →
      Refused scope params tree ⟨.duplicatedKeyword parts.key, tree.range⟩
  | meaningless {fault : Fault} : readParamParts scope tree.children = .error fault →
      Refused scope params tree fault

/-- A list of parameters is refused for one of its parameters, when those before it are read. -/
theorem exists_refused_of_readParamTrees {scope : List String} {trees : List ParseTree}
    {params : Params Ty} {fault : Fault}
    (known : ∀ tree ∈ trees, (paramRole? tree.rule).isSome = true)
    (read : readParamTrees scope params trees = .error fault) :
    ∃ before tree after reached, trees = before ++ tree :: after ∧
      readParamTrees scope params before = .ok reached ∧ tree.Refused scope reached fault := by
  induction trees generalizing params with
  | nil =>
      rw [readParamTrees] at read
      cases read
  | cons tree trees ih =>
      obtain ⟨here, later⟩ := List.forall_mem_cons.1 known
      obtain ⟨role, found⟩ := Option.isSome_iff_exists.1 here
      -- The list is refused for its first parameter, or that one is read and the induction is on
      -- the rest.
      have first : ∀ {fault}, tree.Refused scope params fault →
          ∃ before refused after reached, tree :: trees = before ++ refused :: after ∧
            readParamTrees scope params before = .ok reached ∧
              refused.Refused scope reached fault :=
        fun refused => ⟨[], tree, trees, params, rfl, by rw [readParamTrees]; rfl, refused⟩
      obtain ⟨rule, stretch, children⟩ := tree
      have role? : paramRole? rule = some role := found
      rw [readParamTrees, role?] at read
      dsimp only at read
      cases admitted : params.admits role with
      | false =>
          rw [admitted] at read
          obtain rfl := Except.error.inj read
          exact first (.misplaced found admitted)
      | true =>
          rw [admitted, Bool.not_true, if_neg Bool.false_ne_true] at read
          cases means : readParamParts scope children with
          | error cause =>
              rw [means] at read
              obtain rfl := Except.error.inj read
              exact first (.meaningless means)
          | ok parts =>
              rw [means] at read
              change (params.add role parts).mapError _ >>= _ = _ at read
              cases added : params.add role parts with
              | error cause =>
                  rw [added] at read
                  obtain rfl := Except.error.inj read
                  obtain ⟨rfl, used, rfl⟩ := Params.refused_of_add added
                  exact first (.repeated ⟨found, means⟩ used)
              | ok middle =>
                  rw [added] at read
                  obtain ⟨before, refused, after, reached, rfl, readBefore, why⟩ := ih later read
                  refine ⟨_ :: before, refused, after, reached, rfl, ?_, why⟩
                  exact readParamTrees_cons_eq_ok_iff.2
                    ⟨role, parts, middle, ⟨found, means⟩, admitted, added, readBefore⟩

/-! ## The order that is kept -/

/-- Between the parentheses of a list there are parameters only. -/
theorem exists_roles {tree : ParseTree} {cursor next : Cursor}
    (found : Rule.params.read cursor = some ([tree], next)) : ∃ roles : List ParamRole,
      tree.children.map (fun child => paramRole? child.rule) = roles.map some := by
  obtain ⟨_, same, rule⟩ := Rule.exists_tree found
  obtain rfl := (List.cons.inj same).1
  obtain ⟨-, -, rules⟩ := Rule.read_children rule rfl (rule ▸ found)
  refine ⟨tree.children.map fun child => (paramRole? child.rule).getD .required, ?_⟩
  rw [List.map_map]
  refine List.map_congr_left fun child inside => ?_
  have roles : ∀ rule ∈ Phrase.calls (.inOrder
      [.mark ['('], .opt (.separated .param [',']), .mark [')']]),
        paramRole? rule = some ((paramRole? rule).getD .required) := by decide
  exact roles _ (rules child inside)

/-- The roles of trees are those of the parameters that they are. -/
theorem map_fst_of_isParam {scope : List String} {trees : List ParseTree} {items : List ParamItem}
    {roles : List ParamRole}
    (known : trees.map (fun tree => paramRole? tree.rule) = roles.map some)
    (all : List.Forall₂ (ParseTree.IsParam scope) trees items) : items.map (·.1) = roles := by
  induction all generalizing roles with
  | nil => exact (List.map_eq_nil_iff.1 known.symm).symm
  | cons here _ ih =>
      obtain ⟨role, others, rfl, same, later⟩ := List.map_eq_cons_iff.1 known.symm
      rw [List.map_cons, ih later.symm]
      obtain rfl := Option.some.inj (same.trans here.1)
      rfl

/-- Parameters between parentheses are accepted with what is passed by keyword at the end, and all
of them are in the list. They are in the order that is asked for, and the list has what is passed by
position in the order in which it is written, exactly if no rest parameter stands behind a trailing
one. Any other list out of order is refused for one of its parameters, and those in order are
accepted if each parameter has a meaning and no key is used twice. -/
theorem readParamTrees_keeps_order_iff {tree : ParseTree} {cursor next : Cursor}
    (found : Rule.params.read cursor = some ([tree], next)) (scope : List String) :
    ∃ roles, tree.children.map (fun child => paramRole? child.rule) = roles.map some ∧
      (∀ params, readParamTrees scope {} tree.children = .ok params →
        KeywordsLast roles ∧ (InOrder roles ↔ ¬LateRest roles) ∧
          ∃ items, List.Forall₂ (ParseTree.IsParam scope) tree.children items ∧
            params.Collects items ∧
            (ParamItem.positionals items = params.inRoles ↔ ¬LateRest roles)) ∧
      (¬InOrder roles → ¬LateRest roles →
        ∃ fault, readParamTrees scope {} tree.children = .error fault) ∧
      (∀ fault, readParamTrees scope {} tree.children = .error fault →
        ∃ before refused after params, tree.children = before ++ refused :: after ∧
          readParamTrees scope {} before = .ok params ∧ refused.Refused scope params fault) ∧
      (InOrder roles → ∀ items, List.Forall₂ (ParseTree.IsParam scope) tree.children items →
        (ParamItem.keys items).Nodup →
          ∃ params, readParamTrees scope {} tree.children = .ok params) := by
  obtain ⟨roles, known⟩ := exists_roles found
  have accepted : ∀ params, readParamTrees scope {} tree.children = .ok params →
      KeywordsLast roles ∧ (InOrder roles ↔ ¬LateRest roles) ∧
        ∃ items, List.Forall₂ (ParseTree.IsParam scope) tree.children items ∧
          params.Collects items ∧
          (ParamItem.positionals items = params.inRoles ↔ ¬LateRest roles) := by
    intro params read
    obtain ⟨items, all, arrangement, rfl, written⟩ := readParamTrees_eq_ok_iff_arranged.1 read
    have written_roles : arrangement.items.map (·.1) = roles := by
      rw [written, List.map_map, ← map_fst_of_isParam known all]
      exact List.map_congr_left fun item _ => item.essential_fst
    -- A rest parameter is late if parameters that were trailing until then stand in front of it.
    have late : LateRest roles ↔ arrangement.early ≠ [] := written_roles ▸ arrangement.lateRest_iff
    refine ⟨written_roles ▸ arrangement.keywordsLast, ?_, items, all, ?_, ?_⟩
    · rw [late, not_not]
      constructor
      · exact fun inOrder => by_contra fun there => not_lateRest inOrder (late.2 there)
      · exact fun none => written_roles ▸ arrangement.inOrder none
    · exact ParamItem.collects_essential (written ▸ arrangement.collects)
    · rw [late, not_not, ← arrangement.positionals_eq_iff, written,
        ParamItem.positionals_essential]
  refine ⟨roles, known, accepted, ?_, ?_, ?_⟩
  · intro unordered early
    cases read : readParamTrees scope {} tree.children with
    | ok params => exact (unordered ((accepted params read).2.1.2 early)).elim
    | error fault => exact ⟨fault, rfl⟩
  · intro fault refused
    refine exists_refused_of_readParamTrees (fun child inside => ?_) refused
    have role : paramRole? child.rule ∈ roles.map some :=
      known ▸ List.mem_map_of_mem (f := fun child : ParseTree => paramRole? child.rule) inside
    obtain ⟨role, -, same⟩ := List.mem_map.1 role
    rw [← same, Option.isSome_some]
  · intro inOrder items all nodup
    obtain ⟨arrangement, written⟩ :=
      ParamItem.exists_arrangement (map_fst_of_isParam known all ▸ inOrder) nodup
    exact ⟨_, readParamTrees_eq_ok_iff_arranged.2 ⟨items, all, arrangement, rfl, written⟩⟩

/-- Parameters of all kinds in order are read in that order. -/
theorem read_parameters_in_order : ∃ tree next,
    Rule.params.read ⟨0, "(A a, ?B b, *C c, D d, e: E, ?f: F, **G g)".toList⟩ =
      some ([tree], next) ∧
    ∃ params items, readParamTrees [] {} tree.children = .ok params ∧
      List.Forall₂ (ParseTree.IsParam []) tree.children items ∧ params.Collects items ∧
      ParamItem.positionals items = params.inRoles := by
  have known : (Rule.params.read
      ⟨0, "(A a, ?B b, *C c, D d, e: E, ?f: F, **G g)".toList⟩).map (fun reading =>
        reading.1.map fun tree => (tree.children.map fun child => paramRole? child.rule,
          (readParamTrees [] {} tree.children).toOption.isSome)) =
      some [([.required, .optional, .rest, .required, .keyword, .keyword, .restKeywords].map some,
        true)] := by decide +kernel
  obtain ⟨⟨trees, next⟩, found, known⟩ := Option.map_eq_some_iff.1 known
  obtain ⟨tree, rfl, summary⟩ := List.map_eq_singleton_iff.1 known
  obtain ⟨same, accepted⟩ := Prod.mk.inj summary
  obtain ⟨params, read⟩ : ∃ params, readParamTrees [] {} tree.children = .ok params := by
    cases read : readParamTrees [] {} tree.children with
    | ok params => exact ⟨params, rfl⟩
    | error fault =>
        rw [read] at accepted
        cases accepted
  obtain ⟨roles, roles_eq, order, -⟩ := readParamTrees_keeps_order_iff found []
  obtain ⟨-, -, items, all, collects, ordered⟩ := order params read
  obtain rfl := List.map_injective_iff.2 (Option.some_injective _) (same.symm.trans roles_eq)
  exact ⟨tree, next, found, params, items, read, all, collects, ordered.2 (by decide)⟩

/-- A rest parameter behind a trailing one is moved to the front of it. -/
theorem late_rest_is_moved :
    (MethodType.ofString "(?A a, B b, *C c) -> void").toOption.map (·.print) =
        some "(?A a, *C c, B b) -> void".toList ∧
      ¬InOrder [.optional, .required, .rest] :=
  ⟨by decide +kernel, fun inOrder => not_lateRest inOrder (by decide)⟩

end Signet

import Signet.Inline.Overloads

/-!
# Dealing annotations to parameters

The annotations of parameters are dealt by name: each parameter takes the first one of its name that
is left (`deal`). Each annotation is dealt once or left over (`deal_perm`). A method type is drafted
by putting the parameters into it one after the other, with what they have taken (`ofParams_eq`).

The order of the parameters is kept where none of those behind an optional or a splat parameter is
destructured, and only there: a destructured one joins the required ones in front
(`draftType_keeps_order_iff`).
-/

namespace Signet.Inline

open scoped List

/-! ## Dealing -/

namespace RubyParam

/-- The name by which a parameter may be annotated. -/
def name? : RubyParam → Option String
  | plain name => some name
  | optional name | splat name | keyword name _ | doubleSplat name | block name => name
  | destructured | forward | other => none

end RubyParam

/-- A parameter with the annotation that it has taken. -/
structure Dealt where
  param : RubyParam
  note : Option (String × TypeAnnotation)

/-- The type that a parameter has taken. -/
def Dealt.type (dealt : Dealt) : Ty := (dealt.note.map (·.2.type)).getD .untyped

/-- The parameters, each with the first annotation of its name that is left. -/
def deal (annotations : ParamAnnotations) : List RubyParam → List Dealt
  | [] => []
  | param :: params =>
    match param.name? with
    | none => ⟨param, none⟩ :: deal annotations params
    | some name =>
      ⟨param, annotations.find? fun note => note.1 = name⟩ ::
        deal (annotations.eraseP fun note => note.1 = name) params

/-- The annotations that no parameter takes. -/
def leftOver (annotations : ParamAnnotations) : List RubyParam → ParamAnnotations
  | [] => annotations
  | param :: params =>
    match param.name? with
    | none => leftOver annotations params
    | some name => leftOver (annotations.eraseP fun note => note.1 = name) params

section Deal

variable {annotations : ParamAnnotations} {params : List RubyParam}

theorem map_param_deal (annotations : ParamAnnotations) (params : List RubyParam) :
    (deal annotations params).map (·.param) = params := by
  induction params generalizing annotations with
  | nil => rfl
  | cons param params ih =>
      rw [deal]
      split <;> rw [List.map_cons, ih]

/-- Taking the first entry of a kind. -/
theorem perm_find?_eraseP {α : Type} (p : α → Bool) (items : List α) :
    ((items.find? p).toList ++ items.eraseP p).Perm items := by
  induction items with
  | nil => exact .refl _
  | cons item items ih =>
      cases found : p item with
      | true => rw [List.find?_cons_of_pos found, List.eraseP_cons_of_pos found]; exact .refl _
      | false =>
          rw [List.find?_cons_of_neg (by simp [found]), List.eraseP_cons_of_neg (by simp [found])]
          exact List.perm_middle.trans (ih.cons item)

/-- Each annotation is dealt once, or it is left over. -/
theorem deal_perm (annotations : ParamAnnotations) (params : List RubyParam) :
    ((deal annotations params).filterMap Dealt.note ++ leftOver annotations params).Perm
      annotations := by
  induction params generalizing annotations with
  | nil => exact .refl _
  | cons param params ih =>
      rw [deal, leftOver]
      cases param.name? with
      | none => exact ih annotations
      | some name =>
          have taken := perm_find?_eraseP (fun note => decide (note.1 = name)) annotations
          refine .trans ?_ taken
          rw [List.filterMap_cons]
          have rest := ih (annotations.eraseP fun note => note.1 = name)
          cases annotations.find? fun note => note.1 = name with
          | none => exact rest
          | some note => exact rest.cons note

/-- A parameter takes an annotation of its name. -/
theorem name?_of_deal {dealt : Dealt} (there : dealt ∈ deal annotations params)
    {note : String × TypeAnnotation} (taken : dealt.note = some note) :
    dealt.param.name? = some note.1 := by
  induction params generalizing annotations with
  | nil => exact nomatch there
  | cons param params ih =>
      rw [deal] at there
      cases named : param.name? with
      | none =>
          rw [named] at there
          rcases List.mem_cons.1 there with rfl | there
          · exact nomatch taken
          · exact ih there
      | some name =>
          rw [named] at there
          rcases List.mem_cons.1 there with rfl | there
          · have same : note.1 = name := by simpa using List.find?_some taken
            rw [same]
            exact named
          · exact ih there

end Deal

/-! ## Drafts -/

/-- A parameter of a method type with the name by which it may be annotated. -/
def Dealt.asParam (dealt : Dealt) : Param Ty := ⟨dealt.type, dealt.param.name?⟩

theorem map_name_asParam (dealt : List Dealt) :
    (dealt.map Dealt.asParam).map (·.name) = (dealt.map (·.param)).map RubyParam.name? := by
  simp [Dealt.asParam]

namespace Draft

/-- Puts a parameter into a draft, with what it has taken. -/
def put (draft : Draft) (dealt : Dealt) : Draft :=
  let params := draft.params
  match dealt.param with
  | .plain _ => { draft with params := params.addRequired dealt.asParam }
  | .destructured =>
    { draft with params := { params with required := params.required ++ [dealt.asParam] } }
  | .optional (some _) =>
    { draft with params := { params with optional := params.optional ++ [dealt.asParam] } }
  | .splat _ => { draft with params := { params with rest := some dealt.asParam } }
  | .keyword (some name) hasDefault =>
    let keyword : Keyword Ty := ⟨name, ⟨dealt.type, none⟩⟩
    { draft with
      params := if hasDefault then
          { params with optionalKeywords := keyword.insert params.optionalKeywords }
        else { params with requiredKeywords := keyword.insert params.requiredKeywords } }
  | .doubleSplat _ => { draft with params := { params with restKeywords := some dealt.asParam } }
  | .block _ => { draft with block := some (blockOf dealt.type) }
  | .forward => { draft with forwarded := true }
  | .optional none | .keyword none _ | .other => draft

@[simp] theorem unused_put (draft : Draft) (dealt : Dealt) :
    (draft.put dealt).unused = draft.unused := by
  unfold put
  split <;> rfl

/-- Putting a parameter leaves the annotations alone. -/
theorem put_unused (draft : Draft) (dealt : Dealt) (unused : ParamAnnotations) :
    Draft.put { draft with unused } dealt = { draft.put dealt with unused } := by
  unfold put
  dsimp only
  split <;> rfl

/-- The type that is taken by a name, and what is left. -/
theorem takeType_eq (annotations : ParamAnnotations) (name : String) :
    takeType annotations name =
      (((annotations.find? fun note => note.1 = name).map (·.2.type)).getD .untyped,
        annotations.eraseP fun note => note.1 = name) := by
  unfold takeType
  cases found : annotations.find? fun note => note.1 = name with
  | some note => rfl
  | none =>
      rw [List.eraseP_of_forall_not]
      · rfl
      · exact fun note inside => List.find?_eq_none.1 found note inside

/-- A parameter that has no name takes nothing. -/
theorem add_of_none (draft : Draft) {param : RubyParam} (unnamed : param.name? = none) :
    draft.add param = draft.put ⟨param, none⟩ := by
  cases param with
  | plain name => cases unnamed
  | optional name | splat name | keyword name _ | doubleSplat name | block name =>
      obtain rfl : name = none := unnamed
      rfl
  | destructured | forward | other => rfl

/-- A parameter that has a name takes the first annotation of this name. -/
theorem add_of_some (draft : Draft) {param : RubyParam} {name : String}
    (named : param.name? = some name) : draft.add param =
      Draft.put { draft with unused := draft.unused.eraseP fun note => note.1 = name }
        ⟨param, draft.unused.find? fun note => note.1 = name⟩ := by
  cases param with
  | plain other =>
      obtain rfl : other = name := Option.some.inj named
      simp only [add, take, takeType_eq]
      rfl
  | optional other | splat other | keyword other _ | doubleSplat other | block other =>
      obtain rfl : other = some name := named
      simp only [add, takeParam, take, takeType_eq]
      rfl
  | destructured | forward | other => cases named

/-- A draft is made by dealing the annotations to the parameters and putting these into it. -/
theorem foldl_add_eq (draft : Draft) (params : List RubyParam) : params.foldl add draft =
    (deal draft.unused params).foldl put { draft with unused := leftOver draft.unused params } := by
  induction params generalizing draft with
  | nil => rfl
  | cons param params ih =>
      rw [List.foldl_cons, deal, leftOver]
      cases named : param.name? with
      | none => rw [draft.add_of_none named, ih, unused_put, ← put_unused, List.foldl_cons]
      | some name => rw [draft.add_of_some named, ih, unused_put, ← put_unused, List.foldl_cons]

theorem ofParams_eq (annotations : ParamAnnotations) (params : List RubyParam) :
    ofParams annotations params = (deal annotations params).foldl put
      { unused := leftOver annotations params } := foldl_add_eq _ params

end Draft

/-! ## Lists of parameters -/

namespace RubyParam

/-- The node passes something. -/
def isParam : RubyParam → Bool
  | other => false
  | _ => true

/-- The parameter is passed by position. -/
def isPositional : RubyParam → Bool
  | plain _ | destructured | optional _ | splat _ => true
  | keyword .. | doubleSplat _ | block _ | forward | other => false

/-- The parameter forwards all arguments. -/
def isForward : RubyParam → Bool
  | forward => true
  | _ => false

theorem isParam_of_isPositional {param : RubyParam} (positional : param.isPositional = true) :
    param.isParam = true := by
  cases param with
  | other => cases positional
  | _ => rfl

/-- A required parameter. It is destructured if it has no name. -/
def ofRequired : Option String → RubyParam
  | some name => plain name
  | none => destructured

@[simp] theorem name?_ofRequired (name : Option String) : (ofRequired name).name? = name := by
  cases name <;> rfl

end RubyParam

/-- The parameters of a method in the order that Ruby asks for, without forwarding. A required
parameter without name is destructured. -/
structure RubyParams where
  required : List (Option String) := []
  optional : List String := []
  splat : Option (Option String) := none
  post : List (Option String) := []
  keywords : List (String × Bool) := []
  doubleSplat : Option (Option String) := none
  block : Option (Option String) := none
  behind : post ≠ [] → optional ≠ [] ∨ splat.isSome = true := by simp

namespace RubyParams

variable (params : RubyParams)

/-- What is passed by position. -/
def positionals : List RubyParam :=
  params.required.map .ofRequired ++ params.optional.map (fun name => .optional (some name))
    ++ params.splat.toList.map .splat ++ params.post.map .ofRequired

/-- What is passed otherwise. -/
def others : List RubyParam :=
  params.keywords.map (fun keyword => .keyword (some keyword.1) keyword.2)
    ++ params.doubleSplat.toList.map .doubleSplat ++ params.block.toList.map .block

/-- The parameters one after the other. -/
def list : List RubyParam := params.positionals ++ params.others

theorem isPositional_of_mem : ∀ param ∈ params.positionals, param.isPositional = true := by
  intro param inside
  simp only [positionals, List.mem_append, List.mem_map] at inside
  rcases inside with ((⟨name, -, rfl⟩ | ⟨name, -, rfl⟩) | ⟨name, -, rfl⟩) | ⟨name, -, rfl⟩
  · cases name <;> rfl
  · rfl
  · rfl
  · cases name <;> rfl

theorem others_of_mem : ∀ param ∈ params.others,
    param.isPositional = false ∧ param.isForward = false := by
  intro param inside
  simp only [others, List.mem_append, List.mem_map] at inside
  rcases inside with (⟨keyword, -, rfl⟩ | ⟨name, -, rfl⟩) | ⟨name, -, rfl⟩
  · exact ⟨rfl, rfl⟩
  · exact ⟨rfl, rfl⟩
  · exact ⟨rfl, rfl⟩

end RubyParams

namespace Draft

variable {draft : Draft} {dealt : List Dealt}

/-- Nodes that pass nothing do not count. -/
theorem foldl_put_filter (draft : Draft) (dealt : List Dealt) :
    (dealt.filter (·.param.isParam)).foldl put draft = dealt.foldl put draft := by
  induction dealt generalizing draft with
  | nil => rfl
  | cons one dealt ih =>
      obtain ⟨param, note⟩ := one
      cases param <;> exact ih _

/-- Required parameters in front. -/
theorem foldl_put_required {names : List (Option String)}
    (same : dealt.map (·.param) = names.map .ofRequired) (noOptional : draft.params.optional = [])
    (noRest : draft.params.rest = none) : dealt.foldl put draft =
      { draft with params := { draft.params with
        required := draft.params.required ++ dealt.map Dealt.asParam } } := by
  induction dealt generalizing draft names with
  | nil => simp
  | cons one dealt ih =>
      obtain ⟨name, names, rfl, here, later⟩ := List.map_eq_cons_iff.1 same.symm
      obtain ⟨param, note⟩ := one
      obtain rfl : RubyParam.ofRequired name = param := here
      have first : draft.put ⟨.ofRequired name, note⟩ = { draft with params := { draft.params with
          required := draft.params.required ++ [Dealt.asParam ⟨.ofRequired name, note⟩] } } := by
        cases name with
        | none => rfl
        | some name => simp [put, RubyParam.ofRequired, Params.addRequired, noOptional, noRest]
      rw [List.foldl_cons, first, ih later.symm (by exact noOptional) (by exact noRest)]
      simp

/-- Optional parameters. -/
theorem foldl_put_optional {names : List String}
    (same : dealt.map (·.param) = names.map fun name => .optional (some name)) :
    dealt.foldl put draft = { draft with params := { draft.params with
      optional := draft.params.optional ++ dealt.map Dealt.asParam } } := by
  induction dealt generalizing draft names with
  | nil => simp
  | cons one dealt ih =>
      obtain ⟨name, names, rfl, here, later⟩ := List.map_eq_cons_iff.1 same.symm
      obtain ⟨param, note⟩ := one
      obtain rfl : RubyParam.optional (some name) = param := here
      rw [List.foldl_cons, ih later.symm]
      simp [put]

/-- A splat parameter, if there is one. -/
theorem foldl_put_splat (draft : Draft) {name : Option (Option String)}
    (same : dealt.map (·.param) = name.toList.map .splat) (noRest : draft.params.rest = none) :
    ∃ rest : Option (Param Ty), rest.toList = dealt.map Dealt.asParam ∧
      dealt.foldl put draft = { draft with params := { draft.params with rest } } := by
  cases name with
  | none =>
      obtain rfl := List.map_eq_nil_iff.1 same
      exact ⟨none, rfl, by rw [← noRest]; rfl⟩
  | some name =>
      obtain ⟨⟨param, note⟩, rfl, here⟩ := List.map_eq_singleton_iff.1 same
      obtain rfl : param = .splat name := here
      exact ⟨some _, rfl, rfl⟩

/-- Required parameters behind an optional or a splat parameter: those that are destructured join
the ones in front. -/
theorem foldl_put_post {names : List (Option String)}
    (same : dealt.map (·.param) = names.map .ofRequired)
    (behind : names ≠ [] → draft.params.optional ≠ [] ∨ draft.params.rest.isSome = true) :
    dealt.foldl put draft = { draft with params := { draft.params with
      required := draft.params.required ++ (dealt.map Dealt.asParam).filter (·.name.isNone)
      trailing := draft.params.trailing ++
        (dealt.map Dealt.asParam).filter (·.name.isSome) } } := by
  induction dealt generalizing draft names with
  | nil => simp
  | cons one dealt ih =>
      obtain ⟨name, names, rfl, here, later⟩ := List.map_eq_cons_iff.1 same.symm
      obtain ⟨param, note⟩ := one
      obtain rfl : RubyParam.ofRequired name = param := here
      have ahead := behind (List.cons_ne_nil _ _)
      cases name with
      | none =>
          -- a destructured parameter is required wherever it stands
          have first : draft.put ⟨.destructured, note⟩ = { draft with params := { draft.params with
              required := draft.params.required ++ [Dealt.asParam ⟨.destructured, note⟩] } } := rfl
          rw [List.foldl_cons, RubyParam.ofRequired, first, ih later.symm fun _ => by exact ahead]
          simp [Dealt.asParam, RubyParam.name?]
      | some name =>
          have late : (draft.params.optional.isEmpty && draft.params.rest.isNone) = false := by
            rcases ahead with some | some
            · simp [some]
            · obtain ⟨rest, some⟩ := Option.isSome_iff_exists.1 some
              simp [some]
          have first : draft.put ⟨.plain name, note⟩ = { draft with params := { draft.params with
              trailing := draft.params.trailing ++ [Dealt.asParam ⟨.plain name, note⟩] } } := by
            rw [put]
            dsimp only
            rw [Params.addRequired, late, if_neg Bool.false_ne_true]
          rw [List.foldl_cons, RubyParam.ofRequired, first, ih later.symm fun _ => by exact ahead]
          simp [Dealt.asParam, RubyParam.name?]

/-- What is passed otherwise leaves alone what is passed by position. -/
theorem foldl_put_rest (draft : Draft) (others : ∀ one ∈ dealt,
      one.param.isPositional = false ∧ one.param.isForward = false) :
    ∃ requiredKeywords optionalKeywords restKeywords block, dealt.foldl put draft =
      { draft with
        params := { draft.params with requiredKeywords, optionalKeywords, restKeywords }
        block } := by
  induction dealt generalizing draft with
  | nil => exact ⟨_, _, _, _, rfl⟩
  | cons one dealt ih =>
      obtain ⟨⟨positional, forward⟩, later⟩ := List.forall_mem_cons.1 others
      obtain ⟨param, note⟩ := one
      rw [List.foldl_cons]
      obtain ⟨required, optional, rest, block, after⟩ := ih (draft.put ⟨param, note⟩) later
      rw [after]
      cases param with
      | plain _ | destructured | optional _ | splat _ => cases positional
      | forward => cases forward
      | keyword name hasDefault =>
          cases name <;> cases hasDefault <;> exact ⟨required, optional, rest, block, rfl⟩
      | doubleSplat _ | block _ | other => exact ⟨required, optional, rest, block, rfl⟩

/-- Parameters behind an optional or a splat parameter come behind one in the draft too. -/
theorem behind_of_dealt (ruby : RubyParams) {optional splat : List Dealt}
    (optionalSame : optional.map (·.param) = ruby.optional.map fun name => .optional (some name))
    (splatSame : splat.map (·.param) = ruby.splat.toList.map .splat) {rest : Option (Param Ty)}
    (restSame : rest.toList = splat.map Dealt.asParam) (there : ruby.post ≠ []) :
    optional.map Dealt.asParam ≠ [] ∨ rest.isSome = true := by
  rcases ruby.behind there with before | before
  · refine .inl fun absent => before ?_
    rw [List.map_eq_nil_iff.1 absent] at optionalSame
    exact List.map_eq_nil_iff.1 optionalSame.symm
  · cases rest with
    | some param => exact .inr rfl
    | none =>
        rw [List.map_eq_nil_iff.1 restSame.symm] at splatSame
        have absent := List.map_eq_nil_iff.1 splatSame.symm
        rw [Option.toList_eq_nil_iff.1 absent] at before
        cases before

/-- All parameters of a list. -/
theorem foldl_put_list (ruby : RubyParams) {required optional splat post others : List Dealt}
    (requiredSame : required.map (·.param) = ruby.required.map .ofRequired)
    (optionalSame : optional.map (·.param) = ruby.optional.map fun name => .optional (some name))
    (splatSame : splat.map (·.param) = ruby.splat.toList.map .splat)
    (postSame : post.map (·.param) = ruby.post.map .ofRequired)
    (othersSame : others.map (·.param) = ruby.others) (unused : ParamAnnotations) :
    ∃ drafted block, (required ++ optional ++ splat ++ post ++ others).foldl put { unused } =
        { params := drafted, block, unused } ∧
      drafted.required =
        required.map Dealt.asParam ++ (post.map Dealt.asParam).filter (·.name.isNone) ∧
      drafted.optional = optional.map Dealt.asParam ∧
      drafted.rest.toList = splat.map Dealt.asParam ∧
      drafted.trailing = (post.map Dealt.asParam).filter (·.name.isSome) := by
  -- the parameters are put in groups, in the order in which they are written
  have first : (required ++ optional).foldl put { unused } =
      { params := { required := required.map Dealt.asParam, optional := optional.map Dealt.asParam }
        unused } := by
    rw [List.foldl_append, foldl_put_required requiredSame rfl rfl, foldl_put_optional optionalSame]
    rfl
  obtain ⟨rest, restSame, second⟩ := foldl_put_splat
    { params := { required := required.map Dealt.asParam, optional := optional.map Dealt.asParam }
      unused } splatSame rfl
  obtain ⟨requiredKeywords, optionalKeywords, restKeywords, block, last⟩ :=
    foldl_put_rest
      { params := { required := required.map Dealt.asParam ++
                      (post.map Dealt.asParam).filter (·.name.isNone)
                    optional := optional.map Dealt.asParam, rest
                    trailing := (post.map Dealt.asParam).filter (·.name.isSome) }
        unused } fun one inside => ruby.others_of_mem one.param
          (othersSame ▸ List.mem_map_of_mem (f := (·.param)) inside)
  rw [List.foldl_append, List.foldl_append, List.foldl_append, first, second,
    foldl_put_post postSame (behind_of_dealt ruby optionalSame splatSame restSame)]
  exact ⟨_, block, last, rfl, rfl, restSame, rfl⟩

end Draft

/-! ## Order -/

/-- What is passed by position is passed. -/
theorem filter_isPositional (dealt : List Dealt) :
    (dealt.filter (·.param.isParam)).filter (·.param.isPositional) =
      dealt.filter (·.param.isPositional) := by
  rw [List.filter_filter]
  refine List.filter_congr fun one _ => ?_
  cases positional : one.param.isPositional with
  | true => rw [RubyParam.isParam_of_isPositional positional]; rfl
  | false => rfl

/-- Parameters with and without a name. -/
theorem perm_filter_name (params : List (Param Ty)) :
    (params.filter (·.name.isNone) ++ params.filter (·.name.isSome)).Perm params := by
  have complement : params.filter (·.name.isSome) = params.filter fun param => !param.name.isNone :=
    List.filter_congr fun param _ => (Option.not_isNone _).symm
  rw [complement]
  exact List.filter_append_perm _ _

theorem filter_isNone_eq_nil_iff {params : List (Param Ty)} :
    params.filter (·.name.isNone) = [] ↔ none ∉ params.map (·.name) := by
  simp only [List.filter_eq_nil_iff, List.mem_map, not_exists, not_and, Option.isNone_iff_eq_none]

theorem filter_isSome_eq_self {params : List (Param Ty)} (named : none ∉ params.map (·.name)) :
    params.filter (·.name.isSome) = params := by
  refine List.filter_eq_self.2 fun param inside => Option.isSome_iff_ne_none.2 fun unnamed => ?_
  exact named (List.mem_map.2 ⟨param, inside, unnamed⟩)

/-- Moving parameters to the front of others. -/
theorem perm_moved (required optional splat post : List (Param Ty)) :
    ((required ++ post.filter (·.name.isNone)) ++ optional ++ splat
      ++ post.filter (·.name.isSome)).Perm (required ++ optional ++ splat ++ post) := by
  calc ((required ++ post.filter (·.name.isNone)) ++ optional ++ splat
      ++ post.filter (·.name.isSome))
    _ = required ++ (post.filter (·.name.isNone) ++ (optional ++ splat))
        ++ post.filter (·.name.isSome) := by simp
    _ ~ required ++ ((optional ++ splat) ++ post.filter (·.name.isNone))
        ++ post.filter (·.name.isSome) :=
      (List.perm_append_comm.append_left required).append_right _
    _ = required ++ optional ++ splat ++ (post.filter (·.name.isNone)
        ++ post.filter (·.name.isSome)) := by simp
    _ ~ required ++ optional ++ splat ++ post := (perm_filter_name post).append_left _

/-- What is passed by position is what a list deals in front of the others. -/
theorem RubyParams.filter_isPositional_eq (ruby : RubyParams)
    {dealt positionals others : List Dealt}
    (dealing : dealt.filter (·.param.isParam) = positionals ++ others)
    (positionalsSame : positionals.map (·.param) = ruby.positionals)
    (othersSame : others.map (·.param) = ruby.others) :
    dealt.filter (·.param.isPositional) = positionals := by
  have positional : ∀ one ∈ positionals, one.param.isPositional = true := fun one inside =>
    ruby.isPositional_of_mem one.param
      (positionalsSame ▸ List.mem_map_of_mem (f := (·.param)) inside)
  have other : ∀ one ∈ others, one.param.isPositional = false := fun one inside =>
    (ruby.others_of_mem one.param (othersSame ▸ List.mem_map_of_mem (f := (·.param)) inside)).1
  rw [← filter_isPositional, dealing, List.filter_append, List.filter_eq_self.2 positional,
    List.filter_eq_nil_iff.2 fun one inside => by simp [other one inside], List.append_nil]

/-- The method type of a parameter list has the parameters of each kind in order, and no others.
Those that are passed by position stand where Ruby has them if none of those behind an optional or a
splat parameter is destructured, and only then. -/
theorem draftType_keeps_order_iff (ruby : RubyParams) {params : List RubyParam}
    (written : params.filter RubyParam.isParam = ruby.list) (annotations : ParamAnnotations)
    (result : Option TypeAnnotation) :
    ∃ required optional splat post : List (Param Ty),
      ((deal annotations params).filter (·.param.isPositional)).map Dealt.asParam =
        required ++ optional ++ splat ++ post ∧
      required.map (·.name) = ruby.required ∧ optional.map (·.name) = ruby.optional.map some ∧
      splat.map (·.name) = ruby.splat.toList ∧ post.map (·.name) = ruby.post ∧
      ∃ drafted, (draftType params annotations result).1.function =
          .typed drafted ((result.map (·.type)).getD .untyped) ∧
        drafted.required = required ++ post.filter (·.name.isNone) ∧
        drafted.optional = optional ∧ drafted.rest.toList = splat ∧
        drafted.trailing = post.filter (·.name.isSome) ∧
        drafted.positionals.Perm (required ++ optional ++ splat ++ post) ∧
        (drafted.required = required ∧ drafted.trailing = post ↔ none ∉ ruby.post) ∧
        (none ∉ ruby.post → drafted.positionals = required ++ optional ++ splat ++ post) := by
  have all : ((deal annotations params).filter (·.param.isParam)).map (·.param) = ruby.list := by
    rw [← written, ← map_param_deal annotations params, List.filter_map, map_param_deal]
    rfl
  -- without the nodes that pass nothing, the parameters fall into the parts of the list
  generalize dealing : (deal annotations params).filter (·.param.isParam) = dealt at all
  obtain ⟨positionals, others, rfl, positionalsSame, othersSame⟩ := List.map_eq_append_iff.1 all
  rw [ruby.filter_isPositional_eq dealing positionalsSame othersSame]
  obtain ⟨dealt, post, rfl, same, postSame⟩ := List.map_eq_append_iff.1 positionalsSame
  obtain ⟨dealt, splat, rfl, same, splatSame⟩ := List.map_eq_append_iff.1 same
  obtain ⟨required, optional, rfl, requiredSame, optionalSame⟩ := List.map_eq_append_iff.1 same
  have postNames : (post.map Dealt.asParam).map (·.name) = ruby.post := by
    rw [map_name_asParam, postSame]
    simp [Function.comp_def]
  refine ⟨required.map Dealt.asParam, optional.map Dealt.asParam, splat.map Dealt.asParam,
    post.map Dealt.asParam, by simp, ?_, ?_, ?_, postNames, ?_⟩
  · rw [map_name_asParam, requiredSame]
    simp [Function.comp_def]
  · rw [map_name_asParam, optionalSame]
    simp [RubyParam.name?]
  · rw [map_name_asParam, splatSame]
    simp [RubyParam.name?, Function.comp_def]
  · obtain ⟨drafted, block, drawn, requiredEq, optionalEq, restEq, trailingEq⟩ :=
      Draft.foldl_put_list ruby requiredSame optionalSame splatSame postSame othersSame
        (leftOver annotations params)
    refine ⟨drafted, ?_, requiredEq, optionalEq, restEq, trailingEq, ?_, ?_, ?_⟩
    · rw [← dealing, Draft.foldl_put_filter, ← Draft.ofParams_eq] at drawn
      simp only [draftType, drawn]
      rfl
    · rw [Params.positionals, requiredEq, optionalEq, restEq, trailingEq]
      exact perm_moved _ _ _ _
    · rw [requiredEq, trailingEq, ← postNames, ← filter_isNone_eq_nil_iff,
        List.append_right_eq_self]
      refine ⟨And.left, fun named => ⟨named, ?_⟩⟩
      exact filter_isSome_eq_self (filter_isNone_eq_nil_iff.1 named)
    · intro named
      rw [← postNames] at named
      rw [Params.positionals, requiredEq, optionalEq, restEq, trailingEq,
        filter_isNone_eq_nil_iff.2 named, filter_isSome_eq_self named, List.append_nil]

/-- Parameters of all kinds, one of them destructured, in their order. -/
theorem draftType_in_order : ∃ drafted,
    (draftType [.plain "a", .destructured, .optional (some "b"), .other, .splat (some "c"),
        .plain "d", .keyword (some "e") false, .keyword (some "f") true, .doubleSplat none,
        .block (some "g")] [] none).1.function = .typed drafted .untyped ∧
      drafted.positionals.map (·.name) = [some "a", none, some "b", some "c", some "d"] := by
  have written : [RubyParam.plain "a", .destructured, .optional (some "b"), .other,
        .splat (some "c"), .plain "d", .keyword (some "e") false, .keyword (some "f") true,
        .doubleSplat none, .block (some "g")].filter RubyParam.isParam =
      RubyParams.list
        { required := [some "a", none], optional := ["b"], splat := some (some "c")
          post := [some "d"], keywords := [("e", false), ("f", true)], doubleSplat := some none
          block := some (some "g") } := rfl
  obtain ⟨required, optional, splat, post, -, requiredNames, optionalNames, splatNames, postNames,
      drafted, drawn, -, -, -, -, -, -, ordered⟩ :=
    draftType_keeps_order_iff _ written [] none
  refine ⟨drafted, drawn, ?_⟩
  rw [ordered (by decide)]
  simp only [List.map_append, requiredNames, optionalNames, splatNames, postNames]
  rfl

/-- A destructured parameter behind an optional one is moved to the front of it. -/
theorem destructured_is_moved :
    (draftType (RubyParams.list { optional := ["a"], post := [none, some "d"] }) [] none).1.print =
      "(untyped, ?untyped a, untyped d) -> untyped".toList := by
  decide +kernel

end Signet.Inline

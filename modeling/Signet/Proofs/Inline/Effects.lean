import Signet.Proofs.Inline.Dealing
import Signet.Proofs.Inline.Extraction
import Signet.Proofs.Inline.Precedence

/-!
# Effects of parameter annotations

A method type has places for types: its parameters and its block (`typeHolders`). A parameter that
is put into a draft takes a place, and displaces what holds it (`Draft.perm_holders_put`). So the
places of a draft are those of the parameters that no later one displaces (`perm_holders_foldl`).

An annotation that is taken has an effect if its parameter stays and its type counts there
(`effective`), and is dropped otherwise (`dropped`). Those that no parameter takes are reported.
With these all annotations of parameters are accounted for (`settleOverloads_params_account`).
-/

namespace Signet.Inline

open scoped List

/-! ## Places in a method type -/

/-- A place in a method type that only one may hold. -/
inductive Slot where
  | rest
  | keyword (optional : Bool) (key : String)
  | restKeywords
  | block
deriving DecidableEq

/-- Two hold one place. -/
def Slot.clash : Option Slot → Option Slot → Bool
  | some one, some other => one = other
  | _, _ => false

@[simp] theorem Slot.clash_none (slot : Option Slot) : clash none slot = false := rfl

@[simp] theorem Slot.clash_none_right (slot : Option Slot) : clash slot none = false := by
  cases slot <;> rfl

@[simp] theorem Slot.clash_some (one other : Slot) :
    clash (some one) (some other) = decide (one = other) := rfl

/-- The place that only one parameter may have, if it is such a place. -/
def RubyParam.slot? : RubyParam → Option Slot
  | .splat _ => some .rest
  | .keyword (some name) hasDefault => some (.keyword hasDefault name)
  | .doubleSplat _ => some .restKeywords
  | .block _ => some .block
  | _ => none

/-- What has a type in a method type: a parameter in its role, or the block. -/
inductive Holder where
  | param (role : ParamRole) (param : Param Ty)
  | keyword (optional : Bool) (keyword : Keyword Ty)
  | block (block : Block Ty)

namespace Holder

/-- The place that only one may hold, if it is such a place. -/
def slot? : Holder → Option Slot
  | param .rest _ => some .rest
  | param .restKeywords _ => some .restKeywords
  | param .. => none
  | keyword optional held => some (.keyword optional held.key)
  | block _ => some .block

/-- The holder has what a type says: a block has the function of a proc type. -/
def Has (type : Ty) : Holder → Prop
  | param _ held => held.type = type
  | keyword _ held => held.param.type = type
  | block held => ∃ inner, type = ⟨.proc held.function inner⟩

/-- Nothing is known of the holder. -/
def IsUntyped : Holder → Prop
  | param _ held => held.type = .untyped
  | keyword _ held => held.param.type = .untyped
  | block held => held.function = Ty.untypedFunction

/-- The holder is a block. -/
def isBlock : Holder → Bool
  | block _ => true
  | _ => false

end Holder

/-- The places of a parameter list. -/
def paramHolders (params : Params Ty) : List Holder :=
  params.required.map (.param .required) ++ params.optional.map (.param .optional)
    ++ params.rest.toList.map (.param .rest) ++ params.trailing.map (.param .required)
    ++ params.requiredKeywords.map (.keyword false) ++ params.optionalKeywords.map (.keyword true)
    ++ params.restKeywords.toList.map (.param .restKeywords)

/-- The places of a method type. A function that is not checked has no parameters. -/
def typeHolders (type : MethodType) : List Holder :=
  (match type.function with
    | .typed params _ => paramHolders params
    | .untyped _ => []) ++ type.block.toList.map .block

/-- The places of a draft. -/
def Draft.holders (draft : Draft) : List Holder :=
  paramHolders draft.params ++ draft.block.toList.map .block

/-- What a parameter that is dealt would be in a method type. -/
def Dealt.holder? (dealt : Dealt) : Option Holder :=
  match dealt.param with
  | .plain _ | .destructured => some (.param .required dealt.asParam)
  | .optional (some _) => some (.param .optional dealt.asParam)
  | .splat _ => some (.param .rest dealt.asParam)
  | .keyword (some name) hasDefault => some (.keyword hasDefault ⟨name, ⟨dealt.type, none⟩⟩)
  | .doubleSplat _ => some (.param .restKeywords dealt.asParam)
  | .block _ => some (.block (Draft.blockOf dealt.type))
  | .optional none | .keyword none _ | .forward | .other => none

/-! ## Replacing keyword parameters -/

section Keywords

variable {keywords : List (Keyword Ty)}

theorem map_key_insert (keyword : Keyword Ty) (keywords : List (Keyword Ty)) :
    (keyword.insert keywords).map (·.key) =
      if keyword.key ∈ keywords.map (·.key) then keywords.map (·.key)
      else keywords.map (·.key) ++ [keyword.key] := by
  induction keywords with
  | nil => rfl
  | cons other keywords ih =>
      rw [Keyword.insert]
      by_cases same : other.key = keyword.key
      · simp [same]
      · rw [if_neg same, List.map_cons, ih]
        by_cases there : keyword.key ∈ keywords.map (·.key)
        · simp [there]
        · simp [there, Ne.symm same]

theorem nodup_insert (nodup : (keywords.map (·.key)).Nodup) (keyword : Keyword Ty) :
    ((keyword.insert keywords).map (·.key)).Nodup := by
  rw [map_key_insert]
  split
  · exact nodup
  · rename_i fresh
    exact List.nodup_append.2 ⟨nodup, List.nodup_singleton _, fun one there other last same =>
      fresh (List.mem_singleton.1 last ▸ same ▸ there)⟩

/-- A keyword parameter replaces the one with its key. -/
theorem perm_insert (nodup : (keywords.map (·.key)).Nodup) (keyword : Keyword Ty) :
    keyword.insert keywords ~
      keywords.filter (fun other => !decide (keyword.key = other.key)) ++ [keyword] := by
  induction keywords with
  | nil => exact .refl _
  | cons other keywords ih =>
      obtain ⟨fresh, nodup⟩ := List.nodup_cons.1 nodup
      rw [Keyword.insert]
      by_cases same : other.key = keyword.key
      · rw [if_pos same, List.filter_cons_of_neg (by simp [same])]
        rw [List.filter_eq_self.2]
        · exact (List.perm_append_singleton _ _).symm
        · intro one there
          have different : keyword.key ≠ one.key := fun equal =>
            fresh (List.mem_map.2 ⟨one, there, equal.symm.trans same.symm⟩)
          simpa using different
      · rw [if_neg same, List.filter_cons_of_pos (by simpa using Ne.symm same)]
        exact (ih nodup).cons other

end Keywords

/-! ## Putting parameters -/

namespace Draft

/-- No key is used twice in one kind of keyword parameters. -/
structure Regular (draft : Draft) : Prop where
  required : (draft.params.requiredKeywords.map (·.key)).Nodup
  optional : (draft.params.optionalKeywords.map (·.key)).Nodup

variable {draft : Draft} {dealt : Dealt}

theorem Regular.put (regular : draft.Regular) (dealt : Dealt) : (draft.put dealt).Regular := by
  obtain ⟨param, note⟩ := dealt
  cases param with
  | plain name =>
      unfold Draft.put Params.addRequired
      dsimp only
      split <;> exact ⟨regular.1, regular.2⟩
  | keyword name hasDefault =>
      cases name with
      | none => exact regular
      | some name =>
          cases hasDefault with
          | false => exact ⟨nodup_insert regular.1 _, regular.2⟩
          | true => exact ⟨regular.1, nodup_insert regular.2 _⟩
  | optional name => cases name <;> exact ⟨regular.1, regular.2⟩
  | _ => exact ⟨regular.1, regular.2⟩

open Classical in
theorem count_insert {keywords : List (Keyword Ty)} (nodup : (keywords.map (·.key)).Nodup)
    (keyword : Keyword Ty) (optional : Bool) (one : Holder) :
    ((keyword.insert keywords).map (Holder.keyword optional)).count one =
      ((keywords.filter fun other => !decide (keyword.key = other.key)).map
        (Holder.keyword optional)).count one + [Holder.keyword optional keyword].count one := by
  rw [← List.count_append, ← List.map_singleton, ← List.map_append]
  exact ((perm_insert nodup keyword).map _).count_eq one

open Classical in
/-- A parameter that is put into a draft takes the place of what holds it. -/
theorem perm_holders_put (regular : draft.Regular) {holder : Holder}
    (holds : dealt.holder? = some holder) : (draft.put dealt).holders ~
      draft.holders.filter (fun other => !Slot.clash holder.slot? other.slot?) ++ [holder] := by
  -- the places are listed kind by kind, so the new one need not be the last: they are counted
  rw [List.perm_iff_count]
  intro one
  obtain ⟨param, note⟩ := dealt
  match param, holds with
  | .plain name, holds =>
      obtain rfl := Option.some.inj holds
      simp only [holders, paramHolders, Draft.put, Params.addRequired]
      split <;>
      · simp only [List.filter_append, List.filter_map, Function.comp_def, Holder.slot?,
          Slot.clash_none, Bool.not_false, List.filter_true, List.map_append, List.map_singleton,
          List.count_append]
        omega
  | .destructured, holds | .optional (some _), holds | .splat _, holds | .doubleSplat _, holds
  | .block _, holds =>
      obtain rfl := Option.some.inj holds
      simp only [holders, paramHolders, Draft.put, List.filter_append, List.filter_map,
        Function.comp_def, Holder.slot?, Slot.clash_none, Slot.clash_none_right, Slot.clash_some,
        reduceCtorEq, decide_true, decide_false, Bool.not_false, Bool.not_true, List.filter_true,
        List.filter_false, List.map_append, List.map_nil, List.map_singleton, Option.toList_some,
        List.count_append, List.count_nil]
      omega
  | .keyword (some name) hasDefault, holds =>
      obtain rfl := Option.some.inj holds
      cases hasDefault with
      | false =>
          simp only [holders, paramHolders, Draft.put, Bool.false_eq_true, if_false,
            List.filter_append, List.filter_map, Function.comp_def, Holder.slot?,
            Slot.clash_none_right, Slot.clash_some, Slot.keyword.injEq, reduceCtorEq, true_and,
            false_and, decide_false, Bool.not_false, List.filter_true, List.count_append,
            count_insert regular.required]
          omega
      | true =>
          simp only [holders, paramHolders, Draft.put, if_true, List.filter_append,
            List.filter_map, Function.comp_def, Holder.slot?, Slot.clash_none_right,
            Slot.clash_some, Slot.keyword.injEq, Bool.true_eq_false, reduceCtorEq, true_and,
            false_and, decide_false, Bool.not_false, List.filter_true, List.count_append,
            count_insert regular.optional]
          omega

/-- A node that holds nothing changes nothing. -/
theorem holders_put_of_none (absent : dealt.holder? = none) :
    (draft.put dealt).holders = draft.holders := by
  obtain ⟨param, note⟩ := dealt
  match param, absent with
  | .optional none, _ | .keyword none _, _ | .forward, _ | .other, _ => rfl

theorem forwarded_put (draft : Draft) (dealt : Dealt) :
    (draft.put dealt).forwarded = (draft.forwarded || dealt.param.isForward) := by
  obtain ⟨param, note⟩ := dealt
  match param with
  | .forward => exact (Bool.or_true _).symm
  | .plain _ | .destructured | .optional none | .optional (some _) | .splat _ | .keyword none _
  | .keyword (some _) _ | .doubleSplat _ | .block _ | .other => exact (Bool.or_false _).symm

/-- A list forwards if one of its parameters does. -/
theorem forwarded_foldl_put (draft : Draft) (dealt : List Dealt) :
    (dealt.foldl put draft).forwarded =
      (draft.forwarded || dealt.any fun one => one.param.isForward) := by
  induction dealt generalizing draft with
  | nil => simp
  | cons one dealt ih => rw [List.foldl_cons, ih, forwarded_put, List.any_cons, Bool.or_assoc]

end Draft

/-! ## What stays -/

/-- A later parameter takes the place of an earlier one. -/
def RubyParam.displaces (later earlier : RubyParam) : Bool := Slot.clash later.slot? earlier.slot?

/-- The parameters that no later one displaces. -/
def staying : List Dealt → List Dealt
  | [] => []
  | one :: later =>
    if later.any fun other => other.param.displaces one.param then staying later
    else one :: staying later

/-- One more parameter displaces some of those that stay. -/
theorem staying_concat (dealt : List Dealt) (last : Dealt) : staying (dealt ++ [last]) =
    (staying dealt).filter (fun one => !last.param.displaces one.param) ++ [last] := by
  induction dealt with
  | nil => rfl
  | cons one dealt ih =>
      rw [List.cons_append, staying, staying, ih, List.any_append, List.any_cons, List.any_nil,
        Bool.or_false]
      cases dealt.any fun other => other.param.displaces one.param with
      | true => rfl
      | false =>
          cases displaced : last.param.displaces one.param with
          | true => simp [displaced]
          | false => simp [displaced]

/-- What a parameter holds is its own place. -/
theorem slot?_of_holder? {dealt : Dealt} {holder : Holder} (holds : dealt.holder? = some holder) :
    holder.slot? = dealt.param.slot? := by
  obtain ⟨param, note⟩ := dealt
  match param, holds with
  | .plain _, holds | .destructured, holds | .optional (some _), holds | .splat _, holds
  | .keyword (some _) _, holds | .doubleSplat _, holds | .block _, holds =>
      obtain rfl := Option.some.inj holds
      rfl

theorem slot?_of_none {dealt : Dealt} (absent : dealt.holder? = none) :
    dealt.param.slot? = none := by
  obtain ⟨param, note⟩ := dealt
  match param, absent with
  | .optional none, _ | .keyword none _, _ | .forward, _ | .other, _ => rfl

/-- Displaced parameters lose their places. -/
theorem filterMap_holder?_filter (param : RubyParam) (dealt : List Dealt) :
    (dealt.filter fun one => !param.displaces one.param).filterMap Dealt.holder? =
      (dealt.filterMap Dealt.holder?).filter fun held => !Slot.clash param.slot? held.slot? := by
  induction dealt with
  | nil => rfl
  | cons one dealt ih =>
      rw [List.filterMap_cons]
      cases holds : one.holder? with
      | none =>
          -- who holds nothing is displaced by nobody
          have stays : param.displaces one.param = false := by
            rw [RubyParam.displaces, slot?_of_none holds, Slot.clash_none_right]
          rw [List.filter_cons_of_pos (by rw [stays, Bool.not_false]), List.filterMap_cons, holds]
          exact ih
      | some holder =>
          dsimp only
          rw [List.filter_cons, List.filter_cons, slot?_of_holder? holds, ← RubyParam.displaces]
          split
          · rw [List.filterMap_cons, holds, ih]
          · exact ih

/-- The places of a draft are those of the parameters that stay. -/
theorem perm_holders_foldl {draft : Draft} (regular : draft.Regular) {done : List Dealt}
    (holders : draft.holders ~ (staying done).filterMap Dealt.holder?) (dealt : List Dealt) :
    (dealt.foldl Draft.put draft).holders ~
      (staying (done ++ dealt)).filterMap Dealt.holder? := by
  induction dealt generalizing draft done with
  | nil => exact (List.append_nil done).symm ▸ holders
  | cons one dealt ih =>
      rw [List.foldl_cons, ← List.singleton_append, ← List.append_assoc]
      refine ih (regular.put one) ?_
      rw [staying_concat, List.filterMap_append, filterMap_holder?_filter]
      cases holds : one.holder? with
      | none =>
          rw [Draft.holders_put_of_none holds, slot?_of_none holds]
          simpa [List.filterMap_cons, holds] using holders
      | some holder =>
          refine (Draft.perm_holders_put regular holds).trans ?_
          rw [slot?_of_holder? holds, List.filterMap_cons, holds]
          exact (holders.filter _).append_right [holder]

/-! ## What counts -/

/-- The type is that of a proc. -/
def isProcType : Ty → Bool
  | ⟨.proc ..⟩ => true
  | _ => false

namespace Dealt

/-- The type of the parameter has an effect if nothing displaces the parameter: a block must have
the type of a proc, and others must not be in a list that forwards. -/
def counts (forwarded : Bool) (dealt : Dealt) : Bool :=
  match dealt.param with
  | .block _ => isProcType dealt.type
  | _ => !forwarded

/-- A parameter with a name has a place in a method type. -/
theorem exists_holder {dealt : Dealt} {name : String} (named : dealt.param.name? = some name) :
    ∃ holder, dealt.holder? = some holder := by
  obtain ⟨param, note⟩ := dealt
  match param, named with
  | .plain _, _ | .optional (some _), _ | .splat (some _), _ | .keyword (some _) _, _
  | .doubleSplat (some _), _ | .block (some _), _ => exact ⟨_, rfl⟩

/-- Where the type of a parameter has an effect, its place has this type. -/
theorem has_of_counts {dealt : Dealt} {forwarded : Bool} {holder : Holder}
    (counts : dealt.counts forwarded = true) (holds : dealt.holder? = some holder) :
    holder.Has dealt.type ∧ (holder.isBlock || !forwarded) = true := by
  obtain ⟨param, note⟩ := dealt
  match param, holds with
  | .plain _, holds | .destructured, holds | .optional (some _), holds | .splat _, holds
  | .keyword (some _) _, holds | .doubleSplat _, holds =>
      obtain rfl := Option.some.inj holds
      exact ⟨rfl, counts⟩
  | .block name, holds =>
      obtain rfl := Option.some.inj holds
      have proc : isProcType (Dealt.type ⟨.block name, note⟩) = true := counts
      refine ⟨?_, rfl⟩
      unfold isProcType at proc
      split at proc
      · rename_i function inner type
        exact ⟨inner, by rw [type]; rfl⟩
      · cases proc

/-- Where it has no effect, or there is none, nothing is known of the place. -/
theorem isUntyped_of_not_counts {dealt : Dealt} {forwarded : Bool} {holder : Holder}
    (idle : (dealt.note.isSome && dealt.counts forwarded) = false)
    (holds : dealt.holder? = some holder) (shown : (holder.isBlock || !forwarded) = true) :
    holder.IsUntyped := by
  obtain ⟨param, note⟩ := dealt
  -- Without an annotation the parameter is untyped, and so is a block that has no proc as its type.
  cases note with
  | none =>
      match param, holds with
      | .plain _, holds | .destructured, holds | .optional (some _), holds | .splat _, holds
      | .keyword (some _) _, holds | .doubleSplat _, holds | .block _, holds =>
          obtain rfl := Option.some.inj holds
          rfl
  | some note =>
      have idle : Dealt.counts forwarded ⟨param, some note⟩ = false := idle
      match param, holds with
      | .plain _, holds | .destructured, holds | .optional (some _), holds | .splat _, holds
      | .keyword (some _) _, holds | .doubleSplat _, holds =>
          obtain rfl := Option.some.inj holds
          cases idle.symm.trans shown
      | .block _, holds =>
          obtain rfl := Option.some.inj holds
          have other : isProcType note.2.type = false := idle
          show (Draft.blockOf note.2.type).function = _
          unfold Draft.blockOf
          split
          · rename_i type
            rw [type] at other
            cases other
          · rfl

end Dealt

/-- The annotated parameters whose annotations have an effect. -/
def effective (forwarded : Bool) (dealt : List Dealt) : List Dealt :=
  (staying dealt).filter fun one => one.note.isSome && one.counts forwarded

/-- The annotated parameters whose annotations have none. -/
def dropped (forwarded : Bool) : List Dealt → List Dealt
  | [] => []
  | one :: later =>
    if one.note.isSome && (!one.counts forwarded ||
        later.any fun other => other.param.displaces one.param) then
      one :: dropped forwarded later
    else dropped forwarded later

theorem perm_effective_dropped (forwarded : Bool) (dealt : List Dealt) :
    effective forwarded dealt ++ dropped forwarded dealt ~ dealt.filter (·.note.isSome) := by
  induction dealt with
  | nil => exact .refl _
  | cons one later ih =>
      -- an annotated parameter is displaced, or it does not count, or it has an effect
      rw [effective] at ih ⊢
      rw [staying, dropped]
      cases displaced : later.any fun other => other.param.displaces one.param with
      | true =>
          cases noted : one.note.isSome with
          | false => simpa [noted] using ih
          | true => simpa [noted] using List.perm_middle.trans (ih.cons one)
      | false =>
          cases noted : one.note.isSome with
          | false => simpa [noted] using ih
          | true =>
              cases counts : one.counts forwarded with
              | false => simpa [noted, counts] using List.perm_middle.trans (ih.cons one)
              | true => simpa [noted, counts] using ih

/-- No annotation that is taken is without effect exactly if each of them counts where it is, and no
annotated parameter is displaced by a later one. -/
theorem dropped_eq_nil_iff (forwarded : Bool) (dealt : List Dealt) :
    dropped forwarded dealt = [] ↔
      (∀ one ∈ dealt, one.note.isSome = true → one.counts forwarded = true) ∧
      dealt.Pairwise fun one later =>
        one.note.isSome = true → later.param.displaces one.param = false := by
  induction dealt with
  | nil => simp [dropped]
  | cons one later ih =>
      rw [dropped, List.forall_mem_cons, List.pairwise_cons]
      -- An annotation is dropped if it does not count or a later parameter takes its place.
      cases noted : one.note.isSome with
      | false => simpa using ih
      | true =>
          cases counts : one.counts forwarded with
          | false => simp
          | true =>
              cases displaced : later.any fun other => other.param.displaces one.param with
              | true =>
                  obtain ⟨other, there, displaces⟩ := List.any_eq_true.1 displaced
                  refine iff_of_false (by simp) fun all => ?_
                  rw [all.2.1 other there rfl] at displaces
                  cases displaces
              | false =>
                  have free : ∀ other ∈ later, other.param.displaces one.param = false :=
                    fun other there => by simpa using List.any_eq_false.1 displaced other there
                  rw [Bool.not_true, Bool.or_false, Bool.and_false, if_neg Bool.false_ne_true, ih]
                  constructor
                  · rintro ⟨all, apart⟩
                    exact ⟨⟨fun _ => rfl, all⟩, fun other there _ => free other there, apart⟩
                  · rintro ⟨⟨-, all⟩, -, apart⟩
                    exact ⟨all, apart⟩

/-! ## Method types from parameters -/

/-- A method type has the places of its draft. Of one that forwards it has the block only. -/
theorem typeHolders_methodType (draft : Draft) (result : Ty) :
    typeHolders (draft.methodType result) =
    draft.holders.filter fun held => held.isBlock || !draft.forwarded := by
  obtain ⟨params, block, forwarded, unused⟩ := draft
  cases forwarded with
  | false => simp [typeHolders, Draft.methodType, Draft.function, Draft.holders]
  | true =>
      simp [typeHolders, Draft.methodType, Draft.function, Draft.holders, paramHolders,
        List.filter_map, Function.comp_def, Holder.isBlock]

theorem forwarded_ofParams (annotations : ParamAnnotations) (params : List RubyParam) :
    (Draft.ofParams annotations params).forwarded = params.any RubyParam.isForward := by
  rw [Draft.ofParams_eq, Draft.forwarded_foldl_put, Bool.false_or]
  conv_rhs => rw [← map_param_deal annotations params, List.any_map]
  rfl

theorem unused_ofParams (annotations : ParamAnnotations) (params : List RubyParam) :
    (Draft.ofParams annotations params).unused = leftOver annotations params := by
  rw [Draft.ofParams_eq]
  have kept : ∀ (dealt : List Dealt) (draft : Draft),
      (dealt.foldl Draft.put draft).unused = draft.unused := by
    intro dealt
    induction dealt with
    | nil => exact fun _ => rfl
    | cons one dealt ih => exact fun draft => (ih _).trans (draft.unused_put one)
  exact kept _ _

/-- Each annotation that has an effect has its place in the method type; nothing is known of the
other places. -/
theorem exists_rest_of_draftType (params : List RubyParam) (annotations : ParamAnnotations)
    (result : Option TypeAnnotation) :
    ∃ rest, typeHolders (draftType params annotations result).1 ~
        (effective (params.any RubyParam.isForward) (deal annotations params)).filterMap
          Dealt.holder? ++ rest ∧
      ∀ held ∈ rest, held.IsUntyped := by
  generalize forwards : params.any RubyParam.isForward = forwarded
  generalize dealing : deal annotations params = dealt
  have shown : typeHolders (draftType params annotations result).1 ~
      ((staying dealt).filterMap Dealt.holder?).filter fun held => held.isBlock || !forwarded := by
    rw [draftType, typeHolders_methodType, forwarded_ofParams, forwards, Draft.ofParams_eq, dealing]
    have regular : Draft.Regular { unused := leftOver annotations params } := ⟨.nil, .nil⟩
    have start : Draft.holders { unused := leftOver annotations params } ~
        (staying []).filterMap Dealt.holder? := .refl _
    exact (perm_holders_foldl regular start dealt).filter _
  -- of the parameters that stay, those that do not count are the rest
  have parts := (List.filter_append_perm
    (fun one : Dealt => one.note.isSome && one.counts forwarded) (staying dealt)).symm
  refine ⟨(((staying dealt).filter fun one => !(one.note.isSome && one.counts forwarded)).filterMap
      Dealt.holder?).filter fun held => held.isBlock || !forwarded,
    shown.trans (((parts.filterMap _).filter _).trans ?_), ?_⟩
  · rw [List.filterMap_append, List.filter_append, List.filter_eq_self.2]
    · exact .refl _
    · intro held there
      obtain ⟨one, there, holds⟩ := List.mem_filterMap.1 there
      obtain ⟨-, counts⟩ := List.mem_filter.1 there
      exact (Dealt.has_of_counts (Bool.and_eq_true _ _ ▸ counts).2 holds).2
  · intro held there
    obtain ⟨there, shown⟩ := List.mem_filter.1 there
    obtain ⟨one, there, holds⟩ := List.mem_filterMap.1 there
    obtain ⟨-, idle⟩ := List.mem_filter.1 there
    exact Dealt.isUntyped_of_not_counts (Bool.eq_false_of_not_eq_true' idle) holds shown

theorem staying_sublist (dealt : List Dealt) : List.Sublist (staying dealt) dealt := by
  induction dealt with
  | nil => exact .slnil
  | cons one later ih =>
      rw [staying]
      split
      · exact ih.cons one
      · exact ih.cons_cons one

/-- An annotation that has an effect is of the parameter that has taken it, and the place of the
parameter has what the annotation says. -/
theorem exists_has_of_effective {annotations : ParamAnnotations} {params : List RubyParam}
    {forwarded : Bool} {one : Dealt} (works : one ∈ effective forwarded (deal annotations params)) :
    ∃ note holder, one.note = some note ∧ one.param.name? = some note.1 ∧
      one.holder? = some holder ∧ holder.Has note.2.type := by
  obtain ⟨stays, counts⟩ := List.mem_filter.1 works
  obtain ⟨noted, counts⟩ := Bool.and_eq_true_iff.1 counts
  obtain ⟨note, noted⟩ := Option.isSome_iff_exists.1 noted
  have named := name?_of_deal ((staying_sublist _).subset stays) noted
  obtain ⟨holder, holds⟩ := Dealt.exists_holder named
  have type : one.type = note.2.type := by rw [Dealt.type, noted]; rfl
  exact ⟨note, holder, noted, named, holds, type ▸ (Dealt.has_of_counts counts holds).1⟩

/-- Each annotation has an effect, is without effect though it is taken, or is left over. -/
theorem perm_effective_dropped_leftOver (forwarded : Bool) (annotations : ParamAnnotations)
    (params : List RubyParam) :
    (effective forwarded (deal annotations params)).filterMap Dealt.note
      ++ (dropped forwarded (deal annotations params)).filterMap Dealt.note
      ++ leftOver annotations params ~ annotations := by
  have noted : ∀ dealt : List Dealt,
      (dealt.filter (·.note.isSome)).filterMap Dealt.note = dealt.filterMap Dealt.note := by
    intro dealt
    rw [List.filterMap_filter]
    congr 1
    funext one
    cases one.note <;> rfl
  have parts := (perm_effective_dropped forwarded (deal annotations params)).filterMap Dealt.note
  rw [List.filterMap_append, noted] at parts
  exact (parts.append_right _).trans (deal_perm annotations params)

/-! ## Overloads from parameters -/

/-- The annotation of a parameter, with its name. -/
def Annotation.param? : Annotation → Option (String × TypeAnnotation)
  | param name note => some (name, note)
  | _ => none

namespace Sorted

variable {sorted : Sorted} {annotations : List Annotation}

theorem Accounts.params_eq (accounts : sorted.Accounts annotations) :
    sorted.params = annotations.filterMap Annotation.param? := by
  have filtered : (annotations.filter Annotation.isParam).filterMap Annotation.param? =
      annotations.filterMap Annotation.param? := by
    rw [List.filterMap_filter]
    congr 1
    funext annotation
    cases annotation <;> rfl
  rw [← filtered, ← accounts.params, List.filterMap_map]
  exact List.filterMap_some.symm

theorem Accounts.isExplicit_eq_false (accounts : sorted.Accounts annotations)
    (parts : ∀ annotation ∈ annotations, annotation.isColon = false ∧ annotation.isList = false) :
    sorted.isExplicit = false := by
  have colons : sorted.colons = [] := by
    rw [← List.map_eq_nil_iff, accounts.colons, List.filter_eq_nil_iff]
    exact fun annotation inside => by simp [(parts annotation inside).1]
  have list : sorted.list = none := by
    rw [← Option.map_eq_none_iff, accounts.list, List.find?_eq_none]
    exact fun annotation inside => by simp [(parts annotation inside).2]
  rw [Sorted.isExplicit, colons, list]
  rfl

/-- What sorting notes to be without effect is not about parameters. -/
theorem Accounts.location_of_ignored (accounts : sorted.Accounts annotations) {ignored : Ignored}
    (there : ignored ∈ sorted.ignored) : ignored.location ∈
      (annotations.filter (!·.isParam)).map (·.location) := by
  obtain ⟨lost, others, located, all⟩ := accounts.all
  have there : ignored.location ∈ lost.map (·.location) :=
    located ▸ List.mem_map_of_mem (f := (·.location)) there
  obtain ⟨one, isLost, same⟩ := List.mem_map.1 there
  have inside := (List.mem_filter.1 (all.subset (List.mem_append_right _ isLost))).1
  exact same ▸ List.mem_map_of_mem (f := (·.location))
    (List.mem_filter.2 ⟨inside, by simp [others one isLost]⟩)

/-- The annotation behind the method is noted too if it is of no use. -/
theorem location_of_usableTrailing {trailing : Option TypeAnnotation} {ignored : Ignored}
    (there : ignored ∈ (usableTrailing sorted trailing).2) : ignored ∈ sorted.ignored ∨
      ignored.location ∈ trailing.toList.map (·.location) := by
  unfold usableTrailing at there
  split at there
  · refine (List.mem_append.1 there).imp_right fun last => ?_
    rw [List.mem_singleton.1 last]
    exact List.mem_singleton_self _
  · exact .inl there

end Sorted

/-- Where no whole method types are given, there is one, from the parameters and the result. The
annotations that no parameter takes are noted last. -/
theorem decideOverloads_of_parts {annotations : List Annotation}
    (parts : ∀ annotation ∈ annotations, annotation.isColon = false ∧ annotation.isList = false)
    (trailing : Option TypeAnnotation) (params : List RubyParam) {notes : ParamAnnotations}
    (noted : annotations.filterMap Annotation.param? = notes) :
    ∃ type ignored, decideOverloads annotations trailing false params = .ok
        { overloads := [type]
          ignored := ignored ++ (leftOver notes params).map fun note =>
            ⟨note.2.location, .noParameter note.1⟩ } ∧
      (∀ one ∈ ignored, one.location ∈ (annotations.filter (!·.isParam)).map (·.location)
        ++ trailing.toList.map (·.location)) ∧
      ((∃ result, type = (draftType params notes result).1) ∨ notes = [] ∧ type = .untyped) := by
  have accounts := Sorted.accounts_ofAnnotations annotations
  generalize sorts : Sorted.ofAnnotations annotations = sorted at accounts
  obtain ⟨result, combined⟩ := combineResults_usableTrailing sorted trailing
  have located : ∀ one ∈ (usableTrailing sorted trailing).2,
      one.location ∈ (annotations.filter (!·.isParam)).map (·.location)
        ++ trailing.toList.map (·.location) := fun one there => List.mem_append.2
    ((Sorted.location_of_usableTrailing there).imp_left accounts.location_of_ignored)
  obtain rfl : sorted.params = notes := accounts.params_eq.trans noted
  rw [decideOverloads, sorts, if_neg Bool.false_ne_true,
    if_neg (by simp [accounts.isExplicit_eq_false parts]), decideByParts_eq combined]
  dsimp only
  -- Without annotations of parameters or a result, the method is untyped as a whole.
  cases empty : sorted.params.isEmpty && result.isNone with
  | true =>
      have none : sorted.params = [] := List.isEmpty_iff.1 (Bool.and_eq_true_iff.1 empty).1
      refine ⟨.untyped, _, ?_, located, .inr ⟨none, rfl⟩⟩
      have nothing : leftOver sorted.params params = [] := by
        have all := deal_perm sorted.params params
        rw [none] at all ⊢
        exact (List.append_eq_nil_iff.1 all.eq_nil).2
      rw [nothing, List.map_nil, List.append_nil, if_pos rfl]
  | false =>
      refine ⟨_, _, ?_, located, .inl ⟨result, rfl⟩⟩
      rw [if_neg Bool.false_ne_true, ← unused_ofParams]
      rfl

/-- Without annotations there is nothing to have an effect. -/
theorem effective_eq_nil (forwarded : Bool) (params : List RubyParam) :
    effective forwarded (deal [] params) = [] := by
  refine List.eq_nil_iff_forall_not_mem.2 fun one works => ?_
  obtain ⟨note, -, noted, -⟩ := exists_has_of_effective works
  have inside := List.mem_append_left ((dropped forwarded (deal [] params)).filterMap Dealt.note
    ++ leftOver [] params) (List.mem_filterMap.2 ⟨one, works, noted⟩)
  rw [← List.append_assoc] at inside
  exact List.not_mem_nil ((perm_effective_dropped_leftOver forwarded [] params).subset inside)

/-- Where no whole method types are given and diagnostics are not limited, a method has one method
type, and each annotation of a parameter is accounted for. It has an effect, and then it is of the
parameter that has its name and gives the type of one place of the method type; or no parameter
takes it, and it is reported once where it is; or it is dropped. Nothing is known of the other
places, and other reports are not about parameters. No annotation is dropped exactly if every one
that is taken counts, and no later parameter displaces the one that has taken it. -/
theorem settleOverloads_params_account {file : RubyFile}
    (unlimited : file.options.maxDiagnostics = none) {annotations : List Annotation}
    (parts : ∀ annotation ∈ annotations, annotation.isColon = false ∧ annotation.isList = false)
    (trailing : Option TypeAnnotation) (params : List RubyParam) (progress : Progress) :
    let notes := annotations.filterMap Annotation.param?
    let dealt := deal notes params
    let forwarded := params.any RubyParam.isForward
    ∃ type others rest,
      (settleOverloads file annotations trailing false params).run progress = (.ok [type],
        { progress with
          diagnostics := progress.diagnostics ++ (others ++ (leftOver notes params).map fun note =>
            .unused (.noParameter note.1) note.2.location) }) ∧
      (∀ diagnostic ∈ others, diagnostic.location ∈
        (annotations.filter (!·.isParam)).map (·.location)
          ++ trailing.toList.map (·.location)) ∧
      (effective forwarded dealt).filterMap Dealt.note
        ++ (dropped forwarded dealt).filterMap Dealt.note ++ leftOver notes params ~ notes ∧
      (∀ one ∈ effective forwarded dealt, ∃ note holder, one.note = some note ∧
        one.param.name? = some note.1 ∧ one.holder? = some holder ∧ holder.Has note.2.type) ∧
      typeHolders type ~ (effective forwarded dealt).filterMap Dealt.holder? ++ rest ∧
      (∀ held ∈ rest, held.IsUntyped) ∧
      (dropped forwarded dealt = [] ↔
        (∀ one ∈ dealt, one.note.isSome = true → one.counts forwarded = true) ∧
        dealt.Pairwise fun one later =>
          one.note.isSome = true → later.param.displaces one.param = false) := by
  intro notes dealt forwarded
  obtain ⟨type, ignored, decided, located, drawn⟩ :=
    decideOverloads_of_parts parts trailing params (show _ = notes from rfl)
  -- What is untyped as a whole has no parameter with an annotation.
  have places : ∃ rest, typeHolders type ~
      (effective forwarded dealt).filterMap Dealt.holder? ++ rest ∧
      ∀ held ∈ rest, held.IsUntyped := by
    obtain ⟨result, rfl⟩ | ⟨none, rfl⟩ := drawn
    · exact exists_rest_of_draftType params notes result
    · refine ⟨[], ?_, nofun⟩
      rw [show dealt = deal [] params from none ▸ rfl, effective_eq_nil]
      exact .refl _
  obtain ⟨rest, places, unknown⟩ := places
  refine ⟨type, ignored.map Ignored.diagnostic, rest, ?_, ?_,
    perm_effective_dropped_leftOver forwarded notes params, fun one => exists_has_of_effective,
    places, unknown, dropped_eq_nil_iff forwarded dealt⟩
  · rw [run_settleOverloads unlimited decided, List.map_append, List.map_map]
    rfl
  · exact List.forall_mem_map.2 located

/-- Comments with annotations of three parameters. -/
def documentedFile : RubyFile where
  buffer := .ofString "a.rb" "# @rbs a: bool\n# @rbs b: nil\n# @rbs c: ^() -> void\n"
  comments := { lines := [⟨0, ⟨0, 14⟩, true⟩, ⟨1, ⟨15, 28⟩, true⟩, ⟨2, ⟨29, 50⟩, true⟩] }

/-- The annotations of `documentedFile`. -/
def documentedParams : List Annotation :=
  [.param "a" ⟨⟨.base .bool⟩, { buffer := documentedFile.buffer, range := ⟨10, 14⟩ }⟩,
    .param "b" ⟨⟨.base .nil⟩, { buffer := documentedFile.buffer, range := ⟨25, 28⟩ }⟩,
    .param "c" ⟨⟨.proc (.typed {} ⟨.base .void⟩) none⟩,
      { buffer := documentedFile.buffer, range := ⟨39, 50⟩ }⟩]

/-- The method has a parameter and a block, but no second parameter. -/
theorem settleOverloads_documentedParams : ∃ type rest,
    (settleOverloads documentedFile documentedParams none false
        [.plain "a", .block (some "c")]).run {} = (.ok [type],
      { diagnostics := [.unused (.noParameter "b")
          { buffer := documentedFile.buffer, range := ⟨25, 28⟩ }] }) ∧
    typeHolders type ~ [.param .required ⟨⟨.base .bool⟩, some "a"⟩,
      .block ⟨.typed {} ⟨.base .void⟩, false⟩] ++ rest ∧
    ∀ held ∈ rest, held.IsUntyped := by
  obtain ⟨type, others, rest, ran, located, -, -, places, unknown, -⟩ :=
    settleOverloads_params_account (show documentedFile.options.maxDiagnostics = none from rfl)
      (show ∀ annotation ∈ documentedParams,
        annotation.isColon = false ∧ annotation.isList = false by decide)
      none [.plain "a", .block (some "c")] {}
  obtain rfl : others = [] := List.eq_nil_iff_forall_not_mem.2 fun one there =>
    List.not_mem_nil (located one there)
  exact ⟨type, rest, ran, places, unknown⟩

/-- A method that forwards drops the annotations of its other parameters: none of them is in the
method type, which is `(?) -> untyped`, and none is reported. -/
theorem forwarded_annotation_is_dropped :
    (settleOverloads documentedFile documentedParams none false
        [.plain "a", .plain "b", .plain "c", .forward]).run {} =
      (.ok [.untyped], {}) ∧ typeHolders .untyped = [] :=
  ⟨rfl, rfl⟩

end Signet.Inline

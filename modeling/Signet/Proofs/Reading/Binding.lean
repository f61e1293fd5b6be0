import Signet.Proofs.Reading.Scopes

/-!
# Reading and binding

What a text means in a scope is what it means without one, with the names of the scope bound
afterwards (`readType_eq_bind`). So a scope decides neither whether a text can be read nor why it
cannot, and two scopes give a text the same meaning if they bind the same names in it.
-/

namespace Signet

open Grammar

variable {scope : List String}

/-! ## Binding what is put together -/

theorem applyName_bind (kind : NameKind) (name : TypeName) (args : List Ty) :
    applyName scope kind name (args.map (Ty.bind scope)) =
      (applyName [] kind name args).bind scope := by
  have alone : applyName [] kind name args = ⟨.named kind name args⟩ := by
    unfold applyName Ty.bindLayer
    split
    · simp_all
    · rfl
  rw [alone, Ty.bind_mk]
  rfl

theorem bind_combine {whole : List Ty → Layer Ty}
    (isWhole : whole = .union ∨ whole = .intersection) (types : List Ty) :
    combine whole (types.map (Ty.bind scope)) = (combine whole types).bind scope := by
  have several (types : List Ty) :
      (⟨whole (types.map (Ty.bind scope))⟩ : Ty) = Ty.bind scope ⟨whole types⟩ := by
    rcases isWhole with rfl | rfl
    · rw [Ty.bind_mk]
      rfl
    · rw [Ty.bind_mk]
      rfl
  match types with
  | [type] => rfl
  | [] => exact several []
  | first :: second :: types => exact several (first :: second :: types)

theorem bind_markOptional (type : Ty) (marks : List ParseTree) :
    markOptional (type.bind scope) marks = (markOptional type marks).bind scope := by
  unfold markOptional
  induction marks generalizing type with
  | nil => rfl
  | cons mark marks ih =>
      rw [List.foldl_cons, List.foldl_cons, ← ih]
      rw [Ty.bind_mk]
      rfl

theorem bind_readAtom (tree : ParseTree) :
    (readAtom tree).map (Ty.bind scope) = readAtom tree := by
  unfold readAtom
  split
  · split <;> rfl
  · rfl
  · rfl
  · unfold readInteger
    dsimp only
    split <;> rfl
  · rfl
  · rfl

/-- What is written of a parameter with another type. -/
def ParamParts.map (f : Ty → Ty) (parts : ParamParts) : ParamParts :=
  { parts with type := f parts.type }

/-- What is written of a function with other types. -/
def SignatureParts.map (f : Ty → Ty) (parts : SignatureParts) : SignatureParts where
  params := parts.params.map f
  untyped := parts.untyped
  block := parts.block.map (Block.map f)
  result := f parts.result

theorem SignatureParts.function_map (f : Ty → Ty) (parts : SignatureParts) :
    (parts.map f).function = parts.function.map f := by
  obtain ⟨params, untyped, block, result⟩ := parts
  cases untyped <;> rfl

theorem Ty.bind_untyped (scope : List String) : Ty.untyped.bind scope = .untyped :=
  Ty.bind_mk scope (.base .untyped)

theorem ParamParts.map_empty (scope : List String) :
    ParamParts.map (Ty.bind scope) {} = {} := by
  simp [ParamParts.map, Ty.bind_untyped]

theorem SignatureParts.map_empty (scope : List String) :
    SignatureParts.map (Ty.bind scope) {} = {} := by
  simp [SignatureParts.map, Ty.bind_untyped, Params.map]

namespace Params

theorem hasKeywords_map (f : Ty → Ty) (params : Params Ty) :
    (params.map f).hasKeywords = params.hasKeywords := by
  unfold hasKeywords keywords Params.map
  rw [← List.map_append, List.isEmpty_map, Option.isSome_map]

theorem admits_map (f : Ty → Ty) (params : Params Ty) (role : ParamRole) :
    (params.map f).admits role = params.admits role := by
  have keywords_eq := hasKeywords_map f params
  cases role with
  | required => simp only [admits, keywords_eq]
  | optional | rest =>
      simp only [admits, keywords_eq]
      simp [Params.map]
  | keyword | restKeywords => simp [admits, Params.map]

theorem hasKey_map (f : Ty → Ty) (params : Params Ty) (key : String) :
    (params.map f).hasKey key = params.hasKey key := by
  unfold hasKey keywords Params.map
  rw [← List.map_append, List.any_map]
  rfl

theorem addRequired_map (f : Ty → Ty) (params : Params Ty) (param : Param Ty) :
    (params.map f).addRequired (param.map f) = (params.addRequired param).map f := by
  have early_eq : ((params.map f).optional.isEmpty && (params.map f).rest.isNone) =
      (params.optional.isEmpty && params.rest.isNone) := by
    simp [Params.map]
  unfold addRequired
  rw [early_eq]
  split <;> simp [Params.map]

theorem addKeyword_map (f : Ty → Ty) (params : Params Ty) (optional : Bool) (keyword : Keyword Ty) :
    (params.map f).addKeyword optional (keyword.map f) =
      (params.addKeyword optional keyword).map f := by
  cases optional <;> simp [addKeyword, Params.map]

/-- A parameter may be added before or after its type and the others are changed. -/
theorem add_map (f : Ty → Ty) (params : Params Ty) (role : ParamRole) (parts : ParamParts) :
    (params.map f).add role (parts.map f) = (params.add role parts).map (Params.map f) := by
  cases role with
  | required => exact congrArg Except.ok (addRequired_map f params ⟨parts.type, parts.name⟩)
  | optional => simp [add, Except.map, Params.map, ParamParts.map, Param.map]
  | rest => simp [add, Except.map, Params.map, ParamParts.map, Param.map]
  | keyword =>
      simp only [add, hasKey_map, ParamParts.map]
      split
      · rfl
      · exact congrArg Except.ok
          (addKeyword_map f params parts.optional ⟨parts.key, parts.type, parts.name⟩)
  | restKeywords => simp [add, Except.map, Params.map, ParamParts.map, Param.map]

end Params

/-! ## Reading -/

section Except

variable {ε δ α β γ : Type}

/-- What is changed after one step and before the next. -/
theorem map_bind_eq (first : Except ε α) (f : α → β) (second : β → Except ε γ) :
    (first.map f >>= second) = first >>= fun value => second (f value) := by
  cases first <;> rfl

theorem bind_map_eq (first : Except ε α) (second : α → Except ε β) (f : β → γ) :
    (first >>= second).map f = first >>= fun value => (second value).map f := by
  cases first <;> rfl

theorem mapError_map (first : Except ε α) (f : α → β) (g : ε → δ) :
    (first.map f).mapError g = (first.mapError g).map f := by
  cases first <;> rfl

end Except

-- One statement for each function, along their common recursion on the tree.
mutual

theorem readTypeTree_eq_bind (scope : List String) : ∀ tree : ParseTree,
    readTypeTree scope tree = (readTypeTree [] tree).map (Ty.bind scope)
  | ⟨rule, stretch, children⟩ => by
    rw [readTypeTree.eq_def scope]
    dsimp only
    split
    · rw [readTypeTree]
      exact readTypeTree_eq_bind scope _
    · rw [readTypeTree]
      exact readTypeTree_eq_bind scope _
    · rw [readTypeTree, readTypeTrees_eq_bind scope, map_bind_eq, bind_map_eq]
      exact congrArg _ (funext fun types => congrArg Except.ok (bind_combine (.inl rfl) types))
    · rw [readTypeTree, readTypeTrees_eq_bind scope, map_bind_eq, bind_map_eq]
      exact congrArg _ (funext fun types => congrArg Except.ok (bind_combine (.inr rfl) types))
    · rw [readTypeTree, readTypeTree_eq_bind scope, map_bind_eq, bind_map_eq]
      exact congrArg _ (funext fun type => congrArg Except.ok (bind_markOptional type _))
    · rw [readTypeTree, readTypeTrees_eq_bind scope, map_bind_eq, bind_map_eq]
      refine congrArg _ (funext fun types => congrArg Except.ok ?_)
      exact (Ty.bind_mk scope (.tuple types)).symm
    · rw [readTypeTree, readSignatureTrees_eq_bind scope, map_bind_eq, bind_map_eq]
      refine congrArg _ (funext fun parts => congrArg Except.ok ?_)
      rw [Ty.bind_mk, SignatureParts.function_map]
      rfl
    -- names come last, since their rule is only known to be none of the above
    · rename_i rule nameRule name nameChildren argsStretch args rest _ _ _ _ _ _ _
      rw [readTypeTree]
      · split
        · rw [readTypeTrees_eq_bind scope, map_bind_eq, bind_map_eq]
          exact congrArg _ (funext fun types => congrArg Except.ok (applyName_bind _ _ types))
        · rfl
      all_goals assumption
    · rw [readTypeTree]
      · split
        · exact congrArg Except.ok (applyName_bind _ _ [])
        · rfl
      all_goals assumption
    · rw [readTypeTree]
      · exact (bind_readAtom _).symm
      all_goals assumption

theorem readTypeTrees_eq_bind (scope : List String) : ∀ trees : List ParseTree,
    readTypeTrees scope trees = (readTypeTrees [] trees).map (List.map (Ty.bind scope))
  | [] => by
    rw [readTypeTrees, readTypeTrees]
    rfl
  | tree :: trees => by
    rw [readTypeTrees, readTypeTrees, readTypeTree_eq_bind scope tree,
      readTypeTrees_eq_bind scope trees]
    simp only [map_bind_eq, bind_map_eq]
    rfl

theorem readSignatureTrees_eq_bind (scope : List String) : ∀ trees : List ParseTree,
    readSignatureTrees scope trees =
      (readSignatureTrees [] trees).map (SignatureParts.map (Ty.bind scope))
  | [] => by
    rw [readSignatureTrees, readSignatureTrees]
    exact congrArg Except.ok (SignatureParts.map_empty scope).symm
  | ⟨rule, stretch, children⟩ :: trees => by
    have rest := readSignatureTrees_eq_bind scope trees
    rw [readSignatureTrees.eq_def scope]
    split
    · rename_i none
      cases none
    · rename_i same
      obtain ⟨⟨⟩, rfl⟩ := List.cons.inj same
      have start : ({} : Params Ty) = Params.map (Ty.bind scope) {} := rfl
      rw [readSignatureTrees, start, readParamTrees_eq_bind scope, rest]
      simp only [map_bind_eq, bind_map_eq]
      rfl
    · rename_i same
      obtain ⟨⟨⟩, rfl⟩ := List.cons.inj same
      rw [readSignatureTrees, rest]
      simp only [map_bind_eq, bind_map_eq]
      rfl
    · rename_i same
      obtain ⟨⟨⟩, rfl⟩ := List.cons.inj same
      rw [readSignatureTrees, readSignatureTrees_eq_bind scope children, rest]
      simp only [map_bind_eq, bind_map_eq, SignatureParts.function_map]
      rfl
    · rename_i same
      obtain ⟨⟨⟩, rfl⟩ := List.cons.inj same
      rw [readSignatureTrees, readTypeTree_eq_bind scope, rest]
      simp only [map_bind_eq, bind_map_eq]
      rfl
    · rename_i notParams notUntyped notBlock notResult same
      obtain ⟨rfl, rfl⟩ := List.cons.inj same
      rw [readSignatureTrees]
      · exact rest
      all_goals assumption

theorem readParamTrees_eq_bind (scope : List String) (params : Params Ty) :
    ∀ trees : List ParseTree, readParamTrees scope (params.map (Ty.bind scope)) trees =
      (readParamTrees [] params trees).map (Params.map (Ty.bind scope))
  | [] => by
    rw [readParamTrees, readParamTrees]
    rfl
  | ⟨rule, stretch, children⟩ :: trees => by
    rw [readParamTrees, readParamTrees]
    dsimp only
    cases paramRole? rule with
    | none => rfl
    | some role =>
        dsimp only
        rw [Params.admits_map]
        split
        · rfl
        · rw [readParamParts_eq_bind scope children]
          -- what is read so far is bound already, so the induction is over bound parameters
          simp only [map_bind_eq, bind_map_eq, Params.add_map, mapError_map]
          refine congrArg _ (funext fun parts => congrArg _ (funext fun next => ?_))
          exact readParamTrees_eq_bind scope next trees

theorem readParamParts_eq_bind (scope : List String) : ∀ trees : List ParseTree,
    readParamParts scope trees = (readParamParts [] trees).map (ParamParts.map (Ty.bind scope))
  | [] => by
    rw [readParamParts, readParamParts]
    exact congrArg Except.ok (ParamParts.map_empty scope).symm
  | ⟨rule, stretch, children⟩ :: trees => by
    have rest := readParamParts_eq_bind scope trees
    rw [readParamParts.eq_def scope]
    split
    · rename_i none
      cases none
    · rename_i same
      obtain ⟨⟨⟩, rfl⟩ := List.cons.inj same
      rw [readParamParts, rest]
      simp only [map_bind_eq, bind_map_eq]
      rfl
    · rename_i same
      obtain ⟨⟨⟩, rfl⟩ := List.cons.inj same
      rw [readParamParts, rest]
      simp only [map_bind_eq, bind_map_eq]
      rfl
    · rename_i same
      obtain ⟨⟨⟩, rfl⟩ := List.cons.inj same
      rw [readParamParts, readTypeTree_eq_bind scope, rest]
      simp only [map_bind_eq, bind_map_eq]
      rfl
    · rename_i same
      obtain ⟨⟨⟩, rfl⟩ := List.cons.inj same
      rw [readParamParts, rest]
      simp only [map_bind_eq, bind_map_eq]
      rfl
    · rename_i notMark notKey notType notName same
      obtain ⟨rfl, rfl⟩ := List.cons.inj same
      rw [readParamParts]
      · exact rest
      all_goals assumption

end

/-! ## Texts -/

/-- A text is read in a scope as it is read without one, and then the names of the scope are
bound. -/
theorem readType_eq_bind (buffer : Buffer) (range : Range) (scope : List String) :
    readType buffer range scope = (readType buffer range []).map (Ty.bind scope) := by
  have meaning_eq (tree : ParseTree) :
      (do readTypeTree scope (← needTree tree .typeExpr)) =
        (do readTypeTree [] (← needTree tree .typeExpr)).map (Ty.bind scope) := by
    rw [bind_map_eq]
    exact congrArg _ (funext (readTypeTree_eq_bind scope))
  unfold readType readRange
  cases Excerpt.ofRange buffer range with
  | error error => rfl
  | ok excerpt =>
      show excerpt.read _ _ = (excerpt.read _ _).map _
      unfold Excerpt.read
      cases parse .wholeType excerpt.text with
      | error stop => rfl
      | ok tree =>
          dsimp only
          rw [meaning_eq, mapError_map]

/-- A scope may be bound while a text is read or afterwards: a text is read in a scope exactly as
it is read without one, with the same error if there is one, and with the names of the scope bound
in what is read. Scopes may be bound one after the other or all at once. -/
theorem readType_bind_before_or_after (buffer : Buffer) (range : Range) (scope : List String) :
    readType buffer range scope = (readType buffer range []).map (Ty.bind scope) ∧
      ∀ (outer own : List String) (type : Ty),
        (type.bind outer).bind own = type.bind (outer ++ own) :=
  ⟨readType_eq_bind buffer range scope, fun _ _ => Ty.bind_bind⟩

/-- A text means the same without the names further out exactly if none of them is a variable in it
that is not of the scope itself. -/
theorem readType_right_iff {buffer : Buffer} {outer own : List String} {type : Ty}
    (read : readType buffer buffer.all (outer ++ own) = .ok type) :
    readType buffer buffer.all own = .ok type ↔
      ∀ name ∈ type.vars, name ∈ outer → name ∈ own := by
  constructor
  · exact fun alone => (settled_readType read).right_iff.1 (settled_readType alone)
  · intro inner
    rw [readType_eq_bind] at read ⊢
    cases plain : readType buffer buffer.all [] with
    | error error =>
        rw [plain] at read
        cases read
    | ok found =>
        rw [plain] at read
        obtain rfl := Except.ok.inj read
        exact congrArg Except.ok (Ty.bind_append_eq inner).symm

end Signet

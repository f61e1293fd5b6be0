import Signet.Proofs.Reading.MethodTypes
import Signet.Proofs.Reading.Parameters
import Signet.Proofs.Type.Scopes

/-!
# Scopes of what is read

What is read in a scope is settled in it: each name of the scope is taken for a variable and nothing
else is. Inside a declaration this is the scope of all declarations around it together with its own
type parameters (`settled_readDeclarations`).
-/

namespace Signet

open Grammar

variable {scope : List String} {tree : ParseTree} {trees : List ParseTree}

/-! ## Types -/

theorem settled_readAtom {type : Ty} (read : readAtom tree = .ok type) : type.Settled scope := by
  unfold readAtom at read
  split at read
  · split at read
    · obtain rfl := Except.ok.inj read
      exact Ty.settled_of_parts nofun nofun nofun
    · cases read
  · obtain rfl := Except.ok.inj read
    exact Ty.settled_of_parts nofun nofun nofun
  · obtain rfl := Except.ok.inj read
    exact Ty.settled_of_parts nofun nofun nofun
  · unfold readInteger at read
    dsimp only at read
    split at read
    · obtain rfl := Except.ok.inj read
      exact Ty.settled_of_parts nofun nofun nofun
    · cases read
  · obtain rfl := Except.ok.inj read
    exact Ty.settled_of_parts nofun nofun nofun
  · cases read

theorem settled_applyName (kind : NameKind) (name : TypeName) {args : List Ty}
    (settled : ∀ arg ∈ args, arg.Settled scope) :
    (applyName scope kind name args).Settled scope := by
  unfold applyName
  rcases Ty.bindLayer_cases scope (.named kind name args) with
    ⟨free, kept⟩ | ⟨name, -, -, member, put⟩
  · rw [kept]
    exact Ty.settled_mk.2 ⟨nofun, free, settled⟩
  · rw [put]
    exact Ty.settled_var.2 member

theorem settled_combine {whole : List Ty → Layer Ty} {types : List Ty}
    (isWhole : whole = .union ∨ whole = .intersection)
    (settled : ∀ type ∈ types, type.Settled scope) : (combine whole types).Settled scope := by
  unfold combine
  split
  · exact settled _ List.mem_cons_self
  · rcases isWhole with rfl | rfl
    · exact Ty.settled_of_parts nofun nofun settled
    · exact Ty.settled_of_parts nofun nofun settled

theorem settled_markOptional {type : Ty} (settled : type.Settled scope) (marks : List ParseTree) :
    (markOptional type marks).Settled scope := by
  unfold markOptional
  induction marks generalizing type with
  | nil => exact settled
  | cons mark marks ih =>
      refine ih (Ty.settled_of_parts nofun nofun fun part member => ?_)
      obtain rfl := List.mem_singleton.1 member
      exact settled

/-- All types of a function are settled. -/
def Function.Settled (scope : List String) (function : Function Ty) : Prop :=
  ∀ type ∈ function.parts, type.Settled scope

/-- What is written of a function is settled. -/
structure SignatureParts.Settled (scope : List String) (parts : SignatureParts) : Prop where
  params : ∀ type ∈ parts.params.parts, type.Settled scope
  block : ∀ block, parts.block = some block → block.function.Settled scope
  result : parts.result.Settled scope

theorem Ty.settled_untyped : Ty.untyped.Settled scope := Ty.settled_of_parts nofun nofun nofun

theorem SignatureParts.Settled.function {parts : SignatureParts} (settled : parts.Settled scope) :
    parts.function.Settled scope := by
  unfold SignatureParts.function
  split
  · intro type member
    obtain rfl := List.mem_singleton.1 member
    exact settled.result
  · intro type member
    rcases List.mem_append.1 member with member | member
    · exact settled.params type member
    · obtain rfl := List.mem_singleton.1 member
      exact settled.result

/-- A function and a block that are settled make a settled type. -/
theorem Ty.settled_proc {function : Function Ty} {block : Option (Block Ty)}
    (settled : function.Settled scope)
    (inside : ∀ given, block = some given → given.function.Settled scope) :
    Ty.Settled scope ⟨.proc function block⟩ := by
  refine Ty.settled_of_parts nofun nofun fun part member => ?_
  rcases List.mem_append.1 member with member | member
  · exact settled part member
  · cases block with
    | none => cases member
    | some given => exact inside given rfl part member

theorem SignatureParts.Settled.proc {parts : SignatureParts} (settled : parts.Settled scope) :
    Ty.Settled scope ⟨.proc parts.function parts.block⟩ :=
  Ty.settled_proc settled.function settled.block

theorem Params.settled_empty : ∀ type ∈ ({} : Params Ty).parts, type.Settled scope := by
  simp [Params.parts, Params.positionals, Params.keywords]

/-- A parameter that is added brings in its own type and no other. -/
theorem Params.settled_add {params next : Params Ty} {role : ParamRole} {parts : ParamParts}
    (added : params.Added parts role next) (settled : ∀ type ∈ params.parts, type.Settled scope)
    (here : parts.type.Settled scope) : ∀ type ∈ next.parts, type.Settled scope := by
  intro type member
  rw [Params.parts_eq_map_every] at member settled
  obtain ⟨param, inside, rfl⟩ := List.mem_map.1 member
  rcases List.mem_cons.1 (added.perm_every.mem_iff.1 inside) with rfl | inside
  · exact here
  · exact settled _ (List.mem_map_of_mem inside)

-- One statement for each function, along their common recursion on the tree.
mutual

theorem settled_readTypeTree : ∀ (tree : ParseTree) {type : Ty},
    readTypeTree scope tree = .ok type → type.Settled scope
  | ⟨rule, stretch, children⟩, type, read => by
    rw [readTypeTree.eq_def] at read
    dsimp only at read
    split at read
    · exact settled_readTypeTree _ read
    · exact settled_readTypeTree _ read
    · obtain ⟨types, inside, same⟩ := bind_eq_ok_iff.1 read
      obtain rfl := Except.ok.inj same
      exact settled_combine (.inl rfl) (settled_readTypeTrees children inside)
    · obtain ⟨types, inside, same⟩ := bind_eq_ok_iff.1 read
      obtain rfl := Except.ok.inj same
      exact settled_combine (.inr rfl) (settled_readTypeTrees children inside)
    · obtain ⟨inner, inside, same⟩ := bind_eq_ok_iff.1 read
      obtain rfl := Except.ok.inj same
      exact settled_markOptional (settled_readTypeTree _ inside) _
    · obtain ⟨types, inside, same⟩ := bind_eq_ok_iff.1 read
      obtain rfl := Except.ok.inj same
      exact Ty.settled_of_parts nofun nofun (settled_readTypeTrees children inside)
    · obtain ⟨parts, inside, same⟩ := bind_eq_ok_iff.1 read
      obtain rfl := Except.ok.inj same
      exact (settled_readSignatureTrees children inside).proc
    · rename_i _ _ _ _ args _ _ _ _ _ _ _ _
      split at read
      · obtain ⟨types, inside, same⟩ := bind_eq_ok_iff.1 read
        obtain rfl := Except.ok.inj same
        exact settled_applyName _ _ (settled_readTypeTrees args inside)
      · cases read
    · split at read
      · obtain rfl := Except.ok.inj read
        exact settled_applyName _ _ nofun
      · cases read
    · exact settled_readAtom read

theorem settled_readTypeTrees : ∀ (trees : List ParseTree) {types : List Ty},
    readTypeTrees scope trees = .ok types → ∀ type ∈ types, type.Settled scope
  | [], types, read => by
    obtain rfl := Except.ok.inj read
    exact nofun
  | tree :: trees, types, read => by
    rw [readTypeTrees] at read
    obtain ⟨type, here, read⟩ := bind_eq_ok_iff.1 read
    obtain ⟨others, later, same⟩ := bind_eq_ok_iff.1 read
    obtain rfl := Except.ok.inj same
    exact List.forall_mem_cons.2
      ⟨settled_readTypeTree tree here, settled_readTypeTrees trees later⟩

theorem settled_readSignatureTrees : ∀ (trees : List ParseTree) {parts : SignatureParts},
    readSignatureTrees scope trees = .ok parts → parts.Settled scope
  | [], parts, read => by
    rw [readSignatureTrees] at read
    obtain rfl := Except.ok.inj read
    exact ⟨Params.settled_empty, nofun, Ty.settled_untyped⟩
  | ⟨rule, stretch, children⟩ :: trees, parts, read => by
    obtain ⟨rest, later, part⟩ := readSignatureTrees_cons_eq_ok_iff.1 read
    have settled := settled_readSignatureTrees trees later
    cases part with
    | params _ means =>
        have params := settled_readParamTrees children Params.settled_empty means
        exact ⟨params, settled.2, settled.3⟩
    | untyped => exact ⟨settled.1, settled.2, settled.3⟩
    | block _ means =>
        have inside := settled_readSignatureTrees children means
        refine ⟨settled.1, fun block same => ?_, settled.3⟩
        obtain rfl := Option.some.inj same
        exact inside.function
    | result _ means => exact ⟨settled.1, settled.2, settled_readTypeTree _ means⟩
    | nothing => exact settled

theorem settled_readParamTrees : ∀ (trees : List ParseTree) {params next : Params Ty},
    (∀ type ∈ params.parts, type.Settled scope) → readParamTrees scope params trees = .ok next →
    ∀ type ∈ next.parts, type.Settled scope
  | [], params, next, settled, read => by
    obtain rfl := Except.ok.inj read
    exact settled
  | ⟨rule, stretch, children⟩ :: trees, params, next, settled, read => by
    obtain ⟨role, parts, middle, isParam, admitted, added, later⟩ :=
      readParamTrees_cons_eq_ok_iff.1 read
    have here : parts.type.Settled scope := settled_readParamParts children isParam.2
    refine settled_readParamTrees trees ?_ later
    exact Params.settled_add (Params.added_of_add admitted added) settled here

theorem settled_readParamParts : ∀ (trees : List ParseTree) {parts : ParamParts},
    readParamParts scope trees = .ok parts → parts.type.Settled scope
  | [], parts, read => by
    rw [readParamParts] at read
    obtain rfl := Except.ok.inj read
    exact Ty.settled_untyped
  | ⟨rule, stretch, children⟩ :: trees, parts, read => by
    obtain ⟨rest, later, part⟩ := readParamParts_cons_eq_ok_iff.1 read
    have settled := settled_readParamParts trees later
    cases part with
    | optional => exact settled
    | key => exact settled
    | type _ means => exact settled_readTypeTree _ means
    | name => exact settled
    | nothing => exact settled

end

/-! ## Method types -/

/-- The function and the block of a method type are settled, its own type parameters included. -/
def MethodType.Settled (scope : List String) (type : MethodType) : Prop :=
  type.body.Settled (scope ++ TypeParam.names type.typeParams)

theorem settled_readMethodType {excerpt : Excerpt} {type : MethodType}
    (read : readMethodType excerpt scope tree = .ok type) : type.Settled scope := by
  obtain ⟨typeParams, parts, -, means, rfl⟩ := readMethodType_eq_ok_iff.1 read
  exact (settled_readSignatureTrees _ means).proc

/-- What holds of each value that can be computed holds of all values of a list. -/
theorem forall_of_mapM {ε α β : Type} {f : α → Except ε β} {post : β → Prop} {items : List α}
    {values : List β} (computed : items.mapM f = .ok values)
    (each : ∀ item value, f item = .ok value → post value) : ∀ value ∈ values, post value := by
  have all := (mapM_eq_ok_iff.1 computed).imp each
  clear computed each
  induction all with
  | nil => exact nofun
  | cons here _ ih => exact List.forall_mem_cons.2 ⟨here, ih⟩

theorem settled_readMethodTypes {excerpt : Excerpt} {types : List MethodType}
    (read : readMethodTypes excerpt scope trees = .ok types) :
    ∀ type ∈ types, type.Settled scope :=
  forall_of_mapM read fun _ _ => settled_readMethodType

/-- A type that is read from a whole buffer. -/
theorem settled_readType {buffer : Buffer} {type : Ty}
    (read : readType buffer buffer.all scope = .ok type) : type.Settled scope := by
  obtain ⟨tree, -, -, means⟩ := readRange_all_eq_ok_iff.1 read
  obtain ⟨inner, -, means⟩ := bind_eq_ok_iff.1 means
  exact settled_readTypeTree inner means

/-- Overloads that are read from a whole buffer. -/
theorem settled_readOverloads {buffer : Buffer} {types : List MethodType}
    (read : readOverloads buffer buffer.all scope = .ok types) :
    ∀ type ∈ types, type.Settled scope := by
  obtain ⟨tree, -, -, means⟩ := readRange_all_eq_ok_iff.1 read
  exact settled_readMethodTypes means

/-! ## Uses -/

/-- A type that a declaration uses. Its own type parameters are those of the class or the module
right around it and those of its overload, the outer ones those of the declarations further out. -/
structure Use where
  outer : List String
  own : List String
  type : Ty

/-- The type is settled in all the type parameters around it. -/
def Use.Settled (use : Use) : Prop := use.type.Settled (use.outer ++ use.own)

/-- What an overload uses: its function and its block. -/
def MethodType.use (outer own : List String) (type : MethodType) : Use where
  outer
  own := own ++ TypeParam.names type.typeParams
  type := type.body

/-- What a superclass or a self type uses. -/
def Reference.uses (outer own : List String) (reference : Reference) : List Use :=
  reference.args.map (⟨outer, own, ·⟩)

/-- What only a class or only a module uses. -/
def Form.uses (outer own : List String) : Form → List Use
  | .ofClass superclass _ => superclass.toList.flatMap (Reference.uses outer own)
  | .ofModule selfTypes _ => selfTypes.flatMap (Reference.uses outer own)

mutual

/-- What a declaration uses, with everything in it. -/
def Declaration.uses (outer : List String) : Declaration → List Use
  | ⟨heading, members⟩ =>
    heading.form.uses outer (TypeParam.names heading.typeParams) ++
      usesAmong outer (TypeParam.names heading.typeParams) members

/-- What the members of a class or a module use. -/
def usesAmong (outer own : List String) : List Member → List Use
  | [] => []
  | .method method :: members =>
    method.overloads.map (MethodType.use outer own) ++ usesAmong outer own members
  | .mixin mixin :: members => mixin.args.map (⟨outer, own, ·⟩) ++ usesAmong outer own members
  | .attr attr :: members => ⟨outer, own, attr.type⟩ :: usesAmong outer own members
  | .nested declaration :: members =>
    declaration.uses (outer ++ own) ++ usesAmong outer own members

end

/-! ## Declarations -/

variable {excerpt : Excerpt} {outer own : List String}

theorem settled_readArgs {types : List Ty} (read : readArgs (outer ++ own) trees = .ok types) :
    ∀ use ∈ types.map (⟨outer, own, ·⟩ : Ty → Use), use.Settled := by
  rw [List.forall_mem_map]
  exact settled_readTypeTrees _ read

theorem settled_readReference {reference : Reference}
    (read : readReference excerpt (outer ++ own) tree = .ok reference) :
    ∀ use ∈ reference.uses outer own, use.Settled := by
  obtain ⟨name, -, read⟩ := bind_eq_ok_iff.1 read
  obtain ⟨args, means, same⟩ := bind_eq_ok_iff.1 read
  obtain rfl := Except.ok.inj same
  exact settled_readArgs means

theorem settled_readForm {form : Form}
    (read : readForm excerpt (outer ++ own) tree = .ok form) :
    ∀ use ∈ form.uses outer own, use.Settled := by
  unfold readForm at read
  split at read
  · obtain ⟨selfTypes, means, same⟩ := bind_eq_ok_iff.1 read
    obtain rfl := Except.ok.inj same
    have settled := forall_of_mapM means fun _ _ => settled_readReference
    intro use member
    obtain ⟨reference, inside, member⟩ := List.mem_flatMap.1 member
    exact settled reference inside use member
  · obtain ⟨superclass, means, same⟩ := bind_eq_ok_iff.1 read
    obtain rfl := Except.ok.inj same
    unfold readSuperclass at means
    split at means
    · obtain ⟨reference, inside, found⟩ := bind_eq_ok_iff.1 means
      obtain rfl := Except.ok.inj found
      simpa [Form.uses] using settled_readReference inside
    · obtain rfl := Except.ok.inj means
      exact nofun

theorem settled_readMethod {method : Method}
    (read : readMethod excerpt (outer ++ own) tree = .ok method) :
    ∀ use ∈ method.overloads.map (MethodType.use outer own), use.Settled := by
  obtain ⟨types, means, read⟩ := bind_eq_ok_iff.1 read
  obtain ⟨name, -, same⟩ := bind_eq_ok_iff.1 read
  obtain rfl := Except.ok.inj same
  have settled := settled_readMethodTypes means
  rw [List.forall_mem_map]
  intro type member
  have here := settled type member
  unfold MethodType.Settled at here
  rwa [List.append_assoc] at here

theorem settled_readMixin {mixin : Mixin}
    (read : readMixin excerpt (outer ++ own) tree = .ok mixin) :
    ∀ use ∈ mixin.args.map (⟨outer, own, ·⟩ : Ty → Use), use.Settled := by
  obtain ⟨keyword, -, read⟩ := bind_eq_ok_iff.1 read
  obtain ⟨name, -, read⟩ := bind_eq_ok_iff.1 read
  obtain ⟨args, means, same⟩ := bind_eq_ok_iff.1 read
  obtain rfl := Except.ok.inj same
  exact settled_readArgs means

theorem settled_readAttribute {attr : Attribute}
    (read : readAttribute excerpt (outer ++ own) tree = .ok attr) :
    (⟨outer, own, attr.type⟩ : Use).Settled := by
  obtain ⟨keyword, -, read⟩ := bind_eq_ok_iff.1 read
  obtain ⟨name, -, read⟩ := bind_eq_ok_iff.1 read
  obtain ⟨inner, -, read⟩ := bind_eq_ok_iff.1 read
  obtain ⟨type, means, same⟩ := bind_eq_ok_iff.1 read
  obtain rfl := Except.ok.inj same
  exact settled_readTypeTree _ means

-- Declarations and their members are read by one recursion.
mutual

theorem settled_readDeclaration : ∀ (tree : ParseTree) {outer : List String}
    {declaration : Declaration}, readDeclaration excerpt outer tree = .ok declaration →
    ∀ use ∈ declaration.uses outer, use.Settled
  | ⟨rule, stretch, children⟩, outer, declaration, read => by
    rw [readDeclaration] at read
    obtain ⟨heading, head, read⟩ := bind_eq_ok_iff.1 read
    obtain ⟨members, inside, same⟩ := bind_eq_ok_iff.1 read
    obtain rfl := Except.ok.inj same
    obtain ⟨name, -, head⟩ := bind_eq_ok_iff.1 head
    obtain ⟨typeParams, -, head⟩ := bind_eq_ok_iff.1 head
    obtain ⟨form, means, same⟩ := bind_eq_ok_iff.1 head
    obtain rfl := Except.ok.inj same
    exact List.forall_mem_append.2 ⟨settled_readForm means, settled_readMembers children inside⟩

theorem settled_readMembers : ∀ (trees : List ParseTree) {outer own : List String}
    {members : List Member}, readMembers excerpt (outer ++ own) trees = .ok members →
    ∀ use ∈ usesAmong outer own members, use.Settled
  | [], outer, own, members, read => by
    obtain rfl := Except.ok.inj read
    exact nofun
  | ⟨rule, stretch, children⟩ :: trees, outer, own, members, read => by
    rw [readMembers.eq_def] at read
    dsimp only at read
    split at read
    · obtain ⟨declaration, others, here, later, rfl⟩ := bind_cons_eq_ok_iff.1 read
      exact List.forall_mem_append.2
        ⟨settled_readDeclaration _ here, settled_readMembers trees later⟩
    · obtain ⟨declaration, others, here, later, rfl⟩ := bind_cons_eq_ok_iff.1 read
      exact List.forall_mem_append.2
        ⟨settled_readDeclaration _ here, settled_readMembers trees later⟩
    · obtain ⟨method, others, here, later, rfl⟩ := bind_cons_eq_ok_iff.1 read
      exact List.forall_mem_append.2 ⟨settled_readMethod here, settled_readMembers trees later⟩
    · obtain ⟨mixin, others, here, later, rfl⟩ := bind_cons_eq_ok_iff.1 read
      exact List.forall_mem_append.2 ⟨settled_readMixin here, settled_readMembers trees later⟩
    · obtain ⟨attr, others, here, later, rfl⟩ := bind_cons_eq_ok_iff.1 read
      exact List.forall_mem_cons.2 ⟨settled_readAttribute here, settled_readMembers trees later⟩
    · exact settled_readMembers trees read

end

/-- What the declarations of a signature document use is settled in all the type parameters
around it. -/
theorem settled_readSignature {buffer : Buffer} {declarations : List Declaration}
    (read : readSignature buffer = .ok declarations) :
    ∀ declaration ∈ declarations, ∀ use ∈ declaration.uses [], use.Settled := by
  obtain ⟨tree, -, -, means⟩ := readRange_all_eq_ok_iff.1 read
  exact forall_of_mapM means fun tree _ => settled_readDeclaration tree

end Signet

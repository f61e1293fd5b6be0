import Signet.Proofs.Reading.Places
import Signet.Proofs.Reading.Scopes
import Signet.Reading.Document

/-!
# The trees that things are read off

Whatever is read has a tree: its location marks the tree, with every part looked for and the
required ones found, and the things in it are read off trees in that tree, one after the other
(`Declaration.ReadOff`). What holds of all published locations follows from this alone.
-/

namespace Signet

open Grammar

/-- A declaration is among those in a declaration: it is the declaration itself, or it is nested in
it at any depth. -/
inductive Declaration.Among : Declaration → Declaration → Prop
  | self {declaration : Declaration} : Among declaration declaration
  | nested {inner middle outer : Declaration} : .nested middle ∈ outer.members →
      Among inner middle → Among inner outer

/-- What holds of every declaration among those in a declaration holds of itself and of those among
the nested ones. -/
theorem Declaration.forall_among_iff {heading : Heading} {members : List Member}
    {holds : Declaration → Prop} :
    (∀ inner : Declaration, inner.Among ⟨heading, members⟩ → holds inner) ↔
      holds ⟨heading, members⟩ ∧ ∀ declaration, .nested declaration ∈ members →
        ∀ inner : Declaration, inner.Among declaration → holds inner := by
  refine ⟨fun all => ⟨all _ .self, fun declaration inside inner among =>
    all inner (.nested inside among)⟩, ?_⟩
  rintro ⟨here, further⟩ inner among
  cases among with
  | self => exact here
  | nested inside among => exact further _ inside inner among

/-! ## Assigned parts -/

/-- The location has all required parts of its shape, and the optional ones were looked for. -/
structure Location.Assigned {shape : Shape} (location : Location shape) : Prop where
  required : ∀ key ∈ shape.required, ∃ range, location.required key = some range
  optional : ∀ key ∈ shape.optional, location.optional key ≠ .unset

@[simp] theorem Slot.ofOption_ne_unset (range : Option Range) : Slot.ofOption range ≠ .unset := by
  cases range <;> exact nofun

section Assigned

variable {excerpt : Excerpt} {tree keyword name finish : ParseTree}

theorem assigned_typeParamLocation (found : findTree .upperIdent tree.children = some name) :
    (typeParamLocation excerpt tree).Assigned := by
  constructor <;>
    simp [typeParamLocation, Excerpt.recordTree, Excerpt.recordTree?, found, Shape.required,
      Shape.optional, Location.record, Location.recordOptional]

theorem assigned_methodLocation (keyed : findTree .defKeyword tree.children = some keyword)
    (named : findTree .methodName tree.children = some name) :
    (methodLocation excerpt tree).Assigned := by
  constructor <;>
    simp [methodLocation, Excerpt.recordTree, Excerpt.recordTree?, keyed, named, Shape.required,
      Shape.optional, Location.record, Location.recordOptional]

theorem assigned_mixinLocation : (mixinLocation excerpt tree name).Assigned := by
  constructor <;>
    simp [mixinLocation, Excerpt.recordTree?, Shape.required, Shape.optional, Location.record,
      Location.recordOptional]

theorem assigned_attributeLocation (keyed : findTree .attributeKind tree.children = some keyword)
    (named : findTree .attributeName tree.children = some name) :
    (attributeLocation excerpt tree).Assigned := by
  constructor <;>
    simp [attributeLocation, Excerpt.recordTree, Excerpt.recordTree?, keyed, named, Shape.required,
      Shape.optional, Location.record, Location.recordOptional]

theorem assigned_classLocation (keyed : findTree .classKeyword tree.children = some keyword)
    (named : findTree .className tree.children = some name)
    (ended : findTree .endKeyword tree.children = some finish) :
    (classLocation excerpt tree).Assigned := by
  constructor <;>
    simp [classLocation, Excerpt.recordTree, Excerpt.recordTree?, keyed, named, ended,
      Shape.required, Shape.optional, Location.record, Location.recordOptional]

theorem assigned_moduleLocation (keyed : findTree .moduleKeyword tree.children = some keyword)
    (named : findTree .className tree.children = some name)
    (ended : findTree .endKeyword tree.children = some finish) :
    (moduleLocation excerpt tree).Assigned := by
  constructor <;>
    simp [moduleLocation, Excerpt.recordTree, Excerpt.recordTree?, keyed, named, ended,
      Shape.required, Shape.optional, Location.record, Location.recordOptional]

end Assigned

/-! ## Origins -/

/-- The items come from trees in a tree, one after the other. -/
def Grammar.ParseTree.Lists {α : Type} (tree : ParseTree) (origin : α → ParseTree → Prop)
    (items : List α) : Prop :=
  ∃ trees, (∀ inner ∈ trees, tree.Contains inner) ∧
    trees.Pairwise (fun one two => one.start + one.text.length ≤ two.start) ∧
      List.Forall₂ (fun inner item => origin item inner) trees items

/-- Each item that a tree lists has a tree in it. -/
theorem Grammar.ParseTree.Lists.exists_origin {α : Type} {tree : ParseTree}
    {origin : α → ParseTree → Prop} {items : List α} (lists : tree.Lists origin items) :
    ∀ item ∈ items, ∃ inner, tree.Contains inner ∧ origin item inner := by
  obtain ⟨trees, inside, -, all⟩ := lists
  intro item member
  obtain ⟨inner, listed, here⟩ := exists_of_forall₂ all item member
  exact ⟨inner, inside inner listed, here⟩

/-- A location of a tree that has its parts. -/
structure Location.Drawn {shape : Shape} (location : Location shape) (excerpt : Excerpt)
    (tree : ParseTree) : Prop where
  least : 0 < tree.rule.least
  marks : excerpt.Marks tree location
  assigned : location.Assigned

/-- A type parameter and its tree. -/
def TypeParam.ReadOff (excerpt : Excerpt) (param : TypeParam) (tree : ParseTree) : Prop :=
  ∃ location, param.location = some location ∧ location.Drawn excerpt tree

/-- An overload and its tree. -/
structure MethodType.ReadOff (excerpt : Excerpt) (type : MethodType) (tree : ParseTree) :
    Prop where
  least : 0 < tree.rule.least
  location : type.location = some (excerpt.location tree)
  typeParams : tree.Lists (TypeParam.ReadOff excerpt) type.typeParams

/-- A superclass or a self type, somewhere in a tree. -/
structure Reference.ReadOff (excerpt : Excerpt) (reference : Reference) (tree : ParseTree) :
    Prop where
  buffer_eq : reference.location.buffer = excerpt.buffer
  spans : excerpt.Spans tree reference.location.range

/-- What only a class or only a module has, and its tree. -/
def Form.ReadOff (excerpt : Excerpt) (tree : ParseTree) : Form → Prop
  | .ofClass superclass location =>
    location.Drawn excerpt tree ∧ ∀ reference ∈ superclass, reference.ReadOff excerpt tree
  | .ofModule selfTypes location =>
    location.Drawn excerpt tree ∧ ∀ reference ∈ selfTypes, reference.ReadOff excerpt tree

/-- A heading and the tree of its declaration. -/
structure Heading.ReadOff (excerpt : Excerpt) (heading : Heading) (tree : ParseTree) : Prop where
  form : heading.form.ReadOff excerpt tree
  typeParams : tree.Lists (TypeParam.ReadOff excerpt) heading.typeParams

/-- A member and its tree. Of a nested declaration only the heading counts here. -/
def Member.ReadOff (excerpt : Excerpt) : Member → ParseTree → Prop
  | .method definition, tree =>
    definition.location.Drawn excerpt tree ∧
      tree.Lists (MethodType.ReadOff excerpt) definition.overloads
  | .mixin inclusion, tree => inclusion.location.Drawn excerpt tree
  | .attr accessor, tree => accessor.location.Drawn excerpt tree
  | .nested declaration, tree => declaration.heading.ReadOff excerpt tree

/-- A declaration and its tree. -/
structure Declaration.ReadOff (excerpt : Excerpt) (declaration : Declaration) (tree : ParseTree) :
    Prop where
  heading : declaration.heading.ReadOff excerpt tree
  members : tree.Lists (Member.ReadOff excerpt) declaration.members

/-! ## Reading -/

variable {excerpt : Excerpt} {scope : List String} {tokens : List Range} {cursor next : Cursor}
  {tree : ParseTree} {trees : List ParseTree}

/-- What is computed from each of some trees lists what each is computed to. -/
theorem lists_of_mapM {α : Type} {read : ParseTree → Except Fault α} {origin : α → ParseTree → Prop}
    {items : List α} (means : trees.mapM read = .ok items)
    (inside : ∀ inner ∈ trees, tree.Contains inner)
    (apart : trees.Pairwise fun one two => one.start + one.text.length ≤ two.start)
    (each : ∀ inner ∈ trees, ∀ item, read inner = .ok item → origin item inner) :
    tree.Lists origin items := by
  have all := (List.forall₂_and_left _ _).2 ⟨fun _ => id, mapM_eq_ok_iff.1 means⟩
  exact ⟨trees, inside, apart, all.imp fun inner item both => each inner both.1 item both.2⟩

/-- The trees under the first tree of a rule do not overlap. -/
theorem pairwise_childrenOf (part : Part cursor tokens next tree) (rule : Rule) :
    (childrenOf rule tree.children).Pairwise fun one two =>
      one.start + one.text.length ≤ two.start := by
  unfold childrenOf
  cases found : findTree rule tree.children with
  | none => exact .nil
  | some inner => exact (part.child inner (exists_of_findTree found).1).children_pairwise

theorem readOff_readTypeParam {param : TypeParam} (rule : tree.rule = .typeParam)
    (read : readTypeParam excerpt scope tree = .ok param) : param.ReadOff excerpt tree := by
  obtain ⟨name, named, read⟩ := bind_eq_ok_iff.1 read
  obtain ⟨upperBound, -, read⟩ := bind_eq_ok_iff.1 read
  obtain ⟨default, -, same⟩ := bind_eq_ok_iff.1 read
  obtain rfl := Except.ok.inj same
  exact ⟨_, rfl, rule ▸ (by decide), excerpt.marks_typeParamLocation tree,
    assigned_typeParamLocation (findTree_of_needTree named)⟩

/-- Type parameters are read off trees of their rule. -/
theorem lists_readTypeParams {params : List TypeParam}
    (read : readTypeParams excerpt scope trees = .ok params)
    (inside : ∀ inner ∈ trees, tree.Contains inner)
    (apart : trees.Pairwise fun one two => one.start + one.text.length ≤ two.start) :
    tree.Lists (TypeParam.ReadOff excerpt) params := by
  refine lists_of_mapM read (fun inner member => inside inner (List.mem_of_mem_filter member))
    (apart.filter _) fun inner member param => readOff_readTypeParam ?_
  simpa using (List.mem_filter.1 member).2

theorem readOff_readMethodType {type : MethodType} (rule : tree.rule = .methodType)
    (part : Part cursor tokens next tree)
    (read : readMethodType excerpt scope tree = .ok type) : type.ReadOff excerpt tree := by
  obtain ⟨typeParams, parts, means, -, rfl⟩ := readMethodType_eq_ok_iff.1 read
  refine ⟨rule ▸ (by decide), rfl, ?_⟩
  exact lists_readTypeParams means (fun _ => contains_of_childrenOf) (pairwise_childrenOf part _)

/-- Overloads are read off trees of their rule. -/
theorem lists_readMethodTypes {types : List MethodType} (part : Part cursor tokens next tree)
    (read : readMethodTypes excerpt scope trees = .ok types)
    (inside : ∀ inner ∈ trees, tree.Contains inner)
    (apart : trees.Pairwise fun one two => one.start + one.text.length ≤ two.start) :
    tree.Lists (MethodType.ReadOff excerpt) types := by
  refine lists_of_mapM read (fun inner member => inside inner (List.mem_of_mem_filter member))
    (apart.filter _) fun inner member type => readOff_readMethodType ?_
      ((inside inner (List.mem_of_mem_filter member)).part part)
  simpa using (List.mem_filter.1 member).2

/-- A reference is read off its tree: it begins with its name and ends with the tree. -/
theorem readOff_readReference {whole : ParseTree} {reference : Reference}
    (contains : whole.Contains tree) (least : 0 < tree.rule.least)
    (read : readReference excerpt scope tree = .ok reference) :
    reference.ReadOff excerpt whole := by
  obtain ⟨name, named, read⟩ := bind_eq_ok_iff.1 read
  obtain ⟨args, -, same⟩ := bind_eq_ok_iff.1 read
  obtain rfl := Except.ok.inj same
  obtain ⟨member, nameLeast⟩ := Excerpt.needName_eq_ok named
  exact ⟨rfl, name, tree, contains.trans (.of_mem member), contains, nameLeast, least,
    .inl (.of_mem member), rfl⟩

theorem readOff_readSuperclass {superclass : Option Reference}
    (read : readSuperclass excerpt scope tree.children = .ok superclass) :
    ∀ reference ∈ superclass, reference.ReadOff excerpt tree := by
  intro reference written
  unfold readSuperclass at read
  split at read
  · rename_i inner found
    obtain ⟨other, means, same⟩ := bind_eq_ok_iff.1 read
    obtain rfl := Option.some.inj ((Except.ok.inj same).trans written)
    obtain ⟨member, innerRule⟩ := exists_of_findTree found
    exact readOff_readReference (.of_mem member) (innerRule ▸ (by decide)) means
  · obtain rfl := Except.ok.inj read
    cases written

theorem readOff_readSelfTypes {selfTypes : List Reference} (part : Part cursor tokens next tree)
    (read : (selfTypeTrees tree.children).mapM (readReference excerpt scope) = .ok selfTypes) :
    ∀ reference ∈ selfTypes, reference.ReadOff excerpt tree := by
  have listed : tree.Lists (fun reference _ => reference.ReadOff excerpt tree) selfTypes := by
    refine lists_of_mapM read (fun inner member => (Excerpt.mem_selfTypeTrees member).1)
      (Excerpt.selfTypeTrees_pairwise part) fun inner member reference => ?_
    obtain ⟨contains, innerRule⟩ := Excerpt.mem_selfTypeTrees member
    exact readOff_readReference contains (innerRule ▸ (by decide))
  intro reference member
  obtain ⟨_, -, readOff⟩ := listed.exists_origin reference member
  exact readOff

/-- A part has a first tree of each rule that its own rule needs. -/
theorem exists_findTree_of_needs (part : Part cursor tokens next tree) (rule : Rule)
    (needed : rule ∈ tree.rule.needs) : ∃ inner, findTree rule tree.children = some inner :=
  exists_findTree (part.exists_child rule needed)

theorem readOff_readForm {form : Form} {name : ParseTree}
    (rule : tree.rule = .classDecl ∨ tree.rule = .moduleDecl) (part : Part cursor tokens next tree)
    (named : findTree .className tree.children = some name)
    (read : readForm excerpt scope tree = .ok form) : form.ReadOff excerpt tree := by
  rcases rule with rule | rule
  · rw [readForm, rule] at read
    obtain ⟨superclass, means, same⟩ := bind_eq_ok_iff.1 read
    obtain rfl := Except.ok.inj same
    have needed : [.classKeyword, .endKeyword] ⊆ tree.rule.needs := rule ▸ (by decide)
    obtain ⟨keyword, keyed⟩ := exists_findTree_of_needs part .classKeyword (needed (by simp))
    obtain ⟨finish, ended⟩ := exists_findTree_of_needs part .endKeyword (needed (by simp))
    exact ⟨⟨rule ▸ (by decide), excerpt.marks_classLocation tree,
      assigned_classLocation keyed named ended⟩, readOff_readSuperclass means⟩
  · rw [readForm, rule] at read
    obtain ⟨selfTypes, means, same⟩ := bind_eq_ok_iff.1 read
    obtain rfl := Except.ok.inj same
    have needed : [.moduleKeyword, .endKeyword] ⊆ tree.rule.needs := rule ▸ (by decide)
    obtain ⟨keyword, keyed⟩ := exists_findTree_of_needs part .moduleKeyword (needed (by simp))
    obtain ⟨finish, ended⟩ := exists_findTree_of_needs part .endKeyword (needed (by simp))
    exact ⟨⟨rule ▸ (by decide), excerpt.marks_moduleLocation part,
      assigned_moduleLocation keyed named ended⟩, readOff_readSelfTypes part means⟩

theorem readOff_readHeading {heading : Heading}
    (rule : tree.rule = .classDecl ∨ tree.rule = .moduleDecl) (part : Part cursor tokens next tree)
    (read : readHeading excerpt scope tree = .ok heading) : heading.ReadOff excerpt tree := by
  obtain ⟨name, named, read⟩ := bind_eq_ok_iff.1 read
  obtain ⟨typeParams, means, read⟩ := bind_eq_ok_iff.1 read
  obtain ⟨form, formed, same⟩ := bind_eq_ok_iff.1 read
  obtain rfl := Except.ok.inj same
  exact ⟨readOff_readForm rule part (findTree_of_needTree named) formed,
    lists_readTypeParams means (fun _ => contains_of_childrenOf) (pairwise_childrenOf part _)⟩

/-! ## Members -/

/-- The tree means a member. -/
def isMemberTree (tree : ParseTree) : Bool :=
  tree.rule = .classDecl || tree.rule = .moduleDecl || tree.rule = .methodMember ||
    tree.rule = .mixinMember || tree.rule = .attributeMember

/-- What a tree means as a member. -/
inductive MeansMember (excerpt : Excerpt) (scope : List String) (tree : ParseTree) : Member → Prop
  | method {definition : Method} : tree.rule = .methodMember →
      readMethod excerpt scope tree = .ok definition →
      MeansMember excerpt scope tree (.method definition)
  | mixin {inclusion : Mixin} : tree.rule = .mixinMember →
      readMixin excerpt scope tree = .ok inclusion →
      MeansMember excerpt scope tree (.mixin inclusion)
  | attr {accessor : Attribute} : tree.rule = .attributeMember →
      readAttribute excerpt scope tree = .ok accessor →
      MeansMember excerpt scope tree (.attr accessor)
  | nested {declaration : Declaration} : tree.rule = .classDecl ∨ tree.rule = .moduleDecl →
      readDeclaration excerpt scope tree = .ok declaration →
      MeansMember excerpt scope tree (.nested declaration)

/-- Among some trees those of members are read, in order. -/
theorem forall₂_readMembers {members : List Member}
    (read : readMembers excerpt scope trees = .ok members) :
    List.Forall₂ (MeansMember excerpt scope) (trees.filter isMemberTree) members := by
  induction trees generalizing members with
  | nil =>
      obtain rfl := Except.ok.inj read
      exact .nil
  | cons tree trees ih =>
      obtain ⟨rule, stretch, children⟩ := tree
      rw [readMembers.eq_def] at read
      dsimp only at read
      -- one case for each rule of a member, and one for all others, which are passed over
      split at read
      · obtain ⟨declaration, others, here, later, rfl⟩ := bind_cons_eq_ok_iff.1 read
        exact .cons (.nested (.inl rfl) here) (ih later)
      · obtain ⟨declaration, others, here, later, rfl⟩ := bind_cons_eq_ok_iff.1 read
        exact .cons (.nested (.inr rfl) here) (ih later)
      · obtain ⟨definition, others, here, later, rfl⟩ := bind_cons_eq_ok_iff.1 read
        exact .cons (.method rfl here) (ih later)
      · obtain ⟨inclusion, others, here, later, rfl⟩ := bind_cons_eq_ok_iff.1 read
        exact .cons (.mixin rfl here) (ih later)
      · obtain ⟨accessor, others, here, later, rfl⟩ := bind_cons_eq_ok_iff.1 read
        exact .cons (.attr rfl here) (ih later)
      · rename_i notClass notModule notMethod notMixin notAttr
        have other : isMemberTree ⟨rule, stretch, children⟩ = false := by
          simp only [isMemberTree, ParseTree.rule]
          simp_all
        rw [List.filter_cons, other]
        exact ih read

theorem readDeclaration_eq_ok {declaration : Declaration}
    (read : readDeclaration excerpt scope tree = .ok declaration) :
    readHeading excerpt scope tree = .ok declaration.heading ∧
      readMembers excerpt (scope ++ TypeParam.names declaration.typeParams) tree.children =
        .ok declaration.members := by
  obtain ⟨rule, stretch, children⟩ := tree
  rw [readDeclaration] at read
  obtain ⟨heading, headed, read⟩ := bind_eq_ok_iff.1 read
  obtain ⟨members, means, same⟩ := bind_eq_ok_iff.1 read
  obtain rfl := Except.ok.inj same
  exact ⟨headed, means⟩

theorem readOff_readMethod {definition : Method} (rule : tree.rule = .methodMember)
    (part : Part cursor tokens next tree)
    (read : readMethod excerpt scope tree = .ok definition) :
    definition.location.Drawn excerpt tree ∧
      tree.Lists (MethodType.ReadOff excerpt) definition.overloads := by
  obtain ⟨types, means, read⟩ := bind_eq_ok_iff.1 read
  obtain ⟨name, named, same⟩ := bind_eq_ok_iff.1 read
  obtain rfl := Except.ok.inj same
  have needed : .defKeyword ∈ tree.rule.needs := rule ▸ (by decide)
  obtain ⟨keyword, keyed⟩ := exists_findTree_of_needs part _ needed
  exact ⟨⟨rule ▸ (by decide), excerpt.marks_methodLocation tree,
      assigned_methodLocation keyed (findTree_of_needTree named)⟩,
    lists_readMethodTypes part means (fun _ => contains_of_childrenOf) (pairwise_childrenOf part _)⟩

theorem drawn_readMixin {inclusion : Mixin} (rule : tree.rule = .mixinMember)
    (read : readMixin excerpt scope tree = .ok inclusion) :
    inclusion.location.Drawn excerpt tree := by
  obtain ⟨keyword, -, read⟩ := bind_eq_ok_iff.1 read
  obtain ⟨name, named, read⟩ := bind_eq_ok_iff.1 read
  obtain ⟨args, -, same⟩ := bind_eq_ok_iff.1 read
  obtain rfl := Except.ok.inj same
  exact ⟨rule ▸ (by decide), excerpt.marks_mixinLocation named, assigned_mixinLocation⟩

theorem drawn_readAttribute {accessor : Attribute} (rule : tree.rule = .attributeMember)
    (read : readAttribute excerpt scope tree = .ok accessor) :
    accessor.location.Drawn excerpt tree := by
  obtain ⟨keyword, keyed, read⟩ := bind_eq_ok_iff.1 read
  obtain ⟨name, named, read⟩ := bind_eq_ok_iff.1 read
  obtain ⟨inner, -, read⟩ := bind_eq_ok_iff.1 read
  obtain ⟨type, -, same⟩ := bind_eq_ok_iff.1 read
  obtain rfl := Except.ok.inj same
  exact ⟨rule ▸ (by decide), excerpt.marks_attributeLocation tree,
    assigned_attributeLocation (findTree_of_needTree keyed) (findTree_of_needTree named)⟩

theorem MeansMember.readOff {member : Member} (means : MeansMember excerpt scope tree member)
    (part : Part cursor tokens next tree) : member.ReadOff excerpt tree := by
  cases means with
  | method rule read => exact readOff_readMethod rule part read
  | mixin rule read => exact drawn_readMixin rule read
  | attr rule read => exact drawn_readAttribute rule read
  | nested rule read => exact readOff_readHeading rule part (readDeclaration_eq_ok read).1

/-! ## Declarations -/

theorem readOff_readDeclaration {declaration : Declaration}
    (rule : tree.rule = .classDecl ∨ tree.rule = .moduleDecl) (part : Part cursor tokens next tree)
    (read : readDeclaration excerpt scope tree = .ok declaration) :
    declaration.ReadOff excerpt tree := by
  obtain ⟨headed, means⟩ := readDeclaration_eq_ok read
  refine ⟨readOff_readHeading rule part headed, tree.children.filter isMemberTree,
    fun inner member => .of_mem (List.mem_of_mem_filter member), part.children_pairwise.filter _,
    ?_⟩
  have parts : ∀ inner ∈ tree.children.filter isMemberTree, Part cursor tokens next inner :=
    fun inner member => part.child inner (List.mem_of_mem_filter member)
  exact ((List.forall₂_and_left _ _).2 ⟨parts, forall₂_readMembers means⟩).imp
    fun _ _ both => both.2.readOff both.1

/-- Each declaration in a declaration was read off a tree in its tree. -/
theorem Declaration.Among.exists_readOff {inner declaration : Declaration}
    (among : inner.Among declaration) (rule : tree.rule = .classDecl ∨ tree.rule = .moduleDecl)
    (part : Part cursor tokens next tree)
    (read : readDeclaration excerpt scope tree = .ok declaration) :
    ∃ origin, tree.Contains origin ∧ inner.ReadOff excerpt origin := by
  -- the scope is generalized too: inside a declaration its type parameters are added
  induction among generalizing tree scope with
  | self => exact ⟨tree, .refl, readOff_readDeclaration rule part read⟩
  | nested member _ ih =>
      obtain ⟨-, means⟩ := readDeclaration_eq_ok read
      have listed : tree.Lists
          (fun member tree => tree.Contains tree ∧ MeansMember excerpt _ tree member) _ :=
        ⟨_, fun inner inside => .of_mem (List.mem_of_mem_filter inside),
          part.children_pairwise.filter _, (forall₂_readMembers means).imp fun _ _ => .intro .refl⟩
      obtain ⟨middle, contains, -, means⟩ := listed.exists_origin _ member
      cases means with
      | nested rule read =>
          obtain ⟨origin, further, readOff⟩ := ih rule (contains.part part) read
          exact ⟨origin, contains.trans further, readOff⟩

/-- A declaration, and each of those in it, and the tree of the outer one. -/
structure Declaration.ReadThroughout (excerpt : Excerpt) (declaration : Declaration)
    (tree : ParseTree) : Prop where
  readOff : declaration.ReadOff excerpt tree
  among : ∀ inner : Declaration, inner.Among declaration →
    ∃ origin, tree.Contains origin ∧ inner.ReadOff excerpt origin

/-- The declarations of a document are read off trees in its tree. -/
theorem lists_readDeclarations {declarations : List Declaration}
    (part : Part cursor tokens next tree)
    (read : readDeclarations excerpt tree.children = .ok declarations) :
    tree.Lists (Declaration.ReadThroughout excerpt) declarations := by
  refine lists_of_mapM read (fun inner member => .of_mem (List.mem_of_mem_filter member))
    (part.children_pairwise.filter _) fun inner member declaration read => ?_
  have inside := part.child inner (List.mem_of_mem_filter member)
  have rule : inner.rule = .classDecl ∨ inner.rule = .moduleDecl := by
    simpa using (List.mem_filter.1 member).2
  exact ⟨readOff_readDeclaration rule inside read,
    fun other among => among.exists_readOff rule inside read⟩

/-! ## Whole texts -/

/-- What is read from a range of a buffer is the meaning of the tree that its text is parsed as. -/
theorem exists_of_readRange {α : Type} {rule : Rule} {buffer : Buffer} {range : Range}
    {meaning : Excerpt → ParseTree → Except Fault α} {value : α}
    (read : readRange rule buffer range meaning = .ok value) :
    ∃ excerpt tree, Excerpt.ofRange buffer range = .ok excerpt ∧
      parse rule excerpt.text = .ok tree ∧ meaning excerpt tree = .ok value := by
  unfold readRange at read
  split at read
  · cases read
  · rename_i excerpt opened
    unfold Excerpt.read at read
    split at read
    · cases read
    · rename_i tree parsed
      cases means : meaning excerpt tree with
      | ok other =>
          rw [means] at read
          obtain rfl : other = value := Except.ok.inj read
          exact ⟨excerpt, tree, opened, parsed, means⟩
      | error fault =>
          rw [means] at read
          cases read

/-- The excerpt of a range lies in the buffer where the range starts. -/
theorem Excerpt.lies_ofRange {buffer : Buffer} {range : Range} {excerpt : Excerpt}
    (opened : Excerpt.ofRange buffer range = .ok excerpt) :
    excerpt.buffer = buffer ∧ excerpt.base = range.start ∧
      excerpt.text = buffer.content.extract range.start range.stop ∧ excerpt.Lies := by
  obtain ⟨text, sliced, same⟩ := bind_eq_ok_iff.1 opened
  obtain rfl := Except.ok.inj same
  obtain ⟨fits, rfl⟩ := (buffer.slice_eq_ok_iff range text).1 sliced
  obtain ⟨ordered, stop⟩ := (range.fits_iff _).1 fits
  have length : (buffer.content.extract range.start range.stop).length =
      range.stop - range.start := by
    rw [List.extract_eq_take_drop, List.length_take, List.length_drop]
    exact Nat.min_eq_left (Nat.sub_le_sub_right stop _)
  refine ⟨rfl, rfl, rfl, ?_, ?_⟩
  · show range.start + (buffer.content.extract range.start range.stop).length ≤ buffer.length
    omega
  · show (buffer.content.drop range.start).take _ = _
    rw [length, List.extract_eq_take_drop]

/-- A text that was parsed has a derivation. -/
theorem exists_derives_of_parse {rule : Rule} {text : List Char}
    (parsed : parse rule text = .ok tree) :
    ∃ tokens last, Derives (.call rule) ⟨0, text⟩ [tree] tokens last := by
  obtain ⟨last, read⟩ := parse_eq_ok_iff.1 parsed
  obtain ⟨tokens, derives⟩ := Rule.exists_derives read
  exact ⟨tokens, last, derives⟩

/-- What is read from a range of a buffer comes from a tree of the text there. -/
theorem exists_part_of_readRange {α : Type} {rule : Rule} {buffer : Buffer} {range : Range}
    {meaning : Excerpt → ParseTree → Except Fault α} {value : α}
    (read : readRange rule buffer range meaning = .ok value) :
    ∃ excerpt tree tokens next, excerpt.buffer = buffer ∧ excerpt.Lies ∧
      Part ⟨0, excerpt.text⟩ tokens next tree ∧ meaning excerpt tree = .ok value := by
  obtain ⟨excerpt, tree, opened, parsed, means⟩ := exists_of_readRange read
  obtain ⟨buffer_eq, -, -, lies⟩ := Excerpt.lies_ofRange opened
  obtain ⟨tokens, last, derives⟩ := exists_derives_of_parse parsed
  exact ⟨excerpt, tree, tokens, last, buffer_eq, lies, .whole derives, means⟩

end Signet

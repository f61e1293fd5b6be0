import Signet.Proofs.Reading.Generics

/-!
# Reading what was printed

For method types without literals and without nested unions or intersections, reading the printed
text gives the method type back exactly if no function, block or method in it returns a union or an
intersection (`MethodType.ofString_print_iff`): a result is printed without parentheses, and what is
read as a result is a single type. Where parentheses are missing, counting them shows that the text
cannot be read as the same type.
-/

namespace Signet

open Text Grammar Phrase

/-! ## Method types that say the same -/

/-- Two type parameters say the same, wherever they are. -/
def TypeParam.same (param other : TypeParam) : Bool :=
  param.name = other.name && param.variance = other.variance
    && Ty.sameOption param.upperBound other.upperBound && Ty.sameOption param.default other.default
    && param.unchecked = other.unchecked

/-- Two method types say the same, wherever they are. -/
def MethodType.same (type other : MethodType) : Bool :=
  listAll₂ TypeParam.same type.typeParams other.typeParams && type.body.same other.body

theorem Ty.same_refl {type : Ty} (keyed : type.Keyed) : type.same type = true :=
  (same_iff keyed type).2 rfl

theorem Ty.sameOption_refl {option : Option Ty} (keyed : ∀ type ∈ option.toList, type.Keyed) :
    sameOption option option = true := by
  cases option with
  | none => rfl
  | some type => exact same_refl (keyed type List.mem_cons_self)

/-- What the keyword parameters need does not depend on their order. -/
theorem Ty.needed_eq_of_same {type other : Ty} (keyed : type.Keyed)
    (same : type.same other = true) : type.needed = other.needed := by
  have needed : ∀ type : Ty, type.sorted.needed = type.needed := fun type => by
    rw [Ty.needed, Ty.opened, Ty.missing, total_sorted Layer.opened_sorted_map,
      total_sorted Layer.missing_sorted_map]
    rfl
  rw [← needed type, ← needed other, (same_iff keyed other).1 same]

theorem Ty.needed_eq_of_sameOption {option other : Option Ty}
    (keyed : ∀ type ∈ option.toList, type.Keyed) (same : sameOption option other = true) :
    (option.toList.map needed).sum = (other.toList.map needed).sum := by
  cases option with
  | none =>
      cases other with
      | none => rfl
      | some _ => cases same
  | some type =>
      cases other with
      | none => cases same
      | some other =>
          have := needed_eq_of_same (keyed type List.mem_cons_self) same
          simpa using this

theorem TypeParam.needed_eq_of_same {params others : List TypeParam}
    (keyed : ∀ param ∈ params, ∀ type ∈ param.types, type.Keyed)
    (same : listAll₂ TypeParam.same params others = true) :
    ((params.flatMap types).map Ty.needed).sum = ((others.flatMap types).map Ty.needed).sum := by
  induction params generalizing others with
  | nil =>
      cases others with
      | nil => rfl
      | cons _ _ => cases same
  | cons param params ih =>
      cases others with
      | nil => cases same
      | cons other others =>
          obtain ⟨here, later⟩ := List.forall_mem_cons.1 keyed
          rw [listAll₂, Bool.and_eq_true] at same
          obtain ⟨first, rest⟩ := same
          simp only [TypeParam.same, Bool.and_eq_true, decide_eq_true_eq] at first
          obtain ⟨⟨⟨-, upper⟩, default⟩, -⟩ := first
          have upper := Ty.needed_eq_of_sameOption
            (fun type member => here type (List.mem_append_left _ member)) upper
          have default := Ty.needed_eq_of_sameOption
            (fun type member => here type (List.mem_append_right _ member)) default
          simp only [List.flatMap_cons, List.map_append, List.sum_append, types, ih later rest,
            upper, default]

namespace MethodType

variable {type other : MethodType}

theorem Readable.keyed (readable : type.Readable) : type.body.Keyed ∧
    ∀ param ∈ type.typeParams, ∀ bound ∈ param.types, bound.Keyed :=
  ⟨Ty.keyed_of_readable readable.body, fun param member bound inside =>
    Ty.keyed_of_readable (readable.bounds param member bound inside)⟩

theorem needed_eq_of_same (readable : type.Readable) (same : type.same other = true) :
    type.needed = other.needed := by
  obtain ⟨body, bounds⟩ := readable.keyed
  rw [MethodType.same, Bool.and_eq_true] at same
  rw [needed_eq, needed_eq, TypeParam.needed_eq_of_same bounds same.1,
    Ty.needed_eq_of_same body same.2]

/-- Nothing is missing in a method type exactly if no result is loose. -/
theorem missing_eq_zero_iff : type.missing = 0 ↔ type.Everywhere Layer.ResultsTight := by
  rw [missing, List.sum_eq_zero_iff_forall_eq_nat, List.forall_mem_map]
  refine forall₂_congr fun part _ => ?_
  rw [Ty.missing, Ty.total_eq_zero_iff]
  exact ⟨.imp fun _ => Layer.missing_eq_zero_iff.1, .imp fun _ => Layer.missing_eq_zero_iff.2⟩

end MethodType

/-! ## Printed method types are read -/

variable {scope : List String} {excerpt : Excerpt} {rest : List Char} {type : MethodType}

theorem TypeParam.same_of_sameBut {params again : List TypeParam}
    (keyed : ∀ param ∈ params, ∀ type ∈ param.types, type.Keyed) (same : SameBut params again) :
    listAll₂ TypeParam.same params again = true := by
  induction same with
  | nil => rfl
  | @cons param other params again here _ ih =>
      obtain ⟨first, later⟩ := List.forall_mem_cons.1 keyed
      obtain ⟨location, rfl⟩ := here
      have upper := Ty.sameOption_refl fun type member => first type (List.mem_append_left _ member)
      have default := Ty.sameOption_refl fun type member =>
        first type (List.mem_append_right _ member)
      rw [listAll₂, ih later, Bool.and_true]
      simp [TypeParam.same, upper, default]

theorem TypeParam.names_eq_of_sameBut {params again : List TypeParam}
    (same : SameBut params again) : names again = names params := by
  induction same with
  | nil => rfl
  | cons here _ ih =>
      obtain ⟨location, rfl⟩ := here
      exact congrArg (List.cons _) ih

/-- The type parameters of a method type as text, with a blank after them. -/
def printGenerics (params : List TypeParam) : List Char :=
  if params.isEmpty then [] else ['['] ++ (joined comma (params.map (·.print)) ++ [']']) ++ [' ']

/-- The type parameters in front of a signature are read, if there are any. -/
theorem covers_generics (excerpt : Excerpt) {params : List TypeParam} {more : List Char}
    {good : List ParseTree → Prop}
    (upper : ∀ param ∈ params, IsUpper param.name)
    (legible : ∀ param ∈ params, ∀ type ∈ param.types, type.Legible [])
    (covers : (inOrder signature).Covers more rest good) (solid : Solid (more ++ rest))
    (opens : (more ++ rest).head? = some '(') :
    (seq (opt (call .typeParams)) (inOrder signature)).Covers (printGenerics params ++ more) rest
      fun trees => ∃ front back again, trees = front ++ back ∧ AllOf .typeParams front ∧
        readTypeParams excerpt [] (childrenOf .typeParams trees) = .ok again ∧
        SameBut params again ∧ good back := by
  cases params with
  | nil =>
      -- nothing is printed for no parameters, and the `(` behind begins no list of them
      have refuses : (call .typeParams).Refuses (more ++ rest) :=
        .ofRule rfl (.seq (refuses_mark fun head => by simp [opens] at head))
      refine (refuses.opt.covers.seq [] (covers.calls (by decide)) nofun solid).imp ?_
      rintro _ ⟨_, back, rfl, ⟨holds, rules⟩, rfl⟩
      refine ⟨[], _, [], rfl, nofun, ?_, .nil, holds⟩
      rw [childrenOf_eq_nil fun tree member same => ?_]
      · rfl
      · exact absurd (same ▸ rules tree member) (by decide)
  | cons param params =>
      have list : (call .typeParams).Covers _ ([' '] ++ (more ++ rest)) (One .typeParams fun tree =>
          ∃ again, readTypeParams excerpt [] tree.children = .ok again ∧
            SameBut (param :: params) again) :=
        covers_typeParams (List.cons_ne_nil param params) upper legible _
      rw [printGenerics, if_neg (by simp), List.append_assoc]
      refine (list.opt.seq [' '] covers (by decide) solid).imp ?_
      rintro _ ⟨_, back, ⟨tree, rfl, rule, again, read, same⟩, holds, rfl⟩
      refine ⟨[tree], back, again, rfl, ?_, ?_, same, holds⟩
      · exact fun other member => List.mem_singleton.1 member ▸ rule
      · rw [List.singleton_append, childrenOf_cons rule]
        exact read

/-- Type parameters in front of a signature are no part of it. -/
theorem readSignatureTrees_generics {front back : List ParseTree} {parts : SignatureParts}
    (all : AllOf .typeParams front) (read : readSignatureTrees scope back = .ok parts) :
    readSignatureTrees scope (front ++ back) = .ok parts := by
  induction front with
  | nil => exact read
  | cons tree front ih =>
      obtain ⟨here, later⟩ := List.forall_mem_cons.1 all
      exact readSignatureTrees_cons_eq_ok_iff.2 ⟨parts, ih later, .nothing (here ▸ by decide)⟩

namespace MethodType

theorem print_eq (type : MethodType) :
    type.print = printGenerics type.typeParams ++
      printSignature Ty.print type.function type.block := by
  rw [print, printGenerics]
  split
  · rfl
  · simp

theorem solid_print (type : MethodType) (rest : List Char) : Solid (type.print ++ rest) := by
  rw [print_eq, printGenerics]
  split
  · exact solid_printSignature _ _ rest
  · simp only [List.append_assoc, List.cons_append]
    exact solid_cons (by decide) _

/-- A printed method type is read, if no result in it runs on. -/
theorem covers_methodType (excerpt : Excerpt) (readable : type.Readable)
    (plain : type.Everywhere Layer.NotLiteral) (flat : type.Everywhere Layer.Flat)
    (tight : type.Everywhere Layer.ResultsTight) (follows : Follows singleMarks rest) :
    (call .methodType).Covers type.print rest (One .methodType fun tree =>
      ∃ again, readMethodType excerpt [] tree = .ok again ∧ type.same again = true) := by
  have inParam : ∀ param ∈ type.typeParams, ∀ bound ∈ param.types, bound ∈ type.types :=
    fun param member bound inside =>
      List.mem_cons_of_mem _ (List.mem_flatMap.2 ⟨param, member, inside⟩)
  obtain ⟨regular, parts⟩ := Ty.everywhere_mk.1 readable.body
  obtain ⟨-, plainParts⟩ := Ty.everywhere_mk.1 (plain _ List.mem_cons_self)
  obtain ⟨-, flatParts⟩ := Ty.everywhere_mk.1 (flat _ List.mem_cons_self)
  obtain ⟨tightHere, tightParts⟩ := Ty.everywhere_mk.1 (tight _ List.mem_cons_self)
  have signature := covers_signature regular
    (fun part member => Ty.legible (parts part member) (plainParts part member)
      (flatParts part member) (tightParts part member)) tightHere follows
  have opens : (printSignature Ty.print type.function type.block ++ rest).head? = some '(' := by
    rw [printSignature]
    cases type.function <;> rfl
  have whole := covers_generics excerpt readable.names
    (fun param member bound inside => Ty.legible (readable.bounds param member bound inside)
      (plain _ (inParam param member bound inside)) (flat _ (inParam param member bound inside))
      (tight _ (inParam param member bound inside))) signature (solid_printSignature _ _ _) opens
  rw [print_eq]
  refine (Covers.ofRule .methodType rfl whole).imp ?_
  rintro _ ⟨tree, rfl, rule, front, back, again, children, all, paramsRead, same, ⟨parts, partsRead,
    function, block⟩⟩
  refine ⟨tree, rfl, rule, _, readMethodType_eq_ok_iff.2 ⟨again, parts, paramsRead, ?_, rfl⟩, ?_⟩
  · rw [children, TypeParam.names_eq_of_sameBut same]
    exact readSignatureTrees_generics all partsRead
  · have keyed := readable.keyed
    rw [MethodType.same, TypeParam.same_of_sameBut keyed.2 same, Bool.true_and, MethodType.body,
      MethodType.body, function, block]
    exact Ty.same_refl keyed.1

/-- A printed method type is read again as the same one, if no result in it runs on. -/
theorem exists_ofString_print (readable : type.Readable) (plain : type.Everywhere Layer.NotLiteral)
    (flat : type.Everywhere Layer.Flat) (tight : type.Everywhere Layer.ResultsTight) :
    ∃ again, ofString (String.ofList type.print) = .ok again ∧ type.same again = true := by
  have single := covers_methodType
    ⟨.ofString "(method type)" (String.ofList type.print), 0, (String.ofList type.print).toList⟩
    readable plain flat tight .nil
  -- the one method type is all there is: no `|` follows, and the text ends
  have many : (Phrase.many (seq (mark ['|']) (call .methodType))).Misses (afterBlanks []) :=
    (Refuses.seq (refuses_mark (by decide))).many
  have finish : (call .finish).Covers [] [] _ := covers_token .finish rfl rfl
  have list : (separated (call .methodType) ['|']).Covers type.print [] _ := single.seq_misses many
  have whole := (covers_nothing _).seq [] (list.seq [] finish nofun nofun) nofun (by
    rw [List.append_assoc]
    exact type.solid_print _)
  obtain ⟨_, last, found, -, tree, rfl, -, _, _, rfl, ⟨_, _, ⟨method, rfl, rule, again, read, same⟩,
    ⟨finish, rfl, other, -⟩, rfl⟩, children⟩ := Covers.ofRule .wholeMethodTypes rfl whole 0
  refine ⟨again, ofString_eq_ok_iff.2 ⟨tree, last, ?_, ?_⟩, same⟩
  · simpa [read_call] using found
  · have kept : tree.children.filter (fun tree => tree.rule = .methodType) = [method] := by
      simp [children, rule, other]
    rw [readMethodTypes, kept]
    exact mapM_eq_ok_iff.2 (.cons read .nil)

/-- What is read back from its printed text lacks no parentheses. -/
theorem missing_eq_zero_of_ofString_print {text : String} (read : ofString text = .ok type)
    (plain : type.Everywhere Layer.NotLiteral) {again : MethodType}
    (readAgain : ofString (String.ofList type.print) = .ok again)
    (same : type.same again = true) : type.missing = 0 := by
  obtain ⟨readable, -⟩ := readable_of_ofString read
  obtain ⟨-, paid⟩ := readable_of_ofString readAgain
  have light := (light_print readable plain).opens_le
  rw [← needed_eq_of_same readable same, String.toList_ofList, needed] at paid
  omega

/-- A method type that was read, without literals and without nested unions or intersections, is
read again from its printed text exactly if none of its results lacks parentheses. -/
theorem ofString_print_iff {text : String} (read : ofString text = .ok type)
    (plain : type.Everywhere Layer.NotLiteral) (flat : type.Everywhere Layer.Flat) :
    (∃ again, ofString (String.ofList type.print) = .ok again ∧ type.same again = true) ↔
      type.Everywhere Layer.ResultsTight := by
  constructor
  · rintro ⟨again, readAgain, same⟩
    exact missing_eq_zero_iff.1 (missing_eq_zero_of_ofString_print read plain readAgain same)
  · exact exists_ofString_print (readable_of_ofString read).1 plain flat

/-- Type parameters, blocks, procs and nested parentheses are read again from their printed text. -/
theorem ofString_print_iff_nested : ∃ type,
    ofString "[T < A::B] (T a, ?k: ^(T) -> A) ?{ (T) -> B? } -> [(A & (B | C))?]" = .ok type ∧
      type.Everywhere Layer.NotLiteral ∧ type.Everywhere Layer.Flat ∧
      ∃ again, ofString (String.ofList type.print) = .ok again ∧ type.same again = true := by
  obtain ⟨type, read, plain, flat, tight⟩ : ∃ type, ofString
      "[T < A::B] (T a, ?k: ^(T) -> A) ?{ (T) -> B? } -> [(A & (B | C))?]" = .ok type ∧
        type.Everywhere Layer.NotLiteral ∧ type.Everywhere Layer.Flat ∧
        type.Everywhere Layer.ResultsTight := by decide +kernel
  exact ⟨type, read, plain, flat, (ofString_print_iff read plain flat).2 tight⟩

/-- A result that is a union is printed without its parentheses, and the text is refused. -/
theorem ofString_print_loose : ∃ type, ofString "() -> (A | B)" = .ok type ∧
    type.Everywhere Layer.NotLiteral ∧ type.Everywhere Layer.Flat ∧
    ¬∃ again, ofString (String.ofList type.print) = .ok again ∧ type.same again = true := by
  decide +kernel

end MethodType

end Signet

import Signet.Proofs.Reading.Excerpts
import Signet.Proofs.Reading.Parts
import Signet.Reading.Document

/-!
# Reading a range and reading what was carved out of it

A range of a buffer can be read in place, or carved out first and read as a whole. The text is the
same, so the trees are; what differs is how their positions are taken to the file. Since the two
excerpts are aligned (`aligned_of_carve`), both ways fail with the same error or give the same but
for the buffer that locations lie on (`read_carved`).
-/

namespace Signet

open Text Grammar

variable {one two : Excerpt} {scope : List String} {tree : ParseTree} {trees : List ParseTree}
  {ε α β : Type}

/-! ## Agreement -/

/-- Both succeed with related values or fail with the same error. -/
inductive Agree (R : α → α → Prop) : Except ε α → Except ε α → Prop
  | ok {first second : α} : R first second → Agree R (.ok first) (.ok second)
  | error (error : ε) : Agree R (.error error) (.error error)

namespace Agree

theorem refl (outcome : Except ε α) : Agree (· = ·) outcome outcome := by
  cases outcome with
  | ok value => exact .ok rfl
  | error error => exact .error error

theorem bind {R : α → α → Prop} {S : β → β → Prop} {first second : Except ε α}
    {f g : α → Except ε β} (agree : Agree R first second)
    (rest : ∀ a b, first = .ok a → R a b → Agree S (f a) (g b)) :
    Agree S (first >>= f) (second >>= g) := by
  cases agree with
  | ok related => exact rest _ _ rfl related
  | error error => exact .error error

theorem mapM {R : β → β → Prop} {f g : α → Except ε β} {items : List α}
    (each : ∀ item ∈ items, Agree R (f item) (g item)) :
    Agree (List.Forall₂ R) (items.mapM f) (items.mapM g) := by
  induction items with
  | nil => exact .ok .nil
  | cons item items ih =>
      obtain ⟨here, later⟩ := List.forall_mem_cons.1 each
      rw [List.mapM_cons, List.mapM_cons]
      refine here.bind fun a b _ related => ?_
      exact (ih later).bind fun as bs _ others => .ok (.cons related others)

/-- Faults in the text are refused at the same place of the file. -/
theorem refuse {R : α → α → Prop} (aligned : one.Aligned two) {first second : Except Fault α}
    (agree : Agree R first second) (blames : Blames one.text first) :
    Agree R (first.mapError one.refuse) (second.mapError two.refuse) := by
  cases agree with
  | ok related => exact .ok related
  | error fault =>
      have inside := blames fault rfl
      have same : one.span fault.range = two.span fault.range :=
        (aligned.sameText inside ⟨rfl, rfl⟩ ⟨rfl, rfl⟩).span_eq
      have refused : one.refuse fault = two.refuse fault := by
        rw [Excerpt.refuse, Excerpt.refuse, same]
      show Agree R (.error (one.refuse fault)) (.error (two.refuse fault))
      rw [refused]
      exact .error _

end Agree

/-! ## Aligned readings -/

/-- Equal but for the locations, which coincide. -/
structure TypeParam.Coincide (first second : TypeParam) : Prop where
  same : { first with location := none } = { second with location := none }
  locations : ∃ left right, first.location = some left ∧ second.location = some right ∧
    left.Coincide right

theorem TypeParam.names_eq_of_coincide {first second : List TypeParam}
    (all : List.Forall₂ TypeParam.Coincide first second) :
    TypeParam.names first = TypeParam.names second := by
  induction all with
  | nil => rfl
  | cons coincide _ ih =>
      have name := congrArg TypeParam.name coincide.same
      exact congrArg₂ List.cons name ih

/-- Equal but for the locations, which coincide. -/
structure MethodType.Coincide (first second : MethodType) : Prop where
  typeParams : List.Forall₂ TypeParam.Coincide first.typeParams second.typeParams
  function_eq : first.function = second.function
  block_eq : first.block = second.block
  locations : ∃ left right, first.location = some left ∧ second.location = some right ∧
    left.Coincide right

namespace Excerpt.Aligned

variable (aligned : one.Aligned two)

include aligned

theorem agree_readTypeParam (within : tree.Within one.text) :
    Agree TypeParam.Coincide (readTypeParam one scope tree) (readTypeParam two scope tree) := by
  refine (Agree.refl (needTree tree .upperIdent)).bind fun name _ _ same => ?_
  subst same
  refine (Agree.refl (readWrapped scope .upperBound tree.children)).bind fun upper _ _ same => ?_
  subst same
  refine (Agree.refl (readWrapped scope .defaultType tree.children)).bind fun default _ _ same => ?_
  subst same
  exact .ok ⟨rfl, _, _, rfl, rfl, aligned.coincide_typeParamLocation within⟩

theorem agree_readTypeParams (within : ∀ tree ∈ trees, tree.Within one.text) :
    Agree (List.Forall₂ TypeParam.Coincide) (readTypeParams one scope trees)
      (readTypeParams two scope trees) :=
  .mapM fun tree member =>
    aligned.agree_readTypeParam (within tree (List.mem_filter.1 member).1)

theorem agree_readMethodType (within : tree.Within one.text) :
    Agree MethodType.Coincide (readMethodType one scope tree) (readMethodType two scope tree) := by
  have generics := within_childrenOf within.children .typeParams
  refine (aligned.agree_readTypeParams generics).bind fun first second _ coincide => ?_
  -- the rest is read in the scope of the same names
  rw [TypeParam.names_eq_of_coincide coincide]
  refine (Agree.refl (readSignatureTrees _ tree.children)).bind fun parts _ _ same => ?_
  subst same
  exact .ok ⟨coincide, rfl, rfl, _, _, rfl, rfl, (aligned.parallel_location within).coincide⟩

theorem agree_readMethodTypes (within : ∀ tree ∈ trees, tree.Within one.text) :
    Agree (List.Forall₂ MethodType.Coincide) (readMethodTypes one scope trees)
      (readMethodTypes two scope trees) :=
  .mapM fun tree member =>
    aligned.agree_readMethodType (within tree (List.mem_filter.1 member).1)

/-- Aligned excerpts are read alike if their trees mean the like. -/
theorem agree_read {R : α → α → Prop} {rule : Rule}
    {meaning : Excerpt → ParseTree → Except Fault α}
    (blames : ∀ tree, tree.Within one.text → Blames one.text (meaning one tree))
    (agree : ∀ tree, tree.Within one.text → Agree R (meaning one tree) (meaning two tree)) :
    Agree R (one.read rule (meaning one)) (two.read rule (meaning two)) := by
  unfold Excerpt.read
  rw [← aligned.text_eq]
  cases parsed : parse rule one.text with
  | ok tree =>
      have within := parse_tree_within parsed
      exact (agree tree within).refuse aligned (blames tree within)
  | error stop =>
      have le := parse_stop_le parsed
      have start := aligned.topByte_eq le
      have next := aligned.topByte_eq
        (charOfByte_le one.text (byteOfChar one.text stop.pos + 1))
      have same : one.unexpected stop = two.unexpected stop := by
        rw [Excerpt.unexpected, Excerpt.unexpected, ← aligned.text_eq]
        rw [Nat.add_comm one.base, Nat.add_comm two.base, Nat.add_comm one.base,
          Nat.add_comm two.base, start, next]
      dsimp only
      rw [same]
      exact .error _

end Excerpt.Aligned

/-! ## Carving out a range -/

theorem Excerpt.ofRange_eq_ok {buffer : Buffer} {range : Range}
    (fits : buffer.contains range = true) :
    Excerpt.ofRange buffer range =
      .ok ⟨buffer, range.start, buffer.content.extract range.start range.stop⟩ := by
  rw [Excerpt.ofRange, Buffer.slice_eq_ok fits]
  rfl

/-- The carved range begins where the child begins. -/
theorem aligned_of_carve {buffer : Buffer} {range : Range} (fits : buffer.contains range = true) :
    Excerpt.Aligned ⟨buffer, range.start, buffer.content.extract range.start range.stop⟩
      ⟨.carved buffer [range], 0, (Buffer.carved buffer [range]).content⟩ := by
  have fit : ∀ other ∈ [range], buffer.contains other = true := List.forall_mem_singleton.2 fits
  have length : (buffer.content.extract range.start range.stop).length = range.length :=
    Buffer.length_extract fits
  obtain ⟨ordered, stop⟩ := (buffer.contains_iff range).1 fits
  have content : (Buffer.carved buffer [range]).content =
      buffer.content.extract range.start range.stop := by
    simp [Buffer.content, Buffer.joinRanges, List.intercalate]
  have range_length : range.length = range.stop - range.start := rfl
  refine ⟨⟨?_, ?_⟩, ⟨?_, ?_⟩, content.symm, rfl, ?_⟩
  · dsimp only
    omega
  · dsimp only
    rw [length, range_length, List.extract_eq_take_drop]
  · dsimp only
    omega
  · dsimp only
    rw [List.drop_zero, List.take_length]
  · intro pos le
    have inside : pos ≤ ([range] : List Range)[0].length := length ▸ le
    have same := Buffer.absolute_rangeStart (List.cons_ne_nil range []) fit Nat.zero_lt_one inside
    exact same.symm

/-- A range is read in place as it is read from what is carved out of it. -/
theorem agree_readRange {R : α → α → Prop} {rule : Rule}
    {meaning : Excerpt → ParseTree → Except Fault α} {buffer : Buffer} {range : Range}
    (fits : buffer.contains range = true)
    (blames : ∀ excerpt tree, tree.Within excerpt.text →
      Blames excerpt.text (meaning excerpt tree))
    (agree : ∀ one two, Excerpt.Aligned one two → ∀ tree, tree.Within one.text →
      Agree R (meaning one tree) (meaning two tree)) :
    Agree R (readRange rule buffer range meaning)
      (readRange rule (.carved buffer [range]) (Buffer.carved buffer [range]).all meaning) := by
  have aligned := aligned_of_carve fits
  have text : (Buffer.carved buffer [range]).content.extract
      (Buffer.carved buffer [range]).all.start (Buffer.carved buffer [range]).all.stop =
        (Buffer.carved buffer [range]).content := by
    simp [Buffer.all, Buffer.length]
  rw [readRange, readRange, Excerpt.ofRange_eq_ok fits, Excerpt.ofRange_eq_ok (Buffer.contains_all _), text]
  exact aligned.agree_read (blames _) (agree _ _ aligned)

/-- Reading a range of a buffer agrees with reading the buffer carved out of it: types, method types
and type parameters are the same and lie at the same places of the file, and so do errors. -/
theorem read_carved (buffer : Buffer) (range : Range) (scope : List String)
    (fits : buffer.contains range = true) :
    ∃ child, buffer.carve [range] = .ok child ∧
      Agree (· = ·) (readType buffer range scope) (readType child child.all scope) ∧
      Agree (List.Forall₂ MethodType.Coincide) (readOverloads buffer range scope)
        (readOverloads child child.all scope) ∧
      Agree (List.Forall₂ TypeParam.Coincide) (readGenerics buffer range scope)
        (readGenerics child child.all scope) := by
  have carved : buffer.carve [range] = .ok (.carved buffer [range]) :=
    Buffer.carve_eq_ok (List.cons_ne_nil range []) (List.forall_mem_singleton.2 fits)
  refine ⟨_, carved, agree_readRange fits ?_ ?_, agree_readRange fits ?_ ?_,
    agree_readRange fits ?_ ?_⟩
  · intro excerpt tree within
    refine (blames_needTree within .typeExpr).bind fun child found => ?_
    exact blames_readTypeTree scope child (needTree_within within found)
  · exact fun one two _ tree _ => .refl _
  · exact fun excerpt tree within => blames_readMethodTypes excerpt within.children
  · exact fun one two aligned tree within => aligned.agree_readMethodTypes within.children
  · exact fun excerpt tree within => blames_readTypeParams excerpt within.children
  · exact fun one two aligned tree within => aligned.agree_readTypeParams within.children

/-- Two lines of a comment, carved out of a file; the range is that behind the first sign. It has
two method types and no type. -/
theorem read_carved_comment :
    let buffer := (Buffer.ofString "é.rb" "# é: (\"ü\") -> T\n# | [U] () -> Integer?  ").carved
      [⟨3, 15⟩, ⟨18, 39⟩]
    buffer.contains ⟨2, 34⟩ = true ∧
      (∃ child, buffer.carve [⟨2, 34⟩] = .ok child ∧
        Agree (· = ·) (readType buffer ⟨2, 34⟩ ["T"]) (readType child child.all ["T"]) ∧
        Agree (List.Forall₂ MethodType.Coincide) (readOverloads buffer ⟨2, 34⟩ ["T"])
          (readOverloads child child.all ["T"]) ∧
        Agree (List.Forall₂ TypeParam.Coincide) (readGenerics buffer ⟨2, 34⟩ ["T"])
          (readGenerics child child.all ["T"])) ∧
      (readOverloads buffer ⟨2, 34⟩ ["T"]).toOption.map (·.map (·.print)) =
        some ["(\"ü\") -> T".toList, "[U] () -> Integer?".toList] ∧
      (readType buffer ⟨2, 34⟩ ["T"]).toOption.isNone = true :=
  ⟨by decide, read_carved _ _ _ (by decide), by decide +kernel, by decide +kernel⟩

end Signet

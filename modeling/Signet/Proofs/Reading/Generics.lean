import Signet.Proofs.Reading.Functions
import Signet.Proofs.Reading.MethodTypes

/-!
# Type parameters that are printed are read

A type parameter consists of up to five parts, each of a rule of its own, so that what each part
means can be found among the trees of the others.
-/

namespace Signet

open Text Grammar Phrase

variable {excerpt : Excerpt} {scope : List String} {text more rest : List Char} {param : TypeParam}

/-! ## Finding a part -/

/-- Every tree is of the rule. -/
def AllOf (rule : Rule) (trees : List ParseTree) : Prop := ∀ tree ∈ trees, tree.rule = rule

theorem AllOf.of_one {rule : Rule} {good : ParseTree → Prop} {trees : List ParseTree}
    (one : One rule good trees) : AllOf rule trees := by
  obtain ⟨tree, rfl, rule, -⟩ := one
  intro other member
  obtain rfl := List.mem_singleton.1 member
  exact rule

theorem AllOf.findTree_eq_none {rule other : Rule} {trees : List ParseTree} (all : AllOf rule trees)
    (different : rule ≠ other) : findTree other trees = none :=
  List.find?_eq_none.2 fun tree member same =>
    different ((all tree member).symm.trans (by simpa using same))

/-- Among parts of different rules, the first tree of a rule is in the part of that rule. -/
theorem findTree_flatMap {parts : List (Rule × List ParseTree)}
    (all : ∀ part ∈ parts, AllOf part.1 part.2) (nodup : (parts.map Prod.fst).Nodup) :
    ∀ part ∈ parts, findTree part.1 (parts.flatMap Prod.snd) = findTree part.1 part.2 := by
  induction parts with
  | nil => exact nofun
  | cons first parts ih =>
      obtain ⟨here, later⟩ := List.forall_mem_cons.1 all
      obtain ⟨fresh, nodup⟩ := List.nodup_cons.1 nodup
      have split : ∀ rule, findTree rule ((first :: parts).flatMap Prod.snd) =
          (findTree rule first.2).or (findTree rule (parts.flatMap Prod.snd)) := fun rule =>
        List.find?_append
      refine List.forall_mem_cons.2 ⟨?_, fun part member => ?_⟩
      · have none : findTree first.1 (parts.flatMap Prod.snd) = none := by
          refine List.find?_eq_none.2 fun tree member same => fresh ?_
          obtain ⟨part, inside, member⟩ := List.mem_flatMap.1 member
          have rule : tree.rule = first.1 := by simpa using same
          exact List.mem_map.2 ⟨part, inside, (later part inside tree member).symm.trans rule⟩
        rw [split, none, Option.or_none]
      · have different : first.1 ≠ part.1 := fun same =>
          fresh (List.mem_map.2 ⟨part, member, same.symm⟩)
        rw [split, here.findTree_eq_none different, Option.none_or, ih later nodup part member]

/-! ## Keywords in front -/

/-- The trees are those of a keyword, if there is one. -/
def Keyworded (rule : Rule) (keyword : Option String) (trees : List ParseTree) : Prop :=
  (keyword = none ∧ trees = []) ∨
    ∃ word ∈ keyword, One rule (fun tree => tree.string = word) trees

theorem Keyworded.all {rule : Rule} {keyword : Option String} {trees : List ParseTree}
    (keyworded : Keyworded rule keyword trees) : AllOf rule trees := by
  rcases keyworded with ⟨-, rfl⟩ | ⟨word, -, one⟩
  · exact nofun
  · exact .of_one one

/-- A keyword as text, with a blank after it. -/
def printKeyword (keyword : Option String) : List Char :=
  (keyword.map fun word => word.toList ++ [' ']).getD []

theorem starts_printKeyword {keyword : Option String} (starts : StartsType text)
    (words : ∀ word ∈ keyword, StartsType word.toList) :
    StartsType (printKeyword keyword ++ text) := by
  cases keyword with
  | none => exact starts
  | some word => exact ((words word rfl).append [' ']).append text

/-- A keyword, or nothing, in front of what is read after it. -/
theorem covers_keyword (rule : Rule) (keyword : Option String) {words : List String}
    {second : Phrase} {good : List ParseTree → Prop}
    (shape : rule.body = .token (Scanner.wholeWord words))
    (among : ∀ word ∈ keyword, word ∈ words)
    (ident : ∀ word ∈ words, ∀ c ∈ word.toList, isIdentChar c = true)
    (refuses : keyword = none → (call rule).Refuses (more ++ rest))
    (covers : second.Covers more rest good) (solid : Solid (more ++ rest)) :
    (seq (opt (call rule)) second).Covers (printKeyword keyword ++ more) rest fun trees =>
      ∃ front back, Keyworded rule keyword front ∧ good back ∧ trees = front ++ back := by
  cases keyword with
  | none =>
      refine ((refuses rfl).opt.covers.seq [] covers nofun solid).imp ?_
      rintro _ ⟨_, back, rfl, holds, rfl⟩
      exact ⟨[], _, .inl ⟨rfl, rfl⟩, holds, rfl⟩
  | some word =>
      have read : Scanner.wholeWord words (word.toList ++ ([' '] ++ (more ++ rest))) =
          some ([' '] ++ (more ++ rest)) := by
        rw [wholeWord_append (ident word (among word rfl)), if_pos (by simpa using among word rfl)]
        exact fun c head => Option.some.inj head ▸ by decide
      have whole := (covers_token rule shape read).opt.seq [' '] covers (by decide) solid
      show (seq (opt (call rule)) second).Covers (word.toList ++ [' '] ++ more) rest _
      rw [List.append_assoc]
      refine whole.imp ?_
      rintro _ ⟨front, back, ⟨tree, rfl, same, written, -⟩, holds, rfl⟩
      have string : tree.string = word := by rw [ParseTree.string, written, String.ofList_toList]
      exact ⟨[tree], back, .inr ⟨word, rfl, tree, rfl, same, string⟩, holds, rfl⟩

/-! ## Bounds -/

/-- The trees are those of a bound, which they mean. -/
structure Bounds (scope : List String) (rule : Rule) (bound : Option Ty) (trees : List ParseTree) :
    Prop where
  all : AllOf rule trees
  means : readWrapped scope rule trees = .ok bound

/-- A bound as text, after its sign. -/
def printBound (sign : Char) (bound : Option Ty) : List Char :=
  (bound.map fun type => [' '] ++ ([sign] ++ ([' '] ++ type.print))).getD []

theorem follows_bound {sign : Char} {marks : List Char} (bound : Option Ty)
    (solid : isSpacing sign = false ∧ sign ≠ '#') (other : sign ∉ marks)
    (follows : Follows marks rest) : Follows marks (printBound sign bound ++ rest) := by
  cases bound with
  | none => exact follows
  | some type =>
      exact .blank (solid_cons solid _) fun c head => Option.some.inj head ▸ other

/-- A bound, or nothing, is read where no sign follows. -/
theorem resumes_bound (rule : Rule) {sign : Char} {bound : Option Ty}
    (shape : rule.body = .phrase (inOrder [mark [sign], call .typeExpr]))
    (solid : isSpacing sign = false ∧ sign ≠ '#') (legible : ∀ type ∈ bound, type.Legible scope)
    (follows : Follows (sign :: typeMarks) rest) :
    (opt (call rule)).Resumes (printBound sign bound) rest (Bounds scope rule bound) := by
  -- A bound that is there is read behind its sign; one that is missing is not taken for anything
  -- else.
  have covers : ∀ type ∈ bound, (call rule).Covers ([sign] ++ ([' '] ++ type.print)) rest
      (Bounds scope rule (some type)) := by
    intro type member
    have legible := legible type member
    have inner := (covers_mark [sign] _).seq [' ']
      (legible.whole rest (follows.mono fun c member => List.mem_cons_of_mem _ member)) (by decide)
      (legible.starts.append rest).solid
    refine (Covers.ofRule rule shape inner).imp ?_
    rintro _ ⟨tree, rfl, same, _, _, rfl, ⟨child, rfl, childRule, means⟩, children⟩
    refine ⟨fun other member => List.mem_singleton.1 member ▸ same, ?_⟩
    have need : needTree tree .typeExpr = .ok child := by
      rw [needTree, findTree, children]
      simp [childRule]
    rw [readWrapped_cons, if_pos same, need]
    show (readTypeTree scope child >>= _) = _
    rw [means]
    rfl
  refine (opt_resumes [' '] _ (fun type => Bounds scope rule (some type)) (by decide)
    (fun _ _ => solid_cons solid _) covers
    fun _ => .ofRule shape (.seq (follows.refuses List.mem_cons_self []))).imp ?_
  rintro trees (⟨rfl, rfl⟩ | ⟨type, rfl, bounds⟩)
  · exact ⟨List.forall_mem_nil _, rfl⟩
  · exact bounds

/-! ## Type parameters -/

/-- The keyword in front of a parameter that is not checked. -/
def TypeParam.uncheckedWord (param : TypeParam) : Option String :=
  if param.unchecked then some "unchecked" else none

/-- The keyword of a variance. -/
def Variance.word : Variance → Option String
  | .invariant => none
  | .covariant => some "out"
  | .contravariant => some "in"

theorem TypeParam.print_eq (param : TypeParam) : param.print =
    printKeyword param.uncheckedWord ++ (printKeyword param.variance.word ++
      (param.name.toList ++
        (printBound '<' param.upperBound ++ printBound '=' param.default))) := by
  obtain ⟨name, variance, upperBound, default, unchecked, location⟩ := param
  have bound : ∀ (sign : Char) (text : String) (bound : Option Ty), text.toList = [' ', sign, ' '] →
      (bound.map fun type => text.toList ++ type.print).getD [] = printBound sign bound := by
    intro sign text bound spelled
    rw [printBound, spelled]
    rfl
  rw [TypeParam.print, bound '<' " < " _ rfl, bound '=' " = " _ rfl]
  simp only [List.append_assoc]
  congr 1
  · cases unchecked <;> rfl
  · congr 1
    cases variance <;> rfl

/-- The word of a variance means the variance. -/
theorem readVariance_of_word {variance : Variance} {trees : List ParseTree}
    (keyworded : Keyworded .variance variance.word trees) : readVariance trees = variance := by
  rcases keyworded with ⟨none, rfl⟩ | ⟨word, some, tree, rfl, rule, string⟩
  · cases variance with
    | invariant => rfl
    | covariant | contravariant => cases none
  · have found : findTree .variance [tree] = .some tree := by simp [findTree, rule]
    rw [readVariance, found]
    dsimp only
    rw [string]
    cases variance with
    | invariant => cases some
    | covariant | contravariant =>
        obtain rfl := Option.some.inj some
        rfl

theorem isSome_of_uncheckedWord {trees : List ParseTree}
    (keyworded : Keyworded .unchecked param.uncheckedWord trees) :
    (findTree .unchecked trees).isSome = param.unchecked := by
  rw [TypeParam.uncheckedWord] at keyworded
  rcases keyworded with ⟨none, rfl⟩ | ⟨word, some, tree, rfl, rule, -⟩
  · cases checked : param.unchecked with
    | false => rfl
    | true => simp [checked] at none
  · cases checked : param.unchecked with
    | false => simp [checked] at some
    | true => simp [findTree, rule]

/-- The parts of a type parameter are found among its trees. -/
theorem readTypeParam_of_parts {tree : ParseTree}
    {unchecked variance name upper default : List ParseTree}
    (children : tree.children = unchecked ++ (variance ++ (name ++ (upper ++ default))))
    (isUnchecked : Keyworded .unchecked param.uncheckedWord unchecked)
    (isVariance : Keyworded .variance param.variance.word variance)
    (isName : One .upperIdent (fun tree => tree.string = param.name) name)
    (isUpper : Bounds scope .upperBound param.upperBound upper)
    (isDefault : Bounds scope .defaultType param.default default) :
    ∃ location, readTypeParam excerpt scope tree = .ok { param with location } := by
  have parts : tree.children = [(Rule.unchecked, unchecked), (.variance, variance),
      (.upperIdent, name), (.upperBound, upper), (.defaultType, default)].flatMap Prod.snd := by
    rw [children]
    simp
  have all : ∀ part ∈ [(Rule.unchecked, unchecked), (.variance, variance), (.upperIdent, name),
      (.upperBound, upper), (.defaultType, default)], AllOf part.1 part.2 := by
    simpa using ⟨isUnchecked.all, isVariance.all, .of_one isName, isUpper.all, isDefault.all⟩
  -- Each part is found by its rule among all the children, wherever the others are.
  have find := findTree_flatMap all
    (show [Rule.unchecked, .variance, .upperIdent, .upperBound, .defaultType].Nodup by decide)
  simp only [← parts, List.forall_mem_cons] at find
  obtain ⟨findUnchecked, findVariance, findName, findUpper, findDefault, -⟩ := find
  obtain ⟨nameTree, rfl, nameRule, named⟩ := isName
  have need : needTree tree .upperIdent = .ok nameTree := by
    rw [needTree, findName]
    simp [findTree, nameRule]
  have upperRead := isUpper.means
  have defaultRead := isDefault.means
  rw [readWrapped, ← findUpper, ← readWrapped] at upperRead
  rw [readWrapped, ← findDefault, ← readWrapped] at defaultRead
  have varianceRead := readVariance_of_word isVariance
  have uncheckedRead := isSome_of_uncheckedWord isUnchecked
  rw [readVariance, ← findVariance, ← readVariance] at varianceRead
  rw [← findUnchecked] at uncheckedRead
  refine ⟨some (typeParamLocation excerpt tree), ?_⟩
  rw [readTypeParam, need, upperRead, defaultRead, varianceRead, uncheckedRead, ← named]
  rfl

/-- The name of a type parameter is not one of the keywords in front of it. -/
theorem IsUpper.wholeWord_eq_none {name : String} (upper : IsUpper name) {words : List String}
    (lower : ∀ word ∈ words, ∀ c ∈ word.toList.head?, c.isUpper = false)
    (ends : ∀ c ∈ rest.head?, isIdentChar c = false) :
    Scanner.wholeWord words (name.toList ++ rest) = none := by
  rw [wholeWord_append upper.all ends, if_neg]
  intro member
  obtain ⟨c, word, spelled, first, -⟩ := upper
  have := lower name (by simpa using member) c (by rw [spelled]; rfl)
  exact nomatch first.symm.trans this

/-- Neither a variance nor a name is the keyword of parameters that are not checked. -/
theorem unchecked_refuses {name : String} (upper : IsUpper name) (variance : Variance)
    (ends : ∀ c ∈ rest.head?, isIdentChar c = false) :
    (call .unchecked).Refuses (printKeyword variance.word ++ (name.toList ++ rest)) := by
  have blank : ∀ c ∈ ([' '] ++ (name.toList ++ rest)).head?, isIdentChar c = false :=
    fun c head => Option.some.inj head ▸ by decide
  have word : ∀ word : String, (∀ c ∈ word.toList, isIdentChar c = true) → word ≠ "unchecked" →
      (call .unchecked).Refuses (word.toList ++ [' '] ++ (name.toList ++ rest)) := by
    intro word ident other
    rw [List.append_assoc]
    refine .token rfl ?_
    rw [wholeWord_append ident blank, if_neg (by simpa using other)]
  cases variance with
  | invariant => exact .token rfl (upper.wholeWord_eq_none (by decide) ends)
  | covariant => exact word "out" (by decide) (by decide)
  | contravariant => exact word "in" (by decide) (by decide)

/-- What follows a type parameter: no name goes on, and neither a type nor a bound continues. -/
def paramMarks : List Char := '<' :: '=' :: typeMarks

/-- A printed type parameter is read. -/
theorem covers_typeParam (upper : IsUpper param.name)
    (legible : ∀ type ∈ param.types, type.Legible scope) (follows : Follows paramMarks rest) :
    (call .typeParam).Covers param.print rest
      (One .typeParam fun tree =>
        ∃ location, readTypeParam excerpt scope tree = .ok { param with location }) := by
  -- From the last part to the first: what a part may be followed by depends on the parts behind it
  -- that are there.
  have followsTypes : Follows ('=' :: typeMarks) rest :=
    follows.mono fun c member => List.mem_cons_of_mem _ member
  have afterUpper : Follows ('<' :: typeMarks) (printBound '=' param.default ++ rest) := by
    refine follows_bound param.default (by decide) (by decide) (follows.mono fun c member => ?_)
    rcases List.mem_cons.1 member with rfl | member
    · exact List.mem_cons_self
    · exact List.mem_cons_of_mem _ (List.mem_cons_of_mem _ member)
  have bounds := (resumes_bound .upperBound rfl (by decide)
    (fun type member => legible type 
      (List.mem_append_left _ (by simpa using member))) afterUpper).seq
    (resumes_bound .defaultType rfl (by decide)
      (fun type member => legible type (List.mem_append_right _ (by simpa using member)))
      followsTypes)
  have afterName : Follows [] (printBound '<' param.upperBound ++ printBound '=' param.default ++
      rest) := by
    rw [List.append_assoc]
    exact follows_bound param.upperBound (by decide) nofun (afterUpper.mono nofun)
  have ends := afterName.ends.ident
  have named := (covers_token .upperIdent rfl (upper.read ends)).seq_resumes bounds
  have starts := IsKey.starts (.inr upper) (printBound '<' param.upperBound ++
    printBound '=' param.default)
  have word : ∀ word ∈ param.variance.word, StartsType word.toList := by
    cases param.variance with
    | invariant => exact nofun
    | covariant | contravariant =>
        rintro _ ⟨⟩
        exact ⟨_, _, rfl, .inr (.inr (by decide))⟩
  have varied := covers_keyword .variance param.variance.word rfl
    (by cases param.variance <;> decide) (by decide)
    (fun _ => by
      rw [List.append_assoc]
      exact .token rfl (upper.wholeWord_eq_none (by decide) ends)) named (starts.append rest).solid
  have whole := covers_keyword .unchecked param.uncheckedWord rfl
    (by rw [TypeParam.uncheckedWord]; split <;> decide) (by decide)
    (fun _ => by
      rw [List.append_assoc, List.append_assoc]
      exact unchecked_refuses upper param.variance ends) varied
    ((starts_printKeyword starts word).append rest).solid
  rw [param.print_eq]
  refine (Covers.ofRule .typeParam rfl whole).imp ?_
  rintro _ ⟨tree, rfl, rule, unchecked, _, isUnchecked, ⟨variance, _, isVariance, ⟨names, _,
    ⟨name, rfl, nameRule, written, -⟩, ⟨upper, default, isUpper, isDefault, rfl⟩, rfl⟩, rfl⟩,
      children⟩
  have string : name.string = param.name := by rw [ParseTree.string, written, String.ofList_toList]
  exact ⟨tree, rfl, rule, readTypeParam_of_parts children isUnchecked isVariance
    ⟨name, rfl, nameRule, string⟩ isUpper isDefault⟩

/-! ## Lists of type parameters -/

/-- The type parameters differ in their locations at most. -/
def SameBut (params again : List TypeParam) : Prop :=
  List.Forall₂ (fun param other => ∃ location, other = { param with location }) params again

theorem TypeParam.starts_print (upper : IsUpper param.name) : StartsType param.print := by
  rw [param.print_eq]
  refine starts_printKeyword (starts_printKeyword (IsKey.starts (.inr upper) _) ?_) ?_
  · cases param.variance with
    | invariant => exact nofun
    | covariant | contravariant =>
        rintro _ ⟨⟩
        exact ⟨_, _, rfl, .inr (.inr (by decide))⟩
  · rw [TypeParam.uncheckedWord]
    split
    · rintro _ ⟨⟩
      exact ⟨_, _, rfl, .inr (.inr (by decide))⟩
    · exact nofun

theorem exists_readTypeParams {params : List TypeParam} {trees : List ParseTree}
    (all : List.Forall₂ (fun param tree => tree.rule = .typeParam ∧
      ∃ location, readTypeParam excerpt scope tree = .ok { param with location }) params trees) :
    ∃ again, readTypeParams excerpt scope trees = .ok again ∧ SameBut params again := by
  have read : AllOf .typeParam trees ∧ ∃ again, List.Forall₂
      (fun tree param => readTypeParam excerpt scope tree = .ok param) trees again ∧
        SameBut params again := by
    induction all with
    | nil => exact ⟨nofun, [], .nil, .nil⟩
    | cons here _ ih =>
        obtain ⟨rule, location, means⟩ := here
        obtain ⟨rules, again, later, same⟩ := ih
        exact ⟨List.forall_mem_cons.2 ⟨rule, rules⟩, _ :: again, .cons means later,
          .cons ⟨location, rfl⟩ same⟩
  obtain ⟨rules, again, later, same⟩ := read
  have kept : trees.filter (fun tree => tree.rule = .typeParam) = trees :=
    List.filter_eq_self.2 fun tree member => decide_eq_true (rules tree member)
  refine ⟨again, ?_, same⟩
  rw [readTypeParams, kept]
  exact mapM_eq_ok_iff.2 later

/-- Printed type parameters are read in brackets. -/
theorem covers_typeParams {params : List TypeParam} (nonempty : params ≠ [])
    (upper : ∀ param ∈ params, IsUpper param.name)
    (legible : ∀ param ∈ params, ∀ type ∈ param.types, type.Legible scope) (rest : List Char) :
    (call .typeParams).Covers (['['] ++ (joined comma (params.map (·.print)) ++ [']'])) rest
      (One .typeParams fun tree => ∃ again,
        readTypeParams excerpt scope tree.children = .ok again ∧ SameBut params again) := by
  have solid : ∀ param ∈ params, ∀ text, Solid (param.print ++ text) := fun param member text =>
    ((TypeParam.starts_print (upper param member)).append text).solid
  have ends : Follows paramMarks (']' :: rest) := .sign (by decide) (by decide) (by decide) rest
  -- Behind the last type parameter there is no further comma.
  have stops : (mark [',']).Refuses (afterBlanks (']' :: rest)) := by
    rw [afterBlanks_of_solid (solid_cons (by decide) rest)]
    exact refuses_mark nofun
  have list := covers_separated (call .typeParam) TypeParam.print [] [','] [' ']
    (fun param tree => tree.rule = .typeParam ∧
      ∃ location, readTypeParam excerpt scope tree = .ok { param with location })
    (Follows paramMarks) rfl nonempty (by decide) (by decide)
      (fun text => solid_cons (by decide) text)
    solid
    (fun param member rest follows =>
      covers_typeParam (upper param member) (legible param member) follows)
    (fun text => .sign (by decide) (by decide) (by decide) text) ends stops
  have inner := list.seq [] (covers_mark [']'] rest) nofun (solid_cons (by decide) rest)
  have start : Solid (joined comma (params.map (·.print)) ++ ([] ++ [']']) ++ rest) := by
    obtain ⟨param, params, rfl⟩ := List.exists_cons_of_ne_nil nonempty
    rw [List.map_cons, joined_cons, List.append_assoc, List.append_assoc]
    exact solid param List.mem_cons_self _
  have whole := (covers_mark ['['] _).seq [] inner nofun start
  refine (Covers.ofRule .typeParams rfl whole).imp ?_
  rintro _ ⟨tree, rfl, rule, _, _, rfl, ⟨trees, _, all, rfl, rfl⟩, children⟩
  refine ⟨tree, rfl, rule, ?_⟩
  rw [List.nil_append, List.append_nil] at children
  show ∃ again, readTypeParams excerpt scope tree.children = .ok again ∧ SameBut params again
  rw [children]
  exact exists_readTypeParams all

end Signet

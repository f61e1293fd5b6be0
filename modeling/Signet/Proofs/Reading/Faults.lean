import Signet.Proofs.Grammar.Positions
import Signet.Reading.Methods

/-!
# Faults are in the text

A grammatical text without a meaning is at fault somewhere. The range that is blamed is that of a
tree of the text, so it lies in the text as the tree does: `Blames` is kept by every step of giving
a tree its meaning.
-/

namespace Signet

open Text Grammar

variable {text : List Char} {scope : List String} {tree : ParseTree} {trees : List ParseTree}
  {α β : Type}

/-- The range lies in the text. -/
def Range.InText (text : List Char) (range : Range) : Prop :=
  range.start ≤ range.stop ∧ range.stop ≤ text.length

theorem Grammar.ParseTree.Within.range (within : tree.Within text) : tree.range.InText text := by
  have front : trimEnd tree.text <+: tree.text := trimEnd_prefix tree.text
  have short := front.length_le
  have stop := within.stop_le
  refine ⟨Nat.le_add_right .., ?_⟩
  show tree.start + (trimEnd tree.text).length ≤ text.length
  omega

/-- What is blamed, if anything, lies in the text. -/
def Blames (text : List Char) (outcome : Except Fault α) : Prop :=
  ∀ fault, outcome = .error fault → fault.range.InText text

namespace Blames

theorem ok (value : α) : Blames text (.ok value) := nofun

theorem error (cause : ParseCause) (within : tree.Within text) :
    Blames text (.error ⟨cause, tree.range⟩ : Except Fault α) := by
  intro fault same
  obtain rfl := Except.error.inj same
  exact within.range

theorem bind {first : Except Fault α} {second : α → Except Fault β} (one : Blames text first)
    (two : ∀ value, first = .ok value → Blames text (second value)) :
    Blames text (first >>= second) := by
  cases first with
  | ok value => exact two value rfl
  | error fault =>
      intro other same
      obtain rfl : fault = other := Except.error.inj same
      exact one fault rfl

theorem mapM {f : α → Except Fault β} {items : List α}
    (each : ∀ item ∈ items, Blames text (f item)) : Blames text (items.mapM f) := by
  induction items with
  | nil => exact ok []
  | cons item items ih =>
      rw [List.mapM_cons]
      refine (each item List.mem_cons_self).bind fun value _ => ?_
      have later := ih fun other member => each other (List.mem_cons_of_mem _ member)
      exact later.bind fun values _ => ok _

end Blames

/-! ## Types -/

theorem blames_readAtom (within : tree.Within text) : Blames text (readAtom tree) := by
  unfold readAtom
  split
  · split
    · exact .ok _
    · exact .error _ within
  · exact .ok _
  · exact .ok _
  · unfold readInteger
    dsimp only
    split
    · exact .ok _
    · exact .error _ within
  · exact .ok _
  · exact .error _ within

theorem blames_add (params : Params Ty) (role : ParamRole) (parts : ParamParts)
    (within : tree.Within text) :
    Blames text ((params.add role parts).mapError fun cause => ⟨cause, tree.range⟩) := by
  cases params.add role parts with
  | ok params => exact .ok _
  | error cause => exact .error cause within

-- One statement for each function, along their common recursion on the tree.
mutual

theorem blames_readTypeTree (scope : List String) :
    ∀ tree : ParseTree, tree.Within text → Blames text (readTypeTree scope tree)
  | ⟨rule, stretch, children⟩, within => by
    have inside : ∀ child ∈ children, child.Within text := within.children
    rw [readTypeTree.eq_def]
    dsimp only
    split
    · exact blames_readTypeTree scope _ (inside _ List.mem_cons_self)
    · exact blames_readTypeTree scope _ (inside _ List.mem_cons_self)
    · exact (blames_readTypeTrees scope children inside).bind fun types _ => .ok _
    · exact (blames_readTypeTrees scope children inside).bind fun types _ => .ok _
    · exact (blames_readTypeTree scope _ (inside _ List.mem_cons_self)).bind fun type _ => .ok _
    · exact (blames_readTypeTrees scope children inside).bind fun types _ => .ok _
    · exact (blames_readSignatureTrees scope children inside).bind fun parts _ => .ok _
    · rename_i nameRule name nameChildren _ args _ _ _ _ _ _ _ _
      split
      · have argsInside := (inside _ (List.mem_cons_of_mem _ List.mem_cons_self)).children
        exact (blames_readTypeTrees scope args argsInside).bind fun types _ => .ok _
      · exact .error _ (inside _ List.mem_cons_self)
    · split
      · exact .ok _
      · exact .error _ within
    · exact blames_readAtom within

theorem blames_readTypeTrees (scope : List String) :
    ∀ trees : List ParseTree, (∀ tree ∈ trees, tree.Within text) →
      Blames text (readTypeTrees scope trees)
  | [], _ => .ok []
  | tree :: trees, within => by
    obtain ⟨here, later⟩ := List.forall_mem_cons.1 within
    rw [readTypeTrees]
    refine (blames_readTypeTree scope tree here).bind fun type _ => ?_
    exact (blames_readTypeTrees scope trees later).bind fun types _ => .ok _

theorem blames_readSignatureTrees (scope : List String) :
    ∀ trees : List ParseTree, (∀ tree ∈ trees, tree.Within text) →
      Blames text (readSignatureTrees scope trees)
  | [], _ => .ok _
  | ⟨rule, stretch, children⟩ :: trees, within => by
    obtain ⟨here, later⟩ := List.forall_mem_cons.1 within
    have rest := blames_readSignatureTrees scope trees later
    rw [readSignatureTrees.eq_def]
    split
    · exact .ok _
    · rename_i same
      obtain ⟨⟨⟩, rfl⟩ := List.cons.inj same
      refine (blames_readParamTrees scope {} children here.children).bind fun params _ => ?_
      exact rest.bind fun parts _ => .ok _
    · rename_i same
      obtain ⟨-, rfl⟩ := List.cons.inj same
      exact rest.bind fun parts _ => .ok _
    · rename_i same
      obtain ⟨⟨⟩, rfl⟩ := List.cons.inj same
      refine (blames_readSignatureTrees scope children here.children).bind fun block _ => ?_
      exact rest.bind fun parts _ => .ok _
    · rename_i same
      obtain ⟨⟨⟩, rfl⟩ := List.cons.inj same
      refine (blames_readTypeTree scope _ here).bind fun type _ => ?_
      exact rest.bind fun parts _ => .ok _
    · rename_i same
      obtain ⟨-, rfl⟩ := List.cons.inj same
      exact rest

theorem blames_readParamTrees (scope : List String) (params : Params Ty) :
    ∀ trees : List ParseTree, (∀ tree ∈ trees, tree.Within text) →
      Blames text (readParamTrees scope params trees)
  | [], _ => .ok params
  | ⟨rule, stretch, children⟩ :: trees, within => by
    obtain ⟨here, later⟩ := List.forall_mem_cons.1 within
    rw [readParamTrees]
    dsimp only
    split
    · exact .error _ here
    · rename_i role _
      split
      · exact .error _ here
      · refine (blames_readParamParts scope children here.children).bind fun parts _ => ?_
        refine (blames_add params role parts here).bind fun params _ => ?_
        exact blames_readParamTrees scope params trees later

theorem blames_readParamParts (scope : List String) :
    ∀ trees : List ParseTree, (∀ tree ∈ trees, tree.Within text) →
      Blames text (readParamParts scope trees)
  | [], _ => .ok _
  | ⟨rule, stretch, children⟩ :: trees, within => by
    obtain ⟨here, later⟩ := List.forall_mem_cons.1 within
    have rest := blames_readParamParts scope trees later
    rw [readParamParts.eq_def]
    split
    · exact .ok _
    · rename_i same
      obtain ⟨-, rfl⟩ := List.cons.inj same
      exact rest.bind fun parts _ => .ok _
    · rename_i same
      obtain ⟨-, rfl⟩ := List.cons.inj same
      exact rest.bind fun parts _ => .ok _
    · rename_i same
      obtain ⟨⟨⟩, rfl⟩ := List.cons.inj same
      refine (blames_readTypeTree scope _ here).bind fun type _ => ?_
      exact rest.bind fun parts _ => .ok _
    · rename_i same
      obtain ⟨-, rfl⟩ := List.cons.inj same
      exact rest.bind fun parts _ => .ok _
    · rename_i same
      obtain ⟨-, rfl⟩ := List.cons.inj same
      exact rest

end

/-! ## Method types -/

theorem within_of_findTree {rule : Rule} (within : ∀ tree ∈ trees, tree.Within text)
    (found : findTree rule trees = some tree) : tree.Within text :=
  within tree (List.mem_of_find?_eq_some found)

theorem within_childrenOf (within : ∀ tree ∈ trees, tree.Within text) (rule : Rule) :
    ∀ tree ∈ childrenOf rule trees, tree.Within text := by
  unfold childrenOf
  cases found : findTree rule trees with
  | none => exact nofun
  | some tree => exact (within_of_findTree within found).children

theorem blames_needTree (within : tree.Within text) (rule : Rule) :
    Blames text (needTree tree rule) := by
  unfold needTree
  split
  · exact .ok _
  · exact .error _ within

theorem needTree_within (within : tree.Within text) {rule : Rule} {child : ParseTree}
    (found : needTree tree rule = .ok child) : child.Within text := by
  unfold needTree at found
  split at found
  · rename_i tree member
    obtain rfl := Except.ok.inj found
    exact within_of_findTree within.children member
  · cases found

theorem blames_readWrapped (within : ∀ tree ∈ trees, tree.Within text) (rule : Rule) :
    Blames text (readWrapped scope rule trees) := by
  unfold readWrapped
  split
  · rename_i tree found
    have here := within_of_findTree within found
    refine (blames_needTree here .typeExpr).bind fun inner found => ?_
    exact (blames_readTypeTree scope inner (needTree_within here found)).bind fun type _ => .ok _
  · exact .ok _

theorem blames_readTypeParam (excerpt : Excerpt) (within : tree.Within text) :
    Blames text (readTypeParam excerpt scope tree) := by
  refine (blames_needTree within .upperIdent).bind fun name _ => ?_
  refine (blames_readWrapped within.children .upperBound).bind fun upperBound _ => ?_
  exact (blames_readWrapped within.children .defaultType).bind fun default _ => .ok _

theorem blames_readTypeParams (excerpt : Excerpt) (within : ∀ tree ∈ trees, tree.Within text) :
    Blames text (readTypeParams excerpt scope trees) :=
  .mapM fun tree member => blames_readTypeParam excerpt (within tree (List.mem_filter.1 member).1)

theorem blames_readMethodType (excerpt : Excerpt) (within : tree.Within text) :
    Blames text (readMethodType excerpt scope tree) := by
  have generics := within_childrenOf within.children .typeParams
  refine (blames_readTypeParams excerpt generics).bind fun params _ => ?_
  exact (blames_readSignatureTrees _ _ within.children).bind fun parts _ => .ok _

theorem blames_readMethodTypes (excerpt : Excerpt) (within : ∀ tree ∈ trees, tree.Within text) :
    Blames text (readMethodTypes excerpt scope trees) :=
  .mapM fun tree member => blames_readMethodType excerpt (within tree (List.mem_filter.1 member).1)

end Signet

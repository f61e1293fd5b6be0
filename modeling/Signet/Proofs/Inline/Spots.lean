import Signet.Proofs.Inline.History

/-!
# Where the walk stops

The walk of a class or a module passes through some nodes and stops at others: at definitions, at
words, at calls that declare something, and at the classes and modules inside, which have a walk of
their own (`Spot`, `Framed`). Which nodes these are, and under which nodes they stand, is read off
the tree without regard to what is done there. The sites of the walk are exactly these spots
(`fits_sitesAmong`): a method has the modifier of the call that it is a direct argument of, and a
word knows its parent.
-/

namespace Signet.Inline

open Ruby

variable {file : RubyFile} {known : Bool} {node parent call root : Node} {above : List Node}

/-! ## Spots -/

/-- A node at which the walk stops, and the nodes above it up to the class or module around it,
innermost first. -/
structure Spot where
  node : Node
  above : List Node

section Spots

variable (file : RubyFile) (known : Bool)

mutual

/-- The spots at and below a node, inside a module whose name can or cannot be told. A class or a
module with a name field is a spot by itself. -/
def spotsOf (above : List Node) : Node → List Spot
  | ⟨head, children⟩ =>
    match head.construct with
    | .classDefinition | .moduleDefinition =>
      if (Node.child? ⟨head, children⟩ "name").isSome then [⟨⟨head, children⟩, above⟩]
      else spotsAmong (⟨head, children⟩ :: above) children
    | .singletonClass | .method | .singletonMethod | .identifier => [⟨⟨head, children⟩, above⟩]
    | .call =>
      match callKindIn file known ⟨head, children⟩ with
      | .mixin _ | .attr _ => [⟨⟨head, children⟩, above⟩]
      | .modifier _ => spotsInArguments (⟨head, children⟩ :: above) children
      | .other => spotsAmong (⟨head, children⟩ :: above) children
    | .other => spotsAmong (⟨head, children⟩ :: above) children

/-- The spots of the named ones of some nodes. -/
def spotsAmong (above : List Node) : List Node → List Spot
  | [] => []
  | ⟨head, children⟩ :: nodes =>
    (if head.named then spotsOf above ⟨head, children⟩ else []) ++ spotsAmong above nodes

/-- The spots of the arguments of a call. -/
def spotsInArguments (above : List Node) : List Node → List Spot
  | [] => []
  | ⟨head, children⟩ :: nodes =>
    if head.field = some "arguments" then spotsAmong (⟨head, children⟩ :: above) children
    else spotsInArguments above nodes

end

/-- The spots of the named ones of some nodes, but for the first one in each header field. -/
def spotsInBody (above : List Node) (header : List String) : List Node → List Spot
  | [] => []
  | node :: nodes =>
    match node.head.field.filter header.contains with
    | some field => spotsInBody above (header.erase field) nodes
    | none =>
      (if node.head.named then spotsOf file known above node else [])
        ++ spotsInBody above header nodes

/-- The spots inside of a class or a module. -/
def spotsInside (node : Node) : List Spot :=
  spotsInBody file known [node] headerFields node.children

end Spots

/-- The construct is a class or a module. -/
def isOpening : Construct → Bool
  | .classDefinition | .moduleDefinition => true
  | _ => false

/-- The construct is a definition of a method. -/
def isDefinition : Construct → Bool
  | .method | .singletonMethod => true
  | _ => false

/-- The frames that the walk of a file goes into, at any depth: whose they are, whether its name can
be told, and their spots. -/
inductive Framed (file : RubyFile) (root : Node) : Node → Bool → List Spot → Prop
  | top : Framed file root root false (spotsAmong file false [root] root.children)
  | unnamed {outer : Node} {known : Bool} {spots : List Spot} {spot : Spot} :
      Framed file root outer known spots → spot ∈ spots → isOpening spot.node.head.construct →
      namingOf file spot.node = .unnamed →
      Framed file root spot.node false (spotsInside file false spot.node)
  | named {outer : Node} {known : Bool} {spots : List Spot} {spot : Spot} {name : TypeName} :
      Framed file root outer known spots → spot ∈ spots → isOpening spot.node.head.construct →
      namingOf file spot.node = .named name →
      Framed file root spot.node true (spotsInside file true spot.node)

/-! ## Modifiers -/

/-- The visibility that a call without a receiver sets by its name, and the keyword for it. -/
def modifierOf? (file : RubyFile) (call : Node) : Option Modifier :=
  if call.head.construct = .call ∧ (call.child? "receiver").isNone then
    (call.child? "method").bind fun keyword =>
      (visibility? (keyword.string file.buffer)).map (⟨·, some (keyword.range file.buffer)⟩)
  else none

/-- What is written before a node that stands under these nodes: the modifier of the call that it is
a direct argument of. What holds the arguments of such a call is no call itself. -/
def modifier? (file : RubyFile) : List Node → Option Modifier
  | holder :: call :: outer =>
    if holder.head.field = some "arguments" ∧ (modifier? file (call :: outer)).isNone then
      modifierOf? file call
    else none
  | _ => none

/-- A word for a visibility is no other keyword. -/
theorem ofName_of_visibility? {name : String} {visibility : Visibility}
    (word : visibility? name = some visibility) : CallKind.ofName name = .modifier visibility := by
  unfold visibility? at word
  split at word
  · exact Option.some.inj word ▸ rfl
  · exact Option.some.inj word ▸ rfl
  · cases word

theorem visibility?_of_ofName {name : String} {visibility : Visibility}
    (kind : CallKind.ofName name = .modifier visibility) : visibility? name = some visibility := by
  unfold CallKind.ofName at kind
  split at kind
  · cases kind
  · cases kind
  · rename_i word _ _
    exact CallKind.modifier.inj kind ▸ word
  · cases kind

/-- Where names can be told, a call sets a visibility exactly if this is what it does. -/
theorem modifierOf?_of_call (node : Node) (isCall : node.head.construct = .call) :
    modifierOf? file node = match callKindIn file true node with
      | .modifier visibility =>
        some ⟨visibility, (node.child? "method").map (·.range file.buffer)⟩
      | _ => none := by
  unfold modifierOf? callKindIn
  rw [isCall]
  cases node.child? "receiver" with
  | some receiver => rfl
  | none =>
      cases node.child? "method" with
      | none => rfl
      | some keyword =>
          show (visibility? _).map _ = _
          dsimp only
          cases word : visibility? (keyword.string file.buffer) with
          | some visibility =>
              rw [ofName_of_visibility? word]
              rfl
          | none =>
              split
              · rename_i visibility kind
                rw [visibility?_of_ofName kind] at word
                cases word
              · rfl

/-- What is not visited as the holder of arguments, and does not set a visibility, holds no
arguments. -/
theorem modifier?_eq_none (noCall : modifierOf? file parent = none) :
    modifier? file (node :: parent :: above) = none := by
  unfold modifier?
  rw [noCall, ite_self]

theorem modifier?_of_isSome (holds : (modifier? file (parent :: above)).isSome = true) :
    modifier? file (node :: parent :: above) = none := by
  unfold modifier?
  rw [if_neg]
  rintro ⟨-, isNone⟩
  simp_all

theorem modifier?_holder (node : Node) (visited : modifier? file (call :: above) = none)
    (holds : node.head.field = some "arguments") :
    modifier? file (node :: call :: above) = modifierOf? file call := by
  rw [modifier?, if_pos ⟨holds, by rw [visited]; rfl⟩]

theorem modifierOf?_of_construct_ne (node : Node) (other : node.head.construct ≠ .call) :
    modifierOf? file node = none :=
  if_neg fun isCall => other isCall.1

/-! ## Sites and spots -/

/-- What is done at a spot fits where it is: a word is an identifier below a node of the kind that
is known for it, and a definition has the modifier that is written before it. -/
def Action.Fits (file : RubyFile) (known : Bool) (spot : Spot) : Action → Prop
  | word parentKind => spot.node.head.construct = .identifier ∧
      spot.above.head?.map (·.kind) = some parentKind
  | method modifier => isDefinition spot.node.head.construct ∧
      (known = true → modifier = modifier? file spot.above)
  | _ => spot.node.head.construct ≠ .identifier

/-- The sites are those of the spots, one by one, also further inside. -/
inductive Fits (file : RubyFile) : Bool → List Site → List Spot → Prop
  | nil {known : Bool} : Fits file known [] []
  | act {known : Bool} {node : Node} {action : Action} {above : List Node} {sites : List Site}
      {spots : List Spot} : action.Fits file known ⟨node, above⟩ → Fits file known sites spots →
      Fits file known (.act node action :: sites) (⟨node, above⟩ :: spots)
  | skipped {known isModule : Bool} {node : Node} {above : List Node} {sites : List Site}
      {spots : List Spot} : isOpening node.head.construct → Fits file known sites spots →
      Fits file known (.skipped isModule node :: sites) (⟨node, above⟩ :: spots)
  | unnamed {known isModule : Bool} {node : Node} {above : List Node} {inside sites : List Site}
      {spots : List Spot} : isOpening node.head.construct → namingOf file node = .unnamed →
      Fits file false inside (spotsInside file false node) → Fits file known sites spots →
      Fits file known (.unnamed isModule node inside :: sites) (⟨node, above⟩ :: spots)
  | declared {known isModule : Bool} {node : Node} {name : TypeName} {above : List Node}
      {inside sites : List Site} {spots : List Spot} : isOpening node.head.construct →
      namingOf file node = .named name →
      Fits file true inside (spotsInside file true node) → Fits file known sites spots →
      Fits file known (.declared isModule node name inside :: sites) (⟨node, above⟩ :: spots)

namespace Fits

variable {sites more : List Site} {spots further : List Spot}

theorem single {action : Action} (fits : action.Fits file known ⟨node, above⟩) :
    Fits file known [.act node action] [⟨node, above⟩] := .act fits .nil

theorem append (first : Fits file known sites spots) (second : Fits file known more further) :
    Fits file known (sites ++ more) (spots ++ further) := by
  induction first with
  | nil => exact second
  | act here _ ih => exact .act here (ih second)
  | skipped opening _ ih => exact .skipped opening (ih second)
  | unnamed opening naming inside _ _ ih => exact .unnamed opening naming inside (ih second)
  | declared opening naming inside _ _ ih => exact .declared opening naming inside (ih second)

/-- Anonymous nodes are passed over. -/
theorem append_ite {named : Bool} (first : named = true → Fits file known sites spots)
    (second : Fits file known more further) :
    Fits file known ((if named then sites else []) ++ more)
      ((if named then spots else []) ++ further) := by
  cases named with
  | true => exact (first rfl).append second
  | false => exact second

end Fits

theorem namingOf_eq_headless_iff :
    namingOf file node = .headless ↔ node.child? "name" = none := by
  unfold namingOf
  cases node.child? "name" with
  | none => exact ⟨fun _ => rfl, fun _ => rfl⟩
  | some nameNode =>
      refine ⟨fun headless => ?_, nofun⟩
      dsimp only at headless
      split at headless
      · cases headless
      · split at headless
        · cases headless
        · split at headless <;> cases headless

/-- A class or a module with a name field is a spot, with its inside as it would be known. -/
theorem Fits.moduleSites {isModule : Bool} {all : List Site} {spots : List Spot}
    {body : Bool → List Site} (opening : isOpening node.head.construct)
    (children : Fits file known all spots)
    (inside : ∀ known, Fits file known (body known) (spotsInside file known node)) :
    Fits file known (moduleSites file isModule node all body)
      (if (node.child? "name").isSome then [⟨node, above⟩] else spots) := by
  unfold Inline.moduleSites
  by_cases headless : node.child? "name" = none
  · rw [namingOf_eq_headless_iff.2 headless, headless]
    exact children
  · rw [if_pos (Option.isSome_iff_ne_none.2 headless)]
    cases naming : namingOf file node with
    | headless => exact (headless (namingOf_eq_headless_iff.1 naming)).elim
    | skipped => exact .skipped opening .nil
    | unnamed => exact .unnamed opening naming (inside false) .nil
    | named name => exact .declared opening naming (inside true) .nil

-- One statement for each of the functions that list sites. Modifiers are only of interest where
-- names can be told, since nothing is extracted elsewhere.
mutual

/-- The sites at and below a node that does not hold the arguments of a modifier. -/
theorem fits_sitesOf (file : RubyFile) (known : Bool) : ∀ (node : Node) {parent : Node}
    {above : List Node},
    (known = true → modifier? file (node :: parent :: above) = none) →
    (isDefinition node.head.construct → known = true → modifier? file (parent :: above) = none) →
    Fits file known (sitesOf file known parent.kind node)
      (spotsOf file known (parent :: above) node)
  | ⟨head, children⟩, parent, above, noHolder, unmodified => by
      have all : (known = true → modifierOf? file ⟨head, children⟩ = none) → Fits file known
          (sitesAmong file known head.kind children)
          (spotsAmong file known (⟨head, children⟩ :: parent :: above) children) := fun noCall =>
        fits_sitesAmong file known ⟨head, children⟩ children
          (fun _ known => modifier?_eq_none (noCall known)) noHolder
      have inside : head.construct ≠ .call → ∀ known, Fits file known
          (sitesInBody file known head.kind headerFields children)
          (spotsInside file known ⟨head, children⟩) := fun other known =>
        fits_sitesInBody file known ⟨head, children⟩ headerFields children
          (modifierOf?_of_construct_ne ⟨head, children⟩ other)
      have other : head.construct ≠ .call → modifierOf? file ⟨head, children⟩ = none :=
        modifierOf?_of_construct_ne ⟨head, children⟩
      unfold sitesOf spotsOf
      cases construct : head.construct with
      | classDefinition | moduleDefinition =>
          rw [construct] at inside other
          refine .moduleSites ?_ (all fun _ => other nofun) (inside nofun)
          exact congrArg isOpening construct
      | singletonClass => exact .single fun same => nomatch construct.symm.trans same
      | method | singletonMethod =>
          have definition : isDefinition head.construct := congrArg isDefinition construct
          exact .single ⟨definition, fun known => (unmodified definition known).symm⟩
      | identifier => exact .single ⟨construct, rfl⟩
      | other =>
          rw [construct] at other
          exact all fun _ => other nofun
      | call =>
          have noWord : head.construct ≠ .identifier :=
            fun same => nomatch construct.symm.trans same
          dsimp only
          cases called : callKindIn file known ⟨head, children⟩ with
          | mixin kind | attr kind => exact .single noWord
          | modifier visibility =>
              refine fits_sitesInArguments file known ⟨head, children⟩ _ children fun isKnown => ?_
              refine ⟨noHolder isKnown, ?_⟩
              subst isKnown
              rw [modifierOf?_of_call ⟨head, children⟩ construct, called]
          | other =>
              refine all fun isKnown => ?_
              subst isKnown
              rw [modifierOf?_of_call ⟨head, children⟩ construct, called]
  termination_by structural node => node

theorem fits_sitesAmong (file : RubyFile) (known : Bool) (parent : Node) {above : List Node} :
    ∀ nodes : List Node,
    (∀ node, known = true → modifier? file (node :: parent :: above) = none) →
    (known = true → modifier? file (parent :: above) = none) →
    Fits file known (sitesAmong file known parent.kind nodes)
      (spotsAmong file known (parent :: above) nodes)
  | [], _, _ => .nil
  | ⟨head, children⟩ :: nodes, noHolder, unmodified => by
      unfold sitesAmong spotsAmong
      exact .append_ite
        (fun _ => fits_sitesOf file known ⟨head, children⟩ (noHolder _) fun _ => unmodified)
        (fits_sitesAmong file known parent nodes noHolder unmodified)
  termination_by structural nodes => nodes

theorem fits_sitesInBody (file : RubyFile) (known : Bool) (parent : Node) (header : List String) :
    ∀ nodes : List Node, modifierOf? file parent = none →
    Fits file known (sitesInBody file known parent.kind header nodes)
      (spotsInBody file known [parent] header nodes)
  | [], _ => .nil
  | ⟨head, children⟩ :: nodes, noCall => by
      unfold sitesInBody spotsInBody
      have rest := fun header => fits_sitesInBody file known parent header nodes noCall
      show Fits file known (match head.field.filter header.contains with | some _ => _ | none => _)
        (match head.field.filter header.contains with | some _ => _ | none => _)
      split
      · exact rest _
      · refine .append_ite (fun _ => ?_) (rest header)
        exact fits_sitesOf file known ⟨head, children⟩ (fun _ => modifier?_eq_none noCall)
          fun _ _ => rfl
  termination_by structural nodes => nodes

theorem fits_sitesInArguments (file : RubyFile) (known : Bool) (call : Node) {above : List Node}
    (modifier : Modifier) : ∀ nodes : List Node,
    (known = true → modifier? file (call :: above) = none ∧ modifierOf? file call = some modifier) →
    Fits file known (sitesInArguments file known modifier nodes)
      (spotsInArguments file known (call :: above) nodes)
  | [], _ => .nil
  | ⟨head, children⟩ :: nodes, sets => by
      unfold sitesInArguments spotsInArguments
      split
      · rename_i holds
        refine fits_sitesModified file known ⟨head, children⟩ modifier children fun known => ?_
        rw [modifier?_holder ⟨head, children⟩ (sets known).1 holds, (sets known).2]
      · exact fits_sitesInArguments file known call modifier nodes sets
  termination_by structural nodes => nodes

theorem fits_sitesModified (file : RubyFile) (known : Bool) (holder : Node) {above : List Node}
    (modifier : Modifier) : ∀ nodes : List Node,
    (known = true → modifier? file (holder :: above) = some modifier) →
    Fits file known (sitesModified file known modifier holder.kind nodes)
      (spotsAmong file known (holder :: above) nodes)
  | [], _ => .nil
  | ⟨head, children⟩ :: nodes, modified => by
      unfold sitesModified spotsAmong
      have rest := fits_sitesModified file known holder modifier nodes modified
      refine .append_ite (fun _ => ?_) rest
      -- an argument does not hold the arguments of another modifier, whatever the holder looks like
      have visited : known = true → modifier? file (⟨head, children⟩ :: holder :: above) = none :=
        fun known => modifier?_of_isSome (by rw [modified known]; rfl)
      cases construct : head.construct with
      | method | singletonMethod =>
          unfold spotsOf
          rw [construct]
          exact .single ⟨congrArg isDefinition construct, fun known => (modified known).symm⟩
      | _ =>
          refine fits_sitesOf file known ⟨head, children⟩ visited fun definition => ?_
          rw [show (Node.mk head children).head.construct = _ from construct] at definition
          cases definition
  termination_by structural nodes => nodes

end

end Signet.Inline

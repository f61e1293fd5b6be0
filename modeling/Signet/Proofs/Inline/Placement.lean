import Signet.Proofs.Inline.Extraction
import Signet.Proofs.Inline.History

/-!
# Where declarations go

Extraction neither loses nor repeats nor reorders declarations (`declarations_placed`). Each class
or module that the walk reaches and that has a name is declared once: as a member of the declaration
around it, or as a result of its own with the context there. To say so, both sides are drawn as
outlines: the sites of the file, and the declarations of the result. By induction on the history of
the extraction they are the same.

The order is that of the nodes. In a well formed tree nodes come in the order in which they begin,
the sites visit them in that order, and each member lies at the node of its site.
-/

namespace Signet

open Ruby

/-! ## Trees in order -/

/-- The node covers some bytes, and its children lie in them, one after the other. -/
structure Ruby.Node.Nested (node : Node) : Prop where
  start_le_stop : node.bytes.start ≤ node.bytes.stop
  inside : ∀ child ∈ node.children,
    node.bytes.start ≤ child.bytes.start ∧ child.bytes.stop ≤ node.bytes.stop
  ordered : node.children.Pairwise fun left right => left.bytes.stop ≤ right.bytes.start

namespace Ruby.Node

theorem nested_iff {node : Node} : node.Nested ↔
    node.bytes.start ≤ node.bytes.stop ∧
      (∀ child ∈ node.children,
        node.bytes.start ≤ child.bytes.start ∧ child.bytes.stop ≤ node.bytes.stop) ∧
      node.children.Pairwise fun left right => left.bytes.stop ≤ right.bytes.start :=
  ⟨fun nested => ⟨nested.start_le_stop, nested.inside, nested.ordered⟩,
    fun ⟨start_le_stop, inside, ordered⟩ => ⟨start_le_stop, inside, ordered⟩⟩

instance {node : Node} : Decidable node.Nested := decidable_of_iff' _ nested_iff

/-- A node begins no later than another. -/
def Before (left right : Node) : Prop := left.bytes.start ≤ right.bytes.start

-- A tree and a list of trees, along their common recursion.
mutual

/-- What is below a node lies in it. -/
theorem inside_of_mem_preorder : ∀ node : Node, (∀ below ∈ node.preorder, below.Nested) →
    ∀ below ∈ node.preorder,
      node.bytes.start ≤ below.bytes.start ∧ below.bytes.stop ≤ node.bytes.stop
  | ⟨head, children⟩, nested, below, member => by
      obtain ⟨here, later⟩ := List.forall_mem_cons.1 nested
      rcases List.mem_cons.1 member with rfl | member
      · exact ⟨Nat.le_refl _, Nat.le_refl _⟩
      · obtain ⟨child, isChild, inChild⟩ := inside_of_mem_preorderAll children later below member
        have inHere := here.inside child isChild
        exact ⟨Nat.le_trans inHere.1 inChild.1, Nat.le_trans inChild.2 inHere.2⟩

/-- What is below some nodes lies in one of them. -/
theorem inside_of_mem_preorderAll : ∀ nodes : List Node,
    (∀ below ∈ preorderAll nodes, below.Nested) → ∀ below ∈ preorderAll nodes,
      ∃ node ∈ nodes, node.bytes.start ≤ below.bytes.start ∧ below.bytes.stop ≤ node.bytes.stop
  | [], _, _, member => nomatch member
  | node :: nodes, nested, below, member => by
      obtain ⟨here, later⟩ := List.forall_mem_append.1 nested
      rcases List.mem_append.1 member with member | member
      · exact ⟨node, List.mem_cons_self, inside_of_mem_preorder node here below member⟩
      · obtain ⟨other, isNode, inOther⟩ := inside_of_mem_preorderAll nodes later below member
        exact ⟨other, List.mem_cons_of_mem _ isNode, inOther⟩

end

mutual

/-- Nodes are listed in the order in which they begin. -/
theorem preorder_pairwise : ∀ node : Node, (∀ below ∈ node.preorder, below.Nested) →
    node.preorder.Pairwise Before
  | ⟨head, children⟩, nested => by
      obtain ⟨here, later⟩ := List.forall_mem_cons.1 nested
      refine List.pairwise_cons.2 ⟨fun below member => ?_, ?_⟩
      · exact (inside_of_mem_preorder _ nested below (List.mem_cons_of_mem _ member)).1
      · exact preorderAll_pairwise children later here.ordered

theorem preorderAll_pairwise : ∀ nodes : List Node,
    (∀ below ∈ preorderAll nodes, below.Nested) →
    nodes.Pairwise (fun left right => left.bytes.stop ≤ right.bytes.start) →
      (preorderAll nodes).Pairwise Before
  | [], _, _ => .nil
  | node :: nodes, nested, ordered => by
      obtain ⟨here, later⟩ := List.forall_mem_append.1 nested
      obtain ⟨first, rest⟩ := List.pairwise_cons.1 ordered
      refine List.pairwise_append.2
        ⟨preorder_pairwise node here, preorderAll_pairwise nodes later rest, ?_⟩
      -- what is in the first node ends before anything in a later one begins
      intro left inFirst right inRest
      obtain ⟨other, isNode, inOther⟩ := inside_of_mem_preorderAll nodes later right inRest
      have ends := (inside_of_mem_preorder node here left inFirst).2
      have follows := first other isNode
      have covers := (here left inFirst).start_le_stop
      show left.bytes.start ≤ right.bytes.start
      omega

end

end Ruby.Node

/-- A tree of some buffer: its nodes are well placed, and the children of each lie in it, one after
the other. -/
structure Inline.WellFormed (buffer : Buffer) (root : Node) : Prop where
  placed : ∀ node ∈ root.preorder, WellPlaced buffer node
  nested : ∀ node ∈ root.preorder, node.Nested

/-! ## Outlines -/

/-- What is declared at a node: a class or a module, its name, and the characters there. -/
structure Caption where
  isModule : Bool
  name : TypeName
  range : Range
deriving DecidableEq, Repr

/-- A declaration with the declarations among its members. -/
inductive Outline where
  | mk (caption : Caption) (inside : List Outline)

mutual

/-- The captions of an outline. -/
def Outline.captions : Outline → List Caption
  | ⟨caption, inside⟩ => caption :: captionsAmong inside

/-- The captions of some outlines. -/
def captionsAmong : List Outline → List Caption
  | [] => []
  | outline :: outlines => outline.captions ++ captionsAmong outlines

end

/-- The caption of a heading. -/
def Heading.caption (heading : Heading) : Caption :=
  ⟨heading.isModule, heading.name, heading.location.range⟩

mutual

/-- The outline of a declaration. -/
def Declaration.outline : Declaration → Outline
  | ⟨heading, members⟩ => ⟨heading.caption, outlinesOf members⟩

/-- The outlines of the declarations among some members. -/
def outlinesOf : List Member → List Outline
  | [] => []
  | .nested declaration :: members => declaration.outline :: outlinesOf members
  | _ :: members => outlinesOf members

end

/-- The context and the outline of a result. -/
def Record.outline (record : Record) : Context × Outline :=
  (record.context, record.declaration.outline)

/-- The member begins no later than another. -/
def Member.Before (left right : Member) : Prop :=
  left.location.range.start ≤ right.location.range.start

mutual

/-- The members of a declaration are in order, and so are those of the declarations among them. -/
def Declaration.Ordered : Declaration → Prop
  | ⟨_, members⟩ => members.Pairwise Member.Before ∧ OrderedInside members

/-- The members of the declarations among some members are in order. -/
def OrderedInside : List Member → Prop
  | [] => True
  | .nested declaration :: members => declaration.Ordered ∧ OrderedInside members
  | _ :: members => OrderedInside members

end

namespace Inline

variable {file : RubyFile} {node : Node} {before after : Progress} {sites : List Site}
  {events : List Event}

section Sites

variable (buffer : Buffer)

mutual

/-- What is declared at a site itself. -/
def Site.outlines : Site → List Outline
  | .declared isModule node name inside =>
    [⟨⟨isModule, name, node.range buffer⟩, outlinesAt inside⟩]
  | _ => []

/-- What is declared at some sites themselves. -/
def outlinesAt : List Site → List Outline
  | [] => []
  | site :: sites => site.outlines ++ outlinesAt sites

end

mutual

/-- What is declared at a site and inside it without a declaration around, each in its context. The
site is inside a module whose name can or cannot be told. -/
def Site.tops (known : Bool) (context : Context) : Site → List (Context × Outline)
  | .declared isModule node name inside =>
    (if known then []
      else [(context, ⟨⟨isModule, name, node.range buffer⟩, outlinesAt buffer inside⟩)])
      ++ topsAt true (context.enter (context.qualify name)) inside
  | .unnamed _ _ inside => topsAt false context.enterUnknown inside
  | _ => []

/-- What is declared at some sites and inside them without a declaration around. -/
def topsAt (known : Bool) (context : Context) : List Site → List (Context × Outline)
  | [] => []
  | site :: sites => site.tops known context ++ topsAt known context sites

end

mutual

/-- All that is declared at a site and inside it. -/
def Site.captions : Site → List Caption
  | .declared isModule node name inside => ⟨isModule, name, node.range buffer⟩ :: captionsAt inside
  | .unnamed _ _ inside => captionsAt inside
  | _ => []

/-- All that is declared at some sites and inside them. -/
def captionsAt : List Site → List Caption
  | [] => []
  | site :: sites => site.captions ++ captionsAt sites

end

end Sites

mutual

/-- The nodes of a site and of the sites inside it. -/
def Site.nodes : Site → List Node
  | .act node _ => [node]
  | .skipped _ node => [node]
  | .unnamed _ node inside => node :: nodesAt inside
  | .declared _ node _ inside => node :: nodesAt inside

/-- The nodes of some sites and of the sites inside them. -/
def nodesAt : List Site → List Node
  | [] => []
  | site :: sites => site.nodes ++ nodesAt sites

end

/-! ## Outlines of a history -/

theorem caption_of_form {isModule : Bool} {heading : Heading}
    (lies : Form.At file node isModule heading.form) :
    heading.caption = ⟨isModule, heading.name, node.range file.buffer⟩ := by
  obtain ⟨name, typeParams, comment, form⟩ := heading
  cases form with
  | ofClass superclass location =>
      obtain ⟨rfl, -, range_eq⟩ := lies
      rw [← range_eq]
      rfl
  | ofModule selfTypes location =>
      obtain ⟨rfl, -, range_eq⟩ := lies
      rw [← range_eq]
      rfl

theorem outlinesOf_append (members more : List Member) :
    outlinesOf (members ++ more) = outlinesOf members ++ outlinesOf more := by
  induction members with
  | nil => rfl
  | cons member members ih => cases member <;> simp [outlinesOf, ih]

/-- No action makes a declaration. -/
theorem outlinesOf_of_makes {action : Action} {members : List Member}
    (makes : ∀ member ∈ members, action.Makes member) : outlinesOf members = [] := by
  induction members with
  | nil => rfl
  | cons member members ih =>
      obtain ⟨here, later⟩ := List.forall_mem_cons.1 makes
      cases member with
      | nested declaration => cases action <;> exact here.elim
      | _ => exact ih later

theorem outlinesOf_added {action : Action}
    (ran : (action.perform file node).run before = (.ok (), after)) :
    outlinesOf (Progress.added before after) = [] :=
  outlinesOf_of_makes fun member inside => (action.writes_added ran member inside).1.1

/-- Members have the outlines of the sites, and results have their contexts and outlines. -/
theorem History.outlines_eq (history : History file sites before events after) :
    outlinesOf (membersOf events) = outlinesAt file.buffer sites ∧
    (recordsOf before.isKnown before.context events).map Record.outline =
      topsAt file.buffer before.isKnown before.context sites := by
  refine history.induction (motive := fun known context sites events =>
    outlinesOf (membersOf events) = outlinesAt file.buffer sites ∧
      (recordsOf known context events).map Record.outline =
        topsAt file.buffer known context sites) ?done ?act ?skipped ?unnamed ?declared
  case done =>
    intro known context
    exact ⟨rfl, rfl⟩
  case act =>
    intro node action before after sites events ran ih
    refine ⟨?_, ih.2⟩
    rw [membersOf, outlinesOf_append, Event.members, outlinesOf_added ran, ih.1]
    rfl
  case skipped =>
    intro isModule node known context sites events ih
    exact ih
  case unnamed =>
    intro isModule node known context inside found sites events inner ih
    refine ⟨ih.1, ?_⟩
    rw [recordsOf, Event.records, List.map_append, inner.2, ih.2]
    rfl
  case declared =>
    intro isModule node heading known context inside found sites events lies inner ih
    have itself : Declaration.outline ⟨heading, membersOf found⟩ =
        ⟨⟨isModule, heading.name, node.range file.buffer⟩, outlinesAt file.buffer inside⟩ := by
      rw [Declaration.outline, inner.1, caption_of_form lies]
    refine ⟨List.cons_eq_cons.2 ⟨itself, ih.1⟩, ?_⟩
    rw [recordsOf, Event.records, List.map_append, List.map_append, inner.2, ih.2, topsAt,
      Site.tops, ← itself]
    cases known <;> rfl

/-! ## Everything once -/

theorem perm_interchange {α : Type} (a b c d : List α) :
    ((a ++ b) ++ (c ++ d)).Perm ((a ++ c) ++ (b ++ d)) := by
  rw [List.append_assoc, List.append_assoc, ← List.append_assoc b, ← List.append_assoc c]
  exact (List.perm_append_comm.append_right d).append_left a

theorem captionsAmong_append (outlines more : List Outline) :
    captionsAmong (outlines ++ more) = captionsAmong outlines ++ captionsAmong more := by
  induction outlines with
  | nil => rfl
  | cons outline outlines ih => rw [List.cons_append, captionsAmong, captionsAmong, ih,
      List.append_assoc]

/-- The captions of outlines that stand by themselves. -/
def captionsOfTops (tops : List (Context × Outline)) : List Caption :=
  tops.flatMap fun top => top.2.captions

mutual

/-- What is declared at a site and inside it goes into the declaration around it, if there is one,
or stands by itself. -/
theorem captions_perm_site (buffer : Buffer) (known : Bool) (context : Context) : ∀ site : Site,
    ((if known then captionsAmong (site.outlines buffer) else []) ++
      captionsOfTops (site.tops buffer known context)).Perm (site.captions buffer)
  | .act .. => by cases known <;> exact .refl _
  | .skipped .. => by cases known <;> exact .refl _
  | .unnamed _ _ inside => by
      have inner := captions_perm buffer false context.enterUnknown inside
      cases known <;> exact inner
  | .declared isModule node name inside => by
      have inner := captions_perm buffer true (context.enter (context.qualify name)) inside
      have whole := inner.cons ⟨isModule, name, node.range buffer⟩
      cases known with
      | true => simpa [Site.outlines, Site.tops, Site.captions, captionsAmong, Outline.captions]
          using whole
      | false => simpa [Site.outlines, Site.tops, Site.captions, captionsOfTops, Outline.captions]
          using whole

theorem captions_perm (buffer : Buffer) (known : Bool) (context : Context) : ∀ sites : List Site,
    ((if known then captionsAmong (outlinesAt buffer sites) else []) ++
      captionsOfTops (topsAt buffer known context sites)).Perm (captionsAt buffer sites)
  | [] => by cases known <;> exact .refl _
  | site :: sites => by
      have here := captions_perm_site buffer known context site
      have later := captions_perm buffer known context sites
      have both := (perm_interchange ..).trans (here.append later)
      cases known with
      | true => simpa [outlinesAt, topsAt, captionsAt, captionsAmong_append, captionsOfTops]
          using both
      | false => simpa [topsAt, captionsAt, captionsOfTops] using both

end

/-! ## Order -/

/-- Characters at some of the nodes, in order. -/
structure Along (buffer : Buffer) (nodes : List Node) (ranges : List Range) : Prop where
  at_node : ∀ range ∈ ranges, ∃ node ∈ nodes, range = node.range buffer
  sorted : ranges.Pairwise fun left right => left.start ≤ right.start

namespace Along

variable {buffer : Buffer} {nodes more : List Node} {ranges further : List Range}

theorem nil : Along buffer nodes [] := ⟨nofun, .nil⟩

/-- Any number of times at one node. -/
theorem single (same : ∀ range ∈ ranges, range = node.range buffer) :
    Along buffer [node] ranges where
  at_node range inside := ⟨node, List.mem_cons_self, same range inside⟩
  sorted := by
    refine List.pairwise_iff_forall_sublist.2 fun {left right} pair => ?_
    have left_eq := same left (pair.subset (by simp))
    have right_eq := same right (pair.subset (by simp))
    exact Nat.le_of_eq (congrArg Range.start (left_eq.trans right_eq.symm))

/-- At some nodes and then at later ones. -/
theorem append (ordered : (nodes ++ more).Pairwise Node.Before) (first : Along buffer nodes ranges)
    (second : Along buffer more further) : Along buffer (nodes ++ more) (ranges ++ further) where
  at_node range inside := by
    rcases List.mem_append.1 inside with inside | inside
    · obtain ⟨node, isNode, same⟩ := first.at_node range inside
      exact ⟨node, List.mem_append_left _ isNode, same⟩
    · obtain ⟨node, isNode, same⟩ := second.at_node range inside
      exact ⟨node, List.mem_append_right _ isNode, same⟩
  sorted := by
    refine List.pairwise_append.2 ⟨first.sorted, second.sorted, ?_⟩
    intro left inFirst right inSecond
    obtain ⟨node, isNode, rfl⟩ := first.at_node left inFirst
    obtain ⟨other, isOther, rfl⟩ := second.at_node right inSecond
    exact Text.charOfByte_mono _ ((List.pairwise_append.1 ordered).2.2 node isNode other isOther)

/-- Among more nodes. -/
theorem mono (along : Along buffer nodes ranges) (subset : nodes ⊆ more) :
    Along buffer more ranges where
  at_node range inside := by
    obtain ⟨node, isNode, same⟩ := along.at_node range inside
    exact ⟨node, subset isNode, same⟩
  sorted := along.sorted

end Along

theorem orderedInside_append (members more : List Member) :
    OrderedInside (members ++ more) ↔ OrderedInside members ∧ OrderedInside more := by
  induction members with
  | nil => simp [OrderedInside]
  | cons member members ih => cases member <;> simp [OrderedInside, ih, and_assoc]

/-- Without declarations there is nothing inside. -/
theorem orderedInside_of_outlines {members : List Member} (none : outlinesOf members = []) :
    OrderedInside members := by
  induction members with
  | nil => trivial
  | cons member members ih =>
      cases member with
      | nested declaration => exact nomatch none
      | _ => exact ih none

/-- The ranges of some members. -/
def rangesOf (members : List Member) : List Range :=
  members.map fun member => member.location.range

theorem Along.members_before {buffer : Buffer} {nodes : List Node} {members : List Member}
    (along : Along buffer nodes (rangesOf members)) : members.Pairwise Member.Before := by
  have sorted := along.sorted
  rwa [rangesOf, List.pairwise_map] at sorted

/-- What an action adds is at its node. -/
theorem along_added {action : Action}
    (ran : (action.perform file node).run before = (.ok (), after)) :
    Along file.buffer [node] (rangesOf (Progress.added before after)) := by
  refine .single fun range inside => ?_
  obtain ⟨member, isMember, rfl⟩ := List.mem_map.1 inside
  exact (action.writes_added ran member isMember).1.2.2

theorem range_of_form {isModule : Bool} {heading : Heading}
    (lies : Form.At file node isModule heading.form) :
    heading.location.range = node.range file.buffer :=
  congrArg Caption.range (caption_of_form lies)

/-- The ranges of some results. -/
def rangesOfRecords (records : List Record) : List Range :=
  records.map fun record => record.declaration.location.range

/-- Members and results are at some nodes, in order, and so are the members further inside. -/
structure InOrder (buffer : Buffer) (nodes : List Node) (members : List Member)
    (records : List Record) : Prop where
  members_along : Along buffer nodes (rangesOf members)
  members_inside : OrderedInside members
  records_along : Along buffer nodes (rangesOfRecords records)
  records_ordered : ∀ record ∈ records, record.declaration.Ordered

namespace InOrder

variable {buffer : Buffer} {nodes more : List Node} {members further : List Member}
  {records others : List Record}

theorem mono (first : InOrder buffer nodes members records) (subset : nodes ⊆ more) :
    InOrder buffer more members records :=
  ⟨first.members_along.mono subset, first.members_inside, first.records_along.mono subset,
    first.records_ordered⟩

theorem append (ordered : (nodes ++ more).Pairwise Node.Before)
    (first : InOrder buffer nodes members records)
    (second : InOrder buffer more further others) :
    InOrder buffer (nodes ++ more) (members ++ further) (records ++ others) where
  members_along := by
    rw [rangesOf, List.map_append]
    exact first.members_along.append ordered second.members_along
  members_inside := (orderedInside_append ..).2 ⟨first.members_inside, second.members_inside⟩
  records_along := by
    rw [rangesOfRecords, List.map_append]
    exact first.records_along.append ordered second.records_along
  records_ordered := List.forall_mem_append.2 ⟨first.records_ordered, second.records_ordered⟩

/-- What an action adds. -/
theorem act {action : Action} (ran : (action.perform file node).run before = (.ok (), after)) :
    InOrder file.buffer [node] (Progress.added before after) [] :=
  ⟨along_added ran, orderedInside_of_outlines (outlinesOf_added ran), .nil, nofun⟩

/-- A declaration around what is in order, by itself or as a member. -/
theorem declared {isModule known : Bool} {heading : Heading} {context : Context}
    (lies : Form.At file node isModule heading.form)
    (ordered : (node :: nodes).Pairwise Node.Before)
    (inside : InOrder file.buffer nodes members records) :
    InOrder file.buffer (node :: nodes) [.nested ⟨heading, members⟩]
      ((if known then [] else [⟨context, ⟨heading, members⟩⟩]) ++ records) := by
  have itself : Declaration.Ordered ⟨heading, members⟩ :=
    ⟨inside.members_along.members_before, inside.members_inside⟩
  have here : Along file.buffer [node] [heading.location.range] :=
    .single (by simpa using range_of_form lies)
  have member := here.mono (List.cons_subset_cons node (List.nil_subset nodes))
  cases known with
  | true =>
      exact ⟨member, ⟨itself, trivial⟩, inside.records_along.mono (List.subset_cons_self ..),
        inside.records_ordered⟩
  | false =>
      exact ⟨member, ⟨itself, trivial⟩, here.append ordered inside.records_along,
        List.forall_mem_cons.2 ⟨itself, inside.records_ordered⟩⟩

end InOrder

/-- Where the sites are in order, members and results are at their nodes, in order. -/
theorem History.inOrder (history : History file sites before events after)
    (ordered : (nodesAt sites).Pairwise Node.Before) :
    InOrder file.buffer (nodesAt sites) (membersOf events)
      (recordsOf before.isKnown before.context events) := by
  refine history.induction (motive := fun known context sites events =>
    (nodesAt sites).Pairwise Node.Before → InOrder file.buffer (nodesAt sites) (membersOf events)
      (recordsOf known context events)) ?done ?act ?skipped ?unnamed ?declared ordered
  case done =>
    intro known context _
    exact ⟨.nil, trivial, .nil, nofun⟩
  case act =>
    intro node action before after sites events ran ih ordered
    exact (InOrder.act ran).append ordered (ih (List.pairwise_cons.1 ordered).2)
  case skipped =>
    intro isModule node known context sites events ih ordered
    exact (ih (List.pairwise_cons.1 ordered).2).mono (List.subset_cons_self ..)
  case unnamed =>
    intro isModule node known context inside found sites events inner ih ordered
    obtain ⟨orderedHere, orderedLater, -⟩ := List.pairwise_append.1 ordered
    have within := inner (List.pairwise_cons.1 orderedHere).2
    -- what is added inside is not added around it
    have here : InOrder file.buffer (node :: nodesAt inside) [] _ :=
      ⟨.nil, trivial, within.records_along.mono (List.subset_cons_self ..), within.records_ordered⟩
    exact here.append ordered (ih orderedLater)
  case declared =>
    intro isModule node heading known context inside found sites events lies inner ih ordered
    obtain ⟨orderedHere, orderedLater, -⟩ := List.pairwise_append.1 ordered
    have within := inner (List.pairwise_cons.1 orderedHere).2
    exact (InOrder.declared lies orderedHere within).append ordered (ih orderedLater)

/-! ## Sites are visited in order -/

theorem nodesAt_append (sites more : List Site) :
    nodesAt (sites ++ more) = nodesAt sites ++ nodesAt more := by
  induction sites with
  | nil => rfl
  | cons site sites ih => rw [List.cons_append, nodesAt, nodesAt, ih, List.append_assoc]

/-- The nodes of the sites are among some nodes, in the same order. -/
abbrev SitesIn (nodes : List Node) (sites : List Site) : Prop := (nodesAt sites).Sublist nodes

namespace SitesIn

variable {nodes later : List Node} {more : List Site}

theorem single {node : Node} {action : Action} {below : List Node} :
    SitesIn (node :: below) [.act node action] :=
  (List.nil_sublist below).cons_cons node

theorem append (first : SitesIn nodes sites) (second : SitesIn later more) :
    SitesIn (nodes ++ later) (sites ++ more) := by
  rw [SitesIn, nodesAt_append]
  exact List.Sublist.append first second

/-- Anonymous nodes are passed over. -/
theorem append_ite {named : Bool} (first : SitesIn nodes sites) (second : SitesIn later more) :
    SitesIn (nodes ++ later) ((if named then sites else []) ++ more) := by
  cases named with
  | true => exact first.append second
  | false => exact second.trans (List.sublist_append_right ..)

/-- A class or a module, if its children and its body are in order. -/
theorem moduleSites {node : Node} {isModule : Bool} {all : List Site} {body : Bool → List Site}
    (records : SitesIn nodes all) (inside : ∀ known, SitesIn nodes (body known)) :
    SitesIn (node :: nodes) (moduleSites file isModule node all body) := by
  unfold Inline.moduleSites
  cases namingOf file node with
  | headless => exact records.cons node
  | skipped => exact (List.nil_sublist nodes).cons_cons node
  | unnamed => simpa [SitesIn, nodesAt, Site.nodes] using inside false
  | named name => simpa [SitesIn, nodesAt, Site.nodes] using inside true

end SitesIn

-- One statement for each of the functions that list sites.
mutual

theorem sitesOf_in (file : RubyFile) (known : Bool) (parentKind : String) : ∀ node : Node,
    SitesIn node.preorder (sitesOf file known parentKind node)
  | ⟨head, children⟩ => by
      have all := sitesAmong_in file known head.kind children
      have body := fun known => sitesInBody_in file known head.kind headerFields children
      unfold sitesOf Node.preorder
      cases head.construct with
      | classDefinition => exact .moduleSites all body
      | moduleDefinition => exact .moduleSites all body
      | singletonClass => exact .single
      | method => exact .single
      | singletonMethod => exact .single
      | identifier => exact .single
      | other => exact all.cons _
      | call =>
          dsimp only
          cases callKindIn file known ⟨head, children⟩ with
          | mixin kind => exact .single
          | attr kind => exact .single
          | modifier visibility => exact (sitesInArguments_in file known _ children).cons _
          | other => exact all.cons _

theorem sitesAmong_in (file : RubyFile) (known : Bool) (parentKind : String) :
    ∀ nodes : List Node, SitesIn (Node.preorderAll nodes) (sitesAmong file known parentKind nodes)
  | [] => .slnil
  | ⟨head, children⟩ :: nodes => by
      unfold sitesAmong Node.preorderAll
      exact .append_ite (sitesOf_in file known parentKind ⟨head, children⟩)
        (sitesAmong_in file known parentKind nodes)

theorem sitesInBody_in (file : RubyFile) (known : Bool) (parentKind : String)
    (header : List String) : ∀ nodes : List Node,
      SitesIn (Node.preorderAll nodes) (sitesInBody file known parentKind header nodes)
  | [] => .slnil
  | ⟨head, children⟩ :: nodes => by
      unfold sitesInBody Node.preorderAll
      split
      · exact (sitesInBody_in file known parentKind _ nodes).trans (List.sublist_append_right ..)
      · exact .append_ite (sitesOf_in file known parentKind ⟨head, children⟩)
          (sitesInBody_in file known parentKind header nodes)

theorem sitesInArguments_in (file : RubyFile) (known : Bool) (modifier : Modifier) :
    ∀ nodes : List Node,
      SitesIn (Node.preorderAll nodes) (sitesInArguments file known modifier nodes)
  | [] => .slnil
  | ⟨head, children⟩ :: nodes => by
      unfold sitesInArguments Node.preorderAll
      split
      · have inside := sitesModified_in file known modifier head.kind children
        exact (inside.cons _).trans (List.sublist_append_left ..)
      · exact (sitesInArguments_in file known modifier nodes).trans (List.sublist_append_right ..)

theorem sitesModified_in (file : RubyFile) (known : Bool) (modifier : Modifier)
    (parentKind : String) : ∀ nodes : List Node,
      SitesIn (Node.preorderAll nodes) (sitesModified file known modifier parentKind nodes)
  | [] => .slnil
  | ⟨head, children⟩ :: nodes => by
      have here := sitesOf_in file known parentKind ⟨head, children⟩
      have rest := sitesModified_in file known modifier parentKind nodes
      unfold sitesModified Node.preorderAll
      refine .append_ite ?_ rest
      cases head.construct with
      | method => exact .single
      | singletonMethod => exact .single
      | _ => exact here

end

/-- Sites are visited in the order in which their nodes begin. -/
theorem nodesAt_pairwise {buffer : Buffer} {root : Node} (formed : WellFormed buffer root)
    (options : Options) : (nodesAt (sitesOfTree buffer root options)).Pairwise Node.Before := by
  obtain ⟨head, children⟩ := root
  have all := (List.pairwise_cons.1 (Node.preorder_pairwise _ formed.nested)).2
  exact all.sublist (sitesAmong_in _ false head.kind children)

/-! ## Declarations -/

theorem visitAll_succeeds {buffer : Buffer} {root : Node} (options : Options)
    (formed : WellFormed buffer root) : ∃ after,
      (visitAll (.ofTree buffer root options) root.kind root.children).run {} =
        (.ok (), after) := by
  obtain ⟨head, children⟩ := root
  have indexed : Indexed buffer (.ofTree buffer ⟨head, children⟩) := indexed_ofTree formed.placed
  have below : AllPlaced buffer children := fun node member =>
    formed.placed node (List.mem_cons_of_mem _ member)
  have safe : Safely (visitAll (.ofTree buffer ⟨head, children⟩ options) head.kind children) :=
    safe_visitAll indexed head.kind children below
  obtain ⟨⟨⟩, after, ran, -⟩ := safe {} (by simp [Progress.Genuine])
  exact ⟨after, ran⟩

/-- Extraction declares every class and module that it reaches and that has a name, once and in its
place: as a member of the declaration around it or else by itself, in the context there. No slot is
left empty, and results and members come in the order in which they begin. -/
theorem declarations_placed {buffer : Buffer} {root : Node} (options : Options)
    (formed : WellFormed buffer root) : ∃ result after,
      extract buffer root options = .ok result ∧
      (visitAll (.ofTree buffer root options) root.kind root.children).run {} = (.ok (), after) ∧
      after.slots = result.records.map some ∧
      result.records.map Record.outline =
        topsAt buffer false .top (sitesOfTree buffer root options) ∧
      (captionsOfTops (result.records.map Record.outline)).Perm
        (captionsAt buffer (sitesOfTree buffer root options)) ∧
      (rangesOfRecords result.records).Pairwise (fun left right => left.start ≤ right.start) ∧
      ∀ record ∈ result.records, record.declaration.Ordered := by
  obtain ⟨_, ran⟩ := visitAll_succeeds options formed
  have extracted := extract_eq_ok_iff.2 ⟨_, ran, rfl⟩
  obtain ⟨events, after, ran, history, records_eq, slots_eq⟩ := exists_history extracted
  have outlines_eq : (recordsOf false .top events).map Record.outline =
      topsAt buffer false .top (sitesOfTree buffer root options) := history.outlines_eq.2
  have once := captions_perm buffer false .top (sitesOfTree buffer root options)
  have inOrder := history.inOrder (nodesAt_pairwise formed options)
  refine ⟨_, after, extracted, ran, slots_eq, ?_⟩
  rw [records_eq, outlines_eq]
  exact ⟨rfl, once, inOrder.records_along.sorted, inOrder.records_ordered⟩

/-- A module and a class that is opened again, with one class in between whose name cannot be told.
-/
def nestedText : String :=
  "module A\nclass x::B\nclass ::C::D\ndef d; end\nend\nend\nend\n"
    ++ "class C::D\nmodule E\ndef e; end\nend\nend\n"

/-- Its tree. -/
def nestedTree : Node :=
  .mk ⟨"program", true, none, ⟨0, 95⟩, 0, 12⟩
    [.mk ⟨"module", true, none, ⟨0, 55⟩, 0, 6⟩
       [.mk ⟨"module", false, none, ⟨0, 6⟩, 0, 0⟩ [],
        .mk ⟨"constant", true, some "name", ⟨7, 8⟩, 0, 0⟩ [],
        .mk ⟨"body_statement", true, some "body", ⟨9, 51⟩, 1, 5⟩
          [.mk ⟨"class", true, none, ⟨9, 51⟩, 1, 5⟩
             [.mk ⟨"class", false, none, ⟨9, 14⟩, 1, 1⟩ [],
              .mk ⟨"scope_resolution", true, some "name", ⟨15, 19⟩, 1, 1⟩
                [.mk ⟨"identifier", true, some "scope", ⟨15, 16⟩, 1, 1⟩ [],
                 .mk ⟨"::", false, none, ⟨16, 18⟩, 1, 1⟩ [],
                 .mk ⟨"constant", true, some "name", ⟨18, 19⟩, 1, 1⟩ []],
              .mk ⟨"body_statement", true, some "body", ⟨20, 47⟩, 2, 4⟩
                [.mk ⟨"class", true, none, ⟨20, 47⟩, 2, 4⟩
                   [.mk ⟨"class", false, none, ⟨20, 25⟩, 2, 2⟩ [],
                    .mk ⟨"scope_resolution", true, some "name", ⟨26, 32⟩, 2, 2⟩
                      [.mk ⟨"scope_resolution", true, some "scope", ⟨26, 29⟩, 2, 2⟩
                         [.mk ⟨"::", false, none, ⟨26, 28⟩, 2, 2⟩ [],
                          .mk ⟨"constant", true, some "name", ⟨28, 29⟩, 2, 2⟩ []],
                       .mk ⟨"::", false, none, ⟨29, 31⟩, 2, 2⟩ [],
                       .mk ⟨"constant", true, some "name", ⟨31, 32⟩, 2, 2⟩ []],
                    .mk ⟨"body_statement", true, some "body", ⟨33, 43⟩, 3, 3⟩
                      [.mk ⟨"method", true, none, ⟨33, 43⟩, 3, 3⟩
                         [.mk ⟨"def", false, none, ⟨33, 36⟩, 3, 3⟩ [],
                          .mk ⟨"identifier", true, some "name", ⟨37, 38⟩, 3, 3⟩ [],
                          .mk ⟨";", false, none, ⟨38, 39⟩, 3, 3⟩ [],
                          .mk ⟨"end", false, none, ⟨40, 43⟩, 3, 3⟩ []]],
                    .mk ⟨"end", false, none, ⟨44, 47⟩, 4, 4⟩ []]],
              .mk ⟨"end", false, none, ⟨48, 51⟩, 5, 5⟩ []]],
        .mk ⟨"end", false, none, ⟨52, 55⟩, 6, 6⟩ []],
     .mk ⟨"class", true, none, ⟨56, 94⟩, 7, 11⟩
       [.mk ⟨"class", false, none, ⟨56, 61⟩, 7, 7⟩ [],
        .mk ⟨"scope_resolution", true, some "name", ⟨62, 66⟩, 7, 7⟩
          [.mk ⟨"constant", true, some "scope", ⟨62, 63⟩, 7, 7⟩ [],
           .mk ⟨"::", false, none, ⟨63, 65⟩, 7, 7⟩ [],
           .mk ⟨"constant", true, some "name", ⟨65, 66⟩, 7, 7⟩ []],
        .mk ⟨"body_statement", true, some "body", ⟨67, 90⟩, 8, 10⟩
          [.mk ⟨"module", true, none, ⟨67, 90⟩, 8, 10⟩
             [.mk ⟨"module", false, none, ⟨67, 73⟩, 8, 8⟩ [],
              .mk ⟨"constant", true, some "name", ⟨74, 75⟩, 8, 8⟩ [],
              .mk ⟨"body_statement", true, some "body", ⟨76, 86⟩, 9, 9⟩
                [.mk ⟨"method", true, none, ⟨76, 86⟩, 9, 9⟩
                   [.mk ⟨"def", false, none, ⟨76, 79⟩, 9, 9⟩ [],
                    .mk ⟨"identifier", true, some "name", ⟨80, 81⟩, 9, 9⟩ [],
                    .mk ⟨";", false, none, ⟨81, 82⟩, 9, 9⟩ [],
                    .mk ⟨"end", false, none, ⟨83, 86⟩, 9, 9⟩ []]],
              .mk ⟨"end", false, none, ⟨87, 90⟩, 10, 10⟩ []]],
        .mk ⟨"end", false, none, ⟨91, 94⟩, 11, 11⟩ []]]

/-- What is declared in it. -/
def nestedCaptions : List Caption :=
  [⟨true, ⟨.empty, "A"⟩, ⟨0, 55⟩⟩, ⟨false, ⟨⟨["C"], true⟩, "D"⟩, ⟨20, 47⟩⟩,
    ⟨false, ⟨⟨["C"], false⟩, "D"⟩, ⟨56, 94⟩⟩, ⟨true, ⟨.empty, "E"⟩, ⟨67, 90⟩⟩]

/-- The class inside the other one stands by itself, in a context with a module that has no name.
The module inside the class is a member of it. -/
theorem declarations_placed_nested :
    WellFormed (.ofString "a.rb" nestedText) nestedTree ∧
    ∃ result, extract (.ofString "a.rb" nestedText) nestedTree {} = .ok result ∧
      result.records.map (·.context) = [.top, (Context.top.enter ⟨.root, "A"⟩).enterUnknown, .top] ∧
      (captionsOfTops (result.records.map Record.outline)).Perm nestedCaptions ∧
      ∀ record ∈ result.records, record.declaration.Ordered := by
  have formed : WellFormed (.ofString "a.rb" nestedText) nestedTree :=
    ⟨by decide +kernel, by decide +kernel⟩
  obtain ⟨result, after, extracted, -, -, outlines_eq, once, -, ordered⟩ :=
    declarations_placed {} formed
  refine ⟨formed, result, extracted, ?_, ?_, ordered⟩
  · have contexts_eq : result.records.map (·.context) =
        (result.records.map Record.outline).map (·.1) := by simp [Record.outline]
    rw [contexts_eq, outlines_eq]
    decide +kernel
  · have captions_eq : captionsAt (.ofString "a.rb" nestedText)
        (sitesOfTree (.ofString "a.rb" nestedText) nestedTree {}) = nestedCaptions := by
      decide +kernel
    exact captions_eq ▸ once

end Inline

end Signet

import Signet.Ruby.Cursor

/-!
# What a walk enters

A walk through a tree ends, and until then it enters every node exactly once, in document order
(`Walk.completes_start`, `Node.tours_cursors`).

The cursors of a tree are listed along its recursion, too (`Node.cursors`). A walk that enters a
node enters all that is in the tree below it, and is then back at that node
(`Walk.Completes.enter`). This is an induction on the tree; what the walk does later is what it does
when it is back, and it ends since at the root there is nothing left to do.

Equal nodes may stand at several places, so a place is told by its address. Document order is the
lexicographic order of addresses: a node is in front of what is below it, and that is in front of
its later siblings.
-/

namespace Signet.Ruby

/-! ## Addresses -/

/-- The node at an address, which says at each step on the way down which child to take. -/
def Node.at? : Node → List Nat → Option Node
  | node, [] => some node
  | node, index :: address => node.children[index]?.bind fun child => child.at? address

/-- The address at the end of a way down. -/
def addressBelow : List Level → List Nat
  | [] => []
  | level :: above => addressBelow above ++ [level.before.length]

/-- The address of the node that a cursor is at. -/
def Cursor.address (cursor : Cursor) : List Nat := addressBelow cursor.above

/-- One of the cursors is at an address and has a node there. -/
def Listed (cursors : List Cursor) (address : List Nat) (node : Node) : Prop :=
  ∃ cursor ∈ cursors, cursor.address = address ∧ cursor.node = node

/-- Cursors are at all nodes of a tree, at each once, and in document order. -/
structure Tours (root : Node) (cursors : List Cursor) : Prop where
  exact : ∀ address node, Listed cursors address node ↔ root.at? address = some node
  ordered : (cursors.map Cursor.address).Pairwise (· < ·)

section

variable {cursor : Cursor} {first second cursors : List Cursor} {address : List Nat} {node : Node}

@[simp] theorem not_listed_nil : ¬ Listed [] address node := nofun

@[simp] theorem listed_cons : Listed (cursor :: cursors) address node ↔
    cursor.address = address ∧ cursor.node = node ∨ Listed cursors address node := by
  simp only [Listed, List.mem_cons, or_and_right, exists_or, exists_eq_left]

@[simp] theorem listed_append : Listed (first ++ second) address node ↔
    Listed first address node ∨ Listed second address node := by
  simp only [Listed, List.mem_append, or_and_right, exists_or]

end

/-! ## The cursors of a tree -/

mutual

/-- The cursors at a node and at everything below it, in document order. -/
def Node.cursors (above : List Level) : Node → List Cursor
  | ⟨head, children⟩ => ⟨⟨head, children⟩, above⟩ :: cursorsAmong head above [] children

/-- The cursors at some children of a node and at everything below them; the children before them
are given from the nearest on. -/
def cursorsAmong (head : Head) (above : List Level) (before : List Node) : List Node → List Cursor
  | [] => []
  | node :: after =>
    node.cursors (⟨head, before, after⟩ :: above) ++ cursorsAmong head above (node :: before) after

end

mutual

/-- Without what is around them, these are the nodes of the tree. -/
theorem Node.map_node_cursors : ∀ (node : Node) (above : List Level),
    (node.cursors above).map (·.node) = node.preorder
  | ⟨head, children⟩, above => by
      rw [Node.cursors, Node.preorder, List.map_cons, map_node_cursorsAmong children]

theorem map_node_cursorsAmong : ∀ (nodes : List Node) (head : Head) (above : List Level)
    (before : List Node),
    (cursorsAmong head above before nodes).map (·.node) = Node.preorderAll nodes
  | [], _, _, _ => rfl
  | node :: after, head, above, before => by
      rw [cursorsAmong, List.map_append, Node.preorderAll, node.map_node_cursors,
        map_node_cursorsAmong after]

end

mutual

/-- The addresses from a node on are those in the tree below it. -/
theorem Node.listed_cursors_iff : ∀ (node : Node) (above : List Level) (address : List Nat)
    (found : Node), Listed (node.cursors above) address found ↔
      ∃ below, address = addressBelow above ++ below ∧ node.at? below = some found
  | ⟨head, children⟩, above, address, found => by
      rw [Node.cursors, listed_cons, listed_cursorsAmong_iff children]
      constructor
      · rintro (⟨rfl, rfl⟩ | ⟨index, child, below, child?, rfl, found?⟩)
        · exact ⟨[], (List.append_nil _).symm, rfl⟩
        · refine ⟨index :: below, by simp, ?_⟩
          rw [Node.at?, Node.children, child?]
          exact found?
      · rintro ⟨below, rfl, found?⟩
        cases below with
        | nil => exact .inl ⟨(List.append_nil _).symm, Option.some.inj found?⟩
        | cons index below =>
            obtain ⟨child, child?, found?⟩ := Option.bind_eq_some_iff.1 found?
            exact .inr ⟨index, child, below, child?, by simp, found?⟩

/-- The addresses from some children of a node on begin with the numbers of these children. -/
theorem listed_cursorsAmong_iff : ∀ (nodes : List Node) (head : Head) (above : List Level)
    (before : List Node) (address : List Nat) (found : Node),
    Listed (cursorsAmong head above before nodes) address found ↔
      ∃ index child below, nodes[index]? = some child ∧
        address = addressBelow above ++ (before.length + index) :: below ∧
        child.at? below = some found
  | [], _, _, _, _, _ => by simp [cursorsAmong]
  | node :: after, head, above, before, address, found => by
      rw [cursorsAmong, listed_append, node.listed_cursors_iff, listed_cursorsAmong_iff after]
      constructor
      · rintro (⟨below, rfl, found?⟩ | ⟨index, child, below, child?, rfl, found?⟩)
        · exact ⟨0, node, below, rfl, by simp [addressBelow], found?⟩
        · refine ⟨index + 1, child, below, child?, ?_, found?⟩
          rw [List.length_cons, Nat.add_right_comm, Nat.add_assoc]
      · rintro ⟨index, child, below, child?, rfl, found?⟩
        cases index with
        | zero =>
            obtain rfl := Option.some.inj child?
            exact .inl ⟨below, by simp [addressBelow], found?⟩
        | succ index =>
            refine .inr ⟨index, child, below, child?, ?_, found?⟩
            rw [List.length_cons, Nat.add_right_comm, Nat.add_assoc]

end

/-- The address of a cursor among some children begins with the number of one of these children. -/
theorem exists_address_of_mem {nodes before : List Node} {head : Head} {above : List Level}
    {cursor : Cursor} (member : cursor ∈ cursorsAmong head above before nodes) :
    ∃ index below, cursor.address = addressBelow above ++ (before.length + index) :: below := by
  obtain ⟨index, _, below, -, address_eq, -⟩ :=
    (listed_cursorsAmong_iff nodes head above before _ _).1 ⟨cursor, member, rfl, rfl⟩
  exact ⟨index, below, address_eq⟩

mutual

/-- The cursors are listed in document order. -/
theorem Node.cursors_ordered : ∀ (node : Node) (above : List Level),
    (node.cursors above).Pairwise fun first last => first.address < last.address
  | ⟨head, children⟩, above => by
      refine List.pairwise_cons.2 ⟨fun cursor member => ?_, cursorsAmong_ordered children ..⟩
      obtain ⟨index, below, address_eq⟩ := exists_address_of_mem member
      calc addressBelow above = addressBelow above ++ [] := (List.append_nil _).symm
        _ < addressBelow above ++ ([].length + index) :: below :=
          List.append_left_lt (List.nil_lt_cons ..)
        _ = cursor.address := address_eq.symm

theorem cursorsAmong_ordered : ∀ (nodes : List Node) (head : Head) (above : List Level)
    (before : List Node),
    (cursorsAmong head above before nodes).Pairwise fun first last => first.address < last.address
  | [], _, _, _ => .nil
  | node :: after, head, above, before => by
      refine List.pairwise_append.2 ⟨node.cursors_ordered _, cursorsAmong_ordered after .., ?_⟩
      -- what is below the node goes on with its number, and the later children have higher ones
      intro first inFirst last inLast
      obtain ⟨below, first_eq, -⟩ := (node.listed_cursors_iff _ _ _).1 ⟨first, inFirst, rfl, rfl⟩
      obtain ⟨index, further, last_eq⟩ := exists_address_of_mem inLast
      rw [first_eq, last_eq, addressBelow, List.append_assoc]
      have later : before.length < (node :: before).length + index := by
        rw [List.length_cons]
        omega
      exact List.append_left_lt (List.cons_lt_cons_iff.2 (.inl later))

end

/-- The cursors of a tree are at all of its nodes. -/
theorem Node.tours_cursors (root : Node) : Tours root (root.cursors []) where
  exact := by
    intro address node
    rw [root.listed_cursors_iff]
    constructor
    · rintro ⟨_, rfl, found⟩
      exact found
    · exact fun found => ⟨address, rfl, found⟩
  ordered := List.pairwise_map.2 (root.cursors_ordered [])

/-! ## Walks -/

namespace Walk

/-- A walk ends, and these are the cursors at the nodes that it enters on the way. -/
inductive Completes : Walk → List Cursor → Prop
  | last {walk : Walk} : walk.next? = none → Completes walk walk.here
  | move {walk later : Walk} {cursors : List Cursor} : walk.next? = some later →
      Completes later cursors → Completes walk (walk.here ++ cursors)

theorem entered_of_none {walk : Walk} (final : walk.next? = none) : walk.entered = walk.here := by
  rw [entered]
  split
  · rfl
  · rename_i moved
    simp [final] at moved

theorem entered_of_some {walk later : Walk} (moved : walk.next? = some later) :
    walk.entered = walk.here ++ later.entered := by
  rw [entered]
  split
  · rename_i final
    simp [final] at moved
  · rename_i other moved'
    obtain rfl := Option.some.inj (moved.symm.trans moved')
    rfl

/-- A walk that ends enters nothing else. -/
theorem Completes.entered_eq {walk : Walk} {cursors : List Cursor} (done : walk.Completes cursors) :
    walk.entered = cursors := by
  induction done with
  | last final => exact entered_of_none final
  | move moved _ ih => rw [entered_of_some moved, ih]

-- Along the recursion of trees and lists of trees: what is done at a node, and then at its later
-- siblings.
mutual

/-- A walk that enters a node enters everything in the tree below it and is then back there. -/
theorem Completes.enter : ∀ (node : Node) (above : List Level) {cursors : List Cursor},
    Completes ⟨⟨node, above⟩, false⟩ cursors →
      Completes ⟨⟨node, above⟩, true⟩ (node.cursors above ++ cursors)
  | ⟨_, []⟩, _, _, .last final => .last final
  | ⟨_, []⟩, _, _, .move moved rest => .move moved rest
  | ⟨head, child :: children⟩, above, cursors, rest => by
      have among := Completes.goOn children head above [] child rest
      have entered := Completes.enter child (⟨head, [], children⟩ :: above) among
      rw [← List.append_assoc] at entered
      exact .move rfl entered

/-- A walk that is back at a child enters the later children and is then back at the parent. -/
theorem Completes.goOn : ∀ (after : List Node) (head : Head) (above : List Level)
    (before : List Node) (node : Node) {cursors : List Cursor},
    Completes ⟨⟨⟨head, before.reverse ++ node :: after⟩, above⟩, false⟩ cursors →
      Completes ⟨⟨node, ⟨head, before, after⟩ :: above⟩, false⟩
        (cursorsAmong head above (node :: before) after ++ cursors)
  | [], _, _, _, _, _, rest => .move rfl rest
  | sibling :: after, head, above, before, node, cursors, rest => by
      have parent_eq : before.reverse ++ node :: sibling :: after =
          (node :: before).reverse ++ sibling :: after := by simp
      have among := Completes.goOn after head above (node :: before) sibling (parent_eq ▸ rest)
      have entered := Completes.enter sibling (⟨head, node :: before, after⟩ :: above) among
      rw [← List.append_assoc] at entered
      exact .move rfl entered

end

/-- The walk through a tree ends, at the root, when it has entered the whole tree. -/
theorem completes_start (root : Node) : (start root).Completes (root.cursors []) := by
  have left : Completes ⟨⟨root, []⟩, false⟩ [] := .last rfl
  have entered := Completes.enter root [] left
  rwa [List.append_nil] at entered

theorem entered_start (root : Node) : (start root).entered = root.cursors [] :=
  (completes_start root).entered_eq

end Walk

end Signet.Ruby

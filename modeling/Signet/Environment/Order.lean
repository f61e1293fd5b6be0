/-! # Topological order

A graph is listed: its nodes and its edges in the order in which they were made. `order` lists the
nodes so that every edge points forward, or finds a node on a cycle. It works in two passes. The
first searches the graph depth first and lists each node before those finished earlier. The second
reads that list and stops at an edge that points backward.

Neighbours are visited latest edge first.
-/

namespace Signet

/-- A graph with its nodes and edges in order of making. -/
structure Digraph (α : Type) where
  nodes : List α := []
  edges : List (α × α) := []

namespace Digraph

variable {α : Type} [DecidableEq α]

/-- The graph with a node, unless it has it already. -/
def addNode (graph : Digraph α) (node : α) : Digraph α :=
  if graph.nodes.contains node then graph else { graph with nodes := graph.nodes ++ [node] }

/-- The graph with an edge. -/
def addEdge (graph : Digraph α) (source target : α) : Digraph α :=
  { graph with edges := graph.edges ++ [(source, target)] }

/-- Where the edges from a node lead, latest edge first. -/
def successors (graph : Digraph α) (node : α) : List α :=
  ((graph.edges.filter fun edge => edge.1 = node).map (·.2)).reverse

/-- Where the edges to a node come from, latest edge first. -/
def predecessors (graph : Digraph α) (node : α) : List α :=
  ((graph.edges.filter fun edge => edge.2 = node).map (·.1)).reverse

/-- A search under way: the nodes not discovered yet, and the finished ones, latest first. -/
structure Search (α : Type) where
  fresh : List α
  finished : List α

/-- Searches until the stack is empty. A node is discovered when it is first seen on top, and
finished when it is seen there again. An edge from a node to itself ends the search. -/
def explore (graph : Digraph α) (stack : List α) (search : Search α) : Except α (Search α) :=
  match stack with
  | [] => .ok search
  | top :: below =>
    if _fresh : top ∈ search.fresh then
      let fresh := search.fresh.erase top
      let successors := graph.successors top
      if successors.contains top then .error top
      else
        explore graph ((successors.filter fresh.contains).reverse ++ top :: below)
          { search with fresh }
    else
      explore graph below
        { search with
          finished := if search.finished.contains top then search.finished
            else top :: search.finished }
termination_by (search.fresh.length, stack.length)
decreasing_by
  · have smaller : (search.fresh.erase top).length < search.fresh.length := by
      rw [List.length_erase_of_mem _fresh]
      exact Nat.sub_lt (List.length_pos_of_mem _fresh) Nat.one_pos
    exact Prod.Lex.left _ _ smaller
  · exact Prod.Lex.right _ (by simp)

/-- Searches from every node that is still fresh when its turn comes. -/
def exploreAll (graph : Digraph α) : List α → Search α → Except α (Search α)
  | [], search => .ok search
  | node :: nodes, search => do
    let search ← if search.fresh.contains node then explore graph [node] search else pure search
    exploreAll graph nodes search

/-- The first node, in the order of the list, from which an edge points backward; of several edges
to one node the earliest made. -/
def backward (graph : Digraph α) (seen : List α) : List α → Option α
  | [] => none
  | node :: nodes =>
    let late := (graph.predecessors node).filter fun source =>
      source ≠ node && !seen.contains source
    match late.getLast? with
    | some source => some source
    | none => backward graph (node :: seen) nodes

/-- The nodes in topological order, or a node that makes one impossible. -/
def order (graph : Digraph α) : Except α (List α) := do
  let search ← exploreAll graph graph.nodes { fresh := graph.nodes, finished := [] }
  match graph.backward [] search.finished with
  | some node => .error node
  | none => .ok search.finished

end Digraph

end Signet

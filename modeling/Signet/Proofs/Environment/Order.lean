import Mathlib.Data.List.Nodup
import Mathlib.Logic.Relation
import Signet.Environment.Order

/-!
# What the topological order finds

The two passes of `Digraph.order` decide whether a graph has a cycle: an order that is found has
every node once and every edge forward (`arranges_of_order`), so there is none then
(`Arranges.acyclic`), and the node that is blamed otherwise lies on one (`cycle_of_order_error`).

The first pass is an invariant of the stack (`Explored`): a node that is open, discovered but not
finished, has a path to everything above it on the stack. So when a node is finished, each of its
successors either was finished before it or is still open below it, and then there is a path back.
The second pass looks for an edge of the latter kind.
-/

namespace Signet.Digraph

open Relation

variable {α : Type}

/-! ## Edges -/

/-- The graph has an edge. -/
def Edge (graph : Digraph α) (source target : α) : Prop := (source, target) ∈ graph.edges

/-- Nodes are listed once, and edges run between listed nodes. -/
structure Proper (graph : Digraph α) : Prop where
  nodup : graph.nodes.Nodup
  source_mem : ∀ source target, graph.Edge source target → source ∈ graph.nodes
  target_mem : ∀ source target, graph.Edge source target → target ∈ graph.nodes

section Lookup

variable [DecidableEq α]

@[simp] theorem mem_successors (graph : Digraph α) (source target : α) :
    target ∈ graph.successors source ↔ graph.Edge source target := by
  simp [successors, Edge]

@[simp] theorem mem_predecessors (graph : Digraph α) (source target : α) :
    source ∈ graph.predecessors target ↔ graph.Edge source target := by
  simp [predecessors, Edge]

end Lookup

/-! ## The first pass -/

/-- What holds of a search under way: open nodes wait on the stack, with a path to everything above
them and their fresh successors among it; a finished node has each successor finished before it or
has a path from it. -/
structure Explored (graph : Digraph α) (stack : List α) (search : Search α) : Prop where
  fresh_nodup : search.fresh.Nodup
  finished_nodup : search.finished.Nodup
  finished_not_fresh : ∀ node ∈ search.finished, node ∉ search.fresh
  waiting : ∀ node ∈ graph.nodes, node ∉ search.fresh → node ∉ search.finished → node ∈ stack
  loopless : ∀ node ∈ graph.nodes, node ∉ search.fresh → ¬ graph.Edge node node
  paths : ∀ above node below, stack = above ++ node :: below → node ∉ above →
    node ∉ search.fresh → node ∉ search.finished →
      (∀ other ∈ above, TransGen graph.Edge node other) ∧
        ∀ target, graph.Edge node target → target ∈ search.fresh → target ∈ above
  settled : ∀ later node earlier, search.finished = later ++ node :: earlier →
    ∀ target, graph.Edge node target → target ∈ earlier ∨ TransGen graph.Edge target node

/-- A split of two lists at something that is not in the first is a split of the second. -/
private theorem split_after {node : α} {first second above rest : List α} (notFirst : node ∉ first)
    (split : first ++ second = above ++ node :: rest) :
    ∃ middle, above = first ++ middle ∧ second = middle ++ node :: rest := by
  rcases List.append_eq_append_iff.1 split with ⟨middle, head, tail⟩ | ⟨middle, head, tail⟩
  · exact ⟨middle, head, tail⟩
  · cases middle with
    | nil => exact ⟨[], by simp [head], by simp [tail]⟩
    | cons other middle =>
        obtain ⟨rfl, -⟩ : node = other ∧ rest = middle ++ second := by simpa using tail
        simp [head] at notFirst

namespace Explored

variable {graph : Digraph α} {top : α} {below : List α} {search : Search α}

/-- Before the search every node is fresh. -/
theorem start (proper : graph.Proper) :
    Explored graph [] { fresh := graph.nodes, finished := [] } where
  fresh_nodup := proper.nodup
  finished_nodup := List.nodup_nil
  finished_not_fresh := by simp
  waiting := fun node member fresh => absurd member fresh
  loopless := fun node member fresh => absurd member fresh
  paths := by simp
  settled := by simp

/-- A fresh node may be put on the empty stack. -/
theorem push (explored : Explored graph [] search) {node : α} (fresh : node ∈ search.fresh) :
    Explored graph [node] search where
  fresh_nodup := explored.fresh_nodup
  finished_nodup := explored.finished_nodup
  finished_not_fresh := explored.finished_not_fresh
  waiting := fun other member h₁ h₂ => absurd (explored.waiting other member h₁ h₂) (by simp)
  loopless := explored.loopless
  paths := by
    intro above other below split _ notFresh _
    obtain ⟨rfl, rfl, -⟩ : above = [] ∧ other = node ∧ below = [] := by
      cases above <;> simp_all
    exact absurd fresh notFresh
  settled := explored.settled

/-- Discovering the node on top of the stack puts its fresh successors above it. -/
theorem discover [DecidableEq α] (explored : Explored graph (top :: below) search)
    (loopless : ¬ graph.Edge top top) :
    Explored graph
      (((graph.successors top).filter (search.fresh.erase top).contains).reverse ++ top :: below)
      { search with fresh := search.fresh.erase top } where
  fresh_nodup := explored.fresh_nodup.erase top
  finished_nodup := explored.finished_nodup
  finished_not_fresh := fun node member fresh =>
    explored.finished_not_fresh node member (List.mem_of_mem_erase fresh)
  waiting := by
    intro node member notFresh notFinished
    by_cases equal : node = top
    · simp [equal]
    · have old : node ∉ search.fresh := by rwa [List.mem_erase_of_ne equal] at notFresh
      exact List.mem_append_right _ (explored.waiting node member old notFinished)
  loopless := by
    intro node member notFresh
    by_cases equal : node = top
    · rwa [equal]
    · exact explored.loopless node member (by rwa [List.mem_erase_of_ne equal] at notFresh)
  settled := explored.settled
  paths := by
    intro above node rest split notAbove notFresh notFinished
    have mem_pushed : ∀ other,
        other ∈ ((graph.successors top).filter (search.fresh.erase top).contains).reverse ↔
          graph.Edge top other ∧ other ∈ search.fresh.erase top := by
      simp
    obtain ⟨middle, rfl, split⟩ := split_after
      (fun member => notFresh ((mem_pushed node).1 member).2) split
    -- The node is the one that is discovered, or it is below that one and has a path to it.
    cases middle with
    | nil =>
        obtain ⟨rfl, rfl⟩ : top = node ∧ below = rest := by simpa using split
        refine ⟨fun other member => ?_, fun target edge fresh => ?_⟩
        · exact .single ((mem_pushed other).1 (by simpa using member)).1
        · simpa using And.intro edge fresh
    | cons first middle =>
        obtain ⟨rfl, rfl⟩ : top = first ∧ below = middle ++ node :: rest := by simpa using split
        have different : node ≠ top := by
          rintro rfl
          simp at notAbove
        have oldFresh : node ∉ search.fresh := by
          rwa [List.mem_erase_of_ne different] at notFresh
        obtain ⟨reaches, successors⟩ := explored.paths (top :: middle) node rest rfl
          (fun member => notAbove (List.mem_append_right _ member)) oldFresh notFinished
        refine ⟨fun other member => ?_, fun target edge fresh => ?_⟩
        · rcases List.mem_append.1 member with member | member
          · exact (reaches top List.mem_cons_self).tail ((mem_pushed other).1 member).1
          · exact reaches other member
        · exact List.mem_append_right _ (successors target edge (List.mem_of_mem_erase fresh))

/-- What `paths` says of the stack below a discovered top. -/
theorem paths_below (explored : Explored graph (top :: below) search)
    (discovered : top ∉ search.fresh) {above : List α} {node : α} {rest : List α}
    (split : below = above ++ node :: rest) (different : node ≠ top) (notAbove : node ∉ above)
    (notFresh : node ∉ search.fresh) (notFinished : node ∉ search.finished) :
    (∀ other ∈ above, TransGen graph.Edge node other) ∧
      ∀ target, graph.Edge node target → target ∈ search.fresh → target ∈ above := by
  obtain ⟨reaches, successors⟩ := explored.paths (top :: above) node rest (by simp [split])
    (by simp [different, notAbove]) notFresh notFinished
  refine ⟨fun other member => reaches other (List.mem_cons_of_mem _ member), ?_⟩
  intro target edge fresh
  rcases List.mem_cons.1 (successors target edge fresh) with rfl | member
  · exact absurd fresh discovered
  · exact member

/-- A node on top that is finished already is dropped. -/
theorem drop (explored : Explored graph (top :: below) search)
    (discovered : top ∉ search.fresh) (finished : top ∈ search.finished) :
    Explored graph below search where
  fresh_nodup := explored.fresh_nodup
  finished_nodup := explored.finished_nodup
  finished_not_fresh := explored.finished_not_fresh
  loopless := explored.loopless
  settled := explored.settled
  waiting := by
    intro node member notFresh notFinished
    rcases List.mem_cons.1 (explored.waiting node member notFresh notFinished) with rfl | member
    · exact absurd finished notFinished
    · exact member
  paths := by
    intro above node rest split notAbove notFresh notFinished
    have different : node ≠ top := fun equal => notFinished (equal ▸ finished)
    exact explored.paths_below discovered split different notAbove notFresh notFinished

/-- Whatever an open node on top leads to is finished, or open below it and so leads back. -/
theorem settled_top (explored : Explored graph (top :: below) search) (proper : graph.Proper)
    (discovered : top ∉ search.fresh) (unfinished : top ∉ search.finished) {target : α}
    (edge : graph.Edge top target) :
    target ∈ search.finished ∨ TransGen graph.Edge target top := by
  have notFresh : target ∉ search.fresh := fun fresh => by
    simpa using (explored.paths [] top below rfl List.not_mem_nil discovered unfinished).2
      target edge fresh
  by_cases finished : target ∈ search.finished
  · exact .inl finished
  · right
    -- a target that was discovered and is not finished waits below, and whatever waits there
    -- reaches `top`
    have waits := explored.waiting target (proper.target_mem _ _ edge) notFresh finished
    have different : target ≠ top := by
      rintro rfl
      exact explored.loopless target (proper.source_mem _ _ edge) notFresh edge
    obtain ⟨above, rest, split, notAbove⟩ :=
      List.eq_append_cons_of_mem ((List.mem_cons.1 waits).resolve_left different)
    exact (explored.paths (top :: above) target rest (by simp [split])
      (by simp [different, notAbove]) notFresh finished).1 top List.mem_cons_self

/-- An open node on top is finished. -/
theorem finish (explored : Explored graph (top :: below) search) (proper : graph.Proper)
    (discovered : top ∉ search.fresh) (unfinished : top ∉ search.finished) :
    Explored graph below { search with finished := top :: search.finished } where
  fresh_nodup := explored.fresh_nodup
  finished_nodup := List.nodup_cons.2 ⟨unfinished, explored.finished_nodup⟩
  finished_not_fresh := by
    intro node member
    rcases List.mem_cons.1 member with rfl | member
    · exact discovered
    · exact explored.finished_not_fresh node member
  loopless := explored.loopless
  waiting := by
    intro node member notFresh notFinished
    rw [List.mem_cons, not_or] at notFinished
    rcases List.mem_cons.1 (explored.waiting node member notFresh notFinished.2) with rfl | member
    · exact absurd rfl notFinished.1
    · exact member
  paths := by
    intro above node rest split notAbove notFresh notFinished
    rw [List.mem_cons, not_or] at notFinished
    exact explored.paths_below discovered split notFinished.1 notAbove notFresh notFinished.2
  settled := by
    intro later node earlier split target edge
    -- Only the node in front is new: its successors are finished already or still open below it.
    cases later with
    | nil =>
        obtain ⟨rfl, rfl⟩ : top = node ∧ search.finished = earlier := by simpa using split
        exact explored.settled_top proper discovered unfinished edge
    | cons first later =>
        obtain ⟨-, split⟩ : top = first ∧ search.finished = later ++ node :: earlier := by
          simpa using split
        exact explored.settled later node earlier split target edge

end Explored

variable [DecidableEq α] {graph : Digraph α}

/-- A search that succeeds keeps the invariant, empties the stack and discovers what was on it. -/
theorem Explored.explore (proper : graph.Proper) {stack : List α} {search result : Search α}
    (explored : Explored graph stack search) (done : graph.explore stack search = .ok result) :
    Explored graph [] result ∧ result.fresh ⊆ search.fresh ∧
      ∀ node ∈ stack, node ∉ result.fresh := by
  -- What holds of a search under way carries the induction, from one step of it to the next.
  fun_induction Digraph.explore graph stack search with
  | case1 search =>
      obtain rfl : search = result := by simpa using done
      exact ⟨explored, List.Subset.refl _, by simp⟩
  | case2 search top below isFresh successors loop => simp at done
  | case3 search top below isFresh fresh successors noLoop ih =>
      have loopless : ¬ graph.Edge top top := by simpa [successors] using noLoop
      obtain ⟨explored, subset, gone⟩ := ih (explored.discover loopless) done
      refine ⟨explored, fun node member => List.mem_of_mem_erase (subset member), ?_⟩
      intro node member
      exact gone node (List.mem_append_right _ member)
  | case4 search top below discovered ih =>
      have next : Explored graph below
          { search with
            finished := if search.finished.contains top then search.finished
              else top :: search.finished } := by
        by_cases finished : top ∈ search.finished
        · simpa [finished] using explored.drop discovered finished
        · simpa [finished] using explored.finish proper discovered finished
      obtain ⟨explored, subset, gone⟩ := ih next done
      refine ⟨explored, subset, ?_⟩
      intro node member
      rcases List.mem_cons.1 member with rfl | member
      · exact fun fresh => discovered (subset fresh)
      · exact gone node member

/-- A search stops at a node only if the node has an edge to itself. -/
theorem edge_of_explore_error {stack : List α} {search : Search α} {node : α}
    (stopped : graph.explore stack search = .error node) : graph.Edge node node := by
  fun_induction Digraph.explore graph stack search with
  | case1 search => simp at stopped
  | case2 search top below isFresh successors loop =>
      obtain rfl : top = node := by simpa using stopped
      simpa [successors] using loop
  | case3 search top below isFresh fresh successors noLoop ih => exact ih stopped
  | case4 search top below discovered ih => exact ih stopped

/-- Searching from every node in turn leaves none of them fresh. -/
theorem Explored.exploreAll (proper : graph.Proper) {nodes : List α} {search result : Search α}
    (explored : Explored graph [] search) (done : graph.exploreAll nodes search = .ok result) :
    Explored graph [] result ∧ result.fresh ⊆ search.fresh ∧
      ∀ node ∈ nodes, node ∉ result.fresh := by
  induction nodes generalizing search with
  | nil =>
      obtain rfl : search = result := by simpa [Digraph.exploreAll, pure, Except.pure] using done
      exact ⟨explored, List.Subset.refl _, by simp⟩
  | cons node nodes ih =>
      rw [Digraph.exploreAll] at done
      -- A node that is not fresh any more was finished by an earlier search.
      by_cases fresh : node ∈ search.fresh
      · rw [if_pos (by simpa using fresh)] at done
        cases first : graph.explore [node] search with
        | error top => simp [first, bind, Except.bind] at done
        | ok middle =>
            obtain ⟨explored, subset, gone⟩ := (explored.push fresh).explore proper first
            simp only [first, bind, Except.bind] at done
            obtain ⟨explored, subset', gone'⟩ := ih explored done
            refine ⟨explored, fun other member => subset (subset' member), ?_⟩
            intro other member
            rcases List.mem_cons.1 member with rfl | member
            · exact fun still => gone other (by simp) (subset' still)
            · exact gone' other member
      · rw [if_neg (by simpa using fresh)] at done
        simp only [pure, Except.pure, bind, Except.bind] at done
        obtain ⟨explored, subset, gone⟩ := ih explored done
        refine ⟨explored, subset, ?_⟩
        intro other member
        rcases List.mem_cons.1 member with rfl | member
        · exact fun still => fresh (subset still)
        · exact gone other member

/-- The first pass stops at a node only if the node has an edge to itself. -/
theorem edge_of_exploreAll_error {nodes : List α} {search : Search α} {node : α}
    (stopped : graph.exploreAll nodes search = .error node) : graph.Edge node node := by
  induction nodes generalizing search with
  | nil => simp [Digraph.exploreAll] at stopped
  | cons first nodes ih =>
      rw [Digraph.exploreAll] at stopped
      by_cases fresh : search.fresh.contains first
      · rw [if_pos fresh] at stopped
        cases result : graph.explore [first] search with
        | error top =>
            obtain rfl : top = node := by simpa [result, bind, Except.bind] using stopped
            exact edge_of_explore_error result
        | ok middle =>
            simp only [result, bind, Except.bind] at stopped
            exact ih stopped
      · rw [if_neg fresh] at stopped
        exact ih stopped

/-! ## The second pass -/

/-- If no edge points backward, every predecessor of a node is the node or stands before it. -/
theorem before_of_backward_eq_none {seen nodes : List α} (none : graph.backward seen nodes = none)
    {before : List α} {node : α} {after : List α} (split : nodes = before ++ node :: after)
    {source : α} (edge : graph.Edge source node) :
    source = node ∨ source ∈ seen ∨ source ∈ before := by
  induction nodes generalizing seen before with
  | nil => simp at split
  | cons first nodes ih =>
      rw [backward] at none
      split at none
      · simp at none
      · rename_i late
        cases before with
        | nil =>
            obtain ⟨rfl, -⟩ : first = node ∧ nodes = after := by simpa using split
            have := List.filter_eq_nil_iff.1 (List.getLast?_eq_none_iff.1 late) source
              (by simpa using edge)
            by_cases same : source = first
            · exact .inl same
            · exact .inr (.inl (by simpa [same] using this))
        | cons other before =>
            obtain ⟨rfl, tail⟩ : first = other ∧ nodes = before ++ node :: after := by
              simpa using split
            -- What the rest has seen is this node, or was seen before.
            rcases ih none tail with same | member | member
            · exact .inl same
            · rcases List.mem_cons.1 member with rfl | member
              · exact .inr (.inr List.mem_cons_self)
              · exact .inr (.inl member)
            · exact .inr (.inr (List.mem_cons_of_mem _ member))

/-- What is blamed in the second pass has an edge to a node that stands before it in the list. -/
theorem edge_of_backward {seen nodes : List α} {source : α}
    (found : graph.backward seen nodes = some source) :
    ∃ before node after, nodes = before ++ node :: after ∧ graph.Edge source node ∧
      source ≠ node ∧ source ∉ seen ∧ source ∉ before := by
  induction nodes generalizing seen with
  | nil => simp [backward] at found
  | cons first nodes ih =>
      rw [backward] at found
      split at found
      · rename_i late
        obtain rfl := Option.some.inj found
        have := List.mem_filter.1 (List.mem_of_getLast? late)
        simp only [mem_predecessors, Bool.and_eq_true, decide_eq_true_eq, Bool.not_eq_true',
          List.contains_eq_mem, decide_eq_false_iff_not] at this
        exact ⟨[], first, nodes, rfl, this.1, this.2.1, this.2.2, List.not_mem_nil⟩
      · obtain ⟨before, node, after, rfl, edge, different, unseen, notBefore⟩ := ih found
        rw [List.mem_cons, not_or] at unseen
        exact ⟨first :: before, node, after, rfl, edge, different, unseen.2,
          by simp [unseen.1, notBefore]⟩

/-! ## What the first pass finishes -/

/-- A search finishes nothing but what was on the stack, fresh or finished before. -/
theorem mem_of_explore {stack : List α} {search result : Search α} {node : α}
    (done : graph.explore stack search = .ok result) (finished : node ∈ result.finished) :
    node ∈ stack ∨ node ∈ search.fresh ∨ node ∈ search.finished := by
  fun_induction Digraph.explore graph stack search with
  | case1 search =>
      obtain rfl : search = result := by simpa using done
      exact .inr (.inr finished)
  | case2 search top below isFresh successors loop => simp at done
  | case3 search top below isFresh fresh successors noLoop ih =>
      rcases ih done with waiting | still | before
      · rcases List.mem_append.1 waiting with pushed | waiting
        · -- what is pushed was fresh
          have still : node ∈ search.fresh.erase top := by
            simpa [fresh] using (List.mem_filter.1 (List.mem_reverse.1 pushed)).2
          exact .inr (.inl (List.mem_of_mem_erase still))
        · exact .inl waiting
      · exact .inr (.inl (List.mem_of_mem_erase still))
      · exact .inr (.inr before)
  | case4 search top below discovered ih =>
      rcases ih done with waiting | still | before
      · exact .inl (List.mem_cons_of_mem _ waiting)
      · exact .inr (.inl still)
      · split at before
        · exact .inr (.inr before)
        · rcases List.mem_cons.1 before with rfl | before
          · exact .inl List.mem_cons_self
          · exact .inr (.inr before)

/-- The whole first pass finishes nothing but what was fresh or finished before. -/
theorem Explored.mem_of_exploreAll (proper : graph.Proper) {nodes : List α}
    {search result : Search α} (explored : Explored graph [] search) {node : α}
    (done : graph.exploreAll nodes search = .ok result) (finished : node ∈ result.finished) :
    node ∈ search.fresh ∨ node ∈ search.finished := by
  induction nodes generalizing search with
  | nil =>
      obtain rfl : search = result := by simpa [Digraph.exploreAll, pure, Except.pure] using done
      exact .inr finished
  | cons first nodes ih =>
      rw [Digraph.exploreAll] at done
      by_cases fresh : first ∈ search.fresh
      · rw [if_pos (by simpa using fresh)] at done
        cases searched : graph.explore [first] search with
        | error top => simp [searched, bind, Except.bind] at done
        | ok middle =>
            obtain ⟨later, subset, -⟩ := (explored.push fresh).explore proper searched
            simp only [searched, bind, Except.bind] at done
            rcases ih later done with still | before
            · exact .inl (subset still)
            · rcases mem_of_explore searched before with waiting | still | before
              · exact .inl (List.mem_singleton.1 waiting ▸ fresh)
              · exact .inl still
              · exact .inr before
      · rw [if_neg (by simpa using fresh)] at done
        simp only [pure, Except.pure, bind, Except.bind] at done
        exact ih explored done

/-! ## Both passes -/

/-- The nodes of an order, all of which were finished, and the two passes behind it. -/
private theorem order_eq (graph : Digraph α) :
    graph.order = (graph.exploreAll graph.nodes { fresh := graph.nodes, finished := [] }).bind
      fun search => match graph.backward [] search.finished with
        | some node => .error node
        | none => .ok search.finished := rfl

/-- The list has the nodes of the graph, each once, and every edge leads forward in it. -/
structure Arranges (graph : Digraph α) (nodes : List α) : Prop where
  nodup : nodes.Nodup
  mem_iff : ∀ node, node ∈ nodes ↔ node ∈ graph.nodes
  forward : ∀ before node after, nodes = before ++ node :: after →
    ∀ source, graph.Edge source node → source ∈ before

/-- An order that is found arranges the nodes. -/
theorem arranges_of_order (proper : graph.Proper) {nodes : List α}
    (ordered : graph.order = .ok nodes) : graph.Arranges nodes := by
  rw [order_eq] at ordered
  cases first : graph.exploreAll graph.nodes { fresh := graph.nodes, finished := [] } with
  | error blamed => simp [first, Except.bind] at ordered
  | ok search =>
      obtain ⟨explored, -, gone⟩ := (Explored.start proper).exploreAll proper first
      simp only [first, Except.bind] at ordered
      split at ordered
      · simp at ordered
      · rename_i forward
        obtain rfl := Except.ok.inj ordered
        refine ⟨explored.finished_nodup, fun node => ⟨fun finished => ?_, fun member => ?_⟩, ?_⟩
        · simpa using (Explored.start proper).mem_of_exploreAll proper first finished
        · by_contra unfinished
          simpa using explored.waiting node member (gone node member) unfinished
        · intro before node after split source edge
          have different : source ≠ node := by
            rintro rfl
            exact explored.loopless source (proper.source_mem _ _ edge)
              (gone source (proper.source_mem _ _ edge)) edge
          simpa [different] using before_of_backward_eq_none forward split edge

/-- A graph whose nodes are arranged has no cycle: along a path the index in the list grows. -/
theorem Arranges.acyclic {nodes : List α} (arranges : graph.Arranges nodes)
    (proper : graph.Proper) (node : α) : ¬ TransGen graph.Edge node node := by
  have increases : ∀ source target, graph.Edge source target →
      nodes.idxOf source < nodes.idxOf target := by
    intro source target edge
    have member := (arranges.mem_iff target).2 (proper.target_mem _ _ edge)
    obtain ⟨before, after, split, notBefore⟩ := List.eq_append_cons_of_mem member
    have earlier := arranges.forward before target after split source edge
    rw [split, List.idxOf_append_of_mem earlier, List.idxOf_append_of_notMem notBefore]
    exact Nat.lt_of_lt_of_le (List.idxOf_lt_length_of_mem earlier) (Nat.le_add_right _ _)
  intro cycle
  have grows : ∀ target, TransGen graph.Edge node target →
      nodes.idxOf node < nodes.idxOf target := by
    intro target path
    induction path with
    | single edge => exact increases _ _ edge
    | tail _ edge ih => exact Nat.lt_trans ih (increases _ _ edge)
  exact Nat.lt_irrefl _ (grows node cycle)

/-- A node that makes an order impossible lies on a cycle. -/
theorem cycle_of_order_error (proper : graph.Proper) {node : α}
    (refused : graph.order = .error node) : TransGen graph.Edge node node := by
  rw [order_eq] at refused
  cases first : graph.exploreAll graph.nodes { fresh := graph.nodes, finished := [] } with
  | error blamed =>
      obtain rfl : blamed = node := by simpa [first, Except.bind] using refused
      exact .single (edge_of_exploreAll_error first)
  | ok search =>
      obtain ⟨explored, -, gone⟩ := (Explored.start proper).exploreAll proper first
      simp only [first, Except.bind] at refused
      split at refused
      · rename_i blamed found
        obtain rfl : blamed = node := by simpa using refused
        obtain ⟨before, target, after, split, edge, different, -, notBefore⟩ :=
          edge_of_backward found
        have finished : blamed ∈ search.finished := by
          by_contra unfinished
          simpa using explored.waiting blamed (proper.source_mem _ _ edge)
            (gone blamed (proper.source_mem _ _ edge)) unfinished
        -- the blamed node was finished before its successor, so the successor was open then
        have later : blamed ∈ after := by
          simpa [split, notBefore, different] using finished
        obtain ⟨between, rest, split'⟩ := List.append_of_mem later
        have nodup : (target :: (between ++ blamed :: rest)).Nodup := by
          have := explored.finished_nodup
          rw [split, split'] at this
          exact this.of_append_right
        have notRest : target ∉ rest := fun member =>
          (List.nodup_cons.1 nodup).1 (by simp [member])
        have back := (explored.settled (before ++ target :: between) blamed rest
          (by simp [split, split']) target edge).resolve_left notRest
        exact .head edge back
      · simp at refused

end Signet.Digraph

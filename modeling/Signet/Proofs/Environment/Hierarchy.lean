import Mathlib.Data.List.Chain
import Signet.Environment.Ancestry
import Signet.Proofs.Environment.Insertion
import Signet.Proofs.Environment.Order

/-!
# The check of the class hierarchy

`Environment.checkInheritance` fails exactly if some class is above itself, and then it reports a
cycle of classes in which each is followed by its superclass.

The graph of superclasses holds the relation `Environment.Extends` and nothing else (`Built`), so
the topological order fails exactly on cycles of that relation. A class has one superclass at most.
So the way up from a class on a cycle is the shortest path back to it, and `climb` follows it.
-/

namespace Signet

open Relation

/-! ## Shortest paths -/

/-- Where there is a path, there is one that comes through no place twice. -/
theorem exists_nodup_path {α : Type} {step : α → α → Prop} {source target : α}
    (path : TransGen step source target) :
    ∃ between, List.IsChain step (source :: between ++ [target]) ∧ (source :: between).Nodup ∧
      target ∉ between := by
  classical
  induction path using TransGen.head_induction_on with
  | @single source edge => exact ⟨[], by simpa using edge, by simp, by simp⟩
  | @head source next edge _ ih =>
      obtain ⟨between, chain, nodup, missing⟩ := ih
      by_cases last : next = target
      · exact ⟨[], by simpa [last] using edge, by simp, by simp⟩
      · by_cases again : source ∈ next :: between
        · -- the way comes back to `source`: the round before that is left out
          obtain ⟨skipped, rest, split⟩ := List.append_of_mem again
          have chain : List.IsChain step (skipped ++ (source :: rest ++ [target])) := by
            have : next :: between ++ [target] = skipped ++ (source :: rest ++ [target]) := by
              simp [split]
            rwa [this] at chain
          refine ⟨rest, chain.right_of_append, (split ▸ nodup).of_append_right, fun member => ?_⟩
          have : target ∈ next :: between := by simp [split, member]
          exact (List.mem_cons.1 this).elim (fun equal => last equal.symm) missing
        · refine ⟨next :: between, ?_, List.nodup_cons.2 ⟨again, nodup⟩, ?_⟩
          · exact List.isChain_cons_cons.2 ⟨edge, chain⟩
          · simpa [Ne.symm last] using missing

namespace Digraph

variable {graph : Digraph TypeName}

/-- A node may be added. -/
theorem Proper.addNode (proper : graph.Proper) (node : TypeName) : (graph.addNode node).Proper := by
  unfold Digraph.addNode
  split
  · exact proper
  · rename_i fresh
    refine ⟨?_, fun source target edge => ?_, fun source target edge => ?_⟩
    · exact List.nodup_append.2 ⟨proper.nodup, by simp, by
        rintro other member _ single rfl
        exact fresh (by simpa [List.mem_singleton.1 single] using member)⟩
    · exact List.mem_append_left _ (proper.source_mem source target edge)
    · exact List.mem_append_left _ (proper.target_mem source target edge)

/-- A node that was added is there, and so is every other. -/
theorem mem_addNode (graph : Digraph TypeName) (node other : TypeName) :
    other ∈ (graph.addNode node).nodes ↔ other ∈ graph.nodes ∨ other = node := by
  unfold Digraph.addNode
  split
  · rename_i member
    have : node ∈ graph.nodes := by simpa using member
    exact ⟨.inl, fun h => h.elim id (· ▸ this)⟩
  · simp

@[simp] theorem edges_addNode (graph : Digraph TypeName) (node : TypeName) :
    (graph.addNode node).edges = graph.edges := by
  unfold Digraph.addNode
  split <;> rfl

/-- An edge may be added between listed nodes. -/
theorem Proper.addEdge (proper : graph.Proper) {source target : TypeName}
    (from_mem : source ∈ graph.nodes) (to_mem : target ∈ graph.nodes) :
    (graph.addEdge source target).Proper where
  nodup := proper.nodup
  source_mem := by
    intro first second edge
    rcases List.mem_append.1 edge with edge | edge
    · exact proper.source_mem first second edge
    · obtain ⟨rfl, -⟩ : first = source ∧ second = target := by simpa using edge
      exact from_mem
  target_mem := by
    intro first second edge
    rcases List.mem_append.1 edge with edge | edge
    · exact proper.target_mem first second edge
    · obtain ⟨-, rfl⟩ : first = source ∧ second = target := by simpa using edge
      exact to_mem

end Digraph

/-- Some declaration speaks for an entry that has any. -/
theorem ClassEntry.exists_primary {entry : ClassEntry} (nonempty : entry.records ≠ []) :
    ∃ record, entry.primary = .ok record := by
  cases h : entry.primary? with
  | none => simp [ClassEntry.primary?, nonempty] at h
  | some record => exact ⟨record, by simp [ClassEntry.primary, h]⟩

/-! ## The graph of superclasses -/

namespace Environment

variable {environment : Environment}

/-- The name is that of a class, and the other is that of its superclass. -/
def Extends (environment : Environment) (name superclass : TypeName) : Prop :=
  (∃ entry, environment.get? name = some entry ∧ entry.isModule = false) ∧
    environment.superclassOf name = .ok (some superclass)

/-- In an orderly environment the superclass of a name is never in doubt. -/
theorem Orderly.exists_superclassOf (orderly : environment.Orderly) (name : TypeName) :
    ∃ superclass?, environment.superclassOf name = .ok superclass? := by
  unfold superclassOf
  cases found : environment.get? name with
  | none => exact ⟨none, rfl⟩
  | some entry =>
      have member := ((orderly.get?_eq_some_iff name entry).1 found).1
      obtain ⟨record, primary⟩ := ClassEntry.exists_primary (orderly.nonempty entry member)
      exact ⟨_, by simp [primary]; rfl⟩

end Environment

namespace SuperclassGraph

variable {environment : Environment} {entries : List ClassEntry} {classes : SuperclassGraph}

/-- What the graph holds once some entries are in it. -/
structure Built (environment : Environment) (entries : List ClassEntry)
    (classes : SuperclassGraph) : Prop where
  proper : classes.graph.Proper
  edges_eq : classes.graph.edges = classes.superclasses.map Prod.swap
  keys : (classes.superclasses.map Prod.fst).Sublist (entries.map (·.name))
  superclass_mem : ∀ name superclass, (name, superclass) ∈ classes.superclasses ↔
    (∃ entry ∈ entries, entry.name = name ∧ entry.isModule = false) ∧
      environment.superclassOf name = .ok (some superclass)

namespace Built

/-- Before any entry the graph is empty. -/
theorem start : Built environment [] {} where
  proper := ⟨List.nodup_nil, by simp [Digraph.Edge], by simp [Digraph.Edge]⟩
  edges_eq := rfl
  keys := List.Sublist.refl _
  superclass_mem := by simp

/-- An entry without a superclass adds a node at most. -/
theorem skip (built : Built environment entries classes) (entry : ClassEntry)
    {graph : Digraph TypeName} (proper : graph.Proper) (edges : graph.edges = classes.graph.edges)
    (rootless : entry.isModule = true ∨ environment.superclassOf entry.name = .ok none) :
    Built environment (entries ++ [entry]) { classes with graph := graph } where
  proper := proper
  edges_eq := edges.trans built.edges_eq
  keys := by
    rw [List.map_append]
    exact built.keys.trans (List.sublist_append_left ..)
  superclass_mem := by
    intro name superclass
    rw [built.superclass_mem name superclass]
    constructor
    · rintro ⟨⟨other, member, named⟩, above⟩
      exact ⟨⟨other, List.mem_append_left _ member, named⟩, above⟩
    · rintro ⟨⟨other, member, rfl, isClass⟩, above⟩
      rcases List.mem_append.1 member with member | member
      · exact ⟨⟨other, member, rfl, isClass⟩, above⟩
      · obtain rfl := List.mem_singleton.1 member
        rcases rootless with isModule | none
        · simp [isModule] at isClass
        · simp [none] at above

/-- A class with a superclass adds an edge between the two. -/
theorem link (built : Built environment entries classes) {entry : ClassEntry}
    {superclass : TypeName} (isClass : entry.isModule = false)
    (known : environment.superclassOf entry.name = .ok (some superclass)) :
    Built environment (entries ++ [entry])
      ((classes.addClass entry.name).addSuperclass entry.name superclass) where
  proper := by
    refine Digraph.Proper.addEdge ((built.proper.addNode _).addNode _) ?_ ?_
    · exact (Digraph.mem_addNode ..).2 (.inr rfl)
    · exact (Digraph.mem_addNode ..).2 (.inl ((Digraph.mem_addNode ..).2 (.inr rfl)))
  edges_eq := by
    simp [addClass, addSuperclass, Digraph.addEdge, built.edges_eq]
  keys := by
    simpa [addClass, addSuperclass] using built.keys
  superclass_mem := by
    intro name other
    -- The pair is an old one, or it is that of the entry.
    have old := built.superclass_mem name other
    constructor
    · intro member
      rcases List.mem_append.1 member with member | member
      · obtain ⟨⟨first, member, named⟩, above⟩ := old.1 member
        exact ⟨⟨first, List.mem_append_left _ member, named⟩, above⟩
      · obtain ⟨rfl, rfl⟩ : name = entry.name ∧ other = superclass := by simpa using member
        exact ⟨⟨entry, by simp, rfl, isClass⟩, known⟩
    · rintro ⟨⟨first, member, rfl, first_isClass⟩, above⟩
      rcases List.mem_append.1 member with member | member
      · exact List.mem_append_left _ (old.2 ⟨⟨first, member, rfl, first_isClass⟩, above⟩)
      · obtain rfl := List.mem_singleton.1 member
        obtain rfl : superclass = other := by simpa [known] using above
        exact List.mem_append_right _ (by simp)

/-- One more entry may always be put into the graph. -/
theorem addEntry (built : Built environment entries classes) (orderly : environment.Orderly)
    (entry : ClassEntry) :
    ∃ next, classes.addEntry environment entry = .ok next ∧
      Built environment (entries ++ [entry]) next := by
  unfold SuperclassGraph.addEntry
  by_cases isModule : entry.isModule
  · exact ⟨classes, by simp [isModule], built.skip entry built.proper rfl (.inl isModule)⟩
  · obtain ⟨superclass?, known⟩ := orderly.exists_superclassOf entry.name
    simp only [isModule, known]
    cases superclass? with
    | none =>
        exact ⟨classes.addClass entry.name, rfl,
          built.skip entry (built.proper.addNode _) (Digraph.edges_addNode ..) (.inr known)⟩
    | some superclass =>
        exact ⟨_, rfl, built.link (by simpa using isModule) known⟩

/-- The other entries may follow, in order. -/
theorem foldlM (orderly : environment.Orderly) :
    ∀ (others entries : List ClassEntry) (classes : SuperclassGraph),
      Built environment entries classes →
        ∃ result, others.foldlM (SuperclassGraph.addEntry environment) classes = .ok result ∧
          Built environment (entries ++ others) result
  | [], entries, classes, built => ⟨classes, rfl, by simpa using built⟩
  | entry :: others, entries, classes, built => by
      obtain ⟨next, added, built⟩ := built.addEntry orderly entry
      obtain ⟨result, folded, built⟩ := foldlM orderly others _ next built
      refine ⟨result, ?_, by simpa using built⟩
      rw [List.foldlM_cons, added]
      exact folded

end Built

/-- The graph of an orderly environment can be built. -/
theorem built_ofEnvironment (orderly : environment.Orderly) :
    ∃ classes, ofEnvironment environment = .ok classes ∧
      Built environment environment.entries classes := by
  exact Built.start.foldlM orderly environment.entries [] {}

namespace Built

variable (built : Built environment environment.entries classes) (orderly : environment.Orderly)

include built orderly

/-- The superclasses of a finished graph are those of the classes. -/
theorem mem_iff (name superclass : TypeName) :
    (name, superclass) ∈ classes.superclasses ↔ environment.Extends name superclass := by
  rw [built.superclass_mem]
  unfold Environment.Extends
  constructor
  · rintro ⟨⟨entry, member, named, isClass⟩, above⟩
    exact ⟨⟨entry, (orderly.get?_eq_some_iff name entry).2 ⟨member, named⟩, isClass⟩, above⟩
  · rintro ⟨⟨entry, found, isClass⟩, above⟩
    obtain ⟨member, named⟩ := (orderly.get?_eq_some_iff name entry).1 found
    exact ⟨⟨entry, member, named, isClass⟩, above⟩

/-- The edges of a finished graph lead from superclasses to classes. -/
theorem edge_iff (superclass name : TypeName) :
    classes.graph.Edge superclass name ↔ environment.Extends name superclass := by
  rw [← built.mem_iff orderly, Digraph.Edge, built.edges_eq]
  simp

/-- A class is listed once, so looking it up finds its superclass. -/
theorem superclass_eq_some_iff (name superclass : TypeName) :
    classes.superclass name = some superclass ↔ environment.Extends name superclass := by
  rw [← built.mem_iff orderly]
  have nodup : (classes.superclasses.map Prod.fst).Nodup := built.keys.nodup orderly.nodup
  exact lookup_eq_some_iff_mem nodup name superclass

/-- A way up that comes through no class twice has no more steps than there are superclasses. -/
theorem length_le {path : List TypeName} {last : TypeName} (nodup : path.Nodup)
    (chain : List.IsChain environment.Extends (path ++ [last])) :
    path.length ≤ classes.superclasses.length := by
  have : path ⊆ classes.superclasses.map Prod.fst := by
    intro name member
    obtain ⟨before, after, rfl⟩ := List.append_of_mem member
    have chain : List.IsChain environment.Extends (name :: (after ++ [last])) := by
      simp only [List.append_assoc, List.cons_append] at chain
      exact chain.right_of_append
    cases after with
    | nil =>
        have above := (List.isChain_cons_cons.1 chain).1
        exact List.mem_map.2 ⟨_, (built.mem_iff orderly name last).2 above, rfl⟩
    | cons next after =>
        have above := (List.isChain_cons_cons.1 chain).1
        exact List.mem_map.2 ⟨_, (built.mem_iff orderly name next).2 above, rfl⟩
  simpa using nodup.length_le_of_subset this

/-- Climbing follows a way up until it comes to a class that was seen. -/
theorem climb_eq {last : TypeName} :
    ∀ (path : List TypeName) (name : TypeName) (steps : Nat) (seen : List TypeName),
      List.IsChain environment.Extends (name :: path ++ [last]) → path.Nodup →
        (∀ other ∈ path, other ∉ seen) → last ∈ seen → path.length ≤ steps →
          classes.climb steps seen name = path
  | [], name, steps, seen, chain, _, _, stop, _ => by
      have above : classes.superclass name = some last :=
        (built.superclass_eq_some_iff orderly name last).2 (by simpa using chain)
      cases steps with
      | zero => rfl
      | succ steps => simp [climb, above, stop]
  | next :: path, name, steps, seen, chain, nodup, unseen, stop, enough => by
      obtain ⟨steps, rfl⟩ : ∃ less, steps = less + 1 := ⟨steps - 1, by simp at enough; omega⟩
      -- `next` is new, so the climb takes it and goes on with one step less
      obtain ⟨edge, chain⟩ := List.isChain_cons_cons.1 chain
      obtain ⟨missing, nodup⟩ := List.nodup_cons.1 nodup
      have above := (built.superclass_eq_some_iff orderly name next).2 edge
      have new : next ∉ seen := unseen next List.mem_cons_self
      have rest := climb_eq path next steps (next :: seen) chain nodup (by
        intro other member
        rw [List.mem_cons, not_or]
        refine ⟨?_, unseen other (List.mem_cons_of_mem _ member)⟩
        rintro rfl
        exact missing member) (List.mem_cons_of_mem _ stop) (by simpa using enough)
      simp [climb, above, new, rest]

/-- The ancestors of a class on a cycle are the rest of the cycle, each followed by its
superclass. -/
theorem exists_ancestors_eq {name : TypeName} (cycle : TransGen environment.Extends name name) :
    ∃ others, classes.ancestors name = others ∧ (name :: others).Nodup ∧
      List.IsChain environment.Extends (name :: others ++ [name]) := by
  obtain ⟨others, chain, nodup, missing⟩ := exists_nodup_path cycle
  have enough := built.length_le orderly nodup chain
  refine ⟨others, ?_, nodup, chain⟩
  refine built.climb_eq orderly others name _ [name] chain (List.nodup_cons.1 nodup).2 ?_ (by simp)
    (Nat.le_of_succ_le enough)
  intro other member
  rw [List.mem_singleton]
  rintro rfl
  exact missing member

/-- A cycle of the graph is one of the relation, walked the other way. -/
theorem cycle_iff (name : TypeName) :
    TransGen classes.graph.Edge name name ↔ TransGen environment.Extends name name := by
  rw [← transGen_swap]
  have : Function.swap classes.graph.Edge = environment.Extends := by
    funext name superclass
    exact propext (built.edge_iff orderly superclass name)
  rw [this]

end Built

end SuperclassGraph

namespace Environment

/-! ## The check -/

variable {environment : Environment}

/-- The graph passes if it has no cycle, and otherwise a cycle is reported in full. -/
theorem checkAcyclic_cases {classes : SuperclassGraph} (orderly : environment.Orderly)
    (built : SuperclassGraph.Built environment environment.entries classes) :
    (classes.checkAcyclic environment = .ok () ∧
      ∀ name, ¬ TransGen environment.Extends name name) ∨
    ∃ name others location,
      classes.checkAcyclic environment =
        .error (.cyclicHierarchy name (name :: others ++ [name]) location) ∧
      TransGen environment.Extends name name ∧ (name :: others).Nodup ∧
      List.IsChain environment.Extends (name :: others ++ [name]) := by
  unfold SuperclassGraph.checkAcyclic SuperclassGraph.linearize
  cases ordered : classes.graph.order with
  | ok nodes =>
      refine .inl ⟨rfl, fun name cycle => ?_⟩
      exact (Digraph.arranges_of_order built.proper ordered).acyclic built.proper name
        ((built.cycle_iff orderly name).2 cycle)
  | error name =>
      have cycle := (built.cycle_iff orderly name).1
        (Digraph.cycle_of_order_error built.proper ordered)
      -- whatever lies on a cycle has a superclass, so it is declared
      obtain ⟨_, ⟨⟨entry, found, _⟩, _⟩, _⟩ := TransGen.head'_iff.1 cycle
      have member := ((orderly.get?_eq_some_iff name entry).1 found).1
      obtain ⟨record, primary⟩ := ClassEntry.exists_primary (orderly.nonempty entry member)
      obtain ⟨others, rfl, nodup, chain⟩ := built.exists_ancestors_eq orderly cycle
      refine .inr ⟨name, _, record.declaration.location, ?_, cycle, nodup, chain⟩
      simp only [found, primary]
      rfl

/-- The check of the hierarchy fails exactly if some class is above itself. It then reports a cycle
that begins and ends with the class it blames, and comes through no other class twice. -/
theorem checkInheritance_finds_cycles (reachable : Reachable environment) :
    ((∃ error, environment.checkInheritance = .error error) ↔
      ∃ name, TransGen environment.Extends name name) ∧
    ∀ error, environment.checkInheritance = .error error →
      ∃ name others location, error = .cyclicHierarchy name (name :: others ++ [name]) location ∧
        TransGen environment.Extends name name ∧ (name :: others).Nodup ∧
        List.IsChain environment.Extends (name :: others ++ [name]) ∧
        error.message = "Cyclic class hierarchy: " ++
          " < ".intercalate ((name :: others ++ [name]).map EnvironmentError.shown) := by
  have orderly := reachable.orderly
  obtain ⟨classes, made, built⟩ := SuperclassGraph.built_ofEnvironment orderly
  have check : environment.checkInheritance = classes.checkAcyclic environment := by
    rw [checkInheritance, made]
    rfl
  rw [check]
  rcases checkAcyclic_cases orderly built with
    ⟨passed, acyclic⟩ | ⟨name, others, location, failed, cycle, nodup, chain⟩
  · simp [passed, acyclic]
  · refine ⟨⟨fun _ => ⟨name, cycle⟩, fun _ => ⟨_, failed⟩⟩, fun error reported => ?_⟩
    obtain rfl : _ = error := Except.error.inj (failed.symm.trans reported)
    exact ⟨name, others, location, rfl, cycle, nodup, chain, rfl⟩

/-- A class without members below another one. -/
def classBelow (name superclass : String) : Declaration :=
  let source : Buffer := .ofString "" ""
  .mk
    { name := .ofString name
      form := .ofClass
        (some { name := .ofString superclass, location := { buffer := source, range := ⟨0, 0⟩ } })
        { buffer := source, range := ⟨0, 0⟩ } } []

/-- Two classes each of which is below the other. -/
def mutuallyBelow : Environment :=
  after (insert .top (classBelow "B" "A")) (after (insert .top (classBelow "A" "B")) {})

/-- Two classes each of which is below the other are reported as a cycle. -/
theorem checkInheritance_mutuallyBelow :
    Reachable mutuallyBelow ∧ ∃ name others location,
      mutuallyBelow.checkInheritance =
        .error (.cyclicHierarchy name (name :: others ++ [name]) location) := by
  have reachable : Reachable mutuallyBelow := .insert .top _ (.insert .top _ .empty)
  have up : mutuallyBelow.superclassOf (.ofString "::A") = .ok (some (.ofString "::B")) := rfl
  have down : mutuallyBelow.superclassOf (.ofString "::B") = .ok (some (.ofString "::A")) := rfl
  have cycle : TransGen mutuallyBelow.Extends (.ofString "::A") (.ofString "::A") :=
    .tail (.single ⟨⟨_, rfl, rfl⟩, up⟩) ⟨⟨_, rfl, rfl⟩, down⟩
  obtain ⟨failing, reported⟩ := checkInheritance_finds_cycles reachable
  obtain ⟨error, failed⟩ := failing.2 ⟨_, cycle⟩
  obtain ⟨name, others, location, rfl, -⟩ := reported error failed
  exact ⟨reachable, name, others, location, failed⟩

end Environment

end Signet

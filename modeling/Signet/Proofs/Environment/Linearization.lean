import Mathlib.Data.List.Permutation
import Signet.Proofs.Environment.Superclasses

/-!
# The order of the classes and the way up from one

The graph of superclasses has a node for each class and for each superclass, and no other
(`SuperclassGraph.mem_nodes_iff`). So an order of the graph lists exactly these, each class behind
its superclass.

From a class upward, `climb` leaves a class only for one that it has not met (`climb_nodup`), and it
stops before its bound unless there is nothing to go on to (`climb_stops`). The bound of `ancestors`
is never what stops it: whoever has met as many classes as there are superclasses stands at one that
has none (`Built.wayUp_ancestors`).
-/

namespace Signet

open Relation

namespace Environment

variable {environment : Environment} {name superclass : TypeName}

/-- The name is declared, as that of a class. -/
def DeclaresClass (environment : Environment) (name : TypeName) : Prop :=
  ∃ entry, environment.get? name = some entry ∧ entry.isModule = false

/-- The second name is that of the superclass of the first. -/
def IsBelow (environment : Environment) (name superclass : TypeName) : Prop :=
  environment.superclassOf name = .ok (some superclass)

/-- What has a superclass is a class: no declaration of a module names one. -/
theorem extends_iff (reachable : Reachable environment) :
    environment.Extends name superclass ↔ environment.IsBelow name superclass := by
  refine ⟨fun extending => extending.2, fun below => ⟨?_, below⟩⟩
  obtain ⟨context, written, ⟨entry, item, reference, found, primary, -, writing, -⟩, -⟩ :=
    exists_writes_of_superclassOf below
  refine ⟨entry, found, ?_⟩
  have member := ((reachable.orderly.get?_eq_some_iff name entry).1 found).1
  have uniform :=
    reachable.wellFormed.uniform entry member item (ClassEntry.mem_of_primary primary)
  by_contra isModule
  have none := Declaration.superclass_of_isModule (uniform.trans (by simpa using isModule))
  simp [none] at writing

/-- The way up from a name: each is followed by its superclass, none comes twice, and the last one
has no superclass, or one that has come before. -/
structure WayUp (environment : Environment) (name : TypeName) (above : List TypeName) : Prop where
  nodup : (name :: above).Nodup
  chain : List.IsChain environment.IsBelow (name :: above)
  stops : ∀ superclass,
    environment.IsBelow ((name :: above).getLast (List.cons_ne_nil name above)) superclass →
      superclass ∈ name :: above

end Environment

namespace SuperclassGraph

variable {environment : Environment} {entry : ClassEntry} {entries : List ClassEntry}
  {classes next result : SuperclassGraph}

/-! ## The nodes of the graph -/

/-- An entry adds its name and its superclass, if it is that of a class. -/
theorem mem_nodes_addEntry (added : classes.addEntry environment entry = .ok next)
    (name : TypeName) :
    name ∈ next.graph.nodes ↔ name ∈ classes.graph.nodes ∨
      entry.isModule = false ∧ (name = entry.name ∨ environment.IsBelow entry.name name) := by
  unfold addEntry at added
  unfold Environment.IsBelow
  by_cases isModule : entry.isModule
  · obtain rfl : classes = next := by simpa [isModule] using added
    simp [isModule]
  · simp only [isModule] at added
    cases above : environment.superclassOf entry.name with
    | error error => simp [above, bind, Except.bind] at added
    | ok superclass? =>
        -- A class adds itself and its superclass, if it has one.
        cases superclass? with
        | none =>
            obtain rfl : classes.addClass entry.name = next := by
              simpa [above, bind, Except.bind, pure, Except.pure] using added
            simp [addClass, Digraph.mem_addNode, isModule]
        | some superclass =>
            obtain rfl :
                (classes.addClass entry.name).addSuperclass entry.name superclass = next := by
              simpa [above, bind, Except.bind, pure, Except.pure] using added
            simp [addClass, addSuperclass, Digraph.addEdge, Digraph.mem_addNode, isModule, or_assoc,
              eq_comm]

/-- So do several entries, one after the other. -/
theorem mem_nodes_foldlM (folded : entries.foldlM (addEntry environment) classes = .ok result)
    (name : TypeName) :
    name ∈ result.graph.nodes ↔ name ∈ classes.graph.nodes ∨ ∃ entry ∈ entries,
      entry.isModule = false ∧ (name = entry.name ∨ environment.IsBelow entry.name name) := by
  induction entries generalizing classes with
  | nil =>
      obtain rfl : classes = result := by simpa [pure, Except.pure] using folded
      simp
  | cons entry entries ih =>
      rw [List.foldlM_cons] at folded
      cases added : classes.addEntry environment entry with
      | error error => simp [added, bind, Except.bind] at folded
      | ok next =>
          simp only [added, bind, Except.bind] at folded
          rw [ih folded, mem_nodes_addEntry added, List.exists_mem_cons_iff, or_assoc]

/-- The graph has a node for each class and for each superclass. -/
theorem mem_nodes_iff (reachable : Environment.Reachable environment)
    (made : ofEnvironment environment = .ok classes) (name : TypeName) :
    name ∈ classes.graph.nodes ↔
      environment.DeclaresClass name ∨ ∃ below, environment.IsBelow below name := by
  have declared : ∀ entry ∈ environment.entries, environment.get? entry.name = some entry :=
    fun entry member => (reachable.orderly.get?_eq_some_iff _ entry).2 ⟨member, rfl⟩
  rw [mem_nodes_foldlM made]
  constructor
  · rintro (absent | ⟨entry, member, isClass, rfl | below⟩)
    · cases absent
    · exact .inl ⟨entry, declared entry member, isClass⟩
    · exact .inr ⟨entry.name, below⟩
  · rintro (⟨entry, found, isClass⟩ | ⟨below, up⟩)
    · obtain ⟨member, rfl⟩ := (reachable.orderly.get?_eq_some_iff name entry).1 found
      exact .inr ⟨entry, member, isClass, .inl rfl⟩
    · obtain ⟨⟨entry, found, isClass⟩, -⟩ := (Environment.extends_iff reachable).2 up
      obtain ⟨member, rfl⟩ := (reachable.orderly.get?_eq_some_iff below entry).1 found
      exact .inr ⟨entry, member, isClass, .inr up⟩

/-! ## The way up -/

/-- Each class is followed by its superclass. -/
theorem climb_chain (classes : SuperclassGraph) (steps : Nat) (seen : List TypeName)
    (name : TypeName) :
    List.IsChain (fun name superclass => classes.superclass name = some superclass)
      (name :: classes.climb steps seen name) := by
  fun_induction classes.climb steps seen name with
  | case1 seen name => exact .singleton name
  | case2 steps seen name top => exact .singleton name
  | case3 steps seen name superclass up met => exact .singleton name
  | case4 steps seen name superclass up new ih => exact .cons_cons up ih

/-- No class is met again. -/
theorem climb_nodup (classes : SuperclassGraph) (steps : Nat) (seen : List TypeName)
    (name : TypeName) :
    (classes.climb steps seen name).Nodup ∧
      ∀ other ∈ classes.climb steps seen name, other ∉ seen := by
  fun_induction classes.climb steps seen name with
  | case1 seen name => simp
  | case2 steps seen name top => simp
  | case3 steps seen name superclass up met => simp
  | case4 steps seen name superclass up new ih =>
      obtain ⟨nodup, unseen⟩ := ih
      refine ⟨List.nodup_cons.2 ⟨fun again => ?_, nodup⟩, List.forall_mem_cons.2 ⟨?_, ?_⟩⟩
      · exact unseen superclass again List.mem_cons_self
      · simpa using new
      · exact fun other member seen => unseen other member (List.mem_cons_of_mem _ seen)

/-- Where climbing stops, the next class has been met, or the steps are used up. -/
theorem climb_stops (classes : SuperclassGraph) (steps : Nat) (seen : List TypeName)
    (name : TypeName) {superclass : TypeName}
    (up : classes.superclass ((name :: classes.climb steps seen name).getLast
      (List.cons_ne_nil _ _)) = some superclass) :
    superclass ∈ seen ∨ superclass ∈ classes.climb steps seen name ∨
      (classes.climb steps seen name).length = steps := by
  fun_induction classes.climb steps seen name with
  | case1 seen name => exact .inr (.inr rfl)
  | case2 steps seen name top =>
      rw [List.getLast_singleton, top] at up
      cases up
  | case3 steps seen name other above met =>
      rw [List.getLast_singleton, above] at up
      obtain rfl := Option.some.inj up
      exact .inl (by simpa using met)
  | case4 steps seen name other above new ih =>
      rw [List.getLast_cons_cons] at up
      rcases ih up with met | met | used
      · rcases List.mem_cons.1 met with rfl | met
        · exact .inr (.inl List.mem_cons_self)
        · exact .inl met
      · exact .inr (.inl (List.mem_cons_of_mem _ met))
      · exact .inr (.inr (by rw [List.length_cons, used]))

/-- The ancestors of a name are the way up from it, on a cycle too. -/
theorem Built.wayUp_ancestors (built : Built environment environment.entries classes)
    (reachable : Environment.Reachable environment) (name : TypeName) :
    environment.WayUp name (classes.ancestors name) := by
  have up_iff : ∀ name superclass,
      classes.superclass name = some superclass ↔ environment.Extends name superclass :=
    built.superclass_eq_some_iff reachable.orderly
  obtain ⟨nodup, unseen⟩ := classes.climb_nodup classes.superclasses.length [name] name
  have chain := classes.climb_chain classes.superclasses.length [name] name
  have whole : (name :: classes.ancestors name).Nodup :=
    List.nodup_cons.2 ⟨fun member => unseen name member List.mem_cons_self, nodup⟩
  refine ⟨whole, chain.imp fun name superclass up => ?_, fun superclass below => ?_⟩
  · exact (Environment.extends_iff reachable).1 ((up_iff name superclass).1 up)
  · have further := (Environment.extends_iff reachable).2 below
    rcases classes.climb_stops _ _ name ((up_iff _ superclass).2 further) with met | met | used
    · exact List.mem_singleton.1 met ▸ List.mem_cons_self
    · exact List.mem_cons_of_mem _ met
    · -- each class on the way and the last one too would have a superclass, one more than there are
      have longer : List.IsChain environment.Extends
          ((name :: classes.ancestors name) ++ [superclass]) := by
        refine List.isChain_append.2 ⟨chain.imp fun _ _ => (up_iff _ _).1, .singleton _, ?_⟩
        intro last isLast other isFirst
        obtain rfl := Option.some.inj isFirst
        rw [List.getLast?_eq_some_getLast (List.cons_ne_nil _ _)] at isLast
        exact Option.some.inj isLast ▸ further
      have short := built.length_le reachable.orderly whole longer
      have long : (classes.ancestors name).length = classes.superclasses.length := used
      rw [List.length_cons] at short
      omega

end SuperclassGraph

namespace Environment

variable {environment : Environment}

/-- The classes of a reachable environment can be listed exactly if none is above itself. The list
has the name of every class and every superclass, each once, and nothing else, and each class comes
behind its superclass. Whether or not there is a list, the ancestors of a name are the way up from
it, each the superclass of the one before it, up to a class that has none or whose superclass has
come before. -/
theorem linearize_superclasses_first (reachable : Reachable environment) :
    ∃ classes, SuperclassGraph.ofEnvironment environment = .ok classes ∧
      ((∃ order, classes.linearize = .ok order) ↔
        ∀ name, ¬ TransGen environment.IsBelow name name) ∧
      (∀ order, classes.linearize = .ok order →
        order.Nodup ∧
        (∀ name, name ∈ order ↔
          environment.DeclaresClass name ∨ ∃ below, environment.IsBelow below name) ∧
        ∀ before name after, order = before ++ name :: after →
          ∀ superclass, environment.IsBelow name superclass → superclass ∈ before) ∧
      ∀ name, environment.WayUp name (classes.ancestors name) := by
  have orderly := reachable.orderly
  obtain ⟨classes, made, built⟩ := SuperclassGraph.built_ofEnvironment orderly
  have same : environment.Extends = environment.IsBelow := by
    funext name superclass
    exact propext (extends_iff reachable)
  refine ⟨classes, made, ⟨?_, ?_⟩, ?_, built.wayUp_ancestors reachable⟩
  · rintro ⟨order, ordered⟩ name cycle
    exact (Digraph.arranges_of_order built.proper ordered).acyclic built.proper name
      ((built.cycle_iff orderly name).2 (same ▸ cycle))
  · intro acyclic
    cases ordered : classes.graph.order with
    | ok order => exact ⟨order, ordered⟩
    | error name =>
        have cycle := Digraph.cycle_of_order_error built.proper ordered
        exact absurd (same ▸ (built.cycle_iff orderly name).1 cycle) (acyclic name)
  · intro order ordered
    have arranges := Digraph.arranges_of_order built.proper ordered
    refine ⟨arranges.nodup, fun name => ?_, fun before name after split superclass below => ?_⟩
    · exact (arranges.mem_iff name).trans (SuperclassGraph.mem_nodes_iff reachable made name)
    · exact arranges.forward before name after split superclass
        ((built.edge_iff orderly superclass name).2 (same ▸ below))

/-- Two classes one below the other, both below one that is written from the top level and is not
declared anywhere. -/
def threeLevels : Environment :=
  after (insert .top (classBelow "B" "::A")) (after (insert .top (classBelow "C" "B")) {})

/-- Their graph, in the order of their declarations. -/
def threeLevelsGraph : SuperclassGraph :=
  let a : TypeName := ⟨⟨[], true⟩, "A"⟩
  let b : TypeName := ⟨⟨[], true⟩, "B"⟩
  let c : TypeName := ⟨⟨[], true⟩, "C"⟩
  { graph := { nodes := [c, b, a], edges := [(b, c), (a, b)] }
    superclasses := [(c, b), (b, a)] }

/-- The undeclared superclass comes first, and the class that is declared first comes last. -/
theorem linearize_superclasses_first_threeLevels :
    let order : List TypeName := [.ofString "::A", .ofString "::B", .ofString "::C"]
    Reachable threeLevels ∧
      ∃ classes, SuperclassGraph.ofEnvironment threeLevels = .ok classes ∧
        classes.linearize = .ok order ∧
        (∀ name, name ∈ order ↔
          threeLevels.DeclaresClass name ∨ ∃ below, threeLevels.IsBelow below name) ∧
        threeLevels.WayUp (.ofString "::C") [.ofString "::B", .ofString "::A"] := by
  have reachable : Reachable threeLevels := .insert .top _ (.insert .top _ .empty)
  have made : SuperclassGraph.ofEnvironment threeLevels = .ok threeLevelsGraph := rfl
  have ordered : threeLevelsGraph.linearize =
      .ok [⟨⟨[], true⟩, "A"⟩, ⟨⟨[], true⟩, "B"⟩, ⟨⟨[], true⟩, "C"⟩] := by cbv
  have ancestors : threeLevelsGraph.ancestors (.ofString "::C") =
      [.ofString "::B", .ofString "::A"] := rfl
  obtain ⟨classes, same, -, listed, wayUp⟩ := linearize_superclasses_first reachable
  obtain rfl := Except.ok.inj (same.symm.trans made)
  exact ⟨reachable, threeLevelsGraph, made, ordered, (listed _ ordered).2.1,
    ancestors ▸ wayUp (.ofString "::C")⟩

end Environment

end Signet

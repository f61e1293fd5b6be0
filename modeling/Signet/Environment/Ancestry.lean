import Signet.Environment.Basic
import Signet.Environment.Order

/-! # Superclasses

Each class has at most one superclass that is declared. The graph of superclasses has a node for
every class and every superclass, and an edge from each superclass to its subclass. Following
superclasses upward from a class gives its ancestors. The hierarchy is sound if no class is among
its own ancestors, that is, if the graph has a topological order.
-/

namespace Signet

/-- The superclass of a name: that of its primary declaration, as it resolves there. -/
def Environment.superclassOf (environment : Environment) (name : TypeName) :
    Except EnvironmentError (Option TypeName) :=
  match environment.get? name with
  | none => .ok none
  | some entry => do
    let record ← entry.primary
    return record.declaration.superclass.bind fun superclass =>
      environment.resolve record.context superclass.name

/-- Classes and their superclasses. -/
structure SuperclassGraph where
  graph : Digraph TypeName := {}
  superclasses : List (TypeName × TypeName) := []

namespace SuperclassGraph

/-- The graph with a class. -/
def addClass (classes : SuperclassGraph) (name : TypeName) : SuperclassGraph :=
  { classes with graph := classes.graph.addNode name }

/-- The graph with the superclass of a class. -/
def addSuperclass (classes : SuperclassGraph) (name superclass : TypeName) : SuperclassGraph :=
  { graph := (classes.graph.addNode superclass).addEdge superclass name
    superclasses := classes.superclasses ++ [(name, superclass)] }

/-- The graph with the class of an entry; a module has no place in it. -/
def addEntry (environment : Environment) (classes : SuperclassGraph) (entry : ClassEntry) :
    Except EnvironmentError SuperclassGraph :=
  if entry.isModule then .ok classes
  else do
    let classes := classes.addClass entry.name
    match ← environment.superclassOf entry.name with
    | some superclass => return classes.addSuperclass entry.name superclass
    | none => return classes

/-- The classes of an environment, in order. -/
def ofEnvironment (environment : Environment) : Except EnvironmentError SuperclassGraph :=
  environment.entries.foldlM (addEntry environment) {}

/-- The superclass of a class. -/
def superclass (classes : SuperclassGraph) (name : TypeName) : Option TypeName :=
  classes.superclasses.lookup name

/-- Follows superclasses upward, at most a given number of times, up to a class that has been seen
or has no superclass. -/
def climb (classes : SuperclassGraph) : Nat → List TypeName → TypeName → List TypeName
  | 0, _, _ => []
  | steps + 1, seen, name =>
    match classes.superclass name with
    | none => []
    | some superclass =>
      if seen.contains superclass then []
      else superclass :: climb classes steps (superclass :: seen) superclass

/-- The superclass of a class, its superclass, and so on. Every step up leaves a class that has a
superclass and is not seen again, so there are no more steps than superclasses. -/
def ancestors (classes : SuperclassGraph) (name : TypeName) : List TypeName :=
  classes.climb classes.superclasses.length [name] name

/-- The classes, each after its superclass, or a class on a cycle. -/
def linearize (classes : SuperclassGraph) : Except TypeName (List TypeName) := classes.graph.order

/-- Succeeds if no class is above itself. -/
def checkAcyclic (classes : SuperclassGraph) (environment : Environment) :
    Except EnvironmentError Unit :=
  match classes.linearize with
  | .ok _ => .ok ()
  | .error name =>
    match environment.get? name with
    | none => .error (.emptyEntry name)
    | some entry => do
      let record ← entry.primary
      throw (.cyclicHierarchy name (name :: classes.ancestors name ++ [name])
        record.declaration.location)

end SuperclassGraph

namespace Environment

/-- Succeeds if no class is above itself. -/
def checkInheritance (environment : Environment) : Except EnvironmentError Unit := do
  (← SuperclassGraph.ofEnvironment environment).checkAcyclic environment

/-- Succeeds if all declarations fit together. -/
def validate (environment : Environment) : Except EnvironmentError Unit := do
  environment.entries.forM ClassEntry.validate
  environment.checkInheritance

end Environment

end Signet

import Signet.Ruby.Node

/-! # Walking a tree

A cursor stands at a node of a tree, with what is around it, and can be moved to a neighbour. A walk
moves a cursor through the whole tree: down where it can, else on to the next sibling, else up. The
nodes that it comes back to on the way up are not entered again, and their children are not either.
-/

namespace Signet.Ruby

/-- A step on the way down from the root: a node without its children, and its children on both
sides of the one that the way leads through; those before it from the nearest on. -/
structure Level where
  head : Head
  before : List Node
  after : List Node

/-- A node of a tree, and the way up from it. -/
structure Cursor where
  node : Node
  above : List Level := []

namespace Cursor

/-- The cursor at the first child. -/
def firstChild? : Cursor → Option Cursor
  | ⟨⟨_, []⟩, _⟩ => none
  | ⟨⟨head, child :: children⟩, above⟩ => some ⟨child, ⟨head, [], children⟩ :: above⟩

/-- The cursor at the next sibling. The root has none. -/
def nextSibling? : Cursor → Option Cursor
  | ⟨node, ⟨head, before, sibling :: after⟩ :: above⟩ =>
    some ⟨sibling, ⟨head, node :: before, after⟩ :: above⟩
  | _ => none

/-- The cursor at the parent. The root has none. -/
def parent? : Cursor → Option Cursor
  | ⟨_, []⟩ => none
  | ⟨node, ⟨head, before, after⟩ :: above⟩ =>
    some ⟨⟨head, before.reverse ++ node :: after⟩, above⟩

end Cursor

/-- A walk under way. It enters the node that it stands at, or is back there on the way up. -/
structure Walk where
  cursor : Cursor
  enters : Bool := true

namespace Walk

/-- The walk through a tree. -/
def start (root : Node) : Walk := { cursor := { node := root } }

/-- The walk one move later; nothing if it is over. -/
def next? (walk : Walk) : Option Walk :=
  match if walk.enters then walk.cursor.firstChild? else none with
  | some child => some { cursor := child }
  | none =>
    match walk.cursor.nextSibling? with
    | some sibling => some { cursor := sibling }
    | none => walk.cursor.parent?.map ({ cursor := ·, enters := false })

/-! ## The end of a walk -/

mutual

/-- A walk makes at most two stops at each node of a tree. -/
def stops : Node → Nat
  | ⟨_, children⟩ => stopsAmong children + 2

/-- Bound of the stops in some trees. -/
def stopsAmong : List Node → Nat
  | [] => 0
  | node :: nodes => stops node + stopsAmong nodes

end

/-- Bound of the stops on the way up, and in what lies beside it. -/
def stopsAbove : List Level → Nat
  | [] => 0
  | level :: above => stopsAmong level.after + 1 + stopsAbove above

/-- Bound of the stops from here on, this one included. -/
def remaining (walk : Walk) : Nat :=
  (if walk.enters then stops walk.cursor.node else 1) + stopsAbove walk.cursor.above

variable {cursor next : Cursor}

theorem remaining_firstChild? (moved : cursor.firstChild? = some next) :
    remaining ⟨next, true⟩ < remaining ⟨cursor, true⟩ := by
  obtain ⟨⟨head, children⟩, above⟩ := cursor
  cases children with
  | nil => exact nomatch moved
  | cons child children =>
    obtain rfl := Option.some.inj moved
    simp only [remaining, stops, stopsAmong, stopsAbove, ↓reduceIte]
    omega

/-- There is at least one stop at a node. -/
theorem stopsAbove_lt_remaining (cursor : Cursor) (enters : Bool) :
    stopsAbove cursor.above < remaining ⟨cursor, enters⟩ := by
  obtain ⟨⟨head, children⟩, above⟩ := cursor
  cases enters with
  | true => simp only [remaining, stops, ↓reduceIte]; omega
  | false => simp [remaining]

theorem remaining_nextSibling? (moved : cursor.nextSibling? = some next) (enters : Bool) :
    remaining ⟨next, true⟩ < remaining ⟨cursor, enters⟩ := by
  have stop := stopsAbove_lt_remaining cursor enters
  obtain ⟨node, _ | ⟨⟨head, before, _ | ⟨sibling, after⟩⟩, above⟩⟩ := cursor
  · exact nomatch moved
  · exact nomatch moved
  · obtain rfl := Option.some.inj moved
    refine Nat.lt_of_le_of_lt ?_ stop
    simp only [remaining, stopsAmong, stopsAbove, ↓reduceIte]
    omega

theorem remaining_parent? (moved : cursor.parent? = some next) (enters : Bool) :
    remaining ⟨next, false⟩ < remaining ⟨cursor, enters⟩ := by
  have stop := stopsAbove_lt_remaining cursor enters
  obtain ⟨node, _ | ⟨⟨head, before, after⟩, above⟩⟩ := cursor
  · exact nomatch moved
  · obtain rfl := Option.some.inj moved
    refine Nat.lt_of_le_of_lt ?_ stop
    simp only [remaining, stopsAbove, Bool.false_eq_true, ↓reduceIte]
    omega

/-- Every move leaves fewer stops. -/
theorem remaining_next? {walk later : Walk} (moved : walk.next? = some later) :
    later.remaining < walk.remaining := by
  obtain ⟨cursor, enters⟩ := walk
  unfold next? at moved
  split at moved
  · rename_i child down
    obtain rfl := Option.some.inj moved
    cases enters with
    | true => exact remaining_firstChild? down
    | false => exact nomatch down
  · split at moved
    · rename_i sibling aside
      obtain rfl := Option.some.inj moved
      exact remaining_nextSibling? aside enters
    · obtain ⟨parent, up, rfl⟩ := Option.map_eq_some_iff.1 moved
      exact remaining_parent? up enters

/-- The cursor, if its node is entered now. -/
def here (walk : Walk) : List Cursor := if walk.enters then [walk.cursor] else []

/-- The cursors at the nodes that are entered from now on, in the order in which the walk comes to
them. -/
def entered (walk : Walk) : List Cursor :=
  match _moved : walk.next? with
  | none => walk.here
  | some later => walk.here ++ later.entered
termination_by walk.remaining
decreasing_by exact remaining_next? _moved

end Walk

end Signet.Ruby

import Graft.Path

/-!
# Graft.Path.Lookup

Following a path in a document without changing it.

Each segment enters the node found so far. A missing child ends the walk without
a result, and so does a null; a node that the segment cannot enter is an error
that names its kind.
-/

namespace Graft

/-- The first thing on the way that a segment could not enter. -/
structure Obstacle where
  /-- The segment. -/
  segment : Segment
  /-- The kind of the node it met. -/
  found : Kind
  deriving DecidableEq

/-- The error an obstacle is on some path. -/
def Obstacle.error (o : Obstacle) (p : Path) : PathError :=
  .wrongKind p.raw o.segment.text o.found

namespace Node

/-- Whether an element's field `key` has the text `value`. -/
def hasField (key value : String) (n : Node) : Bool := n.fieldText? key == some value

/-- The child of a node that a segment leads to. -/
def child? (n : Node) (s : Segment) : Except Obstacle (Option Node) :=
  match n, s with
  | .null, _ => .ok none
  | .scalar .., _ => .error ⟨s, .scalar⟩
  | .mapping entries, .field name => .ok (Entries.get? name entries)
  | .mapping _, .matcher .. => .error ⟨s, .mapping⟩
  | .sequence items, .field _ =>
    match s.index? with
    | some i => .ok items[i]?
    | none => .error ⟨s, .sequence⟩
  | .sequence items, .matcher key value => .ok (items.find? (hasField key value))

/-- The node that some segments lead to. -/
def follow : List Segment → Node → Except Obstacle (Option Node)
  | [], n => .ok (some n)
  | s :: rest, n =>
    match n.child? s with
    | .error o => .error o
    | .ok none => .ok none
    | .ok (some c) => follow rest c

/-- The node at a path. -/
def lookup (n : Node) (p : Path) : Except PathError (Option Node) :=
  (n.follow p.segments).mapError (·.error p)

/-! ### Interface lemmas -/

@[simp] theorem follow_nil (n : Node) : follow [] n = .ok (some n) := rfl

theorem follow_cons (s : Segment) (rest : List Segment) (n : Node) :
    follow (s :: rest) n =
      match n.child? s with
      | .error o => .error o
      | .ok none => .ok none
      | .ok (some c) => follow rest c := rfl

end Node
end Graft

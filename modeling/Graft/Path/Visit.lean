import Graft.Path.Lookup

/-!
# Graft.Path.Visit

Following a path in a document to change the node at its end.

`Node.visit` walks to the place, lets a function replace the node there, and
answers with the whole document and with what became of the walk (`Visit`). With
a kind for the leaf it creates what is missing on the way:

* a null becomes an empty container of the kind that the segment is made for;
* a missing field is added, holding an empty node of the kind that the next
  segment is made for, or of the leaf's kind at the end;
* a position right after the last element appends, and a position beyond stays
  absent, so that no gaps appear;
* a matcher without a match appends a mapping of its key and value.

What was created stays in the document even if the walk then stops.
-/

namespace Graft

/-- What became of a walk. -/
inductive Visit (α : Type) where
  /-- The place was there or was created; the function answered `result`. -/
  | reached (result : α)
  /-- There is no such place. -/
  | absent
  /-- A segment could not enter a node. -/
  | stopped (obstacle : Obstacle)
  deriving DecidableEq

/-! ### Changing one element -/

/-- Changes the element at a position, if there is one. -/
def modifyAt {α β : Type} (g : α → α × β) : Nat → List α → Option (List α × β)
  | _, [] => none
  | 0, a :: r => some ((g a).1 :: r, (g a).2)
  | i + 1, a :: r => (modifyAt g i r).map fun (r, b) => (a :: r, b)

/-- Changes the first element that satisfies `p`, if there is one. -/
def modifyFirst {α β : Type} (p : α → Bool) (g : α → α × β) : List α → Option (List α × β)
  | [] => none
  | a :: r =>
    if p a then some ((g a).1 :: r, (g a).2)
    else (modifyFirst p g r).map fun (r, b) => (a :: r, b)

/-- Changes the value of the first entry with a key, if there is one. -/
def Entries.modify {α β : Type} (key : String) (g : α → α × β) :
    Entries α → Option (Entries α × β)
  | [] => none
  | (k, v) :: r =>
    if k = key then some ((k, (g v).1) :: r, (g v).2)
    else (modify key g r).map fun (r, b) => ((k, v) :: r, b)

/-! ### Creating what is missing -/

/-- The entries with a key added at the end, if it was missing. -/
def Entries.ensure {α : Type} (key : String) (value : α) (es : Entries α) : Entries α :=
  if contains key es then es else insert key value es

/-- The items with one more, if `i` is the position right after the last. -/
def ensureAt {α : Type} (i : Nat) (value : α) (items : List α) : List α :=
  if i = items.length then items ++ [value] else items

/-- The items with a matching one at the end, if none matched. -/
def ensureMatch (key value : String) (items : List Node) : List Node :=
  if items.any (Node.hasField key value) then items
  else items ++ [.mapping [(key, .string value)]]

namespace Node

/-- A null as an empty container for a segment; other nodes stay. -/
def opened (s : Segment) : Node → Node
  | .null => .empty s.container
  | n => n

/-- The node with the child that a segment leads to, as far as it can be
created; `fill` is the kind of a new child. -/
def prepared (s : Segment) (fill : Kind) (n : Node) : Node :=
  match n.opened s, s with
  | .mapping entries, .field name => .mapping (Entries.ensure name (.empty fill) entries)
  | .sequence items, .field _ =>
    match s.index? with
    | some i => .sequence (ensureAt i (.empty fill) items)
    | none => .sequence items
  | .sequence items, .matcher key value => .sequence (ensureMatch key value items)
  | n, _ => n

/-- Lets `g` change the child of a node that a segment leads to. -/
def modifyChild {α : Type} (s : Segment) (g : Node → Node × Visit α) (n : Node) : Node × Visit α :=
  match n, s with
  | .null, _ => (.null, .absent)
  | .scalar tag text, _ => (.scalar tag text, .stopped ⟨s, .scalar⟩)
  | .mapping entries, .field name =>
    match Entries.modify name g entries with
    | some (entries, r) => (.mapping entries, r)
    | none => (.mapping entries, .absent)
  | .mapping entries, .matcher .. => (.mapping entries, .stopped ⟨s, .mapping⟩)
  | .sequence items, .field _ =>
    match s.index? with
    | none => (.sequence items, .stopped ⟨s, .sequence⟩)
    | some i =>
      match modifyAt g i items with
      | some (items, r) => (.sequence items, r)
      | none => (.sequence items, .absent)
  | .sequence items, .matcher key value =>
    match modifyFirst (hasField key value) g items with
    | some (items, r) => (.sequence items, r)
    | none => (.sequence items, .absent)

/-- The kind of a new child in front of some segments: a container for the next
of them, or the leaf. -/
def fillKind (leaf : Kind) : List Segment → Kind
  | [] => leaf
  | s :: _ => s.container

/-- Walks along some segments and lets `f` change the node at their end; with a
kind for the leaf, creates what is missing. -/
def visitFrom {α : Type} (create : Option Kind) (f : Node → Node × α) :
    List Segment → Node → Node × Visit α
  | [], n => ((f n).1, .reached (f n).2)
  | s :: rest, n =>
    let n := match create with
      | none => n
      | some leaf => n.prepared s (fillKind leaf rest)
    n.modifyChild s (visitFrom create f rest)

/-- The outcome of a walk as a path error, an absence or a result. -/
def Visit.toExcept {α : Type} (p : Path) : Visit α → Except PathError (Option α)
  | .reached a => .ok (some a)
  | .absent => .ok none
  | .stopped o => .error (o.error p)

/-- Walks along a path. -/
def visit {α : Type} (create : Option Kind) (f : Node → Node × α) (p : Path) (n : Node) :
    Node × Except PathError (Option α) :=
  let (n, v) := visitFrom create f p.segments n
  (n, Visit.toExcept p v)

/-- Puts a node in place of another one. -/
def overwrite (value : Node) : Node → Node × Unit := fun _ => (value, ())

/-- Leaves the node as it is and answers with it. -/
def get : Node → Node × Node := fun n => (n, n)

/-- The document with the node at a path found or created, and that node. -/
def lookupOrCreate (leaf : Kind) (p : Path) (n : Node) :
    Node × Except PathError (Option Node) :=
  visit (some leaf) get p n

/-- Replaces the node at a path, if it is there. -/
def replace (value : Node) (p : Path) (n : Node) : Node × Except PathError (Option Unit) :=
  visit none (overwrite value) p n

end Node
end Graft

import Graft.Entries

/-!
# Graft.Node

The document tree: null, scalars, mappings with string keys in insertion order,
and sequences.

A scalar is a text with a tag that says what the text was read as. Operations on
a scalar's text keep the tag, so that a number stays a number when a piece of it
is cut out; whether the text still fits the tag is decided when the tree is
written (`Graft.Node.Convert`).
-/

namespace Graft

/-- The four kinds of nodes. -/
inductive Kind where
  /-- Null. -/
  | null
  /-- A scalar. -/
  | scalar
  /-- A mapping. -/
  | mapping
  /-- A sequence. -/
  | sequence
  deriving DecidableEq, Inhabited

namespace Kind

/-- The name of a kind in messages. -/
def name : Kind → String
  | null => "null"
  | scalar => "scalar"
  | mapping => "mapping"
  | sequence => "sequence"

end Kind

/-- What the text of a scalar was read as. -/
inductive ScalarTag where
  /-- A string. -/
  | str
  /-- An integer. -/
  | int
  /-- A floating-point number. -/
  | float
  /-- A truth value. -/
  | bool
  deriving DecidableEq, Inhabited

/-- A document or a part of one. -/
inductive Node where
  /-- Nothing. -/
  | null
  /-- A text under a tag. -/
  | scalar (tag : ScalarTag) (text : String)
  /-- Entries with string keys, in insertion order. -/
  | mapping (entries : List (String × Node))
  /-- Items. -/
  | sequence (items : List Node)
  deriving Inhabited

namespace Node

/-! ### Making nodes -/

/-- A string. -/
def string (text : String) : Node := .scalar .str text

/-- The empty node of a kind. -/
def empty : Kind → Node
  | .null => .null
  | .scalar => .string ""
  | .mapping => .mapping []
  | .sequence => .sequence []

/-! ### Looking at a node -/

/-- The kind of a node. -/
def kind : Node → Kind
  | .null => .null
  | .scalar .. => .scalar
  | .mapping _ => .mapping
  | .sequence _ => .sequence

/-- Whether a node is null or a container without children. -/
def isNilOrEmpty : Node → Bool
  | .null => true
  | .scalar .. => false
  | .mapping entries => entries.isEmpty
  | .sequence items => items.isEmpty

/-- Whether a node has a text; null counts as a scalar without one. -/
def isScalar : Node → Bool
  | .null => true
  | .scalar .. => true
  | _ => false

/-- The text of a scalar; null has the empty text and containers have none. -/
def text? : Node → Option String
  | .null => some ""
  | .scalar _ text => some text
  | _ => none

/-- The entries of a mapping. -/
def entries? : Node → Option (Entries Node)
  | .mapping entries => some entries
  | _ => none

/-- The value of a field of a mapping. -/
def field? (name : String) : Node → Option Node
  | .mapping entries => Entries.get? name entries
  | _ => none

/-- The text of a scalar field of a mapping. -/
def fieldText? (name : String) (n : Node) : Option String := (n.field? name).bind text?

/-! ### Changing a node -/

/-- The node with another text under the same tag; null becomes a string, and a
container stays as it is. -/
def withText (text : String) : Node → Node
  | .null => .string text
  | .scalar tag _ => .scalar tag text
  | n => n

/-! ### Interface lemmas -/

@[simp] theorem kind_empty (k : Kind) : (empty k).kind = k := by cases k <;> rfl

@[simp] theorem text?_string (s : String) : (string s).text? = some s := rfl

/-- Exactly the scalars and null have a text. -/
theorem isSome_text? (n : Node) : n.text?.isSome = n.isScalar := by cases n <;> rfl

/-! ### Size -/

mutual

/-- The number of nodes in a tree: itself, and every value and item below it. -/
def count : Node → Nat
  | .null => 1
  | .scalar .. => 1
  | .mapping entries => countEntries 1 entries
  | .sequence items => countItems 1 items

/-- The nodes of a list of entries, added to `n`. -/
def countEntries (n : Nat) : List (String × Node) → Nat
  | [] => n
  | (_, v) :: r => countEntries (n + count v) r

/-- The nodes of a list of items, added to `n`. -/
def countItems (n : Nat) : List Node → Nat
  | [] => n
  | v :: r => countItems (n + count v) r

end

/-! ### Distinct keys -/

mutual

/-- No mapping in the tree has two entries with one key. -/
def DistinctKeys : Node → Prop
  | .null => True
  | .scalar .. => True
  | .mapping entries => (entries.map (·.1)).Nodup ∧ DistinctKeysEntries entries
  | .sequence items => DistinctKeysItems items

/-- Every value of the entries has distinct keys. -/
def DistinctKeysEntries : List (String × Node) → Prop
  | [] => True
  | (_, v) :: r => DistinctKeys v ∧ DistinctKeysEntries r

/-- Every item has distinct keys. -/
def DistinctKeysItems : List Node → Prop
  | [] => True
  | v :: r => DistinctKeys v ∧ DistinctKeysItems r

end

end Node
end Graft

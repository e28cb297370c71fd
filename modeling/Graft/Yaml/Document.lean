import Graft.Yaml.Event

/-!
# Graft.Yaml.Document

The documents of a YAML text and their values.

A document is first a tree in which aliases stand for themselves (`Tree`), with
the nodes that carry an anchor beside it. Each anchor has a slot, numbered by how
many names the document had before it; a name that is used again takes a new
slot, and of two nodes with one slot the later one is meant, by aliases in front
of it too.

The value of a tree follows the aliases. It may be nested `maxDepth` containers
deep, counted through aliases, and may follow `jumpsPerEvent` aliases per event
of the document; both bound what a text can expand to.
-/

namespace Graft
namespace Yaml

/-! ### Trees -/

/-- A node with its aliases unresolved. -/
inductive Tree where
  /-- A scalar. -/
  | scalar (tag : Option Tag) (style : ScalarStyle) (text : String)
  /-- A sequence. -/
  | sequence (tag : Option Tag) (items : List Tree)
  /-- A mapping. -/
  | mapping (tag : Option Tag) (entries : List (Tree × Tree))
  /-- A reference to the node in a slot. -/
  | alias (slot : Nat)
  deriving Inhabited

/-- A document. -/
structure Document where
  /-- Its root, absent in an empty text. -/
  root : Option Tree
  /-- For each slot, latest first, the number of a node. -/
  slots : List (Nat × Nat)
  /-- The nodes with an anchor by their numbers. -/
  anchored : List (Nat × Tree)
  /-- The number of its events. -/
  events : Nat

/-! ### Trees of events -/

/-- A collection that has not been closed yet. -/
inductive Frame where
  /-- A sequence with its items so far, latest first. -/
  | sequence (number : Option Nat) (tag : Option Tag) (items : List Tree)
  /-- A mapping with its entries so far, latest first, and the key whose value is
  due. -/
  | mapping (number : Option Nat) (tag : Option Tag) (entries : List (Tree × Tree))
      (key : Option Tree)

/-- A document while it is built. -/
structure Builder where
  /-- The open collections, innermost first. -/
  frames : List Frame
  /-- The names of anchors and their slots. -/
  names : Entries Nat
  /-- The number of the next node with an anchor. -/
  next : Nat
  /-- The document so far. -/
  document : Document

namespace Builder

/-- Nothing yet. -/
def empty : Builder := ⟨[], [], 0, ⟨none, [], [], 0⟩⟩

/-- Gives a starting node its number, if it has an anchor. -/
def register (b : Builder) (p : Properties) : Option Nat × Builder :=
  match p.anchor with
  | none => (none, b)
  | some name =>
    let slot := b.names.length
    let document := { b.document with slots := (slot, b.next) :: b.document.slots }
    (some b.next,
      { b with names := b.names.insert name slot, next := b.next + 1, document := document })

/-- Notes a finished node under its number. -/
def note (b : Builder) (number : Option Nat) (t : Tree) : Builder :=
  match number with
  | none => b
  | some n => { b with document := { b.document with anchored := (n, t) :: b.document.anchored } }

/-- Hands a finished node to the collection it is in. -/
def deliver (b : Builder) (t : Tree) : Builder :=
  match b.frames with
  | [] => { b with document := { b.document with root := some t } }
  | .sequence n tag items :: r => { b with frames := .sequence n tag (t :: items) :: r }
  | .mapping n tag entries none :: r => { b with frames := .mapping n tag entries (some t) :: r }
  | .mapping n tag entries (some k) :: r =>
    { b with frames := .mapping n tag ((k, t) :: entries) none :: r }

/-- The effect of an event inside a document; `none` for an alias without an
anchor in front of it. -/
def add? (b : Builder) (e : Event) : Option Builder :=
  let b := { b with document := { b.document with events := b.document.events + 1 } }
  match e with
  | .alias name => (Entries.get? name b.names).map fun slot => b.deliver (.alias slot)
  | .scalar p style text =>
    let (n, b) := b.register p
    let t := Tree.scalar (p.tag.bind Tag.ofBytes?) style text
    some ((b.note n t).deliver t)
  | .sequenceStart p =>
    let (n, b) := b.register p
    some { b with frames := .sequence n (p.tag.bind Tag.ofBytes?) [] :: b.frames }
  | .mappingStart p =>
    let (n, b) := b.register p
    some { b with frames := .mapping n (p.tag.bind Tag.ofBytes?) [] none :: b.frames }
  | .sequenceEnd | .mappingEnd =>
    match b.frames with
    | .sequence n tag items :: r =>
      let t := Tree.sequence tag items.reverse
      some (({ b with frames := r }.note n t).deliver t)
    | .mapping n tag entries _ :: r =>
      let t := Tree.mapping tag entries.reverse
      some (({ b with frames := r }.note n t).deliver t)
    | [] => none
  | .documentStart | .documentEnd | .streamEnd => some b

end Builder

/-- The documents of some events, onto the reversed `acc`. A failure stands for
the document in which the events stop, and a text without documents holds one
that is empty. -/
def documentsFrom (acc : List (Option Document)) (b : Builder) :
    List Event → List (Option Document)
  | [] => (none :: acc).reverse
  | .streamEnd :: _ => if acc.isEmpty then [some b.document] else acc.reverse
  | .documentStart :: r => documentsFrom acc .empty r
  | .documentEnd :: r => documentsFrom (some b.document :: acc) .empty r
  | e :: r =>
    match b.add? e with
    | some b => documentsFrom acc b r
    | none => (none :: acc).reverse

/-- The documents of a text, up to the first one that cannot be read. -/
def documents (text : String) : List (Option Document) :=
  documentsFrom [] .empty (Event.ofTokens (Token.scan text))

/-- The document of a text that holds exactly one. -/
def document? (text : String) : Option Document :=
  match documents text with
  | [some d] => some d
  | _ => none

/-! ### Values -/

/-- The number of containers a value may be nested in. -/
def maxDepth : Nat := 128

/-- The number of aliases that may be followed per event. -/
def jumpsPerEvent : Nat := 100

namespace Document

/-- The number of aliases that may be followed in a document. -/
def jumps (d : Document) : Nat := jumpsPerEvent * d.events

/-- The node in a slot. -/
def inSlot? (d : Document) (slot : Nat) : Option Tree :=
  (d.slots.lookup slot).bind fun n => d.anchored.lookup n

/-- A node with an alias in its place followed, and the aliases that may still
be. -/
def follow? (d : Document) (t : Tree) (jumps : Nat) : Option (Tree × Nat) :=
  match t with
  | .alias slot =>
    match jumps with
    | 0 => none
    | j + 1 => (d.inSlot? slot).map fun t => (t, j)
  | t => some (t, jumps)

/-- The values of a list of trees, onto the reversed `acc`. -/
def collect (f : Tree → Nat → Option (Yaml × Nat)) (acc : List Yaml) :
    List Tree → Nat → Option (List Yaml × Nat)
  | [], jumps => some (acc.reverse, jumps)
  | t :: r, jumps =>
    match f t jumps with
    | some (v, jumps) => collect f (v :: acc) r jumps
    | none => none

/-- The values of a list of entries, onto the reversed `acc`. -/
def collectEntries (f : Tree → Nat → Option (Yaml × Nat)) (acc : List (Yaml × Yaml)) :
    List (Tree × Tree) → Nat → Option (List (Yaml × Yaml) × Nat)
  | [], jumps => some (acc.reverse, jumps)
  | (k, t) :: r, jumps =>
    match f k jumps with
    | none => none
    | some (k, jumps) =>
      match f t jumps with
      | some (v, jumps) => collectEntries f ((k, v) :: acc) r jumps
      | none => none

/-- The value of a tree nested at most `depth` containers deep, following at most
`jumps` aliases, and the number of them that are left. -/
def value? (d : Document) : Nat → Tree → Nat → Option (Yaml × Nat)
  | depth, t, jumps =>
    match d.follow? t jumps with
    | none => none
    | some (.alias _, _) => none
    | some (.scalar tag style text, jumps) => (ofScalar? tag style text).map (·, jumps)
    | some (.sequence tag items, jumps) =>
      match depth with
      | 0 => none
      | depth + 1 =>
        (collect (d.value? depth) [] items jumps).map fun (vs, jumps) =>
          (withTag tag (.sequence vs), jumps)
    | some (.mapping tag entries, jumps) =>
      match depth with
      | 0 => none
      | depth + 1 =>
        (collectEntries (d.value? depth) [] entries jumps).map fun (es, jumps) =>
          (withTag tag (.mapping es), jumps)

/-- The value of a document. -/
def read? (d : Document) : Option Yaml :=
  match d.root with
  | none => some .null
  | some t => (d.value? maxDepth t d.jumps).map (·.1)

/-- The value of a document in which no mapping repeats a key. -/
def strict? (d : Document) : Option Yaml :=
  d.read?.bind fun v => if v.hasDistinctKeys then some v else none

/-- The value of a document without tags; a repeated key is left to the reader
of the mapping. -/
def untagged? (d : Document) : Option Yaml :=
  d.read?.bind fun v => if v.hasTag then none else some v

end Document
end Yaml
end Graft

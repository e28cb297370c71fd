import Graft.Path.Visit
import Graft.Rule.Splice
import Graft.Sweep

/-!
# Graft.Rule.Target

The targets of a rule: writing a value into fields of the documents they select.

The value travels along. Where a target is spliced, the text composed there is
the value from then on (`Node.compose`). Fields that are absent are passed over
unless the options create them.
-/

namespace Graft

/-! ### One document -/

/-- A document while a value is written into it. -/
structure Draft where
  /-- The document. -/
  doc : Node
  /-- The value. -/
  value : Node
  /-- The number of fields written so far. -/
  written : Nat
  deriving Inhabited

/-- The kind of the leaf to create for a value, if the options create one. -/
def FieldOptions.leaf (options : Option FieldOptions) (value : Node) : Option Kind :=
  match options with
  | some o => if o.create then some value.kind else none
  | none => none

/-- Writes a value over a target, and answers with the value as it is then. A
target that cannot take it stays. -/
def Node.receive (options : Option FieldOptions) (value target : Node) :
    Node × Except Failure Node :=
  match Node.compose options value target with
  | .ok value => (value, .ok value)
  | .error e => (target, .error e)

namespace Draft

/-- Writes the value at one path. -/
def write (options : Option FieldOptions) (d : Draft) (path : String) :
    Draft × Option Failure :=
  match Path.parse path with
  | .error e => (d, some (.path e))
  | .ok p =>
    match d.doc.visit (FieldOptions.leaf options d.value) (Node.receive options d.value) p with
    | (doc, .error e) => ({ d with doc := doc }, some (.path e))
    | (doc, .ok none) => ({ d with doc := doc }, none)
    | (doc, .ok (some (.error e))) => ({ d with doc := doc }, some e)
    | (doc, .ok (some (.ok value))) => (⟨doc, value, d.written + 1⟩, none)

/-- Writes the value at some paths, in order. -/
def writeAll (options : Option FieldOptions) (d : Draft) : List String → Draft × Option Failure
  | [] => (d, none)
  | path :: r =>
    match d.write options path with
    | (d, none) => writeAll options d r
    | (d, some e) => (d, some e)

end Draft

/-! ### All documents -/

/-- The value on its way, and the number of fields written so far. -/
structure Carrier where
  /-- The value. -/
  value : Node
  /-- The number of fields written. -/
  written : Nat
  deriving Inhabited

/-- Documents while targets are written. -/
structure Writing where
  /-- The documents. -/
  docs : List Node
  /-- The value; absent if the source's field is. -/
  value : Option Node
  /-- The number of fields written so far. -/
  written : Nat
  deriving Inhabited

namespace Target

/-- Writes into one document, if the target means it. -/
def writeDocument (t : Target) (select : Pattern) (c : Carrier) (doc : Node) :
    Step Node Carrier Failure :=
  if t.accepts select (.of doc) then
    match Draft.writeAll t.options ⟨doc, c.value, c.written⟩ t.fieldPaths with
    | (d, failure) => ⟨d.doc, ⟨d.value, d.written⟩, failure⟩
  else ⟨doc, c, none⟩

/-- Writes into every document that the target means. It has to say which; its
fields are named even if there is no value to write. -/
def write (w : Writing) (t : Target) : Step Target Writing Failure :=
  match t.select with
  | none => ⟨t, w, some .missingSelect⟩
  | some select =>
    let t := t.withDefaultPaths
    match w.value with
    | none => ⟨t, w, none⟩
    | some value =>
      let s := Sweep.run (t.writeDocument select) ⟨value, w.written⟩ w.docs
      ⟨t, ⟨s.items, some s.state.value, s.state.written⟩, s.failure⟩

/-- Writes to some targets, in order. -/
def writeAll (targets : List Target) (w : Writing) : Sweep Target Writing Failure :=
  Sweep.run write w targets

end Target
end Graft

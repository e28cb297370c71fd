import Graft.Node.Convert
import Graft.Yaml.Document

/-!
# Graft.Stream

Reading a stream of documents within limits.

A text is refused if it is too long, if a document in it cannot be read, or if a
document has too many nodes. Documents that are null are passed over, but they
count in the positions that errors name. `Node.countUpTo` counts the nodes of a
document only as far as the limit.
-/

namespace Graft

/-! ### Limits -/

/-- What a stream may hold. -/
structure Limits where
  /-- The greatest length of the text in bytes. -/
  bytes : Nat := 1000000
  /-- The number of nodes that no document may reach. -/
  nodes : Nat := 100000
  deriving DecidableEq, Inhabited

/-- A limit from its text: decimal digits after an optional plus, below `2 ^ 64`. -/
def Limits.parse? (text : String) : Option Nat :=
  let cs := match text.toList with
    | '+' :: r => r
    | cs => cs
  if Decimal.isDigits cs then
    let n := Decimal.readDigits 0 cs
    if n < Width.bound64 then some n else none
  else none

/-- The limits given by two texts; one that is absent or no limit leaves the
default. -/
def Limits.ofTexts (bytes nodes : Option String) : Limits :=
  { bytes := (bytes.bind parse?).getD ({} : Limits).bytes
    nodes := (nodes.bind parse?).getD ({} : Limits).nodes }

/-! ### Counting up to a limit -/

namespace Node

mutual

/-- The number of nodes counted so far with those of a tree, or the limit once it
is reached. -/
def countUpTo (limit seen : Nat) : Node → Nat
  | .null => if limit ≤ seen then seen else seen + 1
  | .scalar .. => if limit ≤ seen then seen else seen + 1
  | .mapping entries => if limit ≤ seen then seen else countEntriesUpTo limit (seen + 1) entries
  | .sequence items => if limit ≤ seen then seen else countItemsUpTo limit (seen + 1) items

/-- The count with the values of some entries. -/
def countEntriesUpTo (limit seen : Nat) : List (String × Node) → Nat
  | [] => seen
  | (_, v) :: r => if limit ≤ seen then seen else countEntriesUpTo limit (countUpTo limit seen v) r

/-- The count with some items. -/
def countItemsUpTo (limit seen : Nat) : List Node → Nat
  | [] => seen
  | v :: r => if limit ≤ seen then seen else countItemsUpTo limit (countUpTo limit seen v) r

end

/-- Whether a document has as many nodes as the limit, or more. -/
def reaches (limit : Nat) (n : Node) : Bool := limit ≤ countUpTo limit 0 n

end Node

/-! ### Errors -/

/-- Why a stream was refused. -/
inductive StreamError where
  /-- The text is longer than the limit. -/
  | tooLong (origin : String) (limit : Nat)
  /-- The document at a position cannot be read. -/
  | unreadable (position : Nat) (origin : String)
  /-- The document at a position has too many nodes. -/
  | tooComplex (origin : String) (position limit : Nat)
  deriving DecidableEq

/-- The wording of a stream error. -/
def StreamError.message : StreamError → String
  | .tooLong origin limit =>
    origin ++ ": YAML payload too large (>" ++ toString limit ++ " bytes)"
  | .unreadable position origin =>
    "parsing YAML document " ++ toString position ++ " of " ++ origin
  | .tooComplex origin position limit =>
    origin ++ ": document " ++ toString position ++ " too complex (>" ++ toString limit ++ " nodes)"

/-! ### Reading -/

namespace Stream

/-- The trees of the documents from a position on, onto the reversed `acc`. -/
def collect (limits : Limits) (origin : String) (position : Nat) (acc : List Node) :
    List (Option Yaml) → Except StreamError (List Node)
  | [] => .ok acc.reverse
  | none :: _ => .error (.unreadable position origin)
  | some v :: r =>
    if v.isNull then collect limits origin (position + 1) acc r
    else
      let n := Node.ofYaml v
      if n.reaches limits.nodes then .error (.tooComplex origin position limits.nodes)
      else collect limits origin (position + 1) (n :: acc) r

/-- The trees of the documents of a text, given what its documents are read as. Of
a text that is too long they are not looked at. -/
@[macro_inline] def ofDocuments (limits : Limits) (origin text : String) (documents : List (Option Yaml)) :
    Except StreamError (List Node) :=
  if limits.bytes < text.utf8ByteSize then .error (.tooLong origin limits.bytes)
  else collect limits origin 0 [] documents

/-- What the documents of a text are read as. -/
def documents (text : String) : List (Option Yaml) :=
  (Yaml.documents text).map fun d => d.bind (·.strict?)

/-- The trees of the documents of a text. -/
def read (limits : Limits) (origin text : String) : Except StreamError (List Node) :=
  ofDocuments limits origin text (documents text)

end Stream
end Graft

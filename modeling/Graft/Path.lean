import Graft.Node
import Graft.Number.Decimal
import Graft.Text.Quoted

/-!
# Graft.Path

Field paths such as `spec.template.spec.containers.[name=app].image`.

A path is a list of segments with dots between them. A segment is a field name,
or a matcher `[key=value]`, inside which dots do not separate. A field name of
digits is also a position in a sequence. `Path.parse` accepts exactly the texts
that are non-empty lists of valid segments (`Segment.Valid`) joined by dots.
-/

namespace Graft

/-- One step of a path. -/
inductive Segment where
  /-- A field of a mapping, or a position in a sequence. -/
  | field (name : String)
  /-- The first element of a sequence whose field `key` has the text `value`. -/
  | matcher (key value : String)
  deriving DecidableEq, Inhabited

namespace Segment

/-- The text of a segment. -/
def text : Segment → String
  | .field name => name
  | .matcher key value => "[" ++ key ++ "=" ++ value ++ "]"

/-- Positions are below this bound. -/
def indexBound : Nat := Width.bound64

/-- The position that a field name of digits stands for. -/
def index? : Segment → Option Nat
  | .field name =>
    let cs := name.toList
    if Decimal.isDigits cs then
      let n := Decimal.readDigits 0 cs
      if n < indexBound then some n else none
    else none
  | .matcher .. => none

/-- The kind of container a segment is made for. -/
def container (s : Segment) : Kind :=
  match s with
  | .matcher .. => .sequence
  | .field _ => if s.index?.isSome then .sequence else .mapping

/-- Segments that a path can be written with. -/
def Valid : Segment → Prop
  | .field name => name ≠ "" ∧ ∀ c ∈ name.toList, c ≠ '.' ∧ c ≠ '[' ∧ c ≠ ']'
  | .matcher key value =>
    key ≠ "" ∧ (∀ c ∈ key.toList, c ≠ '=' ∧ c ≠ '[' ∧ c ≠ ']') ∧
      ∀ c ∈ value.toList, c ≠ '[' ∧ c ≠ ']'

end Segment

/-- A path: its text and the segments it was read as. -/
structure Path where
  /-- The text. -/
  raw : String
  /-- The segments. -/
  segments : List Segment
  deriving DecidableEq, Inhabited

/-! ### Errors -/

/-- Why a text is not a path. -/
inductive PathFault where
  /-- Nothing stands between two dots, or before or after one. -/
  | emptySegment
  /-- A bracket holds no equals sign, or nothing in front of it. -/
  | notMatcher
  /-- A bracket opens inside a bracket. -/
  | nestedBracket
  /-- A bracket opens inside a field name. -/
  | bracketInsideName
  /-- A bracket closes that was not opened. -/
  | unmatchedBracket
  /-- Something follows a closing bracket. -/
  | afterBracket
  /-- A bracket is not closed. -/
  | unterminatedBracket
  deriving DecidableEq

/-- The wording of a fault. -/
def PathFault.message : PathFault → String
  | .emptySegment => "empty segment"
  | .notMatcher => "element matcher must look like [key=value]"
  | .nestedBracket => "nested '['"
  | .bracketInsideName => "'[' must start a segment"
  | .unmatchedBracket => "unmatched ']'"
  | .afterBracket => "']' must end a segment"
  | .unterminatedBracket => "unterminated '['"

/-- Why a path could not be followed. -/
inductive PathError where
  /-- The text is not a path. -/
  | malformed (path : String) (fault : PathFault)
  /-- A segment met a node of a kind that it cannot enter. -/
  | wrongKind (path segment : String) (found : Kind)
  deriving DecidableEq

/-- The wording of a path error. -/
def PathError.message : PathError → String
  | .malformed path fault => "invalid field path " ++ Text.quoted path ++ ": " ++ fault.message
  | .wrongKind path segment found =>
    "cannot resolve segment " ++ Text.quoted segment ++ " of " ++ Text.quoted path ++ " in a "
      ++ found.name ++ " node"

/-! ### Reading -/

/-- A matcher, from the text between its brackets. It is split at the first
equals sign, and the key is not empty. -/
def Segment.parseMatcher (inner : List Char) : Except PathFault Segment :=
  let key := inner.takeWhile (· ≠ '=')
  match inner.dropWhile (· ≠ '=') with
  | '=' :: value =>
    if key.isEmpty then .error .notMatcher
    else .ok (.matcher (String.ofList key) (String.ofList value))
  | _ => .error .notMatcher

/-- A segment, from its whole text. -/
def Segment.parse (cs : List Char) : Except PathFault Segment :=
  match cs with
  | [] => .error .emptySegment
  | '[' :: inner =>
    match inner.reverse with
    | ']' :: reversed => parseMatcher reversed.reverse
    | _ => .error .unterminatedBracket
  | name => .ok (.field (String.ofList name))

/-- Reads on in a path: `done` are the segments so far and `current` the text of
the open one, both reversed. -/
def Path.parseFrom (done : List Segment) (current : List Char) (inBracket : Bool) :
    List Char → Except PathFault (List Segment)
  | [] =>
    if inBracket then .error .unterminatedBracket
    else
      match Segment.parse current.reverse with
      | .ok s => .ok (s :: done).reverse
      | .error fault => .error fault
  | c :: r =>
    if c = '[' then
      if inBracket then .error .nestedBracket
      else if current.isEmpty then parseFrom done ['['] true r
      else .error .bracketInsideName
    else if c = ']' then
      if inBracket then parseFrom done (']' :: current) false r else .error .unmatchedBracket
    else if c = '.' ∧ inBracket = false then
      match Segment.parse current.reverse with
      | .ok s => parseFrom (s :: done) [] false r
      | .error fault => .error fault
    else if inBracket = false ∧ current.head? = some ']' then .error .afterBracket
    else parseFrom done (c :: current) inBracket r

/-- Reads a path. -/
def Path.parse (raw : String) : Except PathError Path :=
  match parseFrom [] [] false raw.toList with
  | .ok segments => .ok ⟨raw, segments⟩
  | .error fault => .error (.malformed raw fault)

end Graft

import Graft.Json.Token

/-!
# Graft.Json.Parser

Values of JSON texts. The tokens are folded onto a stack of open arrays and
objects, so depth costs no recursion; `maxDepth` containers may be open at once.
-/

namespace Graft
namespace Json

/-- The number of containers that may be open at once. -/
def maxDepth : Nat := 127

/-- A container that has not been closed yet. -/
inductive Frame where
  /-- An array with its items so far, latest first. -/
  | array (items : List Json)
  /-- An object with its members so far, and the key whose value is due. -/
  | object (members : List (String × Json)) (key : Option String)

/-- What may come next. -/
inductive Phase where
  /-- A value, or the end of an array that is still empty. -/
  | value (closable : Bool)
  /-- A key, or the end of an object that is still empty. -/
  | key (closable : Bool)
  /-- The colon after a key. -/
  | colon
  /-- A comma or the end of the container. -/
  | after
  /-- Nothing: the text is complete. -/
  | done (result : Json)

/-- Hands a finished value to the container it is in. -/
def deliver (v : Json) : List Frame → Option (Phase × List Frame)
  | [] => some (.done v, [])
  | .array items :: fs => some (.after, .array (v :: items) :: fs)
  | .object ms (some k) :: fs => some (.after, .object (Entries.insertSorted k v ms) none :: fs)
  | .object _ none :: _ => none

/-- Opens a container. -/
def openFrame (f : Frame) (next : Phase) (fs : List Frame) : Option (Phase × List Frame) :=
  if fs.length < maxDepth then some (next, f :: fs) else none

/-- The effect of one token. -/
def accept? (t : Token) : Phase → List Frame → Option (Phase × List Frame)
  | .value closable, fs =>
    match t with
    | .atom v => deliver v fs
    | .text s => deliver (.string s) fs
    | .openArray => openFrame (.array []) (.value true) fs
    | .openObject => openFrame (.object [] none) (.key true) fs
    | .closeArray =>
      match closable, fs with
      | true, .array items :: fs => deliver (.array items.reverse) fs
      | _, _ => none
    | _ => none
  | .key closable, fs =>
    match t, fs with
    | .text s, .object ms _ :: fs => some (.colon, .object ms (some s) :: fs)
    | .closeObject, .object ms _ :: fs => if closable then deliver (.object ms) fs else none
    | _, _ => none
  | .colon, fs =>
    match t with
    | .colon => some (.value false, fs)
    | _ => none
  | .after, fs =>
    match t, fs with
    | .comma, .array items :: fs => some (.value false, .array items :: fs)
    | .comma, .object ms k :: fs => some (.key false, .object ms k :: fs)
    | .closeArray, .array items :: fs => deliver (.array items.reverse) fs
    | .closeObject, .object ms _ :: fs => deliver (.object ms) fs
    | _, _ => none
  | .done _, _ => none

/-- Folds the tokens of one value. -/
def ofTokens? (phase : Phase) (fs : List Frame) : List Token → Option Json
  | [] =>
    match phase with
    | .done v => some v
    | _ => none
  | t :: ts =>
    match accept? t phase fs with
    | some (phase, fs) => ofTokens? phase fs ts
    | none => none

/-- The value of a text, if it is JSON. -/
def parse? (text : String) : Option Json := do
  let tokens ← Token.scan? text.toList
  ofTokens? (.value false) [] tokens

end Json
end Graft

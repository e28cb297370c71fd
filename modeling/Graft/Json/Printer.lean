import Graft.Json
import Graft.Number.Digit

/-!
# Graft.Json.Printer

JSON text of a value, on one line or spread out with two spaces per level.
Members are written in the order the value has them; an empty array or object
is always two characters.
-/

namespace Graft
namespace Json

/-- How a value is spread over lines. -/
inductive Layout where
  /-- Everything on one line, without spaces. -/
  | compact
  /-- One item or member per line. -/
  | spread

/-- The start of an item at some depth. -/
def Layout.newline (layout : Layout) (depth : Nat) (out : String) : String :=
  match layout with
  | .compact => out
  | .spread => (out.push '\n') ++ String.ofList (List.replicate (2 * depth) ' ')

/-- What stands between a key and its value. -/
def Layout.colon : Layout → String
  | .compact => ":"
  | .spread => ": "

/-- Writes one character of a string. -/
def pushChar (out : String) (c : Char) : String :=
  match c with
  | '"' => out ++ "\\\""
  | '\\' => out ++ "\\\\"
  | '\n' => out ++ "\\n"
  | '\r' => out ++ "\\r"
  | '\t' => out ++ "\\t"
  | '\x08' => out ++ "\\b"
  | '\x0c' => out ++ "\\f"
  | c =>
    if c.toNat < 0x20 then
      ((out ++ "\\u00").push (Digit.small (c.toNat / 16))).push (Digit.small (c.toNat % 16))
    else out.push c

/-- Writes a string with its quotes. -/
def pushString (out : String) (s : String) : String :=
  (s.foldl pushChar (out.push '"')).push '"'

mutual

/-- Writes a value that stands at some depth. -/
def write (layout : Layout) (depth : Nat) (out : String) : Json → String
  | .null => out ++ "null"
  | .bool b => out ++ (if b then "true" else "false")
  | .number n => out ++ n.text .json
  | .string s => pushString out s
  | .array [] => out ++ "[]"
  | .array (j :: js) =>
    let out := write layout (depth + 1) (layout.newline (depth + 1) (out.push '[')) j
    (layout.newline depth (writeItems layout (depth + 1) out js)).push ']'
  | .object [] => out ++ "\x7b\x7d"
  | .object ((k, j) :: r) =>
    let out := pushString (layout.newline (depth + 1) (out.push '\x7b')) k ++ layout.colon
    let out := write layout (depth + 1) out j
    (layout.newline depth (writeMembers layout (depth + 1) out r)).push '\x7d'

/-- Writes the items after the first. -/
def writeItems (layout : Layout) (depth : Nat) (out : String) : List Json → String
  | [] => out
  | j :: js => writeItems layout depth (write layout depth (layout.newline depth (out.push ',')) j) js

/-- Writes the members after the first. -/
def writeMembers (layout : Layout) (depth : Nat) (out : String) : List (String × Json) → String
  | [] => out
  | (k, j) :: r =>
    let out := pushString (layout.newline depth (out.push ',')) k ++ layout.colon
    writeMembers layout depth (write layout depth out j) r

end

/-- The text of a value. -/
def render (layout : Layout) (j : Json) : String := write layout 0 "" j

end Json
end Graft

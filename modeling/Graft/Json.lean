import Graft.Entries
import Graft.Number

/-!
# Graft.Json

JSON values as data. A value read from text keeps the members of its objects in
ascending order of their keys, without repeated keys (`Json.Canonical`);
values written by the library keep the order they were built in.
-/

namespace Graft

/-- A JSON value. -/
inductive Json where
  /-- The null value. -/
  | null
  /-- A truth value. -/
  | bool (value : Bool)
  /-- An integer or a finite double. -/
  | number (value : Number)
  /-- A text. -/
  | string (text : String)
  /-- An array. -/
  | array (items : List Json)
  /-- An object, its members in order. -/
  | object (members : List (String × Json))
  deriving Inhabited

namespace Json

/-- The member of an object, if the value is one and has it. -/
def get? (key : String) : Json → Option Json
  | .object ms => Entries.get? key ms
  | _ => none

/-- Keys in strictly ascending order. -/
def Ascending : List String → Prop
  | [] => True
  | k :: ks => (∀ k' ∈ ks, k < k') ∧ Ascending ks

/-- A number that JSON text can hold. -/
def Representable : Number → Prop
  | .int n => Number.InRange n
  | .float x => x.isFinite = true

mutual

/-- Values as they are read from text: numbers representable, and the keys of
every object in ascending order. -/
def Canonical : Json → Prop
  | .null => True
  | .bool _ => True
  | .number n => Representable n
  | .string _ => True
  | .array items => CanonicalItems items
  | .object members => Ascending (members.map (·.1)) ∧ CanonicalMembers members

/-- Every item of an array is canonical. -/
def CanonicalItems : List Json → Prop
  | [] => True
  | j :: js => Canonical j ∧ CanonicalItems js

/-- Every value of an object is canonical. -/
def CanonicalMembers : List (String × Json) → Prop
  | [] => True
  | (_, j) :: r => Canonical j ∧ CanonicalMembers r

end

end Json
end Graft

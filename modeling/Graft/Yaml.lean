import Graft.Json

/-!
# Graft.Yaml

YAML values as data. Unlike JSON, keys are values of any kind, entries keep the
order of the text, and a value can carry a local tag.

`Yaml.same` is the equality that decides whether a mapping repeats a key: it
compares numbers by value, and mappings without regard to the order of their
entries.
-/

namespace Graft

/-- A YAML value. -/
inductive Yaml where
  /-- The null value. -/
  | null
  /-- A truth value. -/
  | bool (value : Bool)
  /-- An integer or a double. -/
  | number (value : Number)
  /-- A text. -/
  | string (text : String)
  /-- A sequence. -/
  | sequence (items : List Yaml)
  /-- A mapping, its entries in order. -/
  | mapping (entries : List (Yaml × Yaml))
  /-- A value under a local tag; `tag` is its name without the leading mark. -/
  | tagged (tag : String) (value : Yaml)
  deriving Inhabited

namespace Yaml

/-! ### Views -/

/-- The value under its tags. -/
def untagged : Yaml → Yaml
  | .tagged _ v => v.untagged
  | v => v

/-- Whether the value is null, tagged or not. -/
def isNull (v : Yaml) : Bool :=
  match v.untagged with
  | .null => true
  | _ => false

theorem isNull_iff {v : Yaml} : v.isNull = true ↔ v.untagged = .null := by
  unfold isNull
  cases v.untagged <;> simp

mutual

/-- Whether a tag occurs anywhere in the value. -/
def hasTag : Yaml → Bool
  | .sequence items => hasTagItems items
  | .mapping entries => hasTagEntries entries
  | .tagged _ _ => true
  | _ => false

/-- Whether a tag occurs in some item. -/
def hasTagItems : List Yaml → Bool
  | [] => false
  | v :: r => hasTag v || hasTagItems r

/-- Whether a tag occurs in some key or value. -/
def hasTagEntries : List (Yaml × Yaml) → Bool
  | [] => false
  | (k, v) :: r => hasTag k || hasTag v || hasTagEntries r

end

/-! ### Equality of keys -/

mutual

/-- Equality of keys. -/
def same : Yaml → Yaml → Bool
  | .null, .null => true
  | .bool a, .bool b => a == b
  | .number a, .number b => a.sameNumber b
  | .string a, .string b => a == b
  | .sequence a, .sequence b => sameItems a b
  | .mapping a, .mapping b => a.length == b.length && sameEntries a b
  | .tagged s a, .tagged t b => s == t && same a b
  | _, _ => false

/-- Equality item by item. -/
def sameItems : List Yaml → List Yaml → Bool
  | [], [] => true
  | a :: as, b :: bs => same a b && sameItems as bs
  | _, _ => false

/-- Whether every entry of the first list occurs in the second. -/
def sameEntries : List (Yaml × Yaml) → List (Yaml × Yaml) → Bool
  | [], _ => true
  | (k, v) :: r, bs => bs.any (fun b => same k b.1 && same v b.2) && sameEntries r bs

end

/-- Whether no key occurs twice in a list of keys. -/
def distinct : List Yaml → Bool
  | [] => true
  | k :: ks => !ks.any (same k) && distinct ks

mutual

/-- Whether no mapping anywhere in the value repeats a key. -/
def hasDistinctKeys : Yaml → Bool
  | .sequence items => distinctKeysItems items
  | .mapping entries => distinct (entries.map (·.1)) && distinctKeysEntries entries
  | .tagged _ v => hasDistinctKeys v
  | _ => true

/-- Whether no item repeats a key. -/
def distinctKeysItems : List Yaml → Bool
  | [] => true
  | v :: r => hasDistinctKeys v && distinctKeysItems r

/-- Whether no key and no value repeats a key. -/
def distinctKeysEntries : List (Yaml × Yaml) → Bool
  | [] => true
  | (k, v) :: r => hasDistinctKeys k && hasDistinctKeys v && distinctKeysEntries r

end

/-! ### Values of JSON -/

mutual

/-- A JSON value as a YAML value. -/
def ofJson : Json → Yaml
  | .null => .null
  | .bool b => .bool b
  | .number n => .number n
  | .string s => .string s
  | .array items => .sequence (ofJsonItems [] items)
  | .object members => .mapping (ofJsonMembers [] members)

/-- The items of an array, onto the reversed `acc`. -/
def ofJsonItems (acc : List Yaml) : List Json → List Yaml
  | [] => acc.reverse
  | j :: js => ofJsonItems (ofJson j :: acc) js

/-- The members of an object, onto the reversed `acc`. -/
def ofJsonMembers (acc : List (Yaml × Yaml)) : List (String × Json) → List (Yaml × Yaml)
  | [] => acc.reverse
  | (k, j) :: r => ofJsonMembers ((.string k, ofJson j) :: acc) r

end

end Yaml
end Graft

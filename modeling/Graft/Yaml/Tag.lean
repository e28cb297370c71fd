import Graft.Number.Digit
import Graft.Yaml.Text

/-!
# Graft.Yaml.Tag

The tags of nodes.

The text of a tag is a list of bytes, since an escape stands for a byte. Escaped
bytes come in groups that start and go on as a character does in UTF-8. Whether a
group is a character is not asked, so a tag need not be a text. A zero byte ends
it.

A tag is one of the core tags, a local tag, which starts with a mark, or some
other one. A local tag that is no text is as good as none.
-/

namespace Graft
namespace Yaml

/-! ### Texts of tags -/

/-- Whether a character may stand in a tag; `verbatim` between angle brackets. -/
def isTagChar (verbatim : Bool) (c : Char) : Bool :=
  isNameChar c || ";/?:@&=+$.!~*'()%".toList.contains c
    || (verbatim && (c == ',' || c == '[' || c == ']'))

/-- The number of bytes that follow the first byte of a character, by its
leading bits. -/
def tailLength? (byte : Nat) : Option Nat :=
  if byte / 0x80 = 0 then some 0
  else if byte / 0x20 = 6 then some 1
  else if byte / 0x10 = 14 then some 2
  else if byte / 0x08 = 30 then some 3
  else none

/-- Resolves the escapes of a tag, onto the reversed `acc`; `due` is the number of
escaped bytes that the group begun still needs. -/
def unescape? (due : Nat) (acc : List UInt8) : List Char → Option (List UInt8)
  | [] => if due = 0 then some acc.reverse else none
  | '%' :: a :: b :: r =>
    match due, Digit.read? 16 0 [a, b] with
    | 0, some n => (tailLength? n).bind fun due => unescape? due (n.toUInt8 :: acc) r
    | due + 1, some n => if n / 0x40 = 2 then unescape? due (n.toUInt8 :: acc) r else none
    | _, none => none
  | c :: r => if c = '%' ∨ due ≠ 0 then none else unescape? 0 (c.toNat.toUInt8 :: acc) r

/-- A list of bytes up to the first zero. -/
def uptoZero (bytes : List UInt8) : List UInt8 := bytes.takeWhile (· != 0)

/-- The bytes of the characters of a tag. -/
def tagBytes? (cs : List Char) : Option (List UInt8) := (unescape? 0 [] cs).map uptoZero

/-- The byte of the mark that starts a tag. -/
def tagMark : UInt8 := 0x21

/-! ### Meanings of tags -/

/-- What a tag asks for. -/
inductive Tag where
  /-- A truth value. -/
  | bool
  /-- An integer. -/
  | int
  /-- A double. -/
  | float
  /-- Null. -/
  | null
  /-- A string, or whatever kind an unknown global tag stands for. -/
  | other
  /-- A local tag. -/
  | local (name : String)
  deriving DecidableEq

/-- What every core tag starts with. -/
def coreNamespace : String := "tag:yaml.org,2002:"

/-- The bytes of a core tag. -/
def coreTag (name : String) : List UInt8 := (coreNamespace ++ name).toUTF8.data.toList

/-- The text after one leading mark, unless nothing follows it. -/
def dropMark : List Char → List Char
  | '!' :: c :: r => c :: r
  | r => r

/-- The name of a local tag from its bytes after the mark; the mark alone is its
own name. -/
def localName? (bytes : List UInt8) : Option String :=
  let bytes := if bytes.isEmpty then [tagMark] else bytes
  (String.fromUTF8? ⟨bytes.toArray⟩).map fun text => String.ofList (dropMark text.toList)

/-- What the bytes of a tag ask for; a local tag that is no text asks for
nothing. -/
def Tag.ofBytes? (bytes : List UInt8) : Option Tag :=
  if bytes = coreTag "bool" then some .bool
  else if bytes = coreTag "int" then some .int
  else if bytes = coreTag "float" then some .float
  else if bytes = coreTag "null" then some .null
  else
    match bytes with
    | b :: r => if b = tagMark then (localName? r).map .local else some .other
    | [] => some .other

end Yaml
end Graft

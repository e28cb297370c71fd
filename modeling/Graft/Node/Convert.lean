import Graft.Node
import Graft.Text.Blank
import Graft.Yaml.Printer

/-!
# Graft.Node.Convert

Document trees of YAML and JSON values, and back.

Reading gives every scalar the text that its format writes for it. Keys become
strings: a number, a truth value or null its text, any other key its YAML text.
Tags are dropped. Where two keys become one text, the first position and the last
value stay.

Writing reads the text of a scalar again by its tag. A text that no longer fits
the tag is written as a string, and so is a number that JSON cannot hold.
-/

namespace Graft
namespace Node

/-! ### Texts of scalars -/

/-- The text of a truth value. -/
def boolText (b : Bool) : String := if b then "true" else "false"

/-- The scalar of a number. -/
def ofNumber (layout : FloatLayout) (n : Number) : Node :=
  match n with
  | .int _ => .scalar .int (n.text layout)
  | .float _ => .scalar .float (n.text layout)

/-- The integer a text stands for: decimal digits with an optional sign, within
the range of plain data. -/
def intOfText? (text : String) : Option Int :=
  match Decimal.parseInt? text.toList with
  | some n => if Number.InRange n then some n else none
  | none => none

/-- The double a text stands for; infinities and the NaN also in their YAML
spellings. -/
def floatOfText? (text : String) : Option Binary64 :=
  if text == ".inf" || text == ".Inf" || text == ".INF" || text == "+.inf" then
    some (.infinite false)
  else if text == "-.inf" || text == "-.Inf" || text == "-.INF" then some (.infinite true)
  else if text == ".nan" || text == ".NaN" || text == ".NAN" then some .nan
  else Binary64.parse? text.toList

/-- The truth value a text stands for. -/
def boolOfText? (text : String) : Option Bool :=
  if text == "true" then some true else if text == "false" then some false else none

/-! ### Reading -/

/-- The text of a key, empty if it has none. -/
def keyText (key : Yaml) : String :=
  match key with
  | .string s => s
  | .number n => n.text .yaml
  | .bool b => boolText b
  | .null => "null"
  | k => Text.trimEnd (k.render?.getD "")

mutual

/-- The tree of a YAML value. -/
def ofYaml : Yaml → Node
  | .null => .null
  | .bool b => .scalar .bool (boolText b)
  | .number n => ofNumber .yaml n
  | .string s => .string s
  | .sequence items => .sequence (ofYamlItems [] items)
  | .mapping entries => .mapping (ofYamlEntries [] entries)
  | .tagged _ v => ofYaml v

/-- The trees of some items, onto the reversed `acc`. -/
def ofYamlItems (acc : List Node) : List Yaml → List Node
  | [] => acc.reverse
  | v :: r => ofYamlItems (ofYaml v :: acc) r

/-- The trees of some entries, inserted into `acc`. -/
def ofYamlEntries (acc : List (String × Node)) : List (Yaml × Yaml) → List (String × Node)
  | [] => acc
  | (k, v) :: r => ofYamlEntries (Entries.insert (keyText k) (ofYaml v) acc) r

end

mutual

/-- The tree of a JSON value. -/
def ofJson : Json → Node
  | .null => .null
  | .bool b => .scalar .bool (boolText b)
  | .number n => ofNumber .json n
  | .string s => .string s
  | .array items => .sequence (ofJsonItems [] items)
  | .object members => .mapping (ofJsonMembers [] members)

/-- The trees of some items, onto the reversed `acc`. -/
def ofJsonItems (acc : List Node) : List Json → List Node
  | [] => acc.reverse
  | j :: r => ofJsonItems (ofJson j :: acc) r

/-- The trees of some members, inserted into `acc`. -/
def ofJsonMembers (acc : List (String × Node)) : List (String × Json) → List (String × Node)
  | [] => acc
  | (k, j) :: r => ofJsonMembers (Entries.insert k (ofJson j) acc) r

end

/-! ### Writing -/

/-- The YAML value of a scalar. -/
def scalarToYaml (tag : ScalarTag) (text : String) : Yaml :=
  match tag with
  | .str => .string text
  | .int => ((intOfText? text).map fun n => .number (.int n)).getD (.string text)
  | .float => ((floatOfText? text).map fun x => .number (.float x)).getD (.string text)
  | .bool => ((boolOfText? text).map .bool).getD (.string text)

mutual

/-- The YAML value of a tree. -/
def toYaml : Node → Yaml
  | .null => .null
  | .scalar tag text => scalarToYaml tag text
  | .mapping entries => .mapping (toYamlEntries [] entries)
  | .sequence items => .sequence (toYamlItems [] items)

/-- The values of some items, onto the reversed `acc`. -/
def toYamlItems (acc : List Yaml) : List Node → List Yaml
  | [] => acc.reverse
  | v :: r => toYamlItems (toYaml v :: acc) r

/-- The values of some entries, onto the reversed `acc`. -/
def toYamlEntries (acc : List (Yaml × Yaml)) : List (String × Node) → List (Yaml × Yaml)
  | [] => acc.reverse
  | (k, v) :: r => toYamlEntries ((.string k, toYaml v) :: acc) r

end

/-- The double a text stands for, if JSON can hold it. -/
def finiteOfText? (text : String) : Option Binary64 :=
  (floatOfText? text).filter (·.isFinite)

/-- The JSON value of a scalar. -/
def scalarToJson (tag : ScalarTag) (text : String) : Json :=
  match tag with
  | .str => .string text
  | .int => ((intOfText? text).map fun n => .number (.int n)).getD (.string text)
  | .float => ((finiteOfText? text).map fun x => .number (.float x)).getD (.string text)
  | .bool => ((boolOfText? text).map .bool).getD (.string text)

mutual

/-- The JSON value of a tree, the members of its objects sorted by key. -/
def toJson : Node → Json
  | .null => .null
  | .scalar tag text => scalarToJson tag text
  | .mapping entries => .object (toJsonMembers [] entries)
  | .sequence items => .array (toJsonItems [] items)

/-- The values of some items, onto the reversed `acc`. -/
def toJsonItems (acc : List Json) : List Node → List Json
  | [] => acc.reverse
  | v :: r => toJsonItems (toJson v :: acc) r

/-- The values of some entries, inserted into the sorted `acc`. -/
def toJsonMembers (acc : List (String × Json)) : List (String × Node) → List (String × Json)
  | [] => acc
  | (k, v) :: r => toJsonMembers (Entries.insertSorted k (toJson v) acc) r

end

end Node
end Graft

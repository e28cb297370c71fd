import Graft.Rule
import Graft.Yaml

/-!
# Graft.Rule.Data

Rules as plain data: reading them from values and writing them as values.

A record is a mapping from member names to values, or a sequence of the values
in the order of the members. A name may also be given as its position. Absent
members take their defaults, and a member given twice is refused. Of the records
here only identities and patterns allow members they do not know; a misspelt
member of any other is refused.
-/

namespace Graft

/-! ### Records -/

/-- What the key of a record names. -/
inductive MemberKey where
  /-- The member at a position. -/
  | member (position : Nat)
  /-- No member of the record. -/
  | unknown
  /-- Nothing that can name a member. -/
  | invalid

/-- The member that a key names. -/
def MemberKey.of (names : List String) : Yaml → MemberKey
  | .string s =>
    match names.findIdx? (· == s) with
    | some i => .member i
    | none => .unknown
  | .number (.int n) =>
    if n < 0 then .invalid else if n.toNat < names.length then .member n.toNat else .unknown
  | _ => .invalid

/-- Takes the entries of a record into the members found so far, one place for
each name; `open` if the record allows members it does not know. -/
def takeMembers (names : List String) (isOpen : Bool) (found : List (Option Yaml)) :
    List (Yaml × Yaml) → Option (List (Option Yaml))
  | [] => some found
  | (k, v) :: r =>
    match MemberKey.of names k with
    | .member i =>
      match found[i]? with
      | some none => takeMembers names isOpen (found.set i (some v)) r
      | _ => none
    | .unknown => if isOpen then takeMembers names isOpen found r else none
    | .invalid => none

/-- The members of a record, one place for each name. -/
def members? (names : List String) (isOpen : Bool) : Yaml → Option (List (Option Yaml))
  | .mapping entries => takeMembers names isOpen (names.map fun _ => none) entries
  | .sequence items =>
    if items.length ≤ names.length then
      some (items.map some ++ List.replicate (names.length - items.length) none)
    else none
  | _ => none

/-- A member with a default. -/
def withDefault {α : Type} (default : α) (read : Yaml → Option α) : Option Yaml → Option α
  | none => some default
  | some v => read v

/-- A member that may be absent or null. -/
def optional {α : Type} (read : Yaml → Option α) : Option Yaml → Option (Option α)
  | none => some none
  | some .null => some none
  | some v => (read v).map some

/-- A list of which every item is read, onto the reversed `acc`. -/
def readItems {α : Type} (read : Yaml → Option α) (acc : List α) : List Yaml → Option (List α)
  | [] => some acc.reverse
  | v :: r =>
    match read v with
    | some a => readItems read (a :: acc) r
    | none => none

/-- A list. -/
def listOf {α : Type} (read : Yaml → Option α) : Yaml → Option (List α)
  | .sequence items => readItems read [] items
  | _ => none

/-- A string. -/
def stringOf : Yaml → Option String
  | .string s => some s
  | _ => none

/-- A truth value. -/
def boolOf : Yaml → Option Bool
  | .bool b => some b
  | _ => none

/-- An integer of 64 bits with a sign. -/
def intOf : Yaml → Option Int
  | .number (.int n) => if -(Width.half64 : Int) ≤ n ∧ n < Width.half64 then some n else none
  | _ => none

/-! ### Reading -/

/-- The members of identities and patterns. -/
def identityMembers : List String := ["group", "version", "kind", "name", "namespace"]

/-- Reads a pattern. -/
def Pattern.ofYaml? (v : Yaml) : Option Pattern := do
  match ← members? identityMembers true v with
  | [group, version, kind, name, space] =>
    let group ← withDefault "" stringOf group
    let version ← withDefault "" stringOf version
    let kind ← withDefault "" stringOf kind
    let name ← withDefault "" stringOf name
    let space ← withDefault "" stringOf space
    return ⟨group, version, kind, name, space⟩
  | _ => none

/-- Reads an identity; every member is required. -/
def Identity.ofYaml? (v : Yaml) : Option Identity := do
  match ← members? identityMembers true v with
  | [some group, some version, some kind, some name, some space] =>
    let group ← stringOf group
    let version ← stringOf version
    let kind ← stringOf kind
    let name ← stringOf name
    let space ← stringOf space
    return ⟨group, version, kind, name, space⟩
  | _ => none

/-- Reads options. -/
def FieldOptions.ofYaml? (v : Yaml) : Option FieldOptions := do
  match ← members? ["delimiter", "index", "create"] false v with
  | [delimiter, index, create] =>
    let delimiter ← withDefault "" stringOf delimiter
    let index ← withDefault 0 intOf index
    let create ← withDefault false boolOf create
    return ⟨delimiter, index, create⟩
  | _ => none

/-- The members of a source. -/
def sourceMembers : List String := identityMembers ++ ["fieldPath", "options"]

/-- Reads a source. -/
def Source.ofYaml? (v : Yaml) : Option Source := do
  match ← members? sourceMembers false v with
  | [group, version, kind, name, space, fieldPath, options] =>
    let group ← withDefault "" stringOf group
    let version ← withDefault "" stringOf version
    let kind ← withDefault "" stringOf kind
    let name ← withDefault "" stringOf name
    let space ← withDefault "" stringOf space
    let fieldPath ← withDefault "" stringOf fieldPath
    let options ← optional FieldOptions.ofYaml? options
    return ⟨⟨group, version, kind, name, space⟩, fieldPath, options⟩
  | _ => none

/-- The members of a target. -/
def targetMembers : List String := ["select", "reject", "fieldPaths", "options"]

/-- Reads a target. -/
def Target.ofYaml? (v : Yaml) : Option Target := do
  match ← members? targetMembers false v with
  | [select, reject, fieldPaths, options] =>
    let select ← optional Pattern.ofYaml? select
    let reject ← withDefault [] (listOf Pattern.ofYaml?) reject
    let fieldPaths ← withDefault [] (listOf stringOf) fieldPaths
    let options ← optional FieldOptions.ofYaml? options
    return ⟨select, reject, fieldPaths, options⟩
  | _ => none

/-- The members of a rule. -/
def ruleMembers : List String := ["source", "targets"]

/-- Reads a rule. -/
def Rule.ofYaml? (v : Yaml) : Option Rule := do
  match ← members? ruleMembers false v with
  | [source, targets] =>
    let source ← optional Source.ofYaml? source
    let targets ← optional (listOf Target.ofYaml?) targets
    return ⟨source, targets⟩
  | _ => none

/-- Reads a set of rules. -/
def RuleSet.ofYaml? (v : Yaml) : Option RuleSet := do
  match ← members? ["replacements"] true v with
  | [rules] =>
    let rules ← withDefault [] (listOf Rule.ofYaml?) rules
    return ⟨rules⟩
  | _ => none

/-! ### Writing -/

/-- A text member that is written unless it is empty. -/
def textMember (name value : String) : List (String × Json) :=
  if value = "" then [] else [(name, .string value)]

/-- A member that is written if it is there. -/
def optionalMember {α : Type} (name : String) (write : α → Json) (value : Option α) :
    List (String × Json) :=
  value.toList.map fun a => (name, write a)

/-- A list member that is written unless it is empty. -/
def listMember {α : Type} (name : String) (write : α → Json) (values : List α) :
    List (String × Json) :=
  if values.isEmpty then [] else [(name, .array (values.map write))]

/-- The members of a pattern that are not wildcards. -/
def Pattern.members (p : Pattern) : List (String × Json) :=
  textMember "group" p.group ++ textMember "version" p.version ++ textMember "kind" p.kind
    ++ textMember "name" p.name ++ textMember "namespace" p.space

/-- Writes a pattern. -/
def Pattern.toJson (p : Pattern) : Json := .object p.members

/-- Writes an identity. -/
def Identity.toJson (id : Identity) : Json :=
  .object [("group", .string id.group), ("version", .string id.version),
    ("kind", .string id.kind), ("name", .string id.name), ("namespace", .string id.space)]

/-- Writes options. -/
def FieldOptions.toJson (o : FieldOptions) : Json :=
  .object (textMember "delimiter" o.delimiter
    ++ [("index", .number (.int o.index)), ("create", .bool o.create)])

/-- Writes a source. -/
def Source.toJson (s : Source) : Json :=
  .object (s.pattern.members ++ textMember "fieldPath" s.fieldPath
    ++ optionalMember "options" FieldOptions.toJson s.options)

/-- Writes a target. -/
def Target.toJson (t : Target) : Json :=
  .object (optionalMember "select" Pattern.toJson t.select
    ++ listMember "reject" Pattern.toJson t.reject
    ++ listMember "fieldPaths" Json.string t.fieldPaths
    ++ optionalMember "options" FieldOptions.toJson t.options)

/-- Writes a rule. -/
def Rule.toJson (r : Rule) : Json :=
  .object (optionalMember "source" Source.toJson r.source
    ++ optionalMember "targets" (fun ts => .array (ts.map Target.toJson)) r.targets)

/-- Writes a set of rules. -/
def RuleSet.toJson (s : RuleSet) : Json :=
  .object (listMember "replacements" Rule.toJson s.rules)

end Graft

import Graft.Node

/-!
# Graft.Identity

Who a document is: group, version, kind, name and namespace, and patterns that
select documents by these five.

The identity is read off the fields `apiVersion`, `kind` and `metadata` of the
root. A document that is no mapping or has none of the three has the zero
identity, which only the pattern of five wildcards selects.
-/

namespace Graft

/-- The identity of a document. -/
structure Identity where
  /-- The API group, empty for the core group. -/
  group : String := ""
  /-- The API version. -/
  version : String := ""
  /-- The kind of resource. -/
  kind : String := ""
  /-- The name of the resource. -/
  name : String := ""
  /-- The namespace of the resource. -/
  space : String := ""
  deriving DecidableEq, Inhabited

/-- A pattern on identities; an empty member matches anything. -/
structure Pattern where
  /-- The group to match. -/
  group : String := ""
  /-- The version to match. -/
  version : String := ""
  /-- The kind to match. -/
  kind : String := ""
  /-- The name to match. -/
  name : String := ""
  /-- The namespace to match. -/
  space : String := ""
  deriving DecidableEq, Inhabited

namespace Identity

/-- Splits `group/version` at the first slash; a text without one is a version of
the core group. -/
def splitVersion (text : String) : String × String :=
  let cs := text.toList
  match cs.dropWhile (· ≠ '/') with
  | '/' :: version => (String.ofList (cs.takeWhile (· ≠ '/')), String.ofList version)
  | _ => ("", text)

/-- The fields of a root that give it an identity. -/
def rootFields : List String := ["apiVersion", "kind", "metadata"]

/-- The identity of a document. -/
def of (doc : Node) : Identity :=
  if rootFields.any (fun f => (doc.field? f).isSome) then
    let (group, version) := ((doc.fieldText? "apiVersion").map splitVersion).getD ("", "")
    let metadata := fun f => ((doc.field? "metadata").bind (·.fieldText? f)).getD ""
    { group := group
      version := version
      kind := (doc.fieldText? "kind").getD ""
      name := metadata "name"
      space := metadata "namespace" }
  else {}

/-- An identity on one line: version, kind and name, with the group and the
namespace in front of theirs if there is one. -/
def text (id : Identity) : String :=
  let version := if id.group = "" then id.version else id.group ++ "/" ++ id.version
  let name := if id.space = "" then id.name else id.space ++ "/" ++ id.name
  version ++ " " ++ id.kind ++ " " ++ name

end Identity

namespace Pattern

/-- The pattern of all resources of a kind. -/
def ofKind (kind : String) : Pattern := { kind := kind }

/-- The pattern of the resources of a kind with a name. -/
def named (kind name : String) : Pattern := { kind := kind, name := name }

/-- Whether one member of a pattern matches. -/
def matchesField (pattern value : String) : Bool := pattern == "" || pattern == value

/-- Whether a pattern matches an identity. -/
def matchesId (p : Pattern) (id : Identity) : Bool :=
  matchesField p.group id.group && matchesField p.version id.version
    && matchesField p.kind id.kind && matchesField p.name id.name
    && matchesField p.space id.space

/-- Whether a pattern selects a document. -/
def selects (p : Pattern) (doc : Node) : Bool := p.matchesId (.of doc)

/-- A member of a pattern in messages. -/
def orStar (s : String) : String := if s = "" then "*" else s

/-- A pattern on one line, with stars for its wildcards. -/
def text (p : Pattern) : String :=
  orStar p.group ++ "/" ++ orStar p.version ++ "/" ++ orStar p.kind ++ " "
    ++ orStar p.space ++ "/" ++ orStar p.name

end Pattern
end Graft

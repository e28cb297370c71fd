import Graft.Json.Printer
import Graft.Node.Convert
import Graft.Rule.Data

/-!
# Graft.Stream.Printer

Writing documents, and the identities of documents, as YAML or as JSON.
-/

namespace Graft

/-- The formats of output. -/
inductive Format where
  /-- One YAML document for each document, with `---` between them. -/
  | yaml
  /-- One JSON array of all documents. -/
  | json
  deriving DecidableEq, Inhabited

namespace Format

/-- The name of a format. -/
def name : Format → String
  | yaml => "yaml"
  | json => "json"

/-- The format of a name. -/
def ofName? (name : String) : Option Format :=
  if name = "yaml" then some .yaml else if name = "json" then some .json else none

@[simp] theorem ofName?_name (f : Format) : ofName? f.name = some f := by cases f <;> rfl

end Format

namespace Stream

/-- What stands between two YAML documents. -/
def separator : String := "---\n"

/-- Writes documents. -/
def render (format : Format) (docs : List Node) : String :=
  match format with
  | .yaml => separator.intercalate (docs.map (·.toYaml.render))
  | .json => Json.render .spread (.array (docs.map (·.toJson)))

/-- Writes a list of identities. -/
def renderIdentities (format : Format) (ids : List Identity) : String :=
  let list := Json.array (ids.map Identity.toJson)
  match format with
  | .yaml => (Yaml.ofJson list).render
  | .json => Json.render .spread list

end Stream
end Graft

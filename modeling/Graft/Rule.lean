import Graft.Identity

/-!
# Graft.Rule

Replacement rules: where a value comes from and where it goes.
-/

namespace Graft

/-- How a value is taken out of a text or put into one. -/
structure FieldOptions where
  /-- What the elements of the text are separated by; empty for the whole text. -/
  delimiter : String := ""
  /-- The element. In a target a negative position is in front of all elements
  and one beyond the last is behind them. -/
  index : Int := 0
  /-- Whether missing fields of a target are created. -/
  create : Bool := false
  deriving DecidableEq, Inhabited

/-- The options that only split at a delimiter. -/
def FieldOptions.delimited (delimiter : String) (index : Int) : FieldOptions :=
  { delimiter := delimiter, index := index }

/-- The field used where a rule names none. -/
def defaultFieldPath : String := "metadata.name"

/-- Where the value of a rule comes from. -/
structure Source where
  /-- The document. -/
  pattern : Pattern := {}
  /-- The field; empty for the default. -/
  fieldPath : String := ""
  /-- Which part of the field. -/
  options : Option FieldOptions := none
  deriving DecidableEq, Inhabited

/-- Where the value of a rule goes. -/
structure Target where
  /-- The documents. -/
  select : Option Pattern := none
  /-- The documents that are left out. -/
  reject : List Pattern := []
  /-- The fields; empty for the default. -/
  fieldPaths : List String := []
  /-- Which part of the fields, and whether to create them. -/
  options : Option FieldOptions := none
  deriving DecidableEq, Inhabited

/-- One value and the places it is written to. -/
structure Rule where
  /-- Where the value comes from. -/
  source : Option Source := none
  /-- Where it goes. -/
  targets : Option (List Target) := none
  deriving DecidableEq, Inhabited

/-- Rules that are applied in one pass. -/
structure RuleSet where
  /-- The rules, in order. -/
  rules : List Rule := []
  deriving DecidableEq, Inhabited

/-! ### Defaults -/

/-- The source with its field named. -/
def Source.withDefaultPath (s : Source) : Source :=
  if s.fieldPath = "" then { s with fieldPath := defaultFieldPath } else s

/-- The target with its fields named. -/
def Target.withDefaultPaths (t : Target) : Target :=
  if t.fieldPaths = [] then { t with fieldPaths := [defaultFieldPath] } else t

/-- The options if they ask for elements of a text. -/
def FieldOptions.splitting : Option FieldOptions → Option FieldOptions
  | some o => if o.delimiter = "" then none else some o
  | none => none

/-- Whether a target writes to the documents of an identity. -/
def Target.accepts (t : Target) (select : Pattern) (id : Identity) : Bool :=
  select.matchesId id && !t.reject.any (·.matchesId id)

end Graft

import Graft.Path.Lookup
import Graft.Rule.Splice

/-!
# Graft.Rule.Source

The source of a rule: the one document it selects, and the value in it.
-/

namespace Graft

/-- Looks on for the one document that a pattern selects, with the one found so far. A
second match ends the search. -/
def Pattern.selectFrom (p : Pattern) (found : Option Node) : List Node → Except Failure Node
  | [] =>
    match found with
    | none => .error (.noSource p)
    | some doc => .ok doc
  | doc :: r =>
    if p.selects doc then
      match found with
      | none => selectFrom p (some doc) r
      | some _ => .error (.ambiguousSource p)
    else selectFrom p found r

/-- The one document that a pattern selects. Two are as wrong as none. -/
def Pattern.select (p : Pattern) (docs : List Node) : Except Failure Node := p.selectFrom none docs

namespace Source

/-- The value in a document: absent if the field is, and otherwise the part of it
that the options ask for. Of an empty value no part is taken. -/
def valueIn (s : Source) (doc : Node) : Except Failure (Option Node) :=
  match Path.parse s.fieldPath with
  | .error e => .error (.path e)
  | .ok p =>
    match doc.lookup p with
    | .error e => .error (.path e)
    | .ok none => .ok none
    | .ok (some value) =>
      if value.isNilOrEmpty then .ok (some value) else (value.refine s.options).map some

/-- The value of a source. The source that comes with it has its field named once
its document is found. -/
def resolve (s : Source) (docs : List Node) : Source × Except Failure (Option Node) :=
  match s.pattern.select docs with
  | .error e => (s, .error e)
  | .ok doc => (s.withDefaultPath, s.withDefaultPath.valueIn doc)

end Source
end Graft

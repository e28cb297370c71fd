import Graft.Rule.Source
import Graft.Rule.Target

/-!
# Graft.Rule.Pass

A pass: rules applied to documents one after the other, so that each rule sees
what the rules before it wrote. The first failure ends the pass; what was written
up to then stays.

A pass also leaves the rules with the fields named that they had left to the
default, and counts what it did (`Tally`).
-/

namespace Graft

/-- What a pass counts. -/
structure Tally where
  /-- The rules applied. -/
  rules : Nat := 0
  /-- The fields written. -/
  fields : Nat := 0
  /-- The rules that failed. -/
  errors : Nat := 0
  deriving DecidableEq, Inhabited

/-- The names under which the counts are reported. -/
def Tally.named (t : Tally) : List (String × Nat) :=
  [("replacement_rules_applied", t.rules), ("replacement_fields_written", t.fields),
    ("replacement_errors", t.errors)]

/-- Documents in the middle of a pass. -/
structure PassState where
  /-- The documents. -/
  docs : List Node
  /-- The counts so far. -/
  tally : Tally := {}
  deriving Inhabited

namespace PassState

/-- A rule ended in a failure. -/
def fail (s : PassState) : PassState :=
  { s with tally := { s.tally with errors := s.tally.errors + 1 } }

/-- A rule was applied. -/
def succeed (s : PassState) : PassState :=
  { s with tally := { s.tally with rules := s.tally.rules + 1 } }

/-- The state after some targets were written to. -/
def afterWriting (s : PassState) (w : Writing) : PassState :=
  { docs := w.docs, tally := { s.tally with fields := w.written } }

end PassState

namespace Rule

/-- Applies one rule. -/
def apply (s : PassState) (r : Rule) : Step Rule PassState Failure :=
  match r.source, r.targets with
  | some source, some targets =>
    match source.resolve s.docs with
    | (source, .error e) => ⟨{ r with source := some source }, s.fail, some e⟩
    | (source, .ok value) =>
      let w := Target.writeAll targets ⟨s.docs, value, s.tally.fields⟩
      let r := { source := some source, targets := some w.items }
      match w.failure with
      | none => ⟨r, (s.afterWriting w.state).succeed, none⟩
      | some e => ⟨r, (s.afterWriting w.state).fail, some e⟩
  | _, _ => ⟨r, s.fail, some .incompleteRule⟩

/-- Applies rules in order. -/
def applyAll (rules : List Rule) (docs : List Node) : Sweep Rule PassState Failure :=
  Sweep.run apply { docs := docs } rules

end Rule

/-- Applies a set of rules in one pass. -/
def RuleSet.apply (s : RuleSet) (docs : List Node) : Sweep Rule PassState Failure :=
  Rule.applyAll s.rules docs

end Graft

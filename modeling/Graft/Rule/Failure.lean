import Graft.Identity
import Graft.Path

/-!
# Graft.Rule.Failure

Why a rule could not be applied. Any failure ends the pass; what was written
before it stays written.
-/

namespace Graft

/-- Why a rule could not be applied. -/
inductive Failure where
  /-- A rule without a source or without targets. -/
  | incompleteRule
  /-- A target that does not say which documents it means. -/
  | missingSelect
  /-- No document is selected by the source. -/
  | noSource (pattern : Pattern)
  /-- More than one document is selected by the source. -/
  | ambiguousSource (pattern : Pattern)
  /-- A node without a text was to be cut at a delimiter. -/
  | notText (found : Kind)
  /-- The source's text has no piece at the position asked for. -/
  | noPiece (index : Int) (text : String)
  /-- A path is malformed or cannot be followed. -/
  | path (error : PathError)
  deriving DecidableEq

/-- The wording of a failure. -/
def Failure.message : Failure → String
  | .incompleteRule => "replacements must specify a source and at least one target"
  | .missingSelect => "target must specify resources to select"
  | .noSource p => "found no matches for source " ++ p.text
  | .ambiguousSource p => "more than one match for source " ++ p.text
  | .notText found =>
    "delimiter option can only be used with scalar nodes, found " ++ found.name
  | .noPiece index text =>
    "options.index " ++ toString index ++ " is out of bounds for value " ++ text
  | .path e => e.message

end Graft

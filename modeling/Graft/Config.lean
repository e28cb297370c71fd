import Graft.File
import Graft.Rule.Data
import Graft.Yaml.Document

/-!
# Graft.Config

Configuration texts: the rules to apply, given in place or by the name of a file.

A configuration is a mapping whose member `replacements` is a list of entries
(`Config.Entry`). Its other members are not looked at, so that it may be part of a larger
one. An entry is a record of a path, or else a rule; an entry that mixes the two
is refused. The file of a path holds a list of rules, or else one rule.

Files are read through a function `read` in any monad, one after the other and
only once every entry is known to be well-formed.
-/

namespace Graft

/-- Where rules come from. -/
inductive Config.Entry where
  /-- A file, seen from the directory of the configuration. -/
  | file (name : String)
  /-- A rule given in place. -/
  | rule (rule : Rule)
  deriving DecidableEq, Inhabited

/-- Reads an entry. -/
def Config.Entry.ofYaml? (v : Yaml) : Option Config.Entry :=
  match members? ["path"] false v with
  | some [some (.string name)] => some (.file name)
  | _ => (Rule.ofYaml? v).map .rule

/-- Reads what a file of rules holds. -/
def Rule.listOfYaml? (v : Yaml) : Option (List Rule) :=
  match listOf Rule.ofYaml? v with
  | some rules => some rules
  | none => (Rule.ofYaml? v).map ([·])

/-- Reads the text of a file of rules. -/
def Rule.listOfText? (text : String) : Option (List Rule) :=
  (Yaml.document? text).bind fun d => d.untagged?.bind listOfYaml?

/-! ### Errors -/

/-- Why rules could not be loaded. -/
inductive ConfigError where
  /-- The configuration cannot be read as a text. -/
  | unreadable (name : String)
  /-- The configuration is no YAML, or not of the right shape. -/
  | malformed
  /-- The file of an entry cannot be read as a text. -/
  | unreadableFile (entry : Nat) (name : String)
  /-- The file of an entry holds no rules. -/
  | malformedFile (entry : Nat) (name : String)
  /-- The rules of a configuration in a file could not be loaded. -/
  | loading (name : String) (cause : ConfigError)
  deriving DecidableEq

namespace ConfigError

/-- The wording of an error without its causes. -/
def headline : ConfigError → String
  | .unreadable name => "reading config " ++ name
  | .malformed => "parsing replacements config"
  | .unreadableFile entry name =>
    "replacements[" ++ toString entry ++ "]: reading " ++ name
  | .malformedFile entry name =>
    "replacements[" ++ toString entry ++ "]: parsing " ++ name
  | .loading name _ => "loading replacements from " ++ name

/-- The wording of an error with its causes. -/
def message : ConfigError → String
  | .loading name cause => headline (.loading name cause) ++ ": " ++ cause.message
  | e => e.headline

end ConfigError

namespace Config

/-! ### Entries -/

/-- The member that holds the entries. -/
def member : String := "replacements"

/-- Whether a node is an empty plain scalar, which stands for a missing one. -/
def isAbsent (t : Yaml.Tree) : Bool :=
  match t with
  | .scalar _ .plain text => text = ""
  | _ => false

/-- The entries in a tree as values, and the aliases that may still be followed. -/
def entryValues? (d : Yaml.Document) (t : Yaml.Tree) (jumps : Nat) : Option (List Yaml × Nat) :=
  match d.follow? t jumps with
  | some (.sequence _ items, jumps) =>
    Yaml.Document.collect (d.value? (Yaml.maxDepth - 2)) [] items jumps
  | some (t, jumps) => if isAbsent t then some ([], jumps) else none
  | none => none

/-- The entries among the members of a configuration, as values. The member that
holds them may not be given twice, and every key has to be a scalar. -/
def findEntries (d : Yaml.Document) (found : Option (List Yaml)) (jumps : Nat) :
    List (Yaml.Tree × Yaml.Tree) → Option (List Yaml)
  | [] => some (found.getD [])
  | (k, t) :: r =>
    match d.follow? k jumps with
    | some (.scalar _ _ text, jumps) =>
      if text = member then
        match found, entryValues? d t jumps with
        | none, some (values, jumps) => findEntries d (some values) jumps r
        | _, _ => none
      else findEntries d found jumps r
    | _ => none

/-- The values of the entries of a configuration text; an empty text has none. -/
def valuesOfText? (text : String) : Option (List Yaml) :=
  (Yaml.document? text).bind fun d =>
    match d.root with
    | none => some []
    | some t =>
      match d.follow? t d.jumps with
      | some (.mapping _ entries, jumps) => findEntries d none jumps entries
      | some (t, _) => if isAbsent t then some [] else none
      | none => none

/-- The entries that some values are. Tags have no place in them. -/
def entriesOfValues? (values : List Yaml) : Option (List Entry) :=
  readItems (fun v => if v.hasTag then none else Entry.ofYaml? v) [] values

/-- The entries of a configuration text. -/
def entries? (text : String) : Option (List Entry) :=
  (valuesOfText? text).bind entriesOfValues?

/-! ### Rules -/

variable {m : Type → Type} [Monad m]

/-- The rules of one entry, which is at a position in its list. -/
def rulesOfEntry (read : String → m (Option String)) (directory : String) (position : Nat) :
    Entry → m (Except ConfigError (List Rule))
  | .rule r => pure (.ok [r])
  | .file name => do
    let name := File.join directory name
    match ← read name with
    | none => return .error (.unreadableFile position name)
    | some text =>
      match Rule.listOfText? text with
      | none => return .error (.malformedFile position name)
      | some rules => return .ok rules

/-- The rules of some entries from a position on, after `acc`. -/
def rulesOfEntries (read : String → m (Option String)) (directory : String) (position : Nat)
    (acc : List Rule) : List Entry → m (Except ConfigError (List Rule))
  | [] => pure (.ok acc)
  | e :: r => do
    match ← rulesOfEntry read directory position e with
    | .error e => return .error e
    | .ok rules => rulesOfEntries read directory (position + 1) (acc ++ rules) r

/-- The rules of a configuration text whose files are seen from a directory. -/
def rules (read : String → m (Option String)) (directory text : String) :
    m (Except ConfigError (List Rule)) :=
  match entries? text with
  | none => pure (.error .malformed)
  | some entries => rulesOfEntries read directory 0 [] entries

/-- The rules of a configuration in a file, with the files beside it. -/
def load (read : String → m (Option String)) (name : String) :
    m (Except ConfigError (List Rule)) := do
  match ← read name with
  | none => return .error (.unreadable name)
  | some text =>
    match ← rules read ((File.directory? name).getD ".") text with
    | .error e => return .error (.loading name e)
    | .ok rules => return .ok rules

end Config
end Graft

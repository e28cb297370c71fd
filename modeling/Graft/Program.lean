import Graft.CommandLine.Help
import Graft.Config
import Graft.File.Folder
import Graft.Rule.Pass
import Graft.Stream

/-!
# Graft.Program

The program: from arguments, files and standard input to an outcome.

Its effects are those of a `Host`, in any monad. The configuration is loaded
first, then the inputs are read in order, and nothing is printed unless all of it
went well.
-/

namespace Graft

/-! ### Surroundings -/

/-- The effects that the program needs. -/
structure Host (m : Type → Type) where
  /-- The text of a file, if it can be read. -/
  readFile : String → m (Option String)
  /-- The text left on standard input, if it can be read. -/
  readInput : m (Option String)

/-- The host of a folder in memory; the state is what is left on standard input. -/
def Folder.host (f : Folder) : Host (StateM ByteArray) where
  readFile name := pure (f.read? name)
  readInput := do
    let bytes ← get
    set ByteArray.empty
    return String.fromUTF8? bytes

/-- What the environment sets. -/
structure Settings where
  /-- The configuration to use if none is given. -/
  config : Option String := none
  /-- The limits of a stream. -/
  limits : Limits := {}

namespace Settings

/-- The variable that names the configuration. -/
def configVariable : String := "KRM_CONFIG"

/-- The variable that limits the bytes of a stream. -/
def bytesVariable : String := "KRM_MAX_YAML_BYTES"

/-- The variable that limits the nodes of a document. -/
def nodesVariable : String := "KRM_MAX_YAML_NODES"

/-- The variables that are looked at. -/
def variableNames : List String := [configVariable, bytesVariable, nodesVariable]

/-- The settings of an environment. -/
def ofEnvironment (environment : Entries String) : Settings :=
  { config := environment.get? configVariable
    limits := .ofTexts (environment.get? bytesVariable) (environment.get? nodesVariable) }

end Settings

/-! ### Outcomes -/

/-- How the program ends. -/
inductive Outcome where
  /-- It printed a text. -/
  | printed (text : String)
  /-- It failed. A rule that failed is the cause. -/
  | failed (message : String) (cause : Option String)
  /-- It was not asked for anything it knows. -/
  | refused
  deriving DecidableEq

/-- The exit code of an outcome. -/
def Outcome.exitCode : Outcome → Nat
  | .printed _ => 0
  | .failed .. => 1
  | .refused => 2

/-- The text on standard output. -/
def Outcome.output : Outcome → String
  | .printed text => text
  | _ => ""

/-! ### Inputs -/

/-- Why inputs could not be read. -/
inductive InputError where
  /-- A file cannot be read as a text. -/
  | unreadableFile (name : String)
  /-- Standard input cannot be read as a text. -/
  | unreadableInput
  /-- The text was refused. -/
  | refused (error : StreamError)
  deriving DecidableEq

/-- The wording of an input error. -/
def InputError.message : InputError → String
  | .unreadableFile name => "reading " ++ name
  | .unreadableInput => "reading stdin"
  | .refused e => e.message

namespace Program

variable {m : Type → Type} [Monad m]

/-- The operand that stands for standard input. -/
def inputOperand : String := "-"

/-- What standard input is called in errors. -/
def inputOrigin : String := "<stdin>"

/-- The documents of one input. -/
def readInput (host : Host m) (limits : Limits) (name : String) :
    m (Except InputError (List Node)) := do
  if File.trimmed name = inputOperand then
    match ← host.readInput with
    | none => return .error .unreadableInput
    | some text => return (Stream.read limits inputOrigin text).mapError .refused
  else
    match ← host.readFile name with
    | none => return .error (.unreadableFile name)
    | some text => return (Stream.read limits name text).mapError .refused

/-- The documents of some inputs, after `acc`. -/
def readInputsFrom (host : Host m) (limits : Limits) (acc : List Node) :
    List String → m (Except InputError (List Node))
  | [] => pure (.ok acc)
  | name :: r => do
    match ← readInput host limits name with
    | .error e => return .error e
    | .ok docs => readInputsFrom host limits (acc ++ docs) r

/-- The documents of all inputs; without any, those of standard input. -/
def readInputs (host : Host m) (limits : Limits) (names : List String) :
    m (Except InputError (List Node)) :=
  readInputsFrom host limits [] (if names.isEmpty then [inputOperand] else names)

/-! ### Running -/

/-- What is said when a rule failed. -/
def passHeadline : String := "applying replacements"

/-- Applies rules to documents and writes them. -/
def replaced (rules : List Rule) (format : Format) (docs : List Node) : Outcome :=
  let pass := Rule.applyAll rules docs
  match pass.failure with
  | none => .printed (Stream.render format pass.state.docs)
  | some e => .failed passHeadline (some e.message)

/-- Carries out a command. -/
def carryOut (host : Host m) (limits : Limits) : Command → m Outcome
  | .replace config inputs format => do
    match ← Config.load host.readFile config with
    | .error e => return .failed e.headline none
    | .ok rules =>
      match ← readInputs host limits inputs with
      | .error e => return .failed e.message none
      | .ok docs => return replaced rules format docs
  | .ids inputs format => do
    match ← readInputs host limits inputs with
    | .error e => return .failed e.message none
    | .ok docs => return .printed (Stream.renderIdentities format (docs.map .of))

/-- Does what the arguments ask for. -/
def run (host : Host m) (settings : Settings) (args : List String) : m Outcome :=
  match CommandLine.read? settings.config args with
  | none => pure .refused
  | some .version => pure (.printed CommandLine.version)
  | some (.help topic) => pure (.printed (CommandLine.help settings.config topic))
  | some (.run command) => carryOut host settings.limits command

end Program
end Graft

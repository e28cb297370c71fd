import Graft.Stream.Printer

/-!
# Graft.CommandLine

The command line: what the arguments ask for (`Request`).

Options stand before or behind the command, among its operands or in front of
them. A value follows its option as the next argument, behind an equals sign, or
right behind a single letter. An option may be given once before the command and
once behind it, and the one behind counts. Whatever is wrong with the arguments,
they ask for nothing; help and the version are answered as soon as they are met.
-/

namespace Graft

/-- Work on documents. -/
inductive Command where
  /-- Apply the rules of a configuration to the inputs. -/
  | replace (config : String) (inputs : List String) (format : Format)
  /-- List the identities of the inputs' documents. -/
  | ids (inputs : List String) (format : Format)
  deriving DecidableEq

/-- What help can be about. -/
inductive Topic where
  /-- The program. -/
  | program
  /-- The command that applies rules. -/
  | replace
  /-- The command that lists identities. -/
  | ids
  /-- The command that gives help. -/
  | help
  deriving DecidableEq

/-- What arguments ask for. -/
inductive Request where
  /-- Work. -/
  | run (command : Command)
  /-- Help. -/
  | help (topic : Topic)
  /-- The version of the program. -/
  | version
  deriving DecidableEq

namespace CommandLine

/-! ### Arguments -/

/-- The options. -/
inductive OptionName where
  /-- The format of the output. -/
  | output
  /-- The configuration. -/
  | config
  /-- Help. -/
  | help
  /-- The version. -/
  | version
  deriving DecidableEq

/-- The option of a letter. -/
def OptionName.ofLetter? (c : Char) : Option OptionName :=
  if c = 'o' then some .output
  else if c = 'c' then some .config
  else if c = 'h' then some .help
  else if c = 'V' then some .version
  else none

/-- The option of a word. -/
def OptionName.ofWord? (word : String) : Option OptionName :=
  if word = "output" then some .output
  else if word = "config" then some .config
  else if word = "help" then some .help
  else if word = "version" then some .version
  else none

/-- Whether an option is one of those in front of a command or behind it. -/
def Topic.admits : Topic → OptionName → Bool
  | .program, .config => false
  | .program, _ => true
  | .replace, .version => false
  | .replace, _ => true
  | .ids, .output | .ids, .help => true
  | .ids, _ => false
  | .help, _ => false

/-- What one argument is. -/
inductive Argument where
  /-- An operand. -/
  | operand (text : String)
  /-- An option that takes a value, and the value if it is attached. -/
  | valued (name : OptionName) (value : Option String)
  /-- The option for help. -/
  | help
  /-- The option for the version. -/
  | version
  /-- Nothing that is known. -/
  | unknown

/-- An option with what is attached to it. -/
def Argument.ofOption (name : OptionName) (attached : Option String) : Argument :=
  match name, attached with
  | .help, none => .help
  | .version, none => .version
  | .output, value | .config, value => .valued name value
  | _, _ => .unknown

/-- What is attached to a word by an equals sign. -/
def attachedToWord : List Char → Option String
  | '=' :: value => some (String.ofList value)
  | _ => none

/-- What is attached to a letter that takes a value. -/
def attachedToLetter : List Char → Option String
  | [] => none
  | '=' :: value => some (String.ofList value)
  | value => some (String.ofList value)

/-- The argument of an option, if it is admitted. -/
def Argument.admitted (topic : Topic) (name : Option OptionName) (attached : Option String) :
    Argument :=
  match name with
  | none => .unknown
  | some name => if Topic.admits topic name then ofOption name attached else .unknown

/-- What an argument is in front of the command or behind it. Letters without a
value act at once, so that what is behind one of them is not looked at. -/
def Argument.of (topic : Topic) (arg : String) : Argument :=
  match arg.toList with
  | '-' :: '-' :: cs =>
    let word := String.ofList (cs.takeWhile (· ≠ '='))
    admitted topic (OptionName.ofWord? word) (attachedToWord (cs.dropWhile (· ≠ '=')))
  | '-' :: c :: cs =>
    match OptionName.ofLetter? c with
    | some .help => admitted topic (some .help) none
    | some .version => admitted topic (some .version) none
    | name => admitted topic name (attachedToLetter cs)
  | _ => .operand arg

/-- Whether an argument can be the value of the option in front of it. -/
def isValue (arg : String) : Bool :=
  match arg.toList with
  | '-' :: _ :: _ => false
  | _ => true

/-! ### Reading -/

/-- What was given in front of the command or behind it. -/
structure Given where
  /-- The format of the output. -/
  format : Option Format := none
  /-- The configuration. -/
  config : Option String := none
  /-- The operands, latest first. -/
  operands : List String := []

/-- Takes the value of an option. A second one is refused, and so is a value that
the option does not have. -/
def Given.set? (g : Given) (name : OptionName) (value : String) : Option Given :=
  match name with
  | .output =>
    match g.format, Format.ofName? value with
    | none, some f => some { g with format := some f }
    | _, _ => none
  | .config =>
    match g.config with
    | none => if value = "" then none else some { g with config := some value }
    | some _ => none
  | _ => none

/-- Takes operands, which are names of files and not empty. -/
def Given.addAll? (g : Given) : List String → Option Given
  | [] => some g
  | a :: r => if a = "" then none else addAll? { g with operands := a :: g.operands } r

/-- What was asked for, at the end of the arguments: `config` is the configuration
to use if none was given, and `outer` the format given in front of the command. -/
def Given.request? (g : Given) (config : Option String) (outer : Option Format) :
    Topic → Option Request
  | .replace =>
    match g.config.or config with
    | some name =>
      if name = "" then none
      else some (.run (.replace name g.operands.reverse ((g.format.or outer).getD .yaml)))
    | none => none
  | .ids => some (.run (.ids g.operands.reverse ((g.format.or outer).getD .yaml)))
  | _ => none

/-- The topic that help is asked for. -/
def helpTopic? : List String → Option Topic
  | [] => some .program
  | [name] =>
    if name = "replace" then some .replace
    else if name = "ids" then some .ids
    else if name = "help" then some .help
    else none
  | _ => none

/-- Reads on, in front of the command (`Topic.program`) or behind it. -/
def readFrom (config : Option String) (outer : Option Format) (topic : Topic) (g : Given) :
    List String → Option Request
  | [] => g.request? config outer topic
  | a :: r =>
    if a = "--" then
      if topic = .program then none
      else (g.addAll? r).bind (·.request? config outer topic)
    else
      match Argument.of topic a with
      | .unknown => none
      | .help => some (.help topic)
      | .version => some .version
      | .valued name (some value) =>
        match g.set? name value with
        | some g => readFrom config outer topic g r
        | none => none
      | .valued name none =>
        match r with
        | [] => none
        | value :: r =>
          if isValue value then
            match g.set? name value with
            | some g => readFrom config outer topic g r
            | none => none
          else none
      | .operand a =>
        if topic = .program then
          if a = "replace" then readFrom config g.format .replace {} r
          else if a = "ids" then readFrom config g.format .ids {} r
          else if a = "help" then (helpTopic? r).map .help
          else none
        else if a = "" then none
        else readFrom config outer topic { g with operands := a :: g.operands } r

/-- What some arguments ask for; `config` is the configuration to use if they name
none. -/
def read? (config : Option String) (args : List String) : Option Request :=
  readFrom config none .program {} args

end CommandLine
end Graft

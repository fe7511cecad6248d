import Lowering.Json.Decode
import Lowering.Json.Encode
import Lowering.Pipeline
import Lowering.Tree.Render

/-!
# The command line

`lower [INPUT] [--through STAGE] [--format json|text] [--pretty]` reads a program from a file or
from standard input, lowers it and prints the result. Arguments are understood before anything is read,
and nothing is printed unless all goes well.
-/

namespace Lowering.CommandLine

open Json

/-- Where a program is read from. -/
inductive Source where
  | standardInput
  | file (path : String)
deriving DecidableEq, Repr

/-- How a source is called in messages. -/
def Source.label : Source → String
  | .standardInput => "standard input"
  | .file path => path

/-- How the lowered program is printed. -/
inductive Format where
  | json
  | text
deriving DecidableEq, Repr

/-- The format of a given name. -/
def Format.ofName? (n : String) : Option Format :=
  if n = "json" then some .json else if n = "text" then some .text else none

/-- What the arguments ask for. Each of them is given at most once. -/
structure Options where
  input : Option String := none
  through : Option Stage := none
  format : Option Format := none
  pretty : Bool := false
deriving DecidableEq, Repr

/-- Why a run fails. -/
inductive Failure where
  /-- The arguments make no sense. -/
  | usage
  /-- The source cannot be read as text. -/
  | reading (source : Source)
  /-- The source holds no program. -/
  | parsing (source : Source) (fault : Fault)
deriving DecidableEq, Repr

/-- The exit code of a failed run. -/
def Failure.exitCode : Failure → UInt32
  | .usage => 2
  | .reading _ | .parsing _ _ => 1

/-- What was being done when a run failed. Usage faults are not about any doing. -/
def Failure.context? : Failure → Option String
  | .usage => none
  | .reading source => some ("reading " ++ source.label)
  | .parsing source _ => some ("parsing program from " ++ source.label)

namespace Options

/-- Take an argument as the input, which is not empty and not given yet. -/
def setInput (o : Options) (path : String) : Option Options :=
  if o.input.isSome ∨ path.isEmpty then none else some { o with input := some path }

/-- Take an option with its value, which is not given yet. -/
def setOption (o : Options) (name value : String) : Option Options :=
  if name = "--through" ∧ o.through.isNone then
    (Stage.ofName? value).map fun stage => { o with through := some stage }
  else if name = "--format" ∧ o.format.isNone then
    (Format.ofName? value).map fun format => { o with format := some format }
  else none

/-- Take the option that has no value, which is not given yet. -/
def setPretty (o : Options) : Option Options :=
  if o.pretty then none else some { o with pretty := true }

/-- The source that the options name. -/
def source (o : Options) : Source :=
  match o.input with
  | none => .standardInput
  | some path => .file path

/-- The last stage to run. -/
def last (o : Options) : Stage :=
  o.through.getD .functionCalls

/-- The layout of JSON output. -/
def layout (o : Options) : Layout :=
  if o.pretty then .pretty else .compact

end Options

/-- The argument starts with a dash and is more than a dash. -/
def isOption (argument : String) : Bool :=
  match argument.toList with
  | '-' :: _ :: _ => true
  | _ => false

/-- Split an option at its first equals sign into its name and its value, if it has one. -/
def splitOption (argument : String) : String × Option String :=
  let cs := argument.toList
  match cs.dropWhile (· ≠ '=') with
  | [] => (argument, none)
  | _ :: value => (String.ofList (cs.takeWhile (· ≠ '=')), some (String.ofList value))

/-- Understand the arguments that follow the command. After two dashes no argument is an option. -/
def parseOptions (o : Options) : List String → Option Options
  | [] => some o
  | argument :: rest =>
      if argument = "--" then rest.foldlM Options.setInput o
      else if isOption argument then
        match splitOption argument, rest with
        | (name, some value), rest => (o.setOption name value).bind (parseOptions · rest)
        | (name, none), rest =>
            if name = "--pretty" then o.setPretty.bind (parseOptions · rest)
            else
              match rest with
              | [] => none
              | value :: rest => (o.setOption name value).bind (parseOptions · rest)
      else (o.setInput argument).bind (parseOptions · rest)

/-- Understand all arguments. Requests for help are not modelled: `--help` and `-h` are no options
here, so they fail as any unknown option does. -/
def parse : List String → Option Options
  | "lower" :: rest => parseOptions {} rest
  | _ => none

/-- The text to print for the content of the source, of which `none` means that it cannot be
read. -/
def Options.execute (o : Options) (content : Option ByteArray) : Except Failure String :=
  match content.bind String.fromUTF8? with
  | none => .error (.reading o.source)
  | some text =>
      match (Program.decode text : Except Fault (Program UInt32)) with
      | .error fault => .error (.parsing o.source fault)
      | .ok p =>
          let lowered := p.lowerUpTo o.last
          match o.format.getD .json with
          | .json => .ok (lowered.encode o.layout ++ "\n")
          | .text => .ok lowered.render

/-- A whole run, given what each source holds. -/
def run (arguments : List String) (contentOf : Source → Option ByteArray) : Except Failure String :=
  match parse arguments with
  | none => .error .usage
  | some o => o.execute (contentOf o.source)

/-- The exit code of a run. -/
def exitCode : Except Failure String → UInt32
  | .ok _ => 0
  | .error failure => failure.exitCode

/-- What a run prints on standard output. -/
def printed : Except Failure String → String
  | .ok output => output
  | .error _ => ""

end Lowering.CommandLine

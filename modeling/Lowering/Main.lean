import Lowering.CommandLine

/-!
# The program

The outer layer of the command line: it reads the source that the arguments name, and prints.
-/

namespace Lowering.CommandLine

/-- The content of a source, if it can be read. -/
def readSource : Source → IO (Option ByteArray)
  | .standardInput => do
      let stdin ← IO.getStdin
      let content ← stdin.readBinToEnd.toBaseIO
      return content.toOption
  | .file path => do
      let content ← (IO.FS.readBinFile path).toBaseIO
      return content.toOption

/-- What to print about a failed run. -/
def failureText (failure : Failure) : String :=
  match failure with
  | .usage => "usage: lower [INPUT] [--through STAGE] [--format json|text] [--pretty]"
  | .reading _ => "error: " ++ failure.context?.getD ""
  | .parsing _ fault =>
      "error: " ++ failure.context?.getD "" ++ ((fault.message?).map (": " ++ ·)).getD ""

/-- Run the command line and return the exit code. -/
def runProgram (arguments : List String) : IO UInt32 := do
  let outcome ←
    match parse arguments with
    | none => pure (.error .usage)
    | some o => do
        let content ← readSource o.source
        pure (o.execute content)
  IO.print (printed outcome)
  if let .error failure := outcome then
    IO.eprintln (failureText failure)
  return exitCode outcome

end Lowering.CommandLine

/-- The program. -/
def main (arguments : List String) : IO UInt32 :=
  Lowering.CommandLine.runProgram arguments

import Lowering.Pipeline
import Lowering.Text.Quoted

/-!
# The log of a run

What lowering has to tell: that a stage starts, which names it boxes and which names the functions
capture. Records about outer blocks and functions come before those about what is nested in them.
-/

namespace Lowering

variable {ι : Type}

/-- A record of the log. -/
inductive LogRecord where
  /-- A stage starts. -/
  | running (stage : Stage)
  /-- A name is boxed. -/
  | boxing (name : String)
  /-- A function captures names. -/
  | capturing (names : List String)
deriving DecidableEq, Repr

/-- The text of a record: its level and its message. -/
def LogRecord.render : LogRecord → String
  | .running stage => "DEBUG running " ++ stage.name ++ " pass"
  | .boxing n => "TRACE boxing " ++ n
  | .capturing names =>
      "TRACE capturing \x7b" ++ ", ".intercalate (names.map Text.quoted) ++ "\x7d"

/-- The records of one stage run on a program. -/
def Stage.log (stage : Stage) (p : Program ι) : List LogRecord :=
  .running stage ::
    match stage with
    | .boxing => (BoxedName.boxes p).map .boxing
    | .closures => (Closure.captured p).map .capturing
    | _ => []

/-- The records of stages run one after the other. -/
def Program.logStages : List Stage → Program ι → List LogRecord
  | [], _ => []
  | stage :: rest, p => stage.log p ++ Program.logStages rest (stage.run p)

end Lowering

import Lowering.Stage.Declaration
import Lowering.Stage.Constructor
import Lowering.Stage.Property
import Lowering.Stage.GlobalName
import Lowering.Stage.BoxedName
import Lowering.Stage.Closure
import Lowering.Stage.Application

/-!
# The pipeline

Lowering runs seven stages one after the other, each of which removes one kind of construct. Any
stage can be run alone, on any program; `Program.lowerUpTo` runs all stages up to a given one.
-/

namespace Lowering

variable {ι : Type}

/-- A stage of lowering. -/
inductive Stage where
  | declarators | classes | memberAccess | globals | boxing | closures | functionCalls
deriving DecidableEq, Repr

namespace Stage

/-- All stages in the order in which they run. -/
def all : List Stage :=
  [.declarators, .classes, .memberAccess, .globals, .boxing, .closures, .functionCalls]

/-- The place of a stage in the order, counted from zero. -/
def index : Stage → Nat
  | .declarators => 0
  | .classes => 1
  | .memberAccess => 2
  | .globals => 3
  | .boxing => 4
  | .closures => 5
  | .functionCalls => 6

/-- The name of a stage. -/
def name : Stage → String
  | .declarators => "declarators"
  | .classes => "classes"
  | .memberAccess => "member-access"
  | .globals => "globals"
  | .boxing => "boxing"
  | .closures => "closures"
  | .functionCalls => "function-calls"

/-- The stage of a given name. -/
def ofName? (n : String) : Option Stage :=
  all.find? fun stage => stage.name = n

/-- The stages up to and including the given one. -/
def upTo (last : Stage) : List Stage :=
  all.takeWhile fun stage => stage.index ≤ last.index

/-- Run one stage alone. -/
def run : Stage → Program ι → Program ι
  | .declarators => Declaration.run
  | .classes => Constructor.run
  | .memberAccess => Property.run
  | .globals => GlobalName.run
  | .boxing => BoxedName.run
  | .closures => Closure.run
  | .functionCalls => Application.run

end Stage

/-- Run stages one after the other. -/
def Program.runStages (stages : List Stage) (p : Program ι) : Program ι :=
  stages.foldl (fun q stage => stage.run q) p

/-- Run all stages up to and including the given one. -/
def Program.lowerUpTo (last : Stage) (p : Program ι) : Program ι :=
  p.runStages last.upTo

/-- Run all stages. -/
def Program.lower (p : Program ι) : Program ι :=
  p.lowerUpTo .functionCalls

end Lowering

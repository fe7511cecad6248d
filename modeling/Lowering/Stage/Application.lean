import Lowering.Hook
import Lowering.Tree.Mapper

/-!
# Function calls

A call of a function value becomes a call of the runtime that gets the function as its first input.
Calls of methods, and so all calls of hooks, stay.
-/

namespace Lowering.Application

variable {ι : Type}

/-- The rule for calls. -/
def application : Expr ι → Expr ι
  | .call i callee inputs =>
      if callee.isMember then .call i callee inputs
      else Hook.callFunction.call i (callee :: inputs)
  | e => e

/-- Replace all calls of function values. -/
def mapper : Mapper Unit ι where
  onExpr _ _ e := application e

/-- Run the stage. -/
def run (p : Program ι) : Program ι :=
  ⟨mapper.block () p.statements⟩

end Lowering.Application

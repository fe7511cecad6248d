import Lowering.Hook
import Lowering.Tree.Mapper

/-!
# Member access

Reads of and assignments to properties become calls of the runtime. A member access that selects the
method of a call is not a read and stays.
-/

namespace Lowering.Property

variable {ι : Type}

/-- The rule for assignments to properties. -/
def assignment : Stmt ι → Stmt ι
  | .assignMember i object n value => .expr (Hook.propertySet.call i [object, .name i n, value])
  | s => s

/-- The rule for reads of properties. -/
def access : Expr ι → Expr ι
  | .member i object n => Hook.propertyGet.call i [object, .name i n]
  | e => e

/-- Replace all reads of and assignments to properties. -/
def mapper : Mapper Unit ι where
  onStmt _ s := assignment s
  onExpr _ _ e := access e

/-- Run the stage. -/
def run (p : Program ι) : Program ι :=
  ⟨mapper.block () p.statements⟩

end Lowering.Property

import Lowering.Hook
import Lowering.Tree.Mapper

/-!
# Global names

A name that no enclosing function or nested block binds is global, and is read, assigned and
declared through the runtime. What the top-level block declares is global too: it opens no scope.
A scope is the list of the names that are bound around a node.
-/

namespace Lowering.GlobalName

variable {ι : Type}

/-- The rule for declarations of and assignments to global names. -/
def access (bound : List String) : Stmt ι → Stmt ι
  | .declare i n value =>
      if n ∈ bound then .declare i n value
      else .expr (Hook.globalDefine.call i [.name i n, value])
  | .assign i n value =>
      if n ∈ bound then .assign i n value
      else .expr (Hook.globalSet.call i [.name i n, value])
  | s => s

/-- The rule for reads of global names. -/
def read (bound : List String) : Expr ι → Expr ι
  | .variable i n => if n ∈ bound then .variable i n else Hook.globalGet.call i [.name i n]
  | e => e

/-- Let all uses of global names go through the runtime. -/
def mapper : Mapper (List String) ι where
  ofFunction bound params _ := Param.names params ++ bound
  ofBlock bound b := b.declared ++ bound
  onStmt := access
  onExpr bound _ e := read bound e

/-- Run the stage. -/
def run (p : Program ι) : Program ι :=
  ⟨mapper.stmts [] p.statements⟩

end Lowering.GlobalName

import Lowering.Scope.Names
import Lowering.Tree.Collector

/-!
# Captures

The names that a function literal uses and does not bind, as far as they are bound around it.
-/

namespace Lowering

variable {ι : Type}

/-- Each read of and assignment to a name contributes the name, unless it is bound. -/
def freeNameCollector : Collector (List String) ι String where
  ofFunction bound params _ := Param.names params ++ bound
  ofBlock bound b := b.declared ++ bound
  onStmt
    | bound, .assign _ n _ => if n ∈ bound then [] else [n]
    | _, _ => []
  onExpr
    | bound, .variable _ n => if n ∈ bound then [] else [n]
    | _, _ => []

/-- The names that a function uses and that neither it nor a block in it binds. -/
def freeNames (params : List (Param ι)) (body : Block ι) : List String :=
  freeNameCollector.block (Param.names params) body

/-- The captures of a function, in increasing order, among the names that are bound around it. -/
def captures (available : List String) (params : List (Param ι)) (body : Block ι) : List String :=
  Names.sorted ((freeNames params body).filter (· ∈ available))

end Lowering

import Lowering.Hook
import Lowering.Scope.Access
import Lowering.Scope.Names
import Lowering.Tree.Mapper

/-!
# Boxed names

A variable that nested functions could see with a stale value is kept in a box. The block that binds
it creates the box first, and all its uses go through the box. A scope lists the names bound around
a node, innermost first, each with whether it is boxed.
-/

namespace Lowering.BoxedName

variable {ι : Type}

/-- The boxed names among those that a block binds, with the parameters that belong to it, in
increasing order. -/
def boxedNames (params : List (Param ι)) (b : Block ι) : List String :=
  let accesses := b.accesses
  Names.sorted ((Param.names params ++ b.declared).filter (Access.needsBox · accesses))

/-- The statement that creates the box of a name, with the info of what binds the name first: a
parameter's box holds its value, and that of a declared variable is undefined. -/
def head? (params : List (Param ι)) (b : Block ι) (n : String) : Option (Stmt ι) :=
  match params.find? (·.name = n) with
  | some p => some (.assign p.info n (Hook.createBox.call p.info [.variable p.info n]))
  | none =>
      (b.find? (·.declared? = some n)).map fun s =>
        .declare s.info n (Hook.createUndefinedBox.call s.info [.name s.info n])

/-- The statements that create the boxes of a block. -/
def heads (params : List (Param ι)) (b : Block ι) : Block ι :=
  (boxedNames params b).filterMap (head? params b)

/-- Bind names in front of a scope, as a block that accesses them requires. -/
def extend (names : List String) (b : Block ι) (scope : List (String × Bool)) :
    List (String × Bool) :=
  let accesses := b.accesses
  names.map (fun n => (n, Access.needsBox n accesses)) ++ scope

/-- The innermost binding of the name is boxed. -/
def isBoxed (scope : List (String × Bool)) (n : String) : Bool :=
  scope.lookup n = some true

/-- The rule for declarations of and assignments to boxed names. -/
def access (scope : List (String × Bool)) : Stmt ι → Stmt ι
  | .declare i n value =>
      if isBoxed scope n then .expr (BoxOp.define.call i n [value]) else .declare i n value
  | .assign i n value =>
      if isBoxed scope n then .expr (BoxOp.set.call i n [value]) else .assign i n value
  | s => s

/-- The rule for reads of boxed names. -/
def read (scope : List (String × Bool)) : Expr ι → Expr ι
  | .variable i n => if isBoxed scope n then BoxOp.get.call i n [] else .variable i n
  | e => e

/-- Create boxes and let all uses of boxed names go through them. -/
def mapper : Mapper (List (String × Bool)) ι where
  ofFunction scope params body := extend (Param.names params) body scope
  ofBlock scope b := extend b.declared b scope
  heads := heads
  onStmt := access
  onExpr scope _ e := read scope e

/-- Run the stage. -/
def run (p : Program ι) : Program ι :=
  ⟨mapper.block [] p.statements⟩

/-- Each block contributes the names that it boxes. -/
def boxCollector : Collector Unit ι String where
  onBlock _ params b := boxedNames params b

/-- The names boxed by the stage, outer blocks before inner ones. -/
def boxes (p : Program ι) : List String :=
  boxCollector.block () p.statements

end Lowering.BoxedName

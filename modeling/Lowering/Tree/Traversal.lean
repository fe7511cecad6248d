import Lowering.Tree.Kind

/-!
# Effectful traversal

A `Traversal` runs an action at every node of a tree, in evaluation order and at a node before its
children, and puts the info that the action returns in the place of the node's own. The shape of the
tree and all names stay as they are.
-/

namespace Lowering

/-- The actions of a traversal. Those at nodes return the info that the node gets. -/
structure Traversal (m : Type → Type) (ι κ : Type) where
  /-- Run at a block, given its number of statements. -/
  onBlock : Nat → m Unit
  /-- Run at a statement. -/
  onStmt : ι → StmtKind → m κ
  /-- Run at an expression. -/
  onExpr : ι → ExprKind → m κ
  /-- Run at a method, given its name. -/
  onMethod : ι → String → m κ
  /-- Run at a parameter. -/
  onParam : ι → m κ

namespace Traversal

variable {m : Type → Type} [Monad m] {ι κ : Type} (T : Traversal m ι κ)

/-- Traverse a parameter list. -/
def params : List (Param ι) → m (List (Param κ))
  | [] => pure []
  | p :: ps => do
      let i ← T.onParam p.info
      let rest ← params ps
      pure (⟨i, p.name⟩ :: rest)

mutual

/-- Traverse an expression. -/
def expr : Expr ι → m (Expr κ)
  | .unit i => do
      let j ← T.onExpr i .unit
      pure (.unit j)
  | .name i n => do
      let j ← T.onExpr i .name
      pure (.name j n)
  | .text i t => do
      let j ← T.onExpr i .text
      pure (.text j t)
  | .number i d => do
      let j ← T.onExpr i .number
      pure (.number j d)
  | .variable i n => do
      let j ← T.onExpr i .variable
      pure (.variable j n)
  | .member i object n => do
      let j ← T.onExpr i .member
      let object' ← expr object
      pure (.member j object' n)
  | .call i callee inputs => do
      let j ← T.onExpr i .call
      let callee' ← expr callee
      let inputs' ← exprs inputs
      pure (.call j callee' inputs')
  | .functionLit i n ps body => do
      let j ← T.onExpr i .functionLit
      let ps' ← T.params ps
      T.onBlock body.length
      let body' ← stmts body
      pure (.functionLit j n ps' body')
  | .classLit i n ms => do
      let j ← T.onExpr i .classLit
      let ms' ← methods ms
      pure (.classLit j n ms')

/-- Traverse a list of expressions. -/
def exprs : List (Expr ι) → m (List (Expr κ))
  | [] => pure []
  | e :: es => do
      let e' ← expr e
      let es' ← exprs es
      pure (e' :: es')

/-- Traverse a statement. An expression statement is met as a statement and then as an expression,
and it is the expression's info that it keeps. -/
def stmt : Stmt ι → m (Stmt κ)
  | .importPackage i n path => do
      let j ← T.onStmt i .importPackage
      pure (.importPackage j n path)
  | .declare i n value => do
      let j ← T.onStmt i .declare
      let value' ← expr value
      pure (.declare j n value')
  | .assign i n value => do
      let j ← T.onStmt i .assign
      let value' ← expr value
      pure (.assign j n value')
  | .assignMember i object n value => do
      let j ← T.onStmt i .assign
      let object' ← expr object
      let value' ← expr value
      pure (.assignMember j object' n value')
  | .ret i value => do
      let j ← T.onStmt i .ret
      let value' ← expr value
      pure (.ret j value')
  | .branch i condition thenBlock elseBlock => do
      let j ← T.onStmt i .branch
      let condition' ← expr condition
      T.onBlock thenBlock.length
      let thenBlock' ← stmts thenBlock
      T.onBlock elseBlock.length
      let elseBlock' ← stmts elseBlock
      pure (.branch j condition' thenBlock' elseBlock')
  | .expr e => do
      let _ ← T.onStmt e.info .expr
      let e' ← expr e
      pure (.expr e')

/-- Traverse the statements of a list. -/
def stmts : List (Stmt ι) → m (List (Stmt κ))
  | [] => pure []
  | s :: ss => do
      let s' ← stmt s
      let ss' ← stmts ss
      pure (s' :: ss')

/-- Traverse a method. -/
def method : Method ι → m (Method κ)
  | .mk i n ps body => do
      let j ← T.onMethod i n
      let ps' ← T.params ps
      T.onBlock body.length
      let body' ← stmts body
      pure (.mk j n ps' body')

/-- Traverse a list of methods. -/
def methods : List (Method ι) → m (List (Method κ))
  | [] => pure []
  | x :: xs => do
      let x' ← method x
      let xs' ← methods xs
      pure (x' :: xs')

end

/-- Traverse a block. -/
def block (b : Block ι) : m (Block κ) := do
  T.onBlock b.length
  T.stmts b

end Traversal

end Lowering

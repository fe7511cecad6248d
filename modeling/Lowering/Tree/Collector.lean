import Lowering.Tree.Scoping

/-!
# Scoped collection

A `Collector` is a set of local rules that say what each node of a tree contributes. Its traversal
goes through a tree in evaluation order and lists the contributions, a node's own before those of
its children; a statement may also contribute after its children. It carries a scope on the way
down, as mapping does.
-/

namespace Lowering

variable {σ ι α : Type}

/-- What each node contributes, given the scope of the node. -/
structure Collector (σ ι α : Type) extends Scoping σ ι where
  /-- Contributed by a block, given the parameters that it belongs to, in the scope around it. -/
  onBlock : σ → List (Param ι) → Block ι → List α := fun _ _ _ => []
  /-- Contributed by a statement before its children. -/
  onStmt : σ → Stmt ι → List α := fun _ _ => []
  /-- Contributed by a statement after its children. -/
  afterStmt : σ → Stmt ι → List α := fun _ _ => []
  /-- Contributed by an expression. -/
  onExpr : σ → Expr ι → List α := fun _ _ => []
  /-- Contributed by a method. -/
  onMethod : σ → Method ι → List α := fun _ _ => []

namespace Collector

variable (C : Collector σ ι α)

mutual

/-- The contributions of an expression. -/
def expr (scope : σ) : Expr ι → List α
  | .unit i => C.onExpr scope (.unit i)
  | .name i n => C.onExpr scope (.name i n)
  | .text i t => C.onExpr scope (.text i t)
  | .number i d => C.onExpr scope (.number i d)
  | .variable i n => C.onExpr scope (.variable i n)
  | .member i object m => C.onExpr scope (.member i object m) ++ expr scope object
  | .call i callee inputs =>
      C.onExpr scope (.call i callee inputs) ++ expr scope callee ++ exprs scope inputs
  | .functionLit i n params body =>
      let inner := C.ofFunction scope params body
      C.onExpr scope (.functionLit i n params body) ++ C.onBlock inner params body ++
        stmts (C.ofBlock inner body) body
  | .classLit i n ms => C.onExpr scope (.classLit i n ms) ++ methods scope ms

/-- The contributions of a list of expressions. -/
def exprs (scope : σ) : List (Expr ι) → List α
  | [] => []
  | e :: es => expr scope e ++ exprs scope es

/-- The contributions of a statement. -/
def stmt (scope : σ) : Stmt ι → List α
  | .importPackage i n path =>
      C.onStmt scope (.importPackage i n path) ++ C.afterStmt scope (.importPackage i n path)
  | .declare i n value =>
      C.onStmt scope (.declare i n value) ++ expr scope value ++
        C.afterStmt scope (.declare i n value)
  | .assign i n value =>
      C.onStmt scope (.assign i n value) ++ expr scope value ++
        C.afterStmt scope (.assign i n value)
  | .assignMember i object m value =>
      C.onStmt scope (.assignMember i object m value) ++ expr scope object ++ expr scope value ++
        C.afterStmt scope (.assignMember i object m value)
  | .ret i value =>
      C.onStmt scope (.ret i value) ++ expr scope value ++ C.afterStmt scope (.ret i value)
  | .branch i condition thenBlock elseBlock =>
      C.onStmt scope (.branch i condition thenBlock elseBlock) ++ expr scope condition ++
        C.onBlock scope [] thenBlock ++ stmts (C.ofBlock scope thenBlock) thenBlock ++
        C.onBlock scope [] elseBlock ++ stmts (C.ofBlock scope elseBlock) elseBlock ++
        C.afterStmt scope (.branch i condition thenBlock elseBlock)
  | .expr e => C.onStmt scope (.expr e) ++ expr scope e ++ C.afterStmt scope (.expr e)

/-- The contributions of a list of statements, in a scope that is already that of the list. -/
def stmts (scope : σ) : List (Stmt ι) → List α
  | [] => []
  | s :: ss => stmt scope s ++ stmts scope ss

/-- The contributions of a method. -/
def method (scope : σ) : Method ι → List α
  | .mk i n params body =>
      C.onMethod scope (.mk i n params body) ++ C.onBlock scope [] body ++
        stmts (C.ofBlock scope body) body

/-- The contributions of a list of methods. -/
def methods (scope : σ) : List (Method ι) → List α
  | [] => []
  | m :: ms => method scope m ++ methods scope ms

end

/-- The contributions of a block that opens a scope of its own. -/
def block (scope : σ) (b : Block ι) : List α :=
  C.onBlock scope [] b ++ C.stmts (C.ofBlock scope b) b

/-- A list of statements contributes what its parts contribute. -/
theorem stmts_append (scope : σ) (first second : List (Stmt ι)) :
    C.stmts scope (first ++ second) = C.stmts scope first ++ C.stmts scope second := by
  induction first with
  | nil => rw [List.nil_append, stmts, List.nil_append]
  | cons s ss ih => rw [List.cons_append, stmts, ih, stmts, List.append_assoc]

end Collector

end Lowering

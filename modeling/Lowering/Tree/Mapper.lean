import Lowering.Tree.Scoping

/-!
# Scoped mapping

A `Mapper` is a set of local rules. Its traversal rebuilds a tree from the bottom up: the children
of a node are mapped first and the rule for the node is applied to what they give. On the way
down it carries a scope, which functions and blocks extend.

The member access that is the callee of a call selects a method, so the rule for expressions does
not apply to it; its object is mapped like any other expression.
-/

namespace Lowering

variable {σ ι : Type}

/-- Local rules, each given the scope of the node it applies to. -/
structure Mapper (σ ι : Type) extends Scoping σ ι where
  /-- Statements put before those of a block, given the parameters that the block belongs to. -/
  heads : List (Param ι) → Block ι → Block ι := fun _ _ => []
  /-- Applied to each statement after its children have been mapped. -/
  onStmt : σ → Stmt ι → Stmt ι := fun _ statement => statement
  /-- Applied to each expression as it was, and as it is after its children have been mapped. -/
  onExpr : σ → Expr ι → Expr ι → Expr ι := fun _ _ rebuilt => rebuilt

namespace Mapper

variable (M : Mapper σ ι)

mutual

/-- Map the children of an expression. -/
def rebuild (scope : σ) : Expr ι → Expr ι
  | .unit i => .unit i
  | .name i n => .name i n
  | .text i t => .text i t
  | .number i d => .number i d
  | .variable i n => .variable i n
  | .member i object m => .member i (M.onExpr scope object (rebuild scope object)) m
  | .call i callee inputs =>
      .call i
        (if callee.isMember then rebuild scope callee
          else M.onExpr scope callee (rebuild scope callee))
        (exprs scope inputs)
  | .functionLit i n params body =>
      let inner := M.ofBlock (M.ofFunction scope params body) body
      .functionLit i n params (M.heads params body ++ stmts inner body)
  | .classLit i n ms => .classLit i n (methods scope ms)

/-- Map each expression of a list. -/
def exprs (scope : σ) : List (Expr ι) → List (Expr ι)
  | [] => []
  | e :: es => M.onExpr scope e (rebuild scope e) :: exprs scope es

/-- Map a statement. -/
def stmt (scope : σ) : Stmt ι → Stmt ι
  | .importPackage i n path => M.onStmt scope (.importPackage i n path)
  | .declare i n value =>
      M.onStmt scope (.declare i n (M.onExpr scope value (rebuild scope value)))
  | .assign i n value =>
      M.onStmt scope (.assign i n (M.onExpr scope value (rebuild scope value)))
  | .assignMember i object m value =>
      M.onStmt scope (.assignMember i (M.onExpr scope object (rebuild scope object)) m
        (M.onExpr scope value (rebuild scope value)))
  | .ret i value => M.onStmt scope (.ret i (M.onExpr scope value (rebuild scope value)))
  | .branch i condition thenBlock elseBlock =>
      M.onStmt scope (.branch i (M.onExpr scope condition (rebuild scope condition))
        (M.heads [] thenBlock ++ stmts (M.ofBlock scope thenBlock) thenBlock)
        (M.heads [] elseBlock ++ stmts (M.ofBlock scope elseBlock) elseBlock))
  | .expr e => M.onStmt scope (.expr (M.onExpr scope e (rebuild scope e)))

/-- Map each statement of a list, in a scope that is already that of the list. -/
def stmts (scope : σ) : List (Stmt ι) → List (Stmt ι)
  | [] => []
  | s :: ss => stmt scope s :: stmts scope ss

/-- Map the body of a method. -/
def method (scope : σ) : Method ι → Method ι
  | .mk i n params body =>
      .mk i n params (M.heads [] body ++ stmts (M.ofBlock scope body) body)

/-- Map each method of a list. -/
def methods (scope : σ) : List (Method ι) → List (Method ι)
  | [] => []
  | m :: ms => method scope m :: methods scope ms

end

/-- Map an expression. -/
def expr (scope : σ) (e : Expr ι) : Expr ι :=
  M.onExpr scope e (M.rebuild scope e)

/-- Map a block that opens a scope of its own. -/
def block (scope : σ) (b : Block ι) : Block ι :=
  M.heads [] b ++ M.stmts (M.ofBlock scope b) b

/-- Mapping a list of statements maps each of them. -/
theorem stmts_eq_map (scope : σ) (b : Block ι) : M.stmts scope b = b.map (M.stmt scope) := by
  induction b with
  | nil => rw [stmts, List.map_nil]
  | cons s ss ih => rw [stmts, ih, List.map_cons]

/-- Mapping a list of expressions maps each of them. -/
theorem exprs_eq_map (scope : σ) (es : List (Expr ι)) :
    M.exprs scope es = es.map (M.expr scope) := by
  induction es with
  | nil => rw [exprs, List.map_nil]
  | cons e es ih => rw [exprs, ih, List.map_cons, expr]

end Mapper

end Lowering

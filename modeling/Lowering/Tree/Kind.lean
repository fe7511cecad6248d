import Lowering.Tree.Basic

/-!
# Kinds of nodes

The kind of a statement or an expression is what remains when infos, names and children are left
out. Each kind has a label, by which trees are exchanged and traversals are reported.
-/

namespace Lowering

/-- The kinds of statements. -/
inductive StmtKind where
  | importPackage | declare | assign | ret | branch | expr
deriving DecidableEq, Repr

/-- The kinds of expressions. -/
inductive ExprKind where
  | unit | name | text | number | variable | member | call | functionLit | classLit
deriving DecidableEq, Repr

/-- The label of a kind of statement. -/
def StmtKind.label : StmtKind → String
  | .importPackage => "import"
  | .declare => "variable"
  | .assign => "assign"
  | .ret => "return"
  | .branch => "if"
  | .expr => "expression"

/-- The label of a kind of expression. -/
def ExprKind.label : ExprKind → String
  | .unit => "unit"
  | .name => "name"
  | .text => "text"
  | .number => "number"
  | .variable => "variable"
  | .member => "member"
  | .call => "call"
  | .functionLit => "function"
  | .classLit => "class"

variable {ι : Type}

/-- The kind of a statement. Both forms of assignment are of one kind. -/
def Stmt.kind : Stmt ι → StmtKind
  | .importPackage _ _ _ => .importPackage
  | .declare _ _ _ => .declare
  | .assign _ _ _ | .assignMember _ _ _ _ => .assign
  | .ret _ _ => .ret
  | .branch _ _ _ _ => .branch
  | .expr _ => .expr

/-- The kind of an expression. -/
def Expr.kind : Expr ι → ExprKind
  | .unit _ => .unit
  | .name _ _ => .name
  | .text _ _ => .text
  | .number _ _ => .number
  | .variable _ _ => .variable
  | .member _ _ _ => .member
  | .call _ _ _ => .call
  | .functionLit _ _ _ _ => .functionLit
  | .classLit _ _ _ => .classLit

end Lowering

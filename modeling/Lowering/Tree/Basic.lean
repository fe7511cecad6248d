/-!
# Syntax trees

Programs of a small imperative language with functions and classes. Every node carries an info of
an arbitrary type, such as a position in a source file; nothing in this library looks inside it.
A statement made of an expression has no info of its own: it shares the info of the expression.
-/

namespace Lowering

/-- A parameter of a function or a method. -/
structure Param (ι : Type) where
  info : ι
  name : String
deriving DecidableEq

mutual

/-- An expression. The text of a number is kept as it was written. -/
inductive Expr (ι : Type) where
  /-- The value that carries no information. -/
  | unit (info : ι)
  /-- A name as a value. -/
  | name (info : ι) (name : String)
  /-- A text literal. -/
  | text (info : ι) (text : String)
  /-- A number literal. -/
  | number (info : ι) (digits : String)
  /-- A read of a variable. -/
  | variable (info : ι) (name : String)
  /-- A member of an object. As the callee of a call, it selects a method. -/
  | member (info : ι) (object : Expr ι) (member : String)
  /-- A call with its inputs. -/
  | call (info : ι) (callee : Expr ι) (inputs : List (Expr ι))
  /-- A function literal. -/
  | functionLit (info : ι) (name : Option String) (params : List (Param ι)) (body : List (Stmt ι))
  /-- A class literal. -/
  | classLit (info : ι) (name : Option String) (methods : List (Method ι))

/-- A statement. -/
inductive Stmt (ι : Type) where
  /-- An import of a package, possibly under a name of its own. -/
  | importPackage (info : ι) (name : Option String) (path : String)
  /-- A declaration of a variable. -/
  | declare (info : ι) (name : String) (value : Expr ι)
  /-- An assignment to a variable. -/
  | assign (info : ι) (name : String) (value : Expr ι)
  /-- An assignment to a property of an object. -/
  | assignMember (info : ι) (object : Expr ι) (member : String) (value : Expr ι)
  /-- A return from the enclosing function. -/
  | ret (info : ι) (value : Expr ι)
  /-- A conditional with its two branches. -/
  | branch (info : ι) (condition : Expr ι) (thenBlock elseBlock : List (Stmt ι))
  /-- An expression run for its effect. -/
  | expr (expression : Expr ι)

/-- A method of a class. -/
inductive Method (ι : Type) where
  | mk (info : ι) (name : String) (params : List (Param ι)) (body : List (Stmt ι))

end

/-- A list of statements that is a scope of its own. -/
abbrev Block (ι : Type) := List (Stmt ι)

/-- A program is its top-level block. -/
structure Program (ι : Type) where
  statements : Block ι

variable {ι : Type}

/-- The info of an expression. -/
def Expr.info : Expr ι → ι
  | .unit i | .name i _ | .text i _ | .number i _ | .variable i _ | .member i _ _ | .call i _ _
  | .functionLit i _ _ _ | .classLit i _ _ => i

/-- The info of a statement. -/
def Stmt.info : Stmt ι → ι
  | .importPackage i _ _ | .declare i _ _ | .assign i _ _ | .assignMember i _ _ _ | .ret i _
  | .branch i _ _ _ => i
  | .expr e => e.info

/-- The info of a method. -/
def Method.info : Method ι → ι
  | .mk i _ _ _ => i

/-- The expression accesses a member. -/
def Expr.isMember : Expr ι → Bool
  | .member _ _ _ => true
  | _ => false

/-- The name that a statement declares in the block it stands in. -/
def Stmt.declared? : Stmt ι → Option String
  | .declare _ n _ => some n
  | _ => none

/-- The names declared directly in a block, in order and with repeats. -/
def Block.declared (block : Block ι) : List String :=
  block.filterMap Stmt.declared?

/-- The names of a parameter list, in order and with repeats. -/
def Param.names (params : List (Param ι)) : List String :=
  params.map Param.name

end Lowering

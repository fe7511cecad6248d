import Lowering.Tree.Basic
import Lowering.Text.Quoted

/-!
# Rendering

The textual form of a tree, for people to read: one statement a line, with the lines of a nested
block indented by four spaces more than the line that opens it. Infos are not shown.
-/

namespace Lowering

variable {ι : Type}

/-- The blanks at the start of a line inside so many blocks. -/
def indentation (depth : Nat) : String :=
  String.ofList (List.replicate (4 * depth) ' ')

/-- A parameter list. -/
def Param.render (params : List (Param ι)) : String :=
  "(" ++ ", ".intercalate (Param.names params) ++ ")"

/-- Put lines that stand one level deeper between braces. -/
def bracedLines (depth : Nat) (lines : List String) : String :=
  if lines.isEmpty then "\x7b\x7d"
  else
    "\x7b\n" ++ String.join (lines.map fun line => indentation (depth + 1) ++ line ++ "\n") ++
      indentation depth ++ "\x7d"

mutual

/-- Render an expression on a line of the given depth. -/
def Expr.renderAt (depth : Nat) : Expr ι → String
  | .unit _ => "unit"
  | .name _ n => ":" ++ n
  | .text _ t => Text.quoted t
  | .number _ d => d
  | .variable _ n => n
  | .member _ object m => Expr.renderAt depth object ++ "." ++ m
  | .call _ callee inputs =>
      Expr.renderAt depth callee ++ "(" ++ ", ".intercalate (Expr.renderAll depth inputs) ++ ")"
  | .functionLit _ n params body =>
      "function " ++ n.getD "" ++ Param.render params ++ " " ++
        bracedLines depth (Stmt.renderAll (depth + 1) body)
  | .classLit _ n methods =>
      "class " ++ (n.map (· ++ " ")).getD "" ++
        bracedLines depth (Method.renderAll (depth + 1) methods)

/-- Render each expression of a list. -/
def Expr.renderAll (depth : Nat) : List (Expr ι) → List String
  | [] => []
  | e :: es => Expr.renderAt depth e :: Expr.renderAll depth es

/-- Render a statement that starts on a line of the given depth. -/
def Stmt.renderAt (depth : Nat) : Stmt ι → String
  | .importPackage _ n path => "import " ++ Text.quoted path ++ (n.map (" as " ++ ·)).getD ""
  | .declare _ n value => "var " ++ n ++ " = " ++ Expr.renderAt depth value
  | .assign _ n value => n ++ " = " ++ Expr.renderAt depth value
  | .assignMember _ object n value =>
      Expr.renderAt depth object ++ "." ++ n ++ " = " ++ Expr.renderAt depth value
  | .ret _ value => "return " ++ Expr.renderAt depth value
  | .branch _ condition thenBlock elseBlock =>
      "if " ++ Expr.renderAt depth condition ++ " " ++
        bracedLines depth (Stmt.renderAll (depth + 1) thenBlock) ++
        (if elseBlock.isEmpty then ""
          else " else " ++ bracedLines depth (Stmt.renderAll (depth + 1) elseBlock))
  | .expr e => Expr.renderAt depth e

/-- Render each statement of a list. -/
def Stmt.renderAll (depth : Nat) : List (Stmt ι) → List String
  | [] => []
  | s :: ss => Stmt.renderAt depth s :: Stmt.renderAll depth ss

/-- Render a method that starts on a line of the given depth. -/
def Method.renderAt (depth : Nat) : Method ι → String
  | .mk _ n params body =>
      n ++ Param.render params ++ " " ++ bracedLines depth (Stmt.renderAll (depth + 1) body)

/-- Render each method of a list. -/
def Method.renderAll (depth : Nat) : List (Method ι) → List String
  | [] => []
  | m :: ms => Method.renderAt depth m :: Method.renderAll depth ms

end

/-- The textual form of an expression. -/
def Expr.render (e : Expr ι) : String := e.renderAt 0

/-- The textual form of a statement. -/
def Stmt.render (s : Stmt ι) : String := s.renderAt 0

/-- The textual form of a method. -/
def Method.render (m : Method ι) : String := m.renderAt 0

/-- The textual form of a program: its statements, each ended by a line break. -/
def Program.render (p : Program ι) : String :=
  String.join ((Stmt.renderAll 0 p.statements).map (· ++ "\n"))

end Lowering

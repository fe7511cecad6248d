import Lowering.Hook
import Lowering.Tree.Mapper

/-!
# Statements that declare

Imports, and named function and class literals that stand as statements, declare a variable. This
stage writes them as declarations.
-/

namespace Lowering.Declaration

variable {ι : Type}

/-- The name under which a package is known: the last part of its path between slashes that is not
empty, or the whole path if there is none. -/
def importedName (path : String) : String :=
  match path.toList.reverse.dropWhile (· = '/') with
  | [] => path
  | last => String.ofList (last.takeWhile (· ≠ '/')).reverse

/-- The rule for statements that declare. -/
def declaration : Stmt ι → Stmt ι
  | .importPackage i n path =>
      .declare i (n.getD (importedName path)) (Hook.importPackage.call i [.text i path])
  | .expr (.functionLit i (some n) params body) => .declare i n (.functionLit i none params body)
  | .expr (.classLit i (some n) methods) => .declare i n (.classLit i none methods)
  | s => s

/-- Write all statements that declare as declarations. -/
def mapper : Mapper Unit ι where
  onStmt _ s := declaration s

/-- Run the stage. -/
def run (p : Program ι) : Program ι :=
  ⟨mapper.block () p.statements⟩

end Lowering.Declaration

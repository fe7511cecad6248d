import Lowering.Hook
import Lowering.Tree.Mapper

/-!
# Constructors of classes

A class literal becomes a call of a constructor function, which creates the class, assigns its
methods to it and returns it. A method becomes a function that takes its receiver first.
-/

namespace Lowering.Constructor

variable {ι : Type}

/-- The variable that holds the class inside its constructor. It is no name of the language. -/
def constructedName : String := "@"

/-- The parameter that holds the receiver of a method. -/
def receiverName : String := "this"

/-- The function that a method stands for. -/
def methodFunction : Method ι → Expr ι
  | .mk i _ params body => .functionLit i none (⟨i, receiverName⟩ :: params) body

/-- Assign a method to the class variable, which is read with the info of the class. -/
def assignMethod (classInfo : ι) : Method ι → Stmt ι
  | .mk i n params body =>
      .assignMember i (.variable classInfo constructedName) n
        (Hook.createMethod.call i [methodFunction (.mk i n params body)])

/-- The body of the constructor of a class. -/
def constructorBody (i : ι) (methods : List (Method ι)) : Block ι :=
  .declare i constructedName (Hook.createClass.call i []) ::
    (methods.map (assignMethod i) ++ [.ret i (.variable i constructedName)])

/-- The rule for class literals. The name of the class is not kept. -/
def construction : Expr ι → Expr ι
  | .classLit i _ methods => .call i (.functionLit i none [] (constructorBody i methods)) []
  | e => e

/-- Replace all class literals by calls of their constructors. -/
def mapper : Mapper Unit ι where
  onExpr _ _ e := construction e

/-- Run the stage. -/
def run (p : Program ι) : Program ι :=
  ⟨mapper.block () p.statements⟩

end Lowering.Constructor

import Lowering.Json.InfoFormat
import Lowering.Json.Writer
import Lowering.Tree.Basic

/-!
# Trees as data

How trees are written as data. The item of a node is its datum without the info.
-/

namespace Lowering

open Json

variable {ι : Type} [InfoFormat ι]

namespace Json

/-- The datum of a node. -/
def nodeDatum (item : Item) (info : ι) (datum : Datum) : Datum :=
  .record (.node item) [InfoFormat.toDatum info, datum]

/-- The datum of a text that may be missing. -/
def optionalText : Option String → Datum
  | none => .null
  | some t => .text t

end Json

/-- The data of a parameter list. -/
def Param.toData (params : List (Param ι)) : List Datum :=
  params.map fun p => nodeDatum .name p.info (.text p.name)

mutual

/-- The item of an expression. -/
def Expr.item : Expr ι → Datum
  | .unit _ => .bare (.expr .unit)
  | .name _ n => .variant (.expr .name) (.text n)
  | .text _ t => .variant (.expr .text) (.text t)
  | .number _ d => .variant (.expr .number) (.text d)
  | .variable _ n => .variant (.expr .variable) (.text n)
  | .member _ object m =>
      .variant (.expr .member)
        (.record .member [nodeDatum (.choice .expr) object.info (Expr.item object), .text m])
  | .call _ callee inputs =>
      .variant (.expr .call)
        (.record .call [nodeDatum (.choice .expr) callee.info (Expr.item callee),
          .list (Expr.toData inputs)])
  | .functionLit _ n params body =>
      .variant (.expr .functionLit)
        (.record .functionLit [optionalText n, .list (Param.toData params),
          .list (Stmt.toData body)])
  | .classLit _ n methods =>
      .variant (.expr .classLit)
        (.record .classLit [optionalText n, .list (Method.toData methods)])

/-- The data of a list of expressions. -/
def Expr.toData : List (Expr ι) → List Datum
  | [] => []
  | e :: es => nodeDatum (.choice .expr) e.info (Expr.item e) :: Expr.toData es

/-- The item of a statement. -/
def Stmt.item : Stmt ι → Datum
  | .importPackage _ n path =>
      .variant (.stmt .importPackage) (.record .importPackage [optionalText n, .text path])
  | .declare _ n value =>
      .variant (.stmt .declare)
        (.record .declare [.text n, nodeDatum (.choice .expr) value.info (Expr.item value)])
  | .assign _ n value =>
      .variant (.stmt .assign)
        (.record .assign [.null, .text n,
          nodeDatum (.choice .expr) value.info (Expr.item value)])
  | .assignMember _ object n value =>
      .variant (.stmt .assign)
        (.record .assign [nodeDatum (.choice .expr) object.info (Expr.item object), .text n,
          nodeDatum (.choice .expr) value.info (Expr.item value)])
  | .ret _ value =>
      .variant (.stmt .ret) (nodeDatum (.choice .expr) value.info (Expr.item value))
  | .branch _ condition thenBlock elseBlock =>
      .variant (.stmt .branch)
        (.record .branch [nodeDatum (.choice .expr) condition.info (Expr.item condition),
          .list (Stmt.toData thenBlock), .list (Stmt.toData elseBlock)])
  | .expr e => .variant (.stmt .expr) (Expr.item e)

/-- The data of a list of statements. -/
def Stmt.toData : List (Stmt ι) → List Datum
  | [] => []
  | s :: ss => nodeDatum (.choice .stmt) s.info (Stmt.item s) :: Stmt.toData ss

/-- The item of a method. -/
def Method.item : Method ι → Datum
  | .mk _ n params body =>
      .variant .method
        (.record .method [.text n, .list (Param.toData params), .list (Stmt.toData body)])

/-- The data of a list of methods. -/
def Method.toData : List (Method ι) → List Datum
  | [] => []
  | m :: ms => nodeDatum (.choice .method) m.info (Method.item m) :: Method.toData ms

end

/-- The datum of an expression. -/
def Expr.toDatum (e : Expr ι) : Datum :=
  nodeDatum (.choice .expr) e.info e.item

/-- The datum of a program. -/
def Program.toDatum (p : Program ι) : Datum :=
  .record .program [.list (Stmt.toData p.statements)]

/-- Write a program. -/
def Program.encode (layout : Layout) (p : Program ι) : String :=
  p.toDatum.toText layout

end Lowering

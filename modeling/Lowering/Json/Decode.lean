import Lowering.Json.InfoFormat
import Lowering.Json.Reader
import Lowering.Tree.Basic

/-!
# Data as trees

How trees are read back from data. Since the info of a node may come after its item, an item stands
for a node that waits for its info.
-/

namespace Lowering

open Json

variable {ι : Type} [InfoFormat ι]

namespace Json

/-- The text that a datum stands for, if it is one or null. -/
def optionalText? : Datum → Option (Option String)
  | .null => some none
  | .text t => some (some t)
  | _ => none

end Json

/-- The parameters that data stand for. -/
def Param.ofData? : List Datum → Option (List (Param ι))
  | [] => some []
  | .record (.node .name) [info, .text n] :: ds => do
      let i ← InfoFormat.ofDatum? info
      let ps ← Param.ofData? ds
      some (⟨i, n⟩ :: ps)
  | _ => none

mutual

/-- The expression that an item stands for, given its info. -/
def Expr.ofItem? : Datum → Option (ι → Expr ι)
  | .bare (.expr .unit) => some fun i => .unit i
  | .variant (.expr .name) (.text n) => some fun i => .name i n
  | .variant (.expr .text) (.text t) => some fun i => .text i t
  | .variant (.expr .number) (.text d) => some fun i => .number i d
  | .variant (.expr .variable) (.text n) => some fun i => .variable i n
  | .variant (.expr .member) (.record .member [object, .text m]) => do
      let object' ← Expr.ofDatum? object
      some fun i => .member i object' m
  | .variant (.expr .call) (.record .call [callee, .list inputs]) => do
      let callee' ← Expr.ofDatum? callee
      let inputs' ← Expr.ofData? inputs
      some fun i => .call i callee' inputs'
  | .variant (.expr .functionLit) (.record .functionLit [n, .list params, .list body]) => do
      let n' ← optionalText? n
      let params' ← Param.ofData? params
      let body' ← Stmt.ofData? body
      some fun i => .functionLit i n' params' body'
  | .variant (.expr .classLit) (.record .classLit [n, .list methods]) => do
      let n' ← optionalText? n
      let methods' ← Method.ofData? methods
      some fun i => .classLit i n' methods'
  | _ => none

/-- The expression that a datum stands for. -/
def Expr.ofDatum? : Datum → Option (Expr ι)
  | .record (.node (.choice .expr)) [info, item] => do
      let i ← InfoFormat.ofDatum? info
      let e ← Expr.ofItem? item
      some (e i)
  | _ => none

/-- The expressions that data stand for. -/
def Expr.ofData? : List Datum → Option (List (Expr ι))
  | [] => some []
  | d :: ds => do
      let e ← Expr.ofDatum? d
      let es ← Expr.ofData? ds
      some (e :: es)

/-- The statement that an item stands for, given its info. -/
def Stmt.ofItem? : Datum → Option (ι → Stmt ι)
  | .variant (.stmt .importPackage) (.record .importPackage [n, .text path]) => do
      let n' ← optionalText? n
      some fun i => .importPackage i n' path
  | .variant (.stmt .declare) (.record .declare [.text n, value]) => do
      let value' ← Expr.ofDatum? value
      some fun i => .declare i n value'
  | .variant (.stmt .assign) (.record .assign [.null, .text n, value]) => do
      let value' ← Expr.ofDatum? value
      some fun i => .assign i n value'
  | .variant (.stmt .assign) (.record .assign [object, .text n, value]) => do
      let object' ← Expr.ofDatum? object
      let value' ← Expr.ofDatum? value
      some fun i => .assignMember i object' n value'
  | .variant (.stmt .ret) value => do
      let value' ← Expr.ofDatum? value
      some fun i => .ret i value'
  | .variant (.stmt .branch) (.record .branch [condition, .list thenBlock, .list elseBlock]) => do
      let condition' ← Expr.ofDatum? condition
      let thenBlock' ← Stmt.ofData? thenBlock
      let elseBlock' ← Stmt.ofData? elseBlock
      some fun i => .branch i condition' thenBlock' elseBlock'
  | .variant (.stmt .expr) item => do
      let e ← Expr.ofItem? item
      some fun i => .expr (e i)
  | _ => none

/-- The statement that a datum stands for. -/
def Stmt.ofDatum? : Datum → Option (Stmt ι)
  | .record (.node (.choice .stmt)) [info, item] => do
      let i ← InfoFormat.ofDatum? info
      let s ← Stmt.ofItem? item
      some (s i)
  | _ => none

/-- The statements that data stand for. -/
def Stmt.ofData? : List Datum → Option (List (Stmt ι))
  | [] => some []
  | d :: ds => do
      let s ← Stmt.ofDatum? d
      let ss ← Stmt.ofData? ds
      some (s :: ss)

/-- The method that an item stands for, given its info. -/
def Method.ofItem? : Datum → Option (ι → Method ι)
  | .variant .method (.record .method [.text n, .list params, .list body]) => do
      let params' ← Param.ofData? params
      let body' ← Stmt.ofData? body
      some fun i => .mk i n params' body'
  | _ => none

/-- The method that a datum stands for. -/
def Method.ofDatum? : Datum → Option (Method ι)
  | .record (.node (.choice .method)) [info, item] => do
      let i ← InfoFormat.ofDatum? info
      let m ← Method.ofItem? item
      some (m i)
  | _ => none

/-- The methods that data stand for. -/
def Method.ofData? : List Datum → Option (List (Method ι))
  | [] => some []
  | d :: ds => do
      let m ← Method.ofDatum? d
      let ms ← Method.ofData? ds
      some (m :: ms)

end

/-- The program that a datum stands for. -/
def Program.ofDatum? : Datum → Option (Program ι)
  | .record .program [.list statements] => do
      let ss ← Stmt.ofData? statements
      some ⟨ss⟩
  | _ => none

/-- Read a text of a given shape and take what its datum stands for. -/
def Json.decodeAs (ι : Type) [InfoFormat ι] {α : Type} (shape : Shape)
    (ofDatum? : Datum → Option α) (text : String) : Except Fault α := do
  let d ← readText (InfoFormat.kind ι) shape text.toList
  match ofDatum? d with
  | some a => .ok a
  | none => .error .invalidType

/-- Read a program. -/
def Program.decode (text : String) : Except Fault (Program ι) :=
  decodeAs ι (.record .program) Program.ofDatum? text

end Lowering

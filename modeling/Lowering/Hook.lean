import Lowering.Tree.Basic

/-!
# Runtime hooks

What lowered code asks of the runtime. A hook is called as a method of the unit value, and a box,
the mutable cell behind a variable, is used by the three methods of `BoxOp`. All nodes of such a
call carry one info.
-/

namespace Lowering

/-- An operation of the runtime. -/
inductive Hook where
  /-- A box that holds a value. -/
  | createBox
  /-- A box for a variable that has no value yet, given its name. -/
  | createUndefinedBox
  /-- A function together with the values of its captures, which come before its inputs. -/
  | createClosure
  /-- A class without methods. -/
  | createClass
  /-- A method, given a function whose first parameter is the receiver. -/
  | createMethod
  /-- The package at a path. -/
  | importPackage
  /-- The value of a global variable. -/
  | globalGet
  /-- Assign to a global variable. -/
  | globalSet
  /-- Declare a global variable. -/
  | globalDefine
  /-- The value of a property of an object. -/
  | propertyGet
  /-- Assign to a property of an object. -/
  | propertySet
  /-- Call a function value. -/
  | callFunction
deriving DecidableEq, Repr

namespace Hook

/-- All hooks. -/
def all : List Hook :=
  [.createBox, .createUndefinedBox, .createClosure, .createClass, .createMethod, .importPackage,
    .globalGet, .globalSet, .globalDefine, .propertyGet, .propertySet, .callFunction]

/-- The method of the unit value that stands for the hook. -/
def name : Hook → String
  | .createBox => "create_box"
  | .createUndefinedBox => "create_undefined_box"
  | .createClosure => "create_closure"
  | .createClass => "create_class"
  | .createMethod => "create_method"
  | .importPackage => "import_package"
  | .globalGet => "global_get"
  | .globalSet => "global_set"
  | .globalDefine => "global_define"
  | .propertyGet => "property_get"
  | .propertySet => "property_set"
  | .callFunction => "call_function"

/-- The hook of a given name. -/
def ofName? (n : String) : Option Hook :=
  all.find? fun hook => hook.name = n

end Hook

/-- A method of a box. -/
inductive BoxOp where
  /-- Read the value. -/
  | get
  /-- Replace the value. -/
  | set
  /-- Give the box the value of a declaration. -/
  | define
deriving DecidableEq, Repr

/-- The name of a box method. -/
def BoxOp.name : BoxOp → String
  | .get => "get"
  | .set => "set"
  | .define => "define"

variable {ι : Type}

/-- A call of a method of an object, with the info of the object. -/
def Expr.callMethod (object : Expr ι) (method : String) (inputs : List (Expr ι)) : Expr ι :=
  .call object.info (.member object.info object method) inputs

/-- A call of a hook. -/
def Hook.call (hook : Hook) (info : ι) (inputs : List (Expr ι)) : Expr ι :=
  (Expr.unit info).callMethod hook.name inputs

/-- A call of a method of the box in the variable `n`. -/
def BoxOp.call (method : BoxOp) (info : ι) (n : String) (inputs : List (Expr ι)) :
    Expr ι :=
  (Expr.variable info n).callMethod method.name inputs

end Lowering

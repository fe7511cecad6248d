import Lowering.Hook

/-!
# Evaluation

What programs compute. Every variable lives in a cell of a heap, made when the call or block that
binds it is entered. Evaluation is the same before and after boxes and closures have been
introduced, but for what a function literal sees of the variables around it: a `Semantics` says so.
In `Semantics.shared` a function sees the cells themselves, in `Semantics.isolated` nothing.

Calls take fuel, so that running out of it, an error and a value are different outcomes. A client
of a program can call the functions that it gets, with data or values it got before; what it sees
of the results is listed by `Semantics.observe`.
-/

namespace Lowering

variable {ι α β : Type}

/-- The cells of the variables that are bound around a node, innermost first. -/
abbrev Env := List (String × Nat)

/-- A value. -/
inductive Value (ι : Type) where
  | unit
  | name (name : String)
  | text (text : String)
  | number (digits : String)
  /-- A function: the variables that it sees from outside, and values passed before its inputs. -/
  | function (env : Env) (params : List String) (body : List (Stmt ι)) (bundled : List (Value ι))
  | box (address : Nat)

/-- What can be seen of a value without calling it. -/
inductive Observation where
  | unit
  | name (name : String)
  | text (text : String)
  | number (digits : String)
  | function
  | box
deriving DecidableEq, Repr

/-- What can be seen of a value. -/
def Value.observed : Value ι → Observation
  | .unit => .unit
  | .name n => .name n
  | .text t => .text t
  | .number d => .number d
  | .function _ _ _ _ => .function
  | .box _ => .box

/-- How a computation ends. -/
inductive Outcome (α : Type) where
  | done (result : α)
  | error
  | timeout
deriving DecidableEq, Repr

/-- Go on after a computation that is done. -/
def Outcome.bind (x : Outcome α) (f : α → Outcome β) : Outcome β :=
  match x with
  | .done a => f a
  | .error => .error
  | .timeout => .timeout

/-- The cells of variables and boxes. A cell may be undefined. -/
structure Heap (ι : Type) where
  size : Nat
  content : Nat → Option (Value ι)

namespace Heap

/-- No cells. -/
def empty : Heap ι := ⟨0, fun _ => none⟩

/-- Add a cell, whose address is the size of the heap. -/
def push (h : Heap ι) (v : Option (Value ι)) : Heap ι :=
  ⟨h.size + 1, fun a => if a = h.size then v else h.content a⟩

/-- Replace the content of a cell. -/
def write (h : Heap ι) (a : Nat) (v : Value ι) : Heap ι :=
  ⟨h.size, fun b => if b = a then some v else h.content b⟩

/-- The value in a cell, which must be defined. -/
def read (h : Heap ι) (a : Nat) : Outcome (Value ι × Heap ι) :=
  match h.content a with
  | some v => .done (v, h)
  | none => .error

/-- A new cell is one cell more. -/
@[simp] theorem size_push (h : Heap ι) (v : Option (Value ι)) : (h.push v).size = h.size + 1 := rfl

/-- Writing to a cell adds none. -/
@[simp] theorem size_write (h : Heap ι) (a : Nat) (v : Value ι) : (h.write a v).size = h.size := rfl

/-- A new cell has the content that it was made with. -/
@[simp] theorem content_push_self (h : Heap ι) (v : Option (Value ι)) :
    (h.push v).content h.size = v :=
  if_pos rfl

/-- A new cell leaves the others as they are. -/
theorem content_push_of_lt {h : Heap ι} {a : Nat} (ha : a < h.size) (v : Option (Value ι)) :
    (h.push v).content a = h.content a :=
  if_neg (Nat.ne_of_lt ha)

/-- A cell that was written to holds the value. -/
@[simp] theorem content_write_self (h : Heap ι) (a : Nat) (v : Value ι) :
    (h.write a v).content a = some v :=
  if_pos rfl

/-- Writing to a cell leaves the others as they are. -/
theorem content_write_of_ne {a b : Nat} (hb : b ≠ a) (h : Heap ι) (v : Value ι) :
    (h.write a v).content b = h.content b :=
  if_neg hb

end Heap

/-- Make cells for variables, each with its content. -/
def allocate : List (String × Option (Value ι)) → Env × Heap ι → Env × Heap ι
  | [], s => s
  | (n, v) :: cells, (env, h) => allocate cells ((n, h.size) :: env, h.push v)

/-- Make undefined cells for names. -/
def enter (names : List String) (s : Env × Heap ι) : Env × Heap ι :=
  allocate (names.map (·, none)) s

/-- Make cells for parameters that hold their inputs. -/
def bindInputs (params : List String) (inputs : List (Value ι)) (s : Env × Heap ι) :
    Env × Heap ι :=
  allocate (params.zip (inputs.map some)) s

/-- Store a value in the cell of a variable. A statement that does so returns nothing. -/
def store (env : Env) (n : String) (v : Value ι × Heap ι) : Outcome (Option (Value ι) × Heap ι) :=
  match env.lookup n with
  | some a => .done (none, v.2.write a v.1)
  | none => .error

/-- Storing in a variable of the environment writes to its cell. -/
theorem store_of_lookup {env : Env} {n : String} {a : Nat} (ha : env.lookup n = some a)
    (v : Value ι × Heap ι) : store env n v = .done (none, v.2.write a v.1) := by
  rw [store, ha]

/-- The box method of a given name. -/
def BoxOp.ofName? (n : String) : Option BoxOp :=
  [BoxOp.get, .set, .define].find? fun op => op.name = n

/-- Call a method of a value: a hook of the unit value or a method of a box. -/
def Value.invoke (object : Value ι) (method : String) (inputs : List (Value ι)) (h : Heap ι) :
    Outcome (Value ι × Heap ι) :=
  match object with
  | .unit =>
      match Hook.ofName? method, inputs with
      | some .createBox, [v] => .done (.box h.size, h.push (some v))
      | some .createUndefinedBox, [.name _] => .done (.box h.size, h.push none)
      | some .createClosure, .function env params body bundled :: captured =>
          .done (.function env params body (bundled ++ captured), h)
      | _, _ => .error
  | .box a =>
      match BoxOp.ofName? method, inputs with
      | some .get, [] => h.read a
      | some .set, [v] | some .define, [v] => .done (.unit, h.write a v)
      | _, _ => .error
  | _ => .error

namespace Value

variable (h : Heap ι) (v : Value ι)

/-- The hook for boxes makes a cell that holds the value. -/
@[simp] theorem invoke_createBox :
    invoke .unit Hook.createBox.name [v] h = .done (.box h.size, h.push (some v)) := rfl

/-- The hook for undefined boxes makes an undefined cell. -/
@[simp] theorem invoke_createUndefinedBox (n : String) :
    invoke .unit Hook.createUndefinedBox.name [.name n] h = .done (.box h.size, h.push none) := rfl

/-- The hook for closures adds the captured values to those bundled with the function. -/
@[simp] theorem invoke_createClosure (env : Env) (params : List String) (body : Block ι)
    (bundled captured : List (Value ι)) :
    invoke .unit Hook.createClosure.name (.function env params body bundled :: captured) h =
      .done (.function env params body (bundled ++ captured), h) := rfl

/-- Getting the value of a box reads its cell. -/
@[simp] theorem invoke_get (a : Nat) : invoke (.box a) BoxOp.get.name [] h = h.read a := rfl

/-- Setting a box writes to its cell. -/
@[simp] theorem invoke_set (a : Nat) :
    invoke (.box a) BoxOp.set.name [v] h = .done (.unit, h.write a v) := rfl

/-- Defining a box writes to its cell, too. -/
@[simp] theorem invoke_define (a : Nat) :
    invoke (.box a) BoxOp.define.name [v] h = .done (.unit, h.write a v) := rfl

end Value

/-- What evaluation depends on. -/
structure Semantics where
  /-- What a function literal sees of the variables around it. -/
  closes : Env → Env
  /-- How a condition that looks in some way is decided, if it is no error. -/
  truth : Observation → Option Bool

/-- A function sees the variables around it. -/
def Semantics.shared (truth : Observation → Option Bool) : Semantics := ⟨id, truth⟩

/-- A function sees only what it binds itself. -/
def Semantics.isolated (truth : Observation → Option Bool) : Semantics := ⟨fun _ => [], truth⟩

/-- A semantics with a way to call functions. -/
structure Machine (ι : Type) extends Semantics where
  call : Value ι → List (Value ι) → Heap ι → Outcome (Value ι × Heap ι)

namespace Machine

variable (M : Machine ι)

mutual

/-- Evaluate an expression. -/
def expr (env : Env) : Expr ι → Heap ι → Outcome (Value ι × Heap ι)
  | .unit _, h => .done (.unit, h)
  | .name _ n, h => .done (.name n, h)
  | .text _ t, h => .done (.text t, h)
  | .number _ d, h => .done (.number d, h)
  | .variable _ n, h =>
      match env.lookup n with
      | some a => h.read a
      | none => .error
  | .call _ (.member _ object method) inputs, h =>
      (expr env object h).bind fun o =>
        (exprs env inputs o.2).bind fun vs => o.1.invoke method vs.1 vs.2
  | .call _ callee inputs, h =>
      (expr env callee h).bind fun f =>
        (exprs env inputs f.2).bind fun vs => M.call f.1 vs.1 vs.2
  | .functionLit _ _ params body, h =>
      .done (.function (M.closes env) (Param.names params) body [], h)
  | .member _ _ _, _ | .classLit _ _ _, _ => .error

/-- Evaluate expressions from left to right. -/
def exprs (env : Env) : List (Expr ι) → Heap ι → Outcome (List (Value ι) × Heap ι)
  | [], h => .done ([], h)
  | e :: es, h =>
      (expr env e h).bind fun v => (exprs env es v.2).bind fun vs => .done (v.1 :: vs.1, vs.2)

/-- Run a statement. The result is the value that it returns, if it returns. -/
def stmt (env : Env) : Stmt ι → Heap ι → Outcome (Option (Value ι) × Heap ι)
  | .declare _ n value, h | .assign _ n value, h => (expr env value h).bind (store env n)
  | .ret _ value, h => (expr env value h).bind fun v => .done (some v.1, v.2)
  | .branch _ condition thenBlock elseBlock, h =>
      (expr env condition h).bind fun v =>
        match M.truth v.1.observed with
        | some true =>
            stmts (enter (Block.declared thenBlock) (env, v.2)).1 thenBlock
              (enter (Block.declared thenBlock) (env, v.2)).2
        | some false =>
            stmts (enter (Block.declared elseBlock) (env, v.2)).1 elseBlock
              (enter (Block.declared elseBlock) (env, v.2)).2
        | none => .error
  | .expr e, h => (expr env e h).bind fun v => .done (none, v.2)
  | .importPackage _ _ _, _ | .assignMember _ _ _ _, _ => .error

/-- Run statements one after the other until one returns. -/
def stmts (env : Env) : List (Stmt ι) → Heap ι → Outcome (Option (Value ι) × Heap ι)
  | [], h => .done (none, h)
  | s :: ss, h =>
      (stmt env s h).bind fun r =>
        match r.1 with
        | some v => .done (some v, r.2)
        | none => stmts env ss r.2

end

variable (env : Env) (h : Heap ι)

/-- A call of a function value evaluates the callee first. -/
theorem expr_call (i : ι) {callee : Expr ι} (hcallee : callee.isMember = false)
    (inputs : List (Expr ι)) :
    M.expr env (.call i callee inputs) h =
      (M.expr env callee h).bind fun f =>
        (M.exprs env inputs f.2).bind fun vs => M.call f.1 vs.1 vs.2 := by
  rw [expr]
  rintro i object method rfl
  cases hcallee

/-- A call of a hook evaluates its inputs. -/
@[simp] theorem expr_hook_call (hook : Hook) (i : ι) (inputs : List (Expr ι)) :
    M.expr env (hook.call i inputs) h =
      (M.exprs env inputs h).bind fun vs => Value.unit.invoke hook.name vs.1 vs.2 := rfl

/-- A call of a box method reads the variable of the box first. -/
@[simp] theorem expr_box_call (op : BoxOp) (i : ι) (n : String) (inputs : List (Expr ι)) :
    M.expr env (op.call i n inputs) h =
      (M.expr env (.variable i n) h).bind fun o =>
        (M.exprs env inputs o.2).bind fun vs => o.1.invoke op.name vs.1 vs.2 := rfl

/-- A variable with a defined cell is read. -/
theorem expr_variable {i : ι} {n : String} {a : Nat} {v : Value ι} (ha : env.lookup n = some a)
    (hv : h.content a = some v) : M.expr env (.variable i n) h = .done (v, h) := by
  rw [expr, ha]
  simp [Heap.read, hv]

/-- Run the body of a function. A name that is a parameter and declared too has one cell. -/
def body (env : Env) (params : List String) (b : Block ι) (inputs : List (Value ι)) (h : Heap ι) :
    Outcome (Value ι × Heap ι) :=
  if inputs.length = params.length then
    let s := enter (b.declared.filter (· ∉ params)) (bindInputs params inputs (env, h))
    (M.stmts s.1 b s.2).bind fun r => .done (r.1.getD .unit, r.2)
  else .error

end Machine

namespace Semantics

variable (S : Semantics)

/-- Call a value, with fuel for as many nested calls. -/
def call : Nat → Value ι → List (Value ι) → Heap ι → Outcome (Value ι × Heap ι)
  | 0, _, _, _ => .timeout
  | fuel + 1, .function env params body bundled, inputs, h =>
      Machine.body ⟨S, call fuel⟩ env params body (bundled ++ inputs) h
  | _ + 1, _, _, _ => .error

/-- The machine that has some fuel. -/
def machine (fuel : Nat) : Machine ι := ⟨S, S.call fuel⟩

end Semantics

/-- An input that a client can give: data, or a value that it got before. -/
inductive Input where
  | text (text : String)
  | number (digits : String)
  | earlier (index : Nat)

/-- The value of an input, given the values that the client got so far. -/
def Input.value (obtained : List (Value ι)) : Input → Value ι
  | .text t => .text t
  | .number d => .number d
  | .earlier k => obtained.getD k .unit

/-- A call by the client of a value that it got before. -/
structure Request where
  callee : Nat
  inputs : List Input

/-- What a client sees of a computation: how it ends and, if it is done, what is seen next. -/
def Outcome.report (x : Outcome (Value ι × Heap ι))
    (next : Value ι → Heap ι → List (Outcome Observation)) : List (Outcome Observation) :=
  match x with
  | .done r => .done r.1.observed :: next r.1 r.2
  | .error => [.error]
  | .timeout => [.timeout]

namespace Semantics

variable (S : Semantics)

/-- What a client sees that makes calls one after the other, up to the first failure. -/
def session (fuel : Nat) : List Request → List (Value ι) → Heap ι → List (Outcome Observation)
  | [], _, _ => []
  | q :: qs, obtained, h =>
      (S.call fuel (obtained.getD q.callee .unit) (q.inputs.map (Input.value obtained)) h).report
        fun v => session fuel qs (obtained ++ [v])

/-- What a client sees that gets the value of an expression and makes calls. -/
def observe (fuel : Nat) (e : Expr ι) (requests : List Request) : List (Outcome Observation) :=
  ((S.machine fuel).expr [] e .empty).report fun v => S.session fuel requests [v]

end Semantics

end Lowering

import Lowering.Proofs.ClosedFunctions
import Lowering.Proofs.Form

/-!
# Conversion of closures

Boxing followed by closure conversion, as one translation of code that has variables, functions and
calls of functions (`Form.closures`). Its equations say for each kind of node what becomes of it.
-/

namespace Lowering

variable {ι : Type}

/-- Data, variables, function literals and calls of function values; and statements that declare or
assign variables, return, branch and evaluate expressions. -/
def Form.closures : Form ι where
  stmt
    | .importPackage _ _ _ | .assignMember _ _ _ _ => False
    | _ => True
  expr
    | .text _ _ | .number _ _ | .variable _ _ | .functionLit _ _ _ _ => True
    | .call _ callee _ => callee.isMember = false
    | _ => False

namespace Conversion

variable (scope : List (String × Bool)) (available : List String)

/-- Convert an expression. -/
def expr (e : Expr ι) : Expr ι := Closure.mapper.expr available (BoxedName.mapper.expr scope e)

/-- Convert a list of expressions. -/
def exprs (es : List (Expr ι)) : List (Expr ι) :=
  Closure.mapper.exprs available (BoxedName.mapper.exprs scope es)

/-- Convert a statement. -/
def stmt (s : Stmt ι) : Stmt ι := Closure.mapper.stmt available (BoxedName.mapper.stmt scope s)

/-- Convert a list of statements in its own scope. -/
def stmts (ss : List (Stmt ι)) : List (Stmt ι) :=
  Closure.mapper.stmts available (BoxedName.mapper.stmts scope ss)

/-- The names that code of a body can capture, given those from around its declarations. -/
def inside (params : List (Param ι)) (b : Block ι) : List String :=
  Block.declared (BoxedName.mapper.body scope params b) ++ available

/-- Convert a body with its parameters. -/
def body (params : List (Param ι)) (b : Block ι) : Block ι :=
  Closure.mapper.stmts (inside scope available params b) (BoxedName.mapper.body scope params b)

variable {scope available}

/-- A boxed variable is read through its box. -/
theorem expr_variable (i : ι) (n : String) :
    expr scope available (.variable i n) =
      if BoxedName.isBoxed scope n then BoxOp.get.call i n [] else .variable i n := by
  rw [expr, BoxedName.mapper_expr, Mapper.rebuild, BoxedName.read]
  split <;> rfl

/-- A call is converted in its callee and its inputs. -/
theorem expr_call (i : ι) (callee : Expr ι) (inputs : List (Expr ι)) :
    expr scope available (.call i callee inputs) =
      .call i (expr scope available callee) (exprs scope available inputs) := by
  have hboxed : BoxedName.mapper.expr scope (.call i callee inputs) =
      .call i (BoxedName.mapper.expr scope callee) (BoxedName.mapper.exprs scope inputs) := by
    rw [BoxedName.mapper_expr, BoxedName.mapper_keepsMembers.rebuild_call]
    rfl
  rw [expr, hboxed, Closure.mapper_expr, Closure.mapper_keepsMembers.rebuild_call]
  rfl

variable (scope) in
/-- The captures of a function literal, found after boxing, are those that it had before. -/
theorem captures_boxed (params : List (Param ι)) (b : Block ι) :
    captures available params (BoxedName.mapper.body scope params b) =
      captures available params b := by
  rw [captures, captures, freeNames_boxed]

/-- A function literal is bundled with its captures. -/
theorem expr_functionLit (i : ι) (n : Option String) (params : List (Param ι)) (b : Block ι) :
    expr scope available (.functionLit i n params b) =
      Closure.bundle (captures available params b)
        (.functionLit i n params
          (body scope (captures available params b ++ Param.names params) params b)) := by
  rw [← captures_boxed scope]
  rfl

/-- Code without member accesses gets none. -/
theorem isMember_expr {e : Expr ι} (he : Form.closures.expr e) :
    (expr scope available e).isMember = false := by
  cases e with
  | text | number => rfl
  | call => rw [expr_call]; rfl
  | «variable» i n =>
      rw [expr_variable]
      split <;> rfl
  | functionLit i n params b =>
      rw [expr_functionLit, Closure.bundle]
      split <;> rfl
  | unit | name | member | classLit => exact he.elim

/-- The first expression of a list and the others are converted on their own. -/
theorem exprs_cons (e : Expr ι) (es : List (Expr ι)) :
    exprs scope available (e :: es) = expr scope available e :: exprs scope available es := rfl

/-- A boxed variable is declared through its box. -/
theorem stmt_declare (i : ι) (n : String) (value : Expr ι) :
    stmt scope available (.declare i n value) =
      if BoxedName.isBoxed scope n then .expr (BoxOp.define.call i n [expr scope available value])
      else .declare i n (expr scope available value) := by
  rw [stmt, Mapper.stmt_declare, BoxedName.mapper_onStmt, BoxedName.access]
  split <;> rfl

/-- A boxed variable is assigned through its box. -/
theorem stmt_assign (i : ι) (n : String) (value : Expr ι) :
    stmt scope available (.assign i n value) =
      if BoxedName.isBoxed scope n then .expr (BoxOp.set.call i n [expr scope available value])
      else .assign i n (expr scope available value) := by
  rw [stmt, Mapper.stmt_assign, BoxedName.mapper_onStmt, BoxedName.access]
  split <;> rfl

/-- A return is converted in its value. -/
theorem stmt_ret (i : ι) (value : Expr ι) :
    stmt scope available (.ret i value) = .ret i (expr scope available value) := rfl

/-- An expression statement is converted in its expression. -/
theorem stmt_expr (e : Expr ι) :
    stmt scope available (.expr e) = .expr (expr scope available e) := rfl

/-- A branch is converted in its condition, and its blocks like bodies without parameters. -/
theorem stmt_branch (i : ι) (condition : Expr ι) (thenBlock elseBlock : Block ι) :
    stmt scope available (.branch i condition thenBlock elseBlock) =
      .branch i (expr scope available condition) (body scope available [] thenBlock)
        (body scope available [] elseBlock) := rfl

/-- The first statement of a list and the others are converted on their own. -/
theorem stmts_cons (s : Stmt ι) (ss : List (Stmt ι)) :
    stmts scope available (s :: ss) = stmt scope available s :: stmts scope available ss := rfl

/-- Closure conversion leaves the statements that create boxes as they are. -/
theorem closure_heads (params : List (Param ι)) (b : Block ι) :
    Closure.mapper.stmts available (BoxedName.heads params b) = BoxedName.heads params b := by
  rw [Mapper.stmts_eq_map]
  refine (List.map_congr_left fun s hs => ?_).trans (List.map_id _)
  obtain ⟨i, n, _, ⟨_, rfl⟩ | ⟨_, _, rfl⟩⟩ := BoxedName.mem_heads hs <;> rfl

/-- A converted body creates its boxes and goes on with its converted statements. -/
theorem body_eq (params : List (Param ι)) (b : Block ι) :
    body scope available params b =
      BoxedName.heads params b ++
        stmts (BoxedName.inner scope params b) (inside scope available params b) b := by
  rw [body, BoxedName.body_eq, Mapper.stmts_eq_map, List.map_append, ← Mapper.stmts_eq_map,
    ← Mapper.stmts_eq_map, closure_heads]
  rfl

/-- Conversion changes no declared names but those of parameters. -/
theorem mem_declared_body {params : List (Param ι)} {b : Block ι} {n : String}
    (hn : n ∉ Param.names params) :
    n ∈ Block.declared (body scope available params b) ↔ n ∈ b.declared := by
  have hbound := BoxedName.mem_bound_body scope params b n
  rw [body, Closure.declared_stmts]
  simpa [hn] using hbound

/-- Code of a body can capture what the body binds and what can be captured around it. -/
theorem mem_inside {params : List (Param ι)} {b : Block ι} {n : String}
    (hparams : ∀ m ∈ Param.names params, m ∈ available) :
    n ∈ inside scope available params b ↔ n ∈ b.declared ∨ n ∈ available := by
  have hbound := BoxedName.mem_bound_body scope params b n
  rw [inside, List.mem_append]
  by_cases hn : n ∈ Param.names params
  · simp [hparams n hn]
  · simp only [hn, or_false] at hbound
    rw [hbound]

/-- Code of a branch can capture what the branch declares and what can be captured around it. -/
theorem mem_inside_block {b : Block ι} {n : String} :
    n ∈ inside scope available [] b ↔ n ∈ b.declared ∨ n ∈ available :=
  mem_inside fun _ hm => absurd hm List.not_mem_nil

end Conversion

end Lowering

import Mathlib.Data.List.Basic
import Lowering.Pipeline

/-!
# Laws of mapping and collecting

How a `Mapper` and a `Collector` treat each kind of node, in terms of what they do to whole
expressions and blocks. Every stage but that of member access leaves member accesses to the
traversal; for such a stage a call is mapped like any other expression, its callee included
(`Mapper.KeepsMembers.rebuild_call`).
-/

namespace Lowering

variable {σ ι α : Type}

/-! ## Declared names -/

/-- A list of statements declares what its parts declare. -/
theorem Block.declared_append (first second : Block ι) :
    Block.declared (first ++ second) = Block.declared first ++ Block.declared second :=
  List.filterMap_append

/-- A block declares a name exactly if one of its statements does. -/
theorem Block.mem_declared {b : Block ι} {n : String} :
    n ∈ b.declared ↔ ∃ s ∈ b, s.declared? = some n :=
  List.mem_filterMap

/-- A name is declared by the first statement or by the others. -/
theorem Block.mem_declared_cons {s : Stmt ι} {ss : List (Stmt ι)} {n : String} :
    n ∈ Block.declared (s :: ss) ↔ s.declared? = some n ∨ n ∈ Block.declared ss := by
  simp [Block.mem_declared]

namespace Mapper

variable (M : Mapper σ ι) (scope : σ)

/-- Map the body of a function with its parameters. -/
def body (params : List (Param ι)) (b : Block ι) : Block ι :=
  M.heads params b ++ M.stmts (M.ofBlock (M.ofFunction scope params b) b) b

/-- A member access is rebuilt with its object mapped. -/
theorem rebuild_member (i : ι) (object : Expr ι) (m : String) :
    M.rebuild scope (.member i object m) = .member i (M.expr scope object) m := rfl

/-- A function literal is rebuilt with its body mapped. -/
theorem rebuild_functionLit (i : ι) (n : Option String) (params : List (Param ι)) (b : Block ι) :
    M.rebuild scope (.functionLit i n params b) = .functionLit i n params (M.body scope params b) :=
  rfl

/-- The first expression of a list and the others are mapped on their own. -/
theorem exprs_cons (e : Expr ι) (es : List (Expr ι)) :
    M.exprs scope (e :: es) = M.expr scope e :: M.exprs scope es := rfl

/-- Reads of variables stay, as inputs too, where the mapper leaves them alone. -/
theorem exprs_variables {scope : σ} {i : ι} (h : ∀ n, M.expr scope (.variable i n) = .variable i n)
    (names : List String) :
    M.exprs scope (names.map (.variable i ·)) = names.map (.variable i ·) := by
  rw [exprs_eq_map, List.map_map]
  exact List.map_congr_left fun n _ => h n

/-- Map the children of a statement. -/
def rebuildStmt : Stmt ι → Stmt ι
  | .importPackage i n path => .importPackage i n path
  | .declare i n value => .declare i n (M.expr scope value)
  | .assign i n value => .assign i n (M.expr scope value)
  | .assignMember i object m value =>
      .assignMember i (M.expr scope object) m (M.expr scope value)
  | .ret i value => .ret i (M.expr scope value)
  | .branch i condition thenBlock elseBlock =>
      .branch i (M.expr scope condition) (M.block scope thenBlock) (M.block scope elseBlock)
  | .expr e => .expr (M.expr scope e)

/-- A statement is mapped by the rule for statements after its children. -/
theorem stmt_eq (s : Stmt ι) : M.stmt scope s = M.onStmt scope (M.rebuildStmt scope s) := by
  cases s <;> rfl

/-- The rule for statements gets a declaration with its value mapped. -/
theorem stmt_declare (i : ι) (n : String) (value : Expr ι) :
    M.stmt scope (.declare i n value) = M.onStmt scope (.declare i n (M.expr scope value)) := rfl

/-- It gets an assignment with its value mapped. -/
theorem stmt_assign (i : ι) (n : String) (value : Expr ι) :
    M.stmt scope (.assign i n value) = M.onStmt scope (.assign i n (M.expr scope value)) := rfl

/-- It gets an assignment to a member with its object and its value mapped. -/
theorem stmt_assignMember (i : ι) (object : Expr ι) (m : String) (value : Expr ι) :
    M.stmt scope (.assignMember i object m value) =
      M.onStmt scope (.assignMember i (M.expr scope object) m (M.expr scope value)) := rfl

/-- It gets a return with its value mapped. -/
theorem stmt_ret (i : ι) (value : Expr ι) :
    M.stmt scope (.ret i value) = M.onStmt scope (.ret i (M.expr scope value)) := rfl

/-- It gets a branch with its condition and both blocks mapped. -/
theorem stmt_branch (i : ι) (condition : Expr ι) (thenBlock elseBlock : Block ι) :
    M.stmt scope (.branch i condition thenBlock elseBlock) =
      M.onStmt scope (.branch i (M.expr scope condition) (M.block scope thenBlock)
        (M.block scope elseBlock)) := rfl

/-- It gets an expression statement with its expression mapped. -/
theorem stmt_expr (e : Expr ι) :
    M.stmt scope (.expr e) = M.onStmt scope (.expr (M.expr scope e)) := rfl

/-- A method is mapped in its body. -/
theorem method_mk (i : ι) (n : String) (params : List (Param ι)) (b : Block ι) :
    M.method scope (.mk i n params b) = .mk i n params (M.block scope b) := rfl

/-- The rule for expressions does not change member accesses. -/
def KeepsMembers (M : Mapper σ ι) : Prop :=
  ∀ scope i object rebuilt m,
    M.onExpr scope (.member i object m) (.member i rebuilt m) = .member i rebuilt m

variable {M}

/-- A callee is mapped like any other expression, whether it selects a method or not. -/
theorem KeepsMembers.callee_eq (h : M.KeepsMembers) (callee : Expr ι) :
    (if callee.isMember then M.rebuild scope callee
      else M.onExpr scope callee (M.rebuild scope callee)) = M.expr scope callee := by
  cases callee with
  | member i object m => exact (h scope i object _ m).symm
  | _ => rfl

/-- The children of a call are its callee and its inputs. -/
theorem KeepsMembers.rebuild_call (h : M.KeepsMembers) (i : ι) (callee : Expr ι)
    (inputs : List (Expr ι)) :
    M.rebuild scope (.call i callee inputs) =
      .call i (M.expr scope callee) (M.exprs scope inputs) := by
  rw [rebuild, h.callee_eq]

/-- If mapping keeps what each statement declares, it keeps what the list declares. -/
theorem declared_stmts (b : Block ι) (h : ∀ s ∈ b, (M.stmt scope s).declared? = s.declared?) :
    Block.declared (M.stmts scope b) = Block.declared b := by
  rw [stmts_eq_map, Block.declared, List.filterMap_map]
  exact List.filterMap_congr h

end Mapper

/-- A list of statements contributes what each of them contributes. -/
theorem Collector.stmts_eq_flatMap (C : Collector σ ι α) (scope : σ) (b : Block ι) :
    C.stmts scope b = b.flatMap (C.stmt scope) := by
  induction b with
  | nil => rw [stmts, List.flatMap_nil]
  | cons s ss ih => rw [stmts, ih, List.flatMap_cons]

end Lowering

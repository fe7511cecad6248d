import Mathlib.Data.List.Forall2
import Lowering.Proofs.Collecting

/-!
# The blocks of a tree

All blocks of a tree with their parameters, in the order of a traversal. A mapper whose rules
neither make nor drop blocks maps them one by one (`Mapper.KeepsBlocks.block`).
-/

namespace Lowering

variable {σ ι : Type}

/-- Each block contributes itself with the parameters that belong to it. -/
def Block.collector : Collector Unit ι (List (Param ι) × Block ι) where
  onBlock _ params b := [(params, b)]

/-- All blocks of a program: the program itself, bodies of functions and of methods, branches. -/
def Program.blocks (p : Program ι) : List (List (Param ι) × Block ι) :=
  Block.collector.block () p.statements

namespace Block

/-- Every block contributes itself, with the parameters of the function that it is the body of. -/
@[simp] theorem collector_onBlock (params : List (Param ι)) (b : Block ι) :
    collector.onBlock () params b = [(params, b)] := rfl

/-- Statements contribute no block before those of their parts. -/
@[simp] theorem collector_onStmt (s : Stmt ι) : collector.onStmt () s = [] := rfl

/-- Nor do they contribute one after those of their parts. -/
@[simp] theorem collector_afterStmt (s : Stmt ι) : collector.afterStmt () s = [] := rfl

/-- Expressions contribute no block but those of their parts. -/
@[simp] theorem collector_onExpr (e : Expr ι) : collector.onExpr () e = [] := rfl

/-- Methods contribute no block but their body. -/
@[simp] theorem collector_onMethod (m : Method ι) : collector.onMethod () m = [] := rfl

/-- There is nothing to carry into a block. -/
@[simp] theorem collector_ofBlock (b : Block ι) : collector.ofBlock () b = () := rfl

/-- There is nothing to carry into a function. -/
@[simp] theorem collector_ofFunction (params : List (Param ι)) (b : Block ι) :
    collector.ofFunction () params b = () := rfl

/-- The blocks in a call of a hook are those in its inputs. -/
@[simp] theorem collector_hook_call (hook : Hook) (i : ι) (inputs : List (Expr ι)) :
    collector.expr () (hook.call i inputs) = collector.exprs () inputs := by
  simp [Hook.call, Expr.callMethod, Collector.expr]

/-- The blocks in a call of a box method are those in its inputs. -/
@[simp] theorem collector_box_call (op : BoxOp) (i : ι) (m : String) (inputs : List (Expr ι)) :
    collector.expr () (op.call i m inputs) = collector.exprs () inputs := by
  simp [BoxOp.call, Expr.callMethod, Collector.expr]

end Block

/-! ## Corresponding blocks -/

/-- The second block comes from mapping the first one, with the same parameters. -/
def Mapper.Image (M : Mapper σ ι) (source target : List (Param ι) × Block ι) : Prop :=
  ∃ scope, target = (source.1, M.body scope source.1 source.2)

/-- A block among images comes from a block among the sources. -/
theorem Mapper.Image.of_mem {M : Mapper σ ι} {sources targets : List (List (Param ι) × Block ι)}
    (h : List.Forall₂ M.Image sources targets) {target : List (Param ι) × Block ι}
    (ht : target ∈ targets) : ∃ source ∈ sources, M.Image source target := by
  induction h with
  | nil => cases ht
  | cons hhead _ ih =>
      rcases List.mem_cons.mp ht with rfl | ht
      · exact ⟨_, List.mem_cons_self, hhead⟩
      · obtain ⟨source, hsource, himage⟩ := ih ht
        exact ⟨source, List.mem_cons_of_mem _ hsource, himage⟩

/-- The mapper neither makes nor drops blocks, and blocks without parameters are bodies too. -/
structure Mapper.KeepsBlocks (M : Mapper σ ι) : Prop where
  ofFunction : ∀ scope b, M.ofFunction scope [] b = scope
  heads : ∀ params b, Block.collector.stmts () (M.heads params b) = []
  stmt : ∀ scope s,
    Block.collector.stmt () (M.stmt scope s) = Block.collector.stmt () (M.rebuildStmt scope s)
  expr : ∀ scope e,
    Block.collector.expr () (M.expr scope e) = Block.collector.expr () (M.rebuild scope e)

namespace Mapper.KeepsBlocks

variable {M : Mapper σ ι}

/-- The step from the statements of a block to the block. -/
theorem body_of_stmts (h : M.KeepsBlocks) (scope : σ) (params : List (Param ι)) (b : Block ι)
    (hstmts : List.Forall₂ M.Image (Block.collector.stmts () b)
      (Block.collector.stmts () (M.stmts (M.ofBlock (M.ofFunction scope params b) b) b))) :
    List.Forall₂ M.Image (Block.collector.body () params b)
      (Block.collector.body () params (M.body scope params b)) := by
  refine .cons ⟨scope, rfl⟩ ?_
  show List.Forall₂ M.Image _ (Block.collector.stmts () (M.heads params b ++ _))
  rw [Collector.stmts_append, h.heads, List.nil_append]
  exact hstmts

/-- A block is mapped like the body of a function without parameters. -/
theorem block_eq_body (h : M.KeepsBlocks) (scope : σ) (b : Block ι) :
    M.block scope b = M.body scope [] b := by
  rw [block, body, h.ofFunction]

mutual

/-- The blocks below a mapped expression are the images of those below the expression. -/
theorem rebuild (h : M.KeepsBlocks) (scope : σ) : (e : Expr ι) →
    List.Forall₂ M.Image (Block.collector.expr () e)
      (Block.collector.expr () (M.rebuild scope e))
  | .unit _ | .name _ _ | .text _ _ | .number _ _ | .variable _ _ => .nil
  | .member _ object _ => by
      rw [Mapper.rebuild_member]
      simp only [Collector.expr, Block.collector_onExpr, List.nil_append]
      rw [h.expr]
      exact rebuild h scope object
  | .call _ callee inputs => by
      have hcallee : List.Forall₂ M.Image (Block.collector.expr () callee)
          (Block.collector.expr () (if callee.isMember then M.rebuild scope callee
            else M.onExpr scope callee (M.rebuild scope callee))) := by
        split
        · exact rebuild h scope callee
        · exact (h.expr scope callee).symm ▸ rebuild h scope callee
      exact List.rel_append hcallee (exprs h scope inputs)
  | .functionLit _ _ params b => by
      rw [Collector.expr_functionLit, rebuild_functionLit, Collector.expr_functionLit]
      exact h.body_of_stmts scope params b (stmts h _ b)
  | .classLit _ _ ms => methods h scope ms

/-- The same for a list of expressions. -/
theorem exprs (h : M.KeepsBlocks) (scope : σ) : (es : List (Expr ι)) →
    List.Forall₂ M.Image (Block.collector.exprs () es)
      (Block.collector.exprs () (M.exprs scope es))
  | [] => .nil
  | e :: es => by
      rw [Mapper.exprs_cons, Collector.exprs, Collector.exprs, h.expr]
      exact List.rel_append (rebuild h scope e) (exprs h scope es)

/-- The same below a statement. -/
theorem rebuildStmt (h : M.KeepsBlocks) (scope : σ) : (s : Stmt ι) →
    List.Forall₂ M.Image (Block.collector.stmt () s)
      (Block.collector.stmt () (M.rebuildStmt scope s))
  | .importPackage _ _ _ => .nil
  | .declare _ _ value | .assign _ _ value | .ret _ value | .expr value => by
      simp only [Mapper.rebuildStmt, Collector.stmt, Block.collector_onStmt,
        Block.collector_afterStmt, List.nil_append, List.append_nil]
      rw [h.expr]
      exact rebuild h scope value
  | .assignMember _ object _ value => by
      simp only [Mapper.rebuildStmt, Collector.stmt, Block.collector_onStmt,
        Block.collector_afterStmt, List.nil_append, List.append_nil]
      rw [h.expr, h.expr]
      exact List.rel_append (rebuild h scope object) (rebuild h scope value)
  | .branch _ condition thenBlock elseBlock => by
      have hthen := h.body_of_stmts scope [] thenBlock (stmts h _ thenBlock)
      have helse := h.body_of_stmts scope [] elseBlock (stmts h _ elseBlock)
      simp only [Mapper.rebuildStmt, Collector.stmt_branch, Block.collector_onStmt,
        Block.collector_afterStmt, List.nil_append, List.append_nil, h.block_eq_body]
      rw [h.expr]
      exact List.rel_append (List.rel_append (rebuild h scope condition) hthen) helse

/-- The same for a list of statements in its own scope. -/
theorem stmts (h : M.KeepsBlocks) (scope : σ) : (ss : List (Stmt ι)) →
    List.Forall₂ M.Image (Block.collector.stmts () ss)
      (Block.collector.stmts () (M.stmts scope ss))
  | [] => .nil
  | s :: ss => by
      rw [Mapper.stmts, Collector.stmts, Collector.stmts, h.stmt]
      exact List.rel_append (rebuildStmt h scope s) (stmts h scope ss)

/-- The same for a method. -/
theorem method (h : M.KeepsBlocks) (scope : σ) : (m : Method ι) →
    List.Forall₂ M.Image (Block.collector.method () m)
      (Block.collector.method () (M.method scope m))
  | .mk _ _ _ b => by
      rw [Mapper.method_mk, Collector.method_mk, Collector.method_mk, h.block_eq_body]
      exact h.body_of_stmts scope [] b (stmts h _ b)

/-- The same for a list of methods. -/
theorem methods (h : M.KeepsBlocks) (scope : σ) : (ms : List (Method ι)) →
    List.Forall₂ M.Image (Block.collector.methods () ms)
      (Block.collector.methods () (M.methods scope ms))
  | [] => .nil
  | m :: ms => List.rel_append (method h scope m) (methods h scope ms)

end

/-- The same for a block that opens a scope of its own. -/
theorem block (h : M.KeepsBlocks) (scope : σ) (b : Block ι) :
    List.Forall₂ M.Image (Block.collector.block () b)
      (Block.collector.block () (M.block scope b)) := by
  rw [h.block_eq_body]
  exact h.body_of_stmts scope [] b (h.stmts _ b)

end Mapper.KeepsBlocks

end Lowering

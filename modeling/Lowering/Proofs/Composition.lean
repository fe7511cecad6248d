import Lowering.Proofs.Fixing
import Lowering.Proofs.HookCalls

/-!
# Composed mappings

Mapping a tree twice is mapping it once, if it is so at each node: `Mapper.Composes` is a condition
on the rules of three mappers, and `Mapper.Composes.stmts` draws the conclusion for trees of a form.
With the mapper without rules as the third one, the second mapper undoes the first
(`Mapper.Composes.stmts_eq_self`).
-/

namespace Lowering

variable {σ τ υ ι : Type}

namespace Mapper

/-- The selected method of a call stays one, and the rule for expressions does not apply to it. -/
theorem rebuild_call_of_member (M : Mapper σ ι) (scope : σ) (i : ι) {callee : Expr ι}
    (h : callee.isMember = true) (inputs : List (Expr ι)) :
    M.rebuild scope (.call i callee inputs) =
      .call i (M.rebuild scope callee) (M.exprs scope inputs) := by
  rw [rebuild, if_pos h]

/-- Any other callee is mapped like an input. -/
theorem rebuild_call_of_not_member (M : Mapper σ ι) (scope : σ) (i : ι) {callee : Expr ι}
    (h : callee.isMember = false) (inputs : List (Expr ι)) :
    M.rebuild scope (.call i callee inputs) =
      .call i (M.expr scope callee) (M.exprs scope inputs) := by
  rw [rebuild, if_neg (Bool.eq_false_iff.mp h)]
  rfl

/-- Mapping the children makes no member access and removes none. -/
theorem isMember_rebuild (M : Mapper σ ι) (scope : σ) (e : Expr ι) :
    (M.rebuild scope e).isMember = e.isMember := by
  cases e <;> rfl

/-- Without heads, a body is its statements in the scope inside it. -/
theorem body_eq_stmts {M : Mapper σ ι} (hheads : ∀ params b, M.heads params b = []) (scope : σ)
    (params : List (Param ι)) (b : Block ι) :
    M.body scope params b = M.stmts (M.ofBlock (M.ofFunction scope params b) b) b := by
  rw [body, hheads, List.nil_append]

/-- On nodes of the form `F`, in scopes that `R` relates, mapping by `M` and then by `N` is mapping
by `E`, provided that it is so for the children. -/
structure Composes (M : Mapper σ ι) (N : Mapper τ ι) (E : Mapper υ ι) (R : σ → τ → υ → Prop)
    (F : Form ι) : Prop where
  heads : ∀ params b, M.heads params b = [] ∧ N.heads params b = [] ∧ E.heads params b = []
  callees : M.KeepsCallees
  ofFunction : ∀ {s t u}, R s t u → ∀ params b,
    R (M.ofFunction s params b) (N.ofFunction t params (M.body s params b))
      (E.ofFunction u params b)
  ofBlock : ∀ {s t u}, R s t u → ∀ b,
    R (M.ofBlock s b) (N.ofBlock t (M.stmts (M.ofBlock s b) b)) (E.ofBlock u b)
  stmt : ∀ {s t u}, R s t u → ∀ st, F.HoldsStmt st →
    N.rebuildStmt t (M.rebuildStmt s st) = E.rebuildStmt u st →
    N.stmt t (M.stmt s st) = E.stmt u st
  expr : ∀ {s t u}, R s t u → ∀ e, F.HoldsExpr e →
    N.rebuild t (M.rebuild s e) = E.rebuild u e → N.expr t (M.expr s e) = E.expr u e

namespace Composes

variable {M : Mapper σ ι} {N : Mapper τ ι} {E : Mapper υ ι} {R : σ → τ → υ → Prop} {F : Form ι}

/-- The step from the statements of a block to the block. -/
theorem block_of_stmts (h : M.Composes N E R F) {s : σ} {t : τ} {u : υ} {b : Block ι}
    (hstmts : N.stmts (N.ofBlock t (M.stmts (M.ofBlock s b) b)) (M.stmts (M.ofBlock s b) b) =
      E.stmts (E.ofBlock u b) b) :
    N.block t (M.block s b) = E.block u b := by
  simp only [Mapper.block, (h.heads _ _).1, (h.heads _ _).2.1, (h.heads _ _).2.2, List.nil_append,
    hstmts]

mutual

/-- Below an expression of the form, the two mappings compose. -/
theorem rebuild (h : M.Composes N E R F) {s : σ} {t : τ} {u : υ} (hR : R s t u) :
    (e : Expr ι) → F.BelowExpr e →
    N.rebuild t (M.rebuild s e) = E.rebuild u e
  | .unit _, _ | .name _ _, _ | .text _ _, _ | .number _ _, _ | .variable _ _, _ => rfl
  | .member i object m, hbelow => by
      rw [Form.BelowExpr] at hbelow
      rw [rebuild_member, rebuild_member, rebuild_member,
        h.expr hR object hbelow (rebuild h hR object hbelow.2)]
  | .call i callee inputs, hbelow => by
      rw [Form.BelowExpr] at hbelow
      have hcallee := rebuild h hR callee hbelow.2.1
      have hinputs := exprs h hR inputs hbelow.2.2
      cases hmember : callee.isMember with
      | true =>
          have hmapped := (M.isMember_rebuild s callee).trans hmember
          rw [rebuild_call_of_member _ _ _ hmember, rebuild_call_of_member _ _ _ hmapped,
            rebuild_call_of_member _ _ _ hmember, hcallee, hinputs]
      | false =>
          have hmapped := h.callees.member s callee hmember
          have hform := hbelow.1.resolve_left (Bool.eq_false_iff.mp hmember)
          rw [rebuild_call_of_not_member _ _ _ hmember, rebuild_call_of_not_member _ _ _ hmapped,
            rebuild_call_of_not_member _ _ _ hmember, hinputs,
            h.expr hR callee ⟨hform, hbelow.2.1⟩ hcallee]
  | .functionLit i n params b, hbelow => by
      rw [Form.BelowExpr] at hbelow
      have hinner := h.ofFunction hR params b
      rw [body_eq_stmts (fun params b => (h.heads params b).1)] at hinner
      have hbody := stmts h (h.ofBlock hinner b) b hbelow
      rw [rebuild_functionLit, rebuild_functionLit, rebuild_functionLit,
        body_eq_stmts (fun params b => (h.heads params b).1),
        body_eq_stmts (fun params b => (h.heads params b).2.1),
        body_eq_stmts (fun params b => (h.heads params b).2.2), hbody]
  | .classLit i n ms, hbelow => by
      rw [Form.BelowExpr] at hbelow
      rw [Mapper.rebuild, Mapper.rebuild, Mapper.rebuild, methods h hR ms hbelow]

/-- The same for a list of expressions. -/
theorem exprs (h : M.Composes N E R F) {s : σ} {t : τ} {u : υ} (hR : R s t u) :
    (es : List (Expr ι)) → F.HoldsExprs es →
    N.exprs t (M.exprs s es) = E.exprs u es
  | [], _ => rfl
  | e :: es, hholds => by
      rw [Form.HoldsExprs] at hholds
      rw [exprs_cons, exprs_cons, exprs_cons, exprs h hR es hholds.2,
        h.expr hR e hholds.1 (rebuild h hR e hholds.1.2)]

/-- The same below a statement. -/
theorem rebuildStmt (h : M.Composes N E R F) {s : σ} {t : τ} {u : υ} (hR : R s t u) :
    (st : Stmt ι) → F.BelowStmt st →
    N.rebuildStmt t (M.rebuildStmt s st) = E.rebuildStmt u st
  | .importPackage _ _ _, _ => rfl
  | .declare _ _ value, hbelow | .assign _ _ value, hbelow | .ret _ value, hbelow
  | .expr value, hbelow => by
      rw [Form.BelowStmt] at hbelow
      simp only [Mapper.rebuildStmt, h.expr hR value hbelow (rebuild h hR value hbelow.2)]
  | .assignMember _ object _ value, hbelow => by
      rw [Form.BelowStmt] at hbelow
      simp only [Mapper.rebuildStmt,
        h.expr hR object hbelow.1 (rebuild h hR object hbelow.1.2),
        h.expr hR value hbelow.2 (rebuild h hR value hbelow.2.2)]
  | .branch _ condition thenBlock elseBlock, hbelow => by
      rw [Form.BelowStmt] at hbelow
      have hthen := h.block_of_stmts (stmts h (h.ofBlock hR thenBlock) thenBlock hbelow.2.1)
      have helse := h.block_of_stmts (stmts h (h.ofBlock hR elseBlock) elseBlock hbelow.2.2)
      simp only [Mapper.rebuildStmt, hthen, helse,
        h.expr hR condition hbelow.1 (rebuild h hR condition hbelow.1.2)]

/-- The same for a list of statements. -/
theorem stmts (h : M.Composes N E R F) {s : σ} {t : τ} {u : υ} (hR : R s t u) :
    (ss : List (Stmt ι)) → F.HoldsStmts ss →
    N.stmts t (M.stmts s ss) = E.stmts u ss
  | [], _ => rfl
  | st :: ss, hholds => by
      rw [Form.HoldsStmts] at hholds
      simp only [Mapper.stmts, stmts h hR ss hholds.2,
        h.stmt hR st hholds.1 (rebuildStmt h hR st hholds.1.2)]

/-- The same for a method. -/
theorem method (h : M.Composes N E R F) {s : σ} {t : τ} {u : υ} (hR : R s t u) :
    (m : Method ι) → F.HoldsMethod m →
    N.method t (M.method s m) = E.method u m
  | .mk i n params b, hholds => by
      rw [Form.HoldsMethod] at hholds
      exact congrArg (Method.mk i n params)
        (h.block_of_stmts (stmts h (h.ofBlock hR b) b hholds))

/-- The same for a list of methods. -/
theorem methods (h : M.Composes N E R F) {s : σ} {t : τ} {u : υ} (hR : R s t u) :
    (ms : List (Method ι)) → F.HoldsMethods ms →
    N.methods t (M.methods s ms) = E.methods u ms
  | [], _ => rfl
  | m :: ms, hholds => by
      rw [Form.HoldsMethods] at hholds
      simp only [Mapper.methods, method h hR m hholds.1, methods h hR ms hholds.2]

end

/-- The same for a block. -/
theorem block (h : M.Composes N E R F) {s : σ} {t : τ} {u : υ} (hR : R s t u) {b : Block ι}
    (hholds : F.HoldsStmts b) : N.block t (M.block s b) = E.block u b :=
  h.block_of_stmts (h.stmts (h.ofBlock hR b) b hholds)

/-- A mapper that composes with another one to the mapper without rules is undone by it. -/
theorem stmts_eq_self {R : σ → τ → Unit → Prop} (h : M.Composes N identity R F) {s : σ} {t : τ}
    (hR : R s t ()) {ss : List (Stmt ι)} (hholds : F.HoldsStmts ss) :
    N.stmts t (M.stmts s ss) = ss :=
  (h.stmts hR ss hholds).trans (identity_stmts ss)

end Composes

end Mapper

end Lowering

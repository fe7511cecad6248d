import Lowering.Proofs.Collecting
import Lowering.Proofs.Form

/-!
# Trees that a mapper leaves alone

A mapper whose rules leave single nodes alone leaves whole trees alone. The nodes can be given by a
form (`Mapper.Fixes.stmts`), or by what a collector with the scopes of the mapper finds
(`Mapper.KeepsMembers.stmts_eq`).
-/

namespace Lowering

variable {σ ι : Type}

/-! ## Nodes of a form -/

/-- The rules of a mapper leave alone all nodes of the form. -/
structure Mapper.Fixes (M : Mapper σ ι) (F : Form ι) : Prop where
  heads : ∀ params b, M.heads params b = []
  stmt : ∀ scope s, F.stmt s → M.onStmt scope s = s
  expr : ∀ scope e, F.expr e → M.onExpr scope e e = e

namespace Mapper.Fixes

variable {M : Mapper σ ι} {F G : Form ι}

/-- A narrower form has fewer nodes to leave alone. -/
theorem mono (h : M.Fixes F) (hstmt : ∀ s, G.stmt s → F.stmt s)
    (hexpr : ∀ e, G.expr e → F.expr e) : M.Fixes G where
  heads := h.heads
  stmt scope s hs := h.stmt scope s (hstmt s hs)
  expr scope e he := h.expr scope e (hexpr e he)

/-- An expression of the form whose children are left alone is left alone. -/
theorem expr_eq (h : M.Fixes F) (scope : σ) {e : Expr ι} (he : F.expr e)
    (hbelow : M.rebuild scope e = e) : M.expr scope e = e := by
  rw [Mapper.expr, hbelow, h.expr scope e he]

mutual

/-- What is below an expression of the form is left alone. -/
theorem rebuild (h : M.Fixes F) (scope : σ) : (e : Expr ι) → F.BelowExpr e →
    M.rebuild scope e = e
  | .unit _, _ | .name _ _, _ | .text _ _, _ | .number _ _, _ | .variable _ _, _ => rfl
  | .member i object m, hbelow => by
      rw [Form.BelowExpr] at hbelow
      rw [rebuild_member, h.expr_eq scope hbelow.1 (rebuild h scope object hbelow.2)]
  | .call i callee inputs, hbelow => by
      rw [Form.BelowExpr] at hbelow
      have hcallee := rebuild h scope callee hbelow.2.1
      rw [Mapper.rebuild, hcallee, exprs h scope inputs hbelow.2.2]
      split
      · rfl
      · rename_i hmember
        rw [h.expr scope callee (hbelow.1.resolve_left hmember)]
  | .functionLit i n params b, hbelow => by
      rw [Form.BelowExpr] at hbelow
      rw [rebuild_functionLit, body, h.heads, List.nil_append, stmts h _ b hbelow]
  | .classLit i n ms, hbelow => by
      rw [Form.BelowExpr] at hbelow
      rw [Mapper.rebuild, methods h scope ms hbelow]

/-- A list of expressions of the form is left alone. -/
theorem exprs (h : M.Fixes F) (scope : σ) : (es : List (Expr ι)) → F.HoldsExprs es →
    M.exprs scope es = es
  | [], _ => rfl
  | e :: es, hholds => by
      rw [Form.HoldsExprs] at hholds
      rw [exprs_cons, h.expr_eq scope hholds.1.1 (rebuild h scope e hholds.1.2),
        exprs h scope es hholds.2]

/-- What is below a statement of the form is left alone. -/
theorem rebuildStmt (h : M.Fixes F) (scope : σ) : (s : Stmt ι) → F.BelowStmt s →
    M.rebuildStmt scope s = s
  | .importPackage _ _ _, _ => rfl
  | .declare _ _ value, hbelow | .assign _ _ value, hbelow | .ret _ value, hbelow
  | .expr value, hbelow => by
      rw [Form.BelowStmt] at hbelow
      rw [Mapper.rebuildStmt, h.expr_eq scope hbelow.1 (rebuild h scope value hbelow.2)]
  | .assignMember _ object _ value, hbelow => by
      rw [Form.BelowStmt] at hbelow
      rw [Mapper.rebuildStmt, h.expr_eq scope hbelow.1.1 (rebuild h scope object hbelow.1.2),
        h.expr_eq scope hbelow.2.1 (rebuild h scope value hbelow.2.2)]
  | .branch _ condition thenBlock elseBlock, hbelow => by
      rw [Form.BelowStmt] at hbelow
      rw [Mapper.rebuildStmt, h.expr_eq scope hbelow.1.1 (rebuild h scope condition hbelow.1.2),
        Mapper.block, Mapper.block, h.heads, h.heads, List.nil_append, List.nil_append,
        stmts h _ thenBlock hbelow.2.1, stmts h _ elseBlock hbelow.2.2]

/-- A list of statements of the form is left alone. -/
theorem stmts (h : M.Fixes F) (scope : σ) : (ss : List (Stmt ι)) → F.HoldsStmts ss →
    M.stmts scope ss = ss
  | [], _ => rfl
  | s :: ss, hholds => by
      rw [Form.HoldsStmts] at hholds
      rw [Mapper.stmts, Mapper.stmt_eq, rebuildStmt h scope s hholds.1.2,
        h.stmt scope s hholds.1.1, stmts h scope ss hholds.2]

/-- A method of the form is left alone. -/
theorem method (h : M.Fixes F) (scope : σ) : (m : Method ι) → F.HoldsMethod m →
    M.method scope m = m
  | .mk _ _ _ b, hholds => by
      rw [Form.HoldsMethod] at hholds
      rw [method_mk, Mapper.block, h.heads, List.nil_append, stmts h _ b hholds]

/-- A list of methods of the form is left alone. -/
theorem methods (h : M.Fixes F) (scope : σ) : (ms : List (Method ι)) → F.HoldsMethods ms →
    M.methods scope ms = ms
  | [], _ => rfl
  | m :: ms, hholds => by
      rw [Form.HoldsMethods] at hholds
      rw [Mapper.methods, method h scope m hholds.1, methods h scope ms hholds.2]

end

/-- A block of the form is left alone. -/
theorem block (h : M.Fixes F) (scope : σ) {b : Block ι} (hb : F.HoldsStmts b) :
    M.block scope b = b := by
  rw [Mapper.block, h.heads, List.nil_append, h.stmts _ b hb]

end Mapper.Fixes

/-- The mapper without rules. -/
def Mapper.identity : Mapper Unit ι := {}

/-- The mapper without rules leaves all code alone. -/
theorem Mapper.identity_fixes : (identity : Mapper Unit ι).Fixes .any where
  heads _ _ := rfl
  stmt _ _ _ := rfl
  expr _ _ _ := rfl

/-- So it gives back the statements that it is given. -/
theorem Mapper.identity_stmts (ss : List (Stmt ι)) : identity.stmts () ss = ss :=
  identity_fixes.stmts () ss (Form.any_stmts ss)

/-- Code of a form is of every wider form. -/
theorem Form.HoldsStmts.mono {F G : Form ι} {ss : List (Stmt ι)} (h : F.HoldsStmts ss)
    (hstmt : ∀ s, F.stmt s → G.stmt s) (hexpr : ∀ e, F.expr e → G.expr e) : G.HoldsStmts ss := by
  have hestablishes : Mapper.identity.Establishes F G := by
    refine ⟨fun _ _ => trivial, fun scope s hs hbelow => ?_, fun scope e he hbelow => ?_⟩
    · have hs' := Mapper.identity_fixes.rebuildStmt scope s (any_stmt s)
      rw [hs'] at hbelow
      rw [Mapper.stmt_eq, hs']
      exact ⟨hstmt s hs, hbelow⟩
    · have he' := Mapper.identity_fixes.rebuild scope e (any_expr e)
      rw [he'] at hbelow
      rw [Mapper.expr, he']
      exact ⟨hexpr e he, hbelow⟩
  rw [← Mapper.identity_stmts ss]
  exact hestablishes.stmts () ss h

/-! ## Nodes in their scopes -/

/-- Each block contributes that it gets no heads and that the rule for statements leaves its
statements alone, and each expression that the rule for expressions leaves it alone. -/
def Mapper.fixing (M : Mapper σ ι) : Collector σ ι Prop where
  toScoping := M.toScoping
  onBlock scope params b :=
    [M.heads params b = [] ∧ ∀ s ∈ b, M.onStmt (M.ofBlock scope b) s = s]
  onExpr scope e := [M.onExpr scope e e = e]

namespace Mapper.KeepsMembers

variable {M : Mapper σ ι}

/-- An expression is left alone if its children and the rule for it leave it alone. -/
theorem expr_eq (scope : σ) {e : Expr ι} (hfixing : ∀ q ∈ M.fixing.expr scope e, q)
    (hbelow : M.rebuild scope e = e) : M.expr scope e = e := by
  have hrule : M.onExpr scope e e = e := by
    apply hfixing
    cases e <;> simp [Collector.expr, fixing]
  rw [Mapper.expr, hbelow, hrule]

/-- A block that gets no heads is left alone if its statements are. -/
theorem body_eq (scope : σ) {params : List (Param ι)} {b : Block ι}
    (hfixing : ∀ q ∈ M.fixing.body scope params b, q)
    (hstmts : (∀ s ∈ b, M.onStmt (M.ofBlock scope b) s = s) →
      (∀ q ∈ M.fixing.stmts (M.ofBlock scope b) b, q) → M.stmts (M.ofBlock scope b) b = b) :
    M.heads params b ++ M.stmts (M.ofBlock scope b) b = b := by
  obtain ⟨hblock, hbelow⟩ := List.forall_mem_append.mp hfixing
  obtain ⟨hheads, hrule⟩ := hblock _ (List.mem_singleton_self _)
  rw [hheads, List.nil_append]
  exact hstmts hrule hbelow

mutual

/-- What is below an expression is left alone. -/
theorem rebuild_eq (h : M.KeepsMembers) (scope : σ) : (e : Expr ι) →
    (∀ q ∈ M.fixing.expr scope e, q) → M.rebuild scope e = e
  | .unit _, _ | .name _ _, _ | .text _ _, _ | .number _ _, _ | .variable _ _, _ => rfl
  | .member i object m, hfixing => by
      simp only [Collector.expr, List.forall_mem_append] at hfixing
      rw [rebuild_member, expr_eq scope hfixing.2 (rebuild_eq h scope object hfixing.2)]
  | .call i callee inputs, hfixing => by
      simp only [Collector.expr, List.forall_mem_append] at hfixing
      rw [h.rebuild_call, expr_eq scope hfixing.1.2 (rebuild_eq h scope callee hfixing.1.2),
        exprs_eq h scope inputs hfixing.2]
  | .functionLit i n params b, hfixing => by
      rw [Collector.expr_functionLit, List.forall_mem_append] at hfixing
      rw [rebuild_functionLit]
      exact congrArg _ (body_eq _ hfixing.2 (stmts_eq h _ b))
  | .classLit i n ms, hfixing => by
      simp only [Collector.expr, List.forall_mem_append] at hfixing
      rw [rebuild, methods_eq h scope ms hfixing.2]

/-- A list of expressions is left alone. -/
theorem exprs_eq (h : M.KeepsMembers) (scope : σ) : (es : List (Expr ι)) →
    (∀ q ∈ M.fixing.exprs scope es, q) → M.exprs scope es = es
  | [], _ => rfl
  | e :: es, hfixing => by
      simp only [Collector.exprs, List.forall_mem_append] at hfixing
      rw [exprs_cons, expr_eq scope hfixing.1 (rebuild_eq h scope e hfixing.1),
        exprs_eq h scope es hfixing.2]

/-- What is below a statement is left alone. -/
theorem rebuildStmt_eq (h : M.KeepsMembers) (scope : σ) : (s : Stmt ι) →
    (∀ q ∈ M.fixing.stmt scope s, q) → M.rebuildStmt scope s = s
  | .importPackage _ _ _, _ => rfl
  | .declare _ _ value, hfixing | .assign _ _ value, hfixing | .ret _ value, hfixing
  | .expr value, hfixing => by
      simp only [Collector.stmt, List.forall_mem_append] at hfixing
      rw [rebuildStmt, expr_eq scope hfixing.1.2 (rebuild_eq h scope value hfixing.1.2)]
  | .assignMember _ object _ value, hfixing => by
      simp only [Collector.stmt, List.forall_mem_append] at hfixing
      rw [rebuildStmt, expr_eq scope hfixing.1.1.2 (rebuild_eq h scope object hfixing.1.1.2),
        expr_eq scope hfixing.1.2 (rebuild_eq h scope value hfixing.1.2)]
  | .branch _ condition thenBlock elseBlock, hfixing => by
      simp only [Collector.stmt_branch, List.forall_mem_append] at hfixing
      have hthen := body_eq scope hfixing.1.1.2 (stmts_eq h _ thenBlock)
      have helse := body_eq scope hfixing.1.2 (stmts_eq h _ elseBlock)
      have hcondition := hfixing.1.1.1.2
      rw [rebuildStmt, expr_eq scope hcondition (rebuild_eq h scope condition hcondition), block,
        hthen, block, helse]

/-- A list of statements is left alone if the rule for statements leaves them alone. -/
theorem stmts_eq (h : M.KeepsMembers) (scope : σ) : (ss : List (Stmt ι)) →
    (∀ s ∈ ss, M.onStmt scope s = s) → (∀ q ∈ M.fixing.stmts scope ss, q) → M.stmts scope ss = ss
  | [], _, _ => rfl
  | s :: ss, hrule, hfixing => by
      simp only [Collector.stmts, List.forall_mem_append] at hfixing
      rw [List.forall_mem_cons] at hrule
      rw [stmts, stmt_eq, rebuildStmt_eq h scope s hfixing.1, hrule.1,
        stmts_eq h scope ss hrule.2 hfixing.2]

/-- A method is left alone. -/
theorem method_eq (h : M.KeepsMembers) (scope : σ) : (m : Method ι) →
    (∀ q ∈ M.fixing.method scope m, q) → M.method scope m = m
  | .mk _ _ _ b, hfixing => by
      rw [Collector.method_mk, List.forall_mem_append] at hfixing
      rw [method_mk, block, body_eq scope hfixing.2 (stmts_eq h _ b)]

/-- A list of methods is left alone. -/
theorem methods_eq (h : M.KeepsMembers) (scope : σ) : (ms : List (Method ι)) →
    (∀ q ∈ M.fixing.methods scope ms, q) → M.methods scope ms = ms
  | [], _ => rfl
  | m :: ms, hfixing => by
      simp only [Collector.methods, List.forall_mem_append] at hfixing
      rw [methods, method_eq h scope m hfixing.1, methods_eq h scope ms hfixing.2]

end

/-- A block that opens a scope of its own is left alone. -/
theorem block_eq (h : M.KeepsMembers) (scope : σ) {b : Block ι}
    (hfixing : ∀ q ∈ M.fixing.block scope b, q) : M.block scope b = b :=
  body_eq scope hfixing (h.stmts_eq _ b)

end Mapper.KeepsMembers

end Lowering

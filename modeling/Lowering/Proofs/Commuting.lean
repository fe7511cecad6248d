import Lowering.Proofs.Composition
import Lowering.Tree.Kind

/-!
# Mappers that commute

Two mappers, one of which carries no scope, can run in either order if it is so at each node:
`Mapper.Commutes` is a condition on their rules, and `Mapper.Commutes.stmts` draws the conclusion
for whole trees. At an expression that both rules leave alone there is nothing to show
(`Mapper.CommutesAt.of_leaves`), so two rules have to be compared at the kinds they apply to only.
There it helps that stages make calls of methods, which the rules of most stages leave alone but for
their parts (`Mapper.PassesCalls`).
-/

namespace Lowering

variable {σ ι : Type}

namespace Mapper

/-! ## Single nodes -/

/-- At an expression the two mappers commute, provided that they do below it. -/
def CommutesAt (M : Mapper Unit ι) (N : Mapper σ ι) (e : Expr ι) : Prop :=
  ∀ scope, N.rebuild scope (M.rebuild () e) = M.rebuild () (N.rebuild scope e) →
    N.expr scope (M.expr () e) = M.expr () (N.expr scope e)

/-- At a statement the two mappers commute, provided that they do below it. -/
def CommutesAtStmt (M : Mapper Unit ι) (N : Mapper σ ι) (s : Stmt ι) : Prop :=
  ∀ scope, N.rebuildStmt scope (M.rebuildStmt () s) = M.rebuildStmt () (N.rebuildStmt scope s) →
    N.stmt scope (M.stmt () s) = M.stmt () (N.stmt scope s)

/-- The rule for expressions leaves alone all expressions of a kind. -/
def Leaves (M : Mapper σ ι) (kind : ExprKind) : Prop :=
  ∀ scope e, e.kind = kind → M.expr scope e = M.rebuild scope e

/-- Mapping the children keeps the kind of an expression. -/
theorem kind_rebuild (M : Mapper σ ι) (scope : σ) (e : Expr ι) :
    (M.rebuild scope e).kind = e.kind := by
  cases e <;> rfl

/-- Mappers that both leave an expression alone commute there. -/
theorem CommutesAt.of_leaves {M : Mapper Unit ι} {N : Mapper σ ι} {e : Expr ι}
    (hM : M.Leaves e.kind) (hN : N.Leaves e.kind) : M.CommutesAt N e := by
  intro scope hbelow
  rw [hM () e rfl, hN scope e rfl, hN scope _ (M.kind_rebuild () e),
    hM () _ (N.kind_rebuild scope e), hbelow]

/-- It makes no difference which of two mappers without scopes is named first. -/
theorem CommutesAt.symm {M N : Mapper Unit ι} {e : Expr ι} (h : M.CommutesAt N e) :
    N.CommutesAt M e :=
  fun _ hbelow => (h () hbelow.symm).symm

/-- Which of two mappers without scopes comes first at a statement makes no difference. -/
theorem CommutesAtStmt.symm {M N : Mapper Unit ι} {s : Stmt ι} (h : M.CommutesAtStmt N s) :
    N.CommutesAtStmt M s :=
  fun _ hbelow => (h () hbelow.symm).symm

/-- The mapper leaves alone calls of methods, but for their parts, and expression statements. -/
structure PassesCalls (M : Mapper σ ι) : Prop where
  callees : M.KeepsCallees
  unit : ∀ scope i, M.expr scope (.unit i) = .unit i
  name : ∀ scope i n, M.expr scope (.name i n) = .name i n
  methodCall : ∀ scope i j object m inputs,
    M.expr scope (.call i (.member j object m) inputs) =
      .call i (.member j (M.expr scope object) m) (M.exprs scope inputs)
  exprStmt : ∀ scope e, M.onStmt scope (.expr e) = .expr e

namespace PassesCalls

variable {M : Mapper σ ι}

/-- A call of a hook stays one. -/
theorem expr_hook_call (h : M.PassesCalls) (scope : σ) (hook : Hook) (i : ι)
    (inputs : List (Expr ι)) :
    M.expr scope (hook.call i inputs) = hook.call i (M.exprs scope inputs) := by
  show M.expr scope (.call i (.member i (.unit i) hook.name) inputs) = _
  rw [h.methodCall, h.unit]
  rfl

/-- A call of a box method stays one if the variable that holds the box stays. -/
theorem expr_box_call (h : M.PassesCalls) {scope : σ} {i : ι} {n : String}
    (hvariable : M.expr scope (.variable i n) = .variable i n) (op : BoxOp)
    (inputs : List (Expr ι)) :
    M.expr scope (op.call i n inputs) = op.call i n (M.exprs scope inputs) := by
  show M.expr scope (.call i (.member i (.variable i n) op.name) inputs) = _
  rw [h.methodCall, hvariable]
  rfl

/-- An expression statement is mapped in its expression. -/
theorem stmt_expr (h : M.PassesCalls) (scope : σ) (e : Expr ι) :
    M.stmt scope (.expr e) = .expr (M.expr scope e) :=
  h.exprStmt scope (M.expr scope e)

end PassesCalls

/-! ## Whole trees -/

/-- Mapping by `M` and by `N` commutes at each node. The first mapper adds no heads; it changes
neither the scopes and heads that the second one makes for a block, nor these heads themselves. -/
structure Commutes (M : Mapper Unit ι) (N : Mapper σ ι) : Prop where
  noHeads : ∀ params b, M.heads params b = []
  calleesFirst : M.KeepsCallees
  calleesSecond : N.KeepsCallees
  ofFunction : ∀ scope params b,
    N.ofFunction scope params (M.stmts () b) = N.ofFunction scope params b
  ofBlock : ∀ scope b, N.ofBlock scope (M.stmts () b) = N.ofBlock scope b
  heads : ∀ params b, N.heads params (M.stmts () b) = N.heads params b
  fixesHeads : ∀ params b, M.stmts () (N.heads params b) = N.heads params b
  stmt : ∀ s, M.CommutesAtStmt N s
  expr : ∀ e, M.CommutesAt N e

namespace Commutes

variable {M : Mapper Unit ι} {N : Mapper σ ι}

/-- A block is mapped by its statements alone. -/
theorem block_eq (h : M.Commutes N) (params : List (Param ι)) (b : Block ι) :
    M.heads params b ++ M.stmts () b = M.stmts () b := by
  rw [h.noHeads, List.nil_append]

/-- The step from the statements of a block to the block with its heads. -/
theorem block_of_stmts (h : M.Commutes N) (scope : σ) (params : List (Param ι)) (b : Block ι)
    (hstmts : N.stmts (N.ofBlock scope b) (M.stmts () b) =
      M.stmts () (N.stmts (N.ofBlock scope b) b)) :
    N.heads params (M.stmts () b) ++ N.stmts (N.ofBlock scope (M.stmts () b)) (M.stmts () b) =
      M.stmts () (N.heads params b ++ N.stmts (N.ofBlock scope b) b) := by
  have hheads := h.fixesHeads params b
  rw [h.heads, h.ofBlock, hstmts]
  rw [M.stmts_eq_map] at hheads
  simp only [M.stmts_eq_map, List.map_append, hheads]

mutual

/-- Below an expression the two mappers commute. -/
theorem rebuild (h : M.Commutes N) (scope : σ) : (e : Expr ι) →
    N.rebuild scope (M.rebuild () e) = M.rebuild () (N.rebuild scope e)
  | .unit _ | .name _ _ | .text _ _ | .number _ _ | .variable _ _ => rfl
  | .member i object m => by
      rw [rebuild_member, rebuild_member, rebuild_member, rebuild_member,
        h.expr object scope (rebuild h scope object)]
  | .call i callee inputs => by
      have hcallee := rebuild h scope callee
      have hinputs := exprs h scope inputs
      cases hmember : callee.isMember with
      | true =>
          -- the selected method is mapped without the rules for expressions
          have hfirst := (M.isMember_rebuild () callee).trans hmember
          have hsecond := (N.isMember_rebuild scope callee).trans hmember
          rw [rebuild_call_of_member _ _ _ hmember, rebuild_call_of_member _ _ _ hfirst,
            rebuild_call_of_member _ _ _ hmember, rebuild_call_of_member _ _ _ hsecond, hcallee,
            hinputs]
      | false =>
          have hfirst := h.calleesFirst.member () callee hmember
          have hsecond := h.calleesSecond.member scope callee hmember
          rw [rebuild_call_of_not_member _ _ _ hmember, rebuild_call_of_not_member _ _ _ hfirst,
            rebuild_call_of_not_member _ _ _ hmember, rebuild_call_of_not_member _ _ _ hsecond,
            h.expr callee scope hcallee, hinputs]
  | .functionLit i n params b => by
      have hstmts := stmts h (N.ofBlock (N.ofFunction scope params b) b) b
      have hbody := h.block_of_stmts (N.ofFunction scope params b) params b hstmts
      simp only [rebuild_functionLit, body, h.block_eq, h.ofFunction]
      rw [hbody]
  | .classLit i n ms => by
      rw [Mapper.rebuild, Mapper.rebuild, Mapper.rebuild, Mapper.rebuild, methods h scope ms]

/-- The same for a list of expressions. -/
theorem exprs (h : M.Commutes N) (scope : σ) : (es : List (Expr ι)) →
    N.exprs scope (M.exprs () es) = M.exprs () (N.exprs scope es)
  | [] => rfl
  | e :: es => by
      rw [exprs_cons, exprs_cons, exprs_cons, exprs_cons, exprs h scope es,
        h.expr e scope (rebuild h scope e)]

/-- The same below a statement. -/
theorem rebuildStmt (h : M.Commutes N) (scope : σ) : (s : Stmt ι) →
    N.rebuildStmt scope (M.rebuildStmt () s) = M.rebuildStmt () (N.rebuildStmt scope s)
  | .importPackage _ _ _ => rfl
  | .declare _ _ value | .assign _ _ value | .ret _ value | .expr value => by
      simp only [Mapper.rebuildStmt, h.expr value scope (rebuild h scope value)]
  | .assignMember _ object _ value => by
      simp only [Mapper.rebuildStmt, h.expr object scope (rebuild h scope object),
        h.expr value scope (rebuild h scope value)]
  | .branch _ condition thenBlock elseBlock => by
      have hthen := h.block_of_stmts scope [] thenBlock (stmts h _ thenBlock)
      have helse := h.block_of_stmts scope [] elseBlock (stmts h _ elseBlock)
      simp only [Mapper.rebuildStmt, Mapper.block, h.block_eq,
        h.expr condition scope (rebuild h scope condition)]
      rw [hthen, helse]

/-- The same for a list of statements. -/
theorem stmts (h : M.Commutes N) (scope : σ) : (ss : List (Stmt ι)) →
    N.stmts scope (M.stmts () ss) = M.stmts () (N.stmts scope ss)
  | [] => rfl
  | s :: ss => by
      simp only [Mapper.stmts, stmts h scope ss, h.stmt s scope (rebuildStmt h scope s)]

/-- The same for a method. -/
theorem method (h : M.Commutes N) (scope : σ) : (m : Method ι) →
    N.method scope (M.method () m) = M.method () (N.method scope m)
  | .mk i n params b => by
      have hbody := h.block_of_stmts scope [] b (stmts h _ b)
      simp only [method_mk, Mapper.block, h.block_eq]
      rw [hbody]

/-- The same for a list of methods. -/
theorem methods (h : M.Commutes N) (scope : σ) : (ms : List (Method ι)) →
    N.methods scope (M.methods () ms) = M.methods () (N.methods scope ms)
  | [] => rfl
  | m :: ms => by
      simp only [Mapper.methods, method h scope m, methods h scope ms]

end

/-- The same for a block that opens a scope of its own. -/
theorem block (h : M.Commutes N) (scope : σ) (b : Block ι) :
    N.block scope (M.block () b) = M.block () (N.block scope b) := by
  have hblock := h.block_of_stmts scope [] b (h.stmts _ b)
  simp only [Mapper.block, h.block_eq]
  exact hblock

end Commutes

end Mapper

end Lowering

import Mathlib.Data.List.Forall2
import Lowering.Proofs.BoxedBlocks
import Lowering.Proofs.Lossless
import Lowering.Log
import Lowering.Tree.Equality

/-!
# The log tells what was done

The records of a stage are made from the tree that it is run on, before anything is changed. Main
statement: they are the records that can be read off the tree that the stage leaves, in its order
(`log_tells`). It rests on a condition on the rules of a mapper, for trees of a form: what is found
at a node of the result, with what is found below it, corresponds to what is found at the node that
it comes from (`Mapper.Reports.block`).
-/

namespace Lowering

variable {σ τ ι α β : Type}

/-! ## What is found in the result of mapping -/

/-- What `C` contributes at the nodes of a tree of the form `F` corresponds one by one, by `T`, to
what `D` contributes at what the mapper makes of them. An expression may contribute only once its
rule has been applied, so its own contribution is compared after that, along with those of its
children. The scopes of `C` and of the mapper are related by `R`. -/
structure Mapper.Reports (M : Mapper σ ι) (F : Form ι) (C : Collector τ ι α)
    (D : Collector Unit ι β) (R : τ → σ → Prop) (T : α → β → Prop) : Prop where
  ofFunction : ∀ {s u}, R s u → ∀ params b, R (C.ofFunction s params b) (M.ofFunction u params b)
  ofBlock : ∀ {s u}, R s u → ∀ b, R (C.ofBlock s b) (M.ofBlock u b)
  heads : ∀ params b, D.stmts () (M.heads params b) = []
  onBlock : ∀ {s u}, R s u → ∀ params {b}, F.HoldsStmts b → List.Forall₂ T (C.onBlock s params b)
    (D.onBlock () params (M.heads params b ++ M.stmts (M.ofBlock u b) b))
  onStmt : ∀ {s u}, R s u → ∀ st,
    List.Forall₂ T (C.onStmt s st) (D.onStmt () (M.rebuildStmt u st))
  afterStmt : ∀ {s u}, R s u → ∀ st,
    List.Forall₂ T (C.afterStmt s st) (D.afterStmt () (M.rebuildStmt u st))
  onMethod : ∀ {s u}, R s u → ∀ m, List.Forall₂ T (C.onMethod s m) (D.onMethod () (M.method u m))
  /-- A member access that is a callee keeps its own contribution. -/
  callee : ∀ {s u}, R s u → ∀ i object m, List.Forall₂ T (C.onExpr s (.member i object m))
    (D.onExpr () (M.rebuild u (.member i object m)))
  stmt : ∀ u st, D.stmt () (M.stmt u st) = D.stmt () (M.rebuildStmt u st)
  expr : ∀ {s u}, R s u → ∀ {e}, F.HoldsExpr e →
    List.Forall₂ T (C.below s (.expr e)) (D.below () (.expr (M.rebuild u e))) →
    List.Forall₂ T (C.expr s e) (D.expr () (M.expr u e))

namespace Mapper.Reports

variable {M : Mapper σ ι} {F : Form ι} {C : Collector τ ι α} {D : Collector Unit ι β}
  {R : τ → σ → Prop} {T : α → β → Prop}

/-- The step from the statements of a block to the block with its heads. -/
theorem body_of_stmts (h : M.Reports F C D R T) {s : τ} {u : σ} (hR : R s u)
    (params : List (Param ι)) {b : Block ι} (hb : F.HoldsStmts b)
    (hstmts : List.Forall₂ T (C.stmts (C.ofBlock s b) b)
      (D.stmts () (M.stmts (M.ofBlock u b) b))) :
    List.Forall₂ T (C.body s params b)
      (D.body () params (M.heads params b ++ M.stmts (M.ofBlock u b) b)) := by
  have hbody := List.rel_append (h.onBlock hR params hb) hstmts
  rwa [Collector.body, Collector.body, Collector.stmts_append, h.heads, List.nil_append]

mutual

/-- What is found below a mapped expression corresponds to what was found there. -/
theorem below (h : M.Reports F C D R T) {s : τ} {u : σ} (hR : R s u) : (e : Expr ι) →
    F.BelowExpr e → List.Forall₂ T (C.below s (.expr e)) (D.below () (.expr (M.rebuild u e)))
  | .unit _, _ | .name _ _, _ | .text _ _, _ | .number _ _, _ | .variable _ _, _ => .nil
  | .member i object m, he => by
      rw [rebuild_member, Collector.below_member, Collector.below_member]
      exact h.expr hR he (below h hR object he.2)
  | .call i callee inputs, ⟨hcallee, hbelow, hinputs⟩ => by
      have hbelow' := below h hR callee hbelow
      rw [rebuild, Collector.below_call, Collector.below_call]
      refine List.rel_append ?_ (exprs h hR inputs hinputs)
      cases callee with
      | member j object m =>
          show List.Forall₂ T _ (D.expr () (M.rebuild u (.member j object m)))
          rw [Collector.expr_eq_below, Collector.expr_eq_below]
          exact List.rel_append (h.callee hR j object m) hbelow'
      | _ => exact h.expr hR ⟨hcallee.resolve_left Bool.false_ne_true, hbelow⟩ hbelow'
  | .functionLit i n params b, hb => by
      rw [rebuild_functionLit, Collector.below_functionLit, Collector.below_functionLit]
      exact h.body_of_stmts (h.ofFunction hR params b) params hb
        (stmts h (h.ofBlock (h.ofFunction hR params b) b) b hb)
  | .classLit i n ms, hms => by
      rw [rebuild, Collector.below_classLit, Collector.below_classLit]
      exact methods h hR ms hms

/-- The same for a list of expressions. -/
theorem exprs (h : M.Reports F C D R T) {s : τ} {u : σ} (hR : R s u) : (es : List (Expr ι)) →
    F.HoldsExprs es → List.Forall₂ T (C.exprs s es) (D.exprs () (M.exprs u es))
  | [], _ => .nil
  | e :: es, hes => List.rel_append (h.expr hR hes.1 (below h hR e hes.1.2)) (exprs h hR es hes.2)

/-- The same below a statement. -/
theorem rebuildStmt (h : M.Reports F C D R T) {s : τ} {u : σ} (hR : R s u) : (st : Stmt ι) →
    F.BelowStmt st → List.Forall₂ T (C.stmt s st) (D.stmt () (M.rebuildStmt u st))
  | .importPackage i n path, _ => List.rel_append (h.onStmt hR _) (h.afterStmt hR _)
  | .declare i n value, hvalue | .assign i n value, hvalue | .ret i value, hvalue
  | .expr value, hvalue => by
      have hvalue' := h.expr hR hvalue (below h hR value hvalue.2)
      exact List.rel_append (List.rel_append (h.onStmt hR _) hvalue') (h.afterStmt hR _)
  | .assignMember i object m value, ⟨hobject, hvalue⟩ => by
      have hobject' := h.expr hR hobject (below h hR object hobject.2)
      have hvalue' := h.expr hR hvalue (below h hR value hvalue.2)
      exact List.rel_append
        (List.rel_append (List.rel_append (h.onStmt hR _) hobject') hvalue') (h.afterStmt hR _)
  | .branch i condition thenBlock elseBlock, ⟨hcondition, hthen, helse⟩ => by
      have hcondition' := h.expr hR hcondition (below h hR condition hcondition.2)
      have hthen' := h.body_of_stmts hR [] hthen (stmts h (h.ofBlock hR thenBlock) thenBlock hthen)
      have helse' := h.body_of_stmts hR [] helse (stmts h (h.ofBlock hR elseBlock) elseBlock helse)
      rw [Collector.stmt_branch, Mapper.rebuildStmt, Collector.stmt_branch]
      exact List.rel_append (List.rel_append (List.rel_append
        (List.rel_append (h.onStmt hR _) hcondition') hthen') helse') (h.afterStmt hR _)

/-- The same for a list of statements in its own scope. -/
theorem stmts (h : M.Reports F C D R T) {s : τ} {u : σ} (hR : R s u) : (ss : List (Stmt ι)) →
    F.HoldsStmts ss → List.Forall₂ T (C.stmts s ss) (D.stmts () (M.stmts u ss))
  | [], _ => .nil
  | st :: ss, hss => by
      rw [Mapper.stmts, Collector.stmts, Collector.stmts, h.stmt]
      exact List.rel_append (rebuildStmt h hR st hss.1.2) (stmts h hR ss hss.2)

/-- The same for a method. -/
theorem method (h : M.Reports F C D R T) {s : τ} {u : σ} (hR : R s u) : (m : Method ι) →
    F.HoldsMethod m → List.Forall₂ T (C.method s m) (D.method () (M.method u m))
  | .mk i n params b, hb => by
      have hbody := h.body_of_stmts hR [] hb (stmts h (h.ofBlock hR b) b hb)
      have hown := h.onMethod hR (.mk i n params b)
      rw [Mapper.method_mk] at hown ⊢
      rw [Collector.method_mk, Collector.method_mk]
      exact List.rel_append hown hbody

/-- The same for a list of methods. -/
theorem methods (h : M.Reports F C D R T) {s : τ} {u : σ} (hR : R s u) : (ms : List (Method ι)) →
    F.HoldsMethods ms → List.Forall₂ T (C.methods s ms) (D.methods () (M.methods u ms))
  | [], _ => .nil
  | m :: ms, hms => List.rel_append (method h hR m hms.1) (methods h hR ms hms.2)

end

/-- The same for a block that opens a scope of its own. -/
theorem block (h : M.Reports F C D R T) {s : τ} {u : σ} (hR : R s u) {b : Block ι}
    (hb : F.HoldsStmts b) : List.Forall₂ T (C.block s b) (D.block () (M.block u b)) :=
  h.body_of_stmts hR [] hb (h.stmts (h.ofBlock hR b) b hb)

end Mapper.Reports

/-! ## Boxes -/

/-- The statement gives a variable a box that it creates. -/
def Stmt.createsBox : Stmt ι → Bool
  | .declare _ _ value | .assign _ _ value =>
      value.hook? = some .createBox || value.hook? = some .createUndefinedBox
  | _ => false

/-- Each block contributes its statements that create boxes. -/
def Stmt.boxCollector : Collector Unit ι (Stmt ι) where
  onBlock _ _ b := b.filter createsBox

/-- The record tells which variable gets its box from the statement: a parameter, which the box then
holds, or a declared variable. -/
inductive LogRecord.TellsBox : LogRecord → Stmt ι → Prop
  | parameter (i : ι) (n : String) :
      TellsBox (.boxing n) (.assign i n (Hook.createBox.call i [.variable i n]))
  | declared (i : ι) (n : String) :
      TellsBox (.boxing n) (.declare i n (Hook.createUndefinedBox.call i [.name i n]))

section BoxCollector

/-- A statement contributes nothing by itself: the block that it stands in collects it. -/
@[simp] theorem Stmt.boxCollector_onStmt (s : Stmt ι) : boxCollector.onStmt () s = [] := rfl

/-- Nothing is collected after the parts of a statement. -/
@[simp] theorem Stmt.boxCollector_afterStmt (s : Stmt ι) : boxCollector.afterStmt () s = [] := rfl

/-- Expressions create no boxes by themselves. -/
@[simp] theorem Stmt.boxCollector_onExpr (e : Expr ι) : boxCollector.onExpr () e = [] := rfl

/-- A call of a box method creates the boxes that its inputs create. -/
@[simp] theorem Stmt.boxCollector_box_call (op : BoxOp) (i : ι) (n : String)
    (inputs : List (Expr ι)) :
    boxCollector.expr () (op.call i n inputs) = boxCollector.exprs () inputs := by
  simp [BoxOp.call, Expr.callMethod, Collector.expr]

/-- What a record tells of creates a box. -/
theorem LogRecord.TellsBox.createsBox {record : LogRecord} {s : Stmt ι}
    (h : record.TellsBox s) : s.createsBox = true := by
  cases h <;> simp [Stmt.createsBox]

end BoxCollector

namespace BoxedName

end BoxedName

/-! ## Closures -/

namespace Closure

end Closure

/-! ## The log -/

/-- The stages before a given one. -/
def Stage.before (stage : Stage) : List Stage :=
  all.takeWhile fun other => other.index < stage.index

/-- The program calls none of the hooks that create boxes and closures. -/
def Program.CreatesNothing (p : Program ι) : Prop :=
  (Form.calls (· ∉ [.createBox, .createUndefinedBox, .createClosure])).HoldsStmts p.statements

/-- Before boxes or closures are made, nothing calls the hooks that make them. -/
theorem Program.CreatesNothing.avoided {p : Program ι} (hp : p.CreatesNothing) {stage : Stage}
    (hstage : stage = .boxing ∨ stage = .closures) :
    stage.avoided.HoldsStmts (p.runStages stage.before).statements := by
  have hemits : ∀ hook ∈ stage.emits,
      hook ∈ [Hook.createBox, .createUndefinedBox, .createClosure] := by
    rcases hstage with rfl | rfl <;> decide
  have hbefore : ∀ other ∈ stage.before, ∀ hook ∈ other.emits, hook ∉ stage.emits := by
    rcases hstage with rfl | rfl <;> decide
  refine Program.calls_runStages hbefore (hp.mono (fun _ hs => hs) fun e he hook hhook hmem => ?_)
  exact he hook hhook (hemits hook hmem)

end Lowering

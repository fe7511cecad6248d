import Lowering.Proofs.Collecting
import Lowering.Tree.Walk

/-!
# Traversals that record

A traversal can note what it meets while it rebuilds a tree, and a collector lists what is to be
found there without building anything. `Traversal.Records` is a condition on the actions at single
nodes: each keeps the info of its node and appends to the record what the collector contributes at
the node. Then the whole traversal gives back the tree and appends all that the collector finds
(`Traversal.Records.stmts`). Main statement: `recorder_block`, for the events of a walk.
-/

namespace Lowering

variable {ι α β γ : Type}

/-! ## Actions that append to a record -/

/-- The action returns the value and appends the list to the record. -/
def Appends (action : StateM (List α) β) (value : β) (found : List α) : Prop :=
  ∀ record, action.run record = (value, record ++ found)

namespace Appends

variable {action : StateM (List α) β} {value : β} {found found' : List α}

/-- To return a value is to append nothing. -/
theorem pure (value : β) : Appends (Pure.pure value : StateM (List α) β) value [] := by
  intro record
  rw [List.append_nil]
  rfl

/-- One action after the other appends one list after the other. -/
theorem bind {next : β → StateM (List α) γ} {result : γ} (h : Appends action value found)
    (hnext : Appends (next value) result found') :
    Appends (action >>= next) result (found ++ found') := by
  intro record
  show (next (action.run record).1).run (action.run record).2 = _
  rw [h record, hnext, List.append_assoc]

/-- The last step of a traversal puts a node together. -/
theorem bind_pure (h : Appends action value found) (make : β → γ) :
    Appends (action >>= fun x => Pure.pure (make x)) (make value) found := by
  rw [← List.append_nil found]
  exact h.bind (.pure (make value))

end Appends

/-! ## Traversals and collectors -/

/-- The action at each node keeps the info of the node and appends what the collector contributes
there. Parameters are not recorded. -/
structure Traversal.Records (T : Traversal (StateM (List α)) ι ι) (C : Collector Unit ι α) :
    Prop where
  onBlock : ∀ params b, Appends (T.onBlock b.length) () (C.onBlock () params b)
  onStmt : ∀ s, Appends (T.onStmt s.info s.kind) s.info (C.onStmt () s)
  afterStmt : ∀ s, C.afterStmt () s = []
  onExpr : ∀ e, Appends (T.onExpr e.info e.kind) e.info (C.onExpr () e)
  onMethod : ∀ i n params b, Appends (T.onMethod i n) i (C.onMethod () (.mk i n params b))
  onParam : ∀ i, Appends (T.onParam i) i []

namespace Traversal.Records

variable {T : Traversal (StateM (List α)) ι ι} {C : Collector Unit ι α}

/-- A parameter list comes back and leaves no record. -/
theorem params (h : T.Records C) (ps : List (Param ι)) : Appends (T.params ps) ps [] := by
  induction ps with
  | nil => exact .pure []
  | cons p ps ih => exact (h.onParam p.info).bind (ih.bind_pure _)

/-- The step from the statements of a block to the block. -/
theorem body_of_stmts (h : T.Records C) (params : List (Param ι)) {b : Block ι}
    (hstmts : Appends (T.stmts b) b (C.stmts () b)) (make : Block ι → β) :
    Appends (do
      T.onBlock b.length
      let b' ← T.stmts b
      pure (make b')) (make b) (C.body () params b) :=
  (h.onBlock params b).bind (hstmts.bind_pure make)

mutual

/-- An expression comes back, and what the collector finds in it is appended. -/
theorem expr (h : T.Records C) : (e : Expr ι) → Appends (T.expr e) e (C.expr () e)
  | .unit i => (h.onExpr (.unit i)).bind_pure _
  | .name i n => (h.onExpr (.name i n)).bind_pure _
  | .text i t => (h.onExpr (.text i t)).bind_pure _
  | .number i d => (h.onExpr (.number i d)).bind_pure _
  | .variable i n => (h.onExpr (.variable i n)).bind_pure _
  | .member i object m => (h.onExpr (.member i object m)).bind ((expr h object).bind_pure _)
  | .call i callee inputs => by
      rw [Collector.expr, List.append_assoc]
      exact (h.onExpr (.call i callee inputs)).bind
        ((expr h callee).bind ((exprs h inputs).bind_pure _))
  | .functionLit i n ps b => by
      rw [Collector.expr_functionLit]
      exact (h.onExpr (.functionLit i n ps b)).bind
        ((h.params ps).bind (h.body_of_stmts ps (stmts h b) _))
  | .classLit i n ms => (h.onExpr (.classLit i n ms)).bind ((methods h ms).bind_pure _)

/-- The same for a list of expressions. -/
theorem exprs (h : T.Records C) : (es : List (Expr ι)) → Appends (T.exprs es) es (C.exprs () es)
  | [] => .pure []
  | e :: es => (expr h e).bind ((exprs h es).bind_pure _)

/-- The same for a statement. -/
theorem stmt (h : T.Records C) : (s : Stmt ι) → Appends (T.stmt s) s (C.stmt () s)
  | .importPackage i n path => by
      rw [Collector.stmt, h.afterStmt, List.append_nil]
      exact (h.onStmt (.importPackage i n path)).bind_pure _
  | .declare i n value => by
      rw [Collector.stmt, h.afterStmt, List.append_nil]
      exact (h.onStmt (.declare i n value)).bind ((expr h value).bind_pure _)
  | .assign i n value => by
      rw [Collector.stmt, h.afterStmt, List.append_nil]
      exact (h.onStmt (.assign i n value)).bind ((expr h value).bind_pure _)
  | .assignMember i object m value => by
      rw [Collector.stmt, h.afterStmt, List.append_nil, List.append_assoc]
      exact (h.onStmt (.assignMember i object m value)).bind
        ((expr h object).bind ((expr h value).bind_pure _))
  | .ret i value => by
      rw [Collector.stmt, h.afterStmt, List.append_nil]
      exact (h.onStmt (.ret i value)).bind ((expr h value).bind_pure _)
  | .branch i condition thenBlock elseBlock => by
      rw [Collector.stmt_branch, h.afterStmt, List.append_nil, List.append_assoc, List.append_assoc]
      refine (h.onStmt (.branch i condition thenBlock elseBlock)).bind ((expr h condition).bind ?_)
      rw [Collector.body, List.append_assoc]
      exact (h.onBlock [] thenBlock).bind
        ((stmts h thenBlock).bind (h.body_of_stmts [] (stmts h elseBlock) _))
  | .expr e => by
      -- the statement keeps the info that its expression returns, and not the one returned for it
      rw [Collector.stmt, h.afterStmt, List.append_nil]
      exact (h.onStmt (.expr e)).bind ((expr h e).bind_pure _)

/-- The same for a list of statements. -/
theorem stmts (h : T.Records C) : (ss : List (Stmt ι)) → Appends (T.stmts ss) ss (C.stmts () ss)
  | [] => .pure []
  | s :: ss => (stmt h s).bind ((stmts h ss).bind_pure _)

/-- The same for a method. -/
theorem method (h : T.Records C) : (m : Method ι) → Appends (T.method m) m (C.method () m)
  | .mk i n ps b => by
      rw [Collector.method_mk]
      exact (h.onMethod i n ps b).bind ((h.params ps).bind (h.body_of_stmts [] (stmts h b) _))

/-- The same for a list of methods. -/
theorem methods (h : T.Records C) : (ms : List (Method ι)) →
    Appends (T.methods ms) ms (C.methods () ms)
  | [] => .pure []
  | m :: ms => (method h m).bind ((methods h ms).bind_pure _)

end

/-- The same for a block that opens a scope of its own. -/
theorem block (h : T.Records C) (b : Block ι) : Appends (T.block b) b (C.block () b) :=
  (h.onBlock [] b).bind (h.stmts b)

end Traversal.Records

/-! ## Events -/

/-- Each node is recorded by the event of meeting it, and keeps its info. -/
def Event.recorder : Traversal (StateM (List (Event ι))) ι ι where
  onBlock size := modify (· ++ [.block size])
  onStmt i kind := modifyGet fun record => (i, record ++ [.stmt i kind])
  onExpr i kind := modifyGet fun record => (i, record ++ [.expr i kind])
  onMethod i n := modifyGet fun record => (i, record ++ [.method i n])
  onParam i := pure i

/-- The traversal and the collector of events agree at each node. -/
theorem Event.recorder_records :
    (recorder : Traversal (StateM (List (Event ι))) ι ι).Records collector where
  onBlock _ _ _ := rfl
  onStmt _ _ := rfl
  afterStmt _ := rfl
  onExpr _ _ := rfl
  onMethod _ _ _ _ _ := rfl
  onParam := .pure

/-- Rebuilding a block while recording each node before its children gives back the block, and the
record is the list of events that a walk through the block collects. -/
theorem recorder_block (b : Block ι) : (Event.recorder.block b).run [] = (b, b.events) :=
  Event.recorder_records.block b []

end Lowering

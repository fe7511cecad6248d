import Mathlib.Data.List.Sort
import Lowering.Proofs.Rewriting
import Lowering.Proofs.Undoing
import Lowering.Tree.Kind

/-!
# Captures are lexical

Inside a function, closure conversion knows only what the function itself binds or captures. It
still finds exactly the captures that the lexical scopes of the whole program give, since a function
captures all that deeper functions need. Main statement: `captures_lexical`, which says what becomes
of every function literal. Conversion adds nothing else: without the captures, what is left is the
program as it was (`closures_erased`).
-/

namespace Lowering

variable {ι : Type}

/-! ## Free uses of a name -/

mutual

/-- Somewhere in the expression the name is read or assigned, and no function or block within the
expression binds it there. -/
inductive Expr.UsesFree (n : String) : Expr ι → Prop where
  | read (i) : Expr.UsesFree n (.variable i n)
  | object (i object m) : Expr.UsesFree n object → Expr.UsesFree n (.member i object m)
  | callee (i callee inputs) : Expr.UsesFree n callee → Expr.UsesFree n (.call i callee inputs)
  | input (i callee inputs e) : e ∈ inputs → Expr.UsesFree n e →
      Expr.UsesFree n (.call i callee inputs)
  | body (i m params b s) : n ∉ Param.names params → n ∉ Block.declared b →
      s ∈ b → Stmt.UsesFree n s → Expr.UsesFree n (.functionLit i m params b)
  | method (i m methods j l params b s) : Method.mk j l params b ∈ methods →
      n ∉ Block.declared b → s ∈ b → Stmt.UsesFree n s → Expr.UsesFree n (.classLit i m methods)

/-- The same for a statement. -/
inductive Stmt.UsesFree (n : String) : Stmt ι → Prop where
  | target (i value) : Stmt.UsesFree n (.assign i n value)
  | declared (i m value) : Expr.UsesFree n value → Stmt.UsesFree n (.declare i m value)
  | assigned (i m value) : Expr.UsesFree n value → Stmt.UsesFree n (.assign i m value)
  | object (i object m value) : Expr.UsesFree n object →
      Stmt.UsesFree n (.assignMember i object m value)
  | member (i object m value) : Expr.UsesFree n value →
      Stmt.UsesFree n (.assignMember i object m value)
  | returned (i value) : Expr.UsesFree n value → Stmt.UsesFree n (.ret i value)
  | condition (i condition thenBlock elseBlock) : Expr.UsesFree n condition →
      Stmt.UsesFree n (.branch i condition thenBlock elseBlock)
  | thenBlock (i condition thenBlock elseBlock s) : n ∉ Block.declared thenBlock →
      s ∈ thenBlock → Stmt.UsesFree n s →
      Stmt.UsesFree n (.branch i condition thenBlock elseBlock)
  | elseBlock (i condition thenBlock elseBlock s) : n ∉ Block.declared elseBlock →
      s ∈ elseBlock → Stmt.UsesFree n s →
      Stmt.UsesFree n (.branch i condition thenBlock elseBlock)
  | expr (e) : Expr.UsesFree n e → Stmt.UsesFree n (.expr e)

end

mutual

/-- The free names of an expression are those that it uses freely. -/
theorem usesFree_expr {n : String} : (e : Expr ι) →
    (e.UsesFree n ↔ n ∈ freeNameCollector.expr [] e)
  | .unit _ | .name _ _ | .text _ _ | .number _ _ => by
      simp only [Collector.expr, free_onExpr, List.not_mem_nil, iff_false]
      rintro ⟨⟩
  | .variable i m => by
      simp only [Collector.expr, free_onExpr, List.not_mem_nil, if_false, List.mem_singleton]
      constructor
      · rintro ⟨⟩
        rfl
      · rintro rfl
        exact .read i
  | .member i object m => by
      simp only [Collector.expr, free_onExpr, List.nil_append, ← usesFree_expr object]
      constructor
      · intro h
        cases h with | object _ _ _ h =>
        exact h
      · exact .object i object m
  | .call i callee inputs => by
      simp only [Collector.expr, free_onExpr, List.nil_append, List.mem_append,
        ← usesFree_expr callee, ← usesFree_exprs inputs]
      constructor
      · intro h
        cases h with
        | callee _ _ _ h => exact .inl h
        | input _ _ _ e he h => exact .inr ⟨e, he, h⟩
      · rintro (h | ⟨e, he, h⟩)
        · exact .callee i callee inputs h
        · exact .input i callee inputs e he h
  | .functionLit i m params b => by
      rw [free_functionLit, mem_freeNames, ← usesFree_stmts b]
      constructor
      · intro h
        cases h with | body _ _ _ _ s hparams hb hs h =>
        exact ⟨⟨s, hs, h⟩, hb, hparams⟩
      · rintro ⟨⟨s, hs, h⟩, hb, hparams⟩
        exact .body i m params b s hparams hb hs h
  | .classLit i m methods => by
      simp only [Collector.expr, free_onExpr, List.nil_append, ← usesFree_methods methods]
      constructor
      · intro h
        cases h with | method _ _ _ j l params b s hmem hb hs h =>
        exact ⟨j, l, params, b, hmem, hb, s, hs, h⟩
      · rintro ⟨j, l, params, b, hmem, hb, s, hs, h⟩
        exact .method i m methods j l params b s hmem hb hs h

/-- The same for a list of expressions. -/
theorem usesFree_exprs {n : String} : (es : List (Expr ι)) →
    ((∃ e ∈ es, e.UsesFree n) ↔ n ∈ freeNameCollector.exprs [] es)
  | [] => by simp [Collector.exprs]
  | e :: es => by
      rw [Collector.exprs, List.mem_append, ← usesFree_expr e, ← usesFree_exprs es,
        List.exists_mem_cons_iff]

/-- The same for a statement. -/
theorem usesFree_stmt {n : String} : (s : Stmt ι) →
    (s.UsesFree n ↔ n ∈ freeNameCollector.stmt [] s)
  | .importPackage _ _ _ => by
      simp only [Collector.stmt, free_onStmt, free_afterStmt, List.append_nil, List.not_mem_nil,
        iff_false]
      rintro ⟨⟩
  | .declare i m value => by
      simp only [Collector.stmt, free_onStmt, free_afterStmt, List.nil_append, List.append_nil,
        ← usesFree_expr value]
      constructor
      · intro h
        cases h with | declared _ _ _ h =>
        exact h
      · exact .declared i m value
  | .assign i m value => by
      simp only [Collector.stmt, free_onStmt, free_afterStmt, List.not_mem_nil, if_false,
        List.append_nil, List.mem_append, List.mem_singleton, ← usesFree_expr value]
      constructor
      · intro h
        cases h with
        | target => exact .inl rfl
        | assigned _ _ _ h => exact .inr h
      · rintro (rfl | h)
        · exact .target i value
        · exact .assigned i m value h
  | .assignMember i object m value => by
      simp only [Collector.stmt, free_onStmt, free_afterStmt, List.nil_append, List.append_nil,
        List.mem_append, ← usesFree_expr object, ← usesFree_expr value]
      constructor
      · intro h
        cases h with
        | object _ _ _ _ h => exact .inl h
        | member _ _ _ _ h => exact .inr h
      · rintro (h | h)
        · exact .object i object m value h
        · exact .member i object m value h
  | .ret i value => by
      simp only [Collector.stmt, free_onStmt, free_afterStmt, List.nil_append, List.append_nil,
        ← usesFree_expr value]
      constructor
      · intro h
        cases h with | returned _ _ h =>
        exact h
      · exact .returned i value
  | .branch i condition thenBlock elseBlock => by
      simp only [Collector.stmt, free_onStmt, free_onBlock, free_ofBlock, free_afterStmt,
        List.nil_append, List.append_nil, List.mem_append, ← usesFree_expr condition]
      rw [mem_free_stmts, ← usesFree_stmts thenBlock, mem_free_stmts, ← usesFree_stmts elseBlock]
      constructor
      · intro h
        cases h with
        | condition _ _ _ _ h => exact .inl (.inl h)
        | thenBlock _ _ _ _ s hb hs h => exact .inl (.inr ⟨⟨s, hs, h⟩, hb⟩)
        | elseBlock _ _ _ _ s hb hs h => exact .inr ⟨⟨s, hs, h⟩, hb⟩
      · rintro ((h | ⟨⟨s, hs, h⟩, hb⟩) | ⟨⟨s, hs, h⟩, hb⟩)
        · exact .condition i condition thenBlock elseBlock h
        · exact .thenBlock i condition thenBlock elseBlock s hb hs h
        · exact .elseBlock i condition thenBlock elseBlock s hb hs h
  | .expr e => by
      simp only [Collector.stmt, free_onStmt, free_afterStmt, List.nil_append, List.append_nil,
        ← usesFree_expr e]
      constructor
      · intro h
        cases h with | expr _ h =>
        exact h
      · exact .expr e

/-- The same for a list of statements in its own scope. -/
theorem usesFree_stmts {n : String} : (ss : List (Stmt ι)) →
    ((∃ s ∈ ss, s.UsesFree n) ↔ n ∈ freeNameCollector.stmts [] ss)
  | [] => by simp [Collector.stmts]
  | s :: ss => by
      rw [Collector.stmts, List.mem_append, ← usesFree_stmt s, ← usesFree_stmts ss,
        List.exists_mem_cons_iff]

/-- The same for the bodies of a list of methods. -/
theorem usesFree_methods {n : String} : (ms : List (Method ι)) →
    ((∃ j l params b, Method.mk j l params b ∈ ms ∧ n ∉ Block.declared b ∧
      ∃ s ∈ b, s.UsesFree n) ↔ n ∈ freeNameCollector.methods [] ms)
  | [] => by simp [Collector.methods]
  | .mk i m params b :: ms => by
      rw [Collector.methods, List.mem_append, ← usesFree_methods ms]
      simp only [Collector.method, free_onMethod, free_onBlock, free_ofBlock, List.append_nil,
        List.nil_append]
      rw [mem_free_stmts, ← usesFree_stmts b]
      constructor
      · rintro ⟨j, l, params, body, hmem, hbody, h⟩
        rcases List.mem_cons.mp hmem with hmem | hmem
        · cases hmem
          exact .inl ⟨h, hbody⟩
        · exact .inr ⟨j, l, params, body, hmem, hbody, h⟩
      · rintro (⟨h, hb⟩ | ⟨j, l, params, body, hmem, h⟩)
        · exact ⟨i, m, params, b, List.mem_cons_self, hb, h⟩
        · exact ⟨j, l, params, body, List.mem_cons_of_mem _ hmem, h⟩

end

namespace Closure

/-! ## What becomes of every function literal -/

/-- The names are the captures of a function literal inside the given blocks: those that it uses
freely and that any of the blocks binds, in increasing order. -/
structure IsCaptures (around : Enclosing ι) (f : Expr ι) (names : List String) : Prop where
  increasing : names.Pairwise (· < ·)
  mem_iff : ∀ n, n ∈ names ↔ f.UsesFree n ∧ around.Binds n

/-- A function literal has one list of captures. -/
theorem IsCaptures.unique {around : Enclosing ι} {f : Expr ι} {names names' : List String}
    (h : IsCaptures around f names) (h' : IsCaptures around f names') : names' = names :=
  h'.increasing.eq_of_mem_iff h.increasing fun n => (h'.mem_iff n).trans (h.mem_iff n).symm

/-- What becomes of an expression, given as it was and with its children rewritten. A function
literal that captures something gets its captures as parameters before its own, and is bundled with
their values. -/
inductive Lifts (around : Enclosing ι) (original : Expr ι) : Expr ι → Expr ι → Prop where
  | closed (i n params b) : IsCaptures around original [] →
      Lifts around original (.functionLit i n params b) (.functionLit i n params b)
  | bundled (i n params b names) : names ≠ [] → IsCaptures around original names →
      Lifts around original (.functionLit i n params b)
        (Hook.createClosure.call i
          (.functionLit i n (names.map (⟨i, ·⟩) ++ params) b :: names.map (.variable i ·)))
  | other (e) : e.kind ≠ .functionLit → Lifts around original e e

/-- Function literals are lifted, and all other nodes stay. -/
def lifting : Rewriting ι where
  expr := Lifts

/-- A function literal is lifted in one way only. -/
theorem Lifts.unique {around : Enclosing ι} {original e t t' : Expr ι}
    (h : Lifts around original e t) (h' : Lifts around original e t') : t' = t := by
  cases h with
  | closed i n params b hnone =>
      cases h' with
      | closed => rfl
      | bundled _ _ _ _ _ hsome hnames => exact absurd (hnone.unique hnames) hsome
      | other _ hkind => rfl
  | bundled i n params b names hsome hnames =>
      cases h' with
      | closed _ _ _ _ hnone => exact absurd (hnone.unique hnames) hsome
      | bundled _ _ _ _ _ _ hnames' => rw [hnames.unique hnames']
      | other _ hkind => exact absurd rfl hkind
  | other _ hkind =>
      cases h' with
      | closed => rfl
      | bundled => exact absurd rfl hkind
      | other => rfl

/-- So code is rewritten in one way only. -/
theorem lifting_determined : (lifting : Rewriting ι).Determined where
  heads h h' := h'.trans h.symm
  stmt h h' := h'.trans h.symm
  expr h h' := h.unique h'

/-- As far as the names go, those that can be captured are those that the blocks around bind. -/
def Fits (available : List String) (around : Enclosing ι) (names : List String) : Prop :=
  ∀ n ∈ names, (n ∈ available ↔ around.Binds n)

/-- Inside a function, what it binds or captures is all that matters of what the program binds: a
name that is used deeper and bound further out is captured by the function itself. -/
theorem Fits.function {available : List String} {around : Enclosing ι} {params : List (Param ι)}
    {b : Block ι} (h : Fits available around (freeNames params b)) :
    Fits (b.declared ++ (captures available params b ++ Param.names params))
      ((params, b) :: around) (freeNameCollector.stmts [] b) := by
  intro n hn
  rw [List.mem_append, List.mem_append, mem_captures, Enclosing.binds_cons]
  by_cases hbound : n ∈ Param.names params ∨ n ∈ b.declared
  · refine iff_of_true ?_ (.inl hbound)
    rcases hbound with hparams | hb
    · exact .inr (.inr hparams)
    · exact .inl hb
  · -- free in the function too, which therefore captures it if it is bound anywhere around
    rw [not_or] at hbound
    have hfree : n ∈ freeNames params b := mem_freeNames.mpr ⟨hn, hbound.2, hbound.1⟩
    simp only [hbound.1, hbound.2, hfree, h n hfree, true_and, false_or, or_false]

/-- A block adds what it declares. -/
theorem Fits.block {available : List String} {around : Enclosing ι} {b : Block ι}
    (h : Fits available around (freeNameCollector.block [] b)) :
    Fits (b.declared ++ available) (([], b) :: around) (freeNameCollector.stmts [] b) := by
  intro n hn
  rw [List.mem_append, Enclosing.binds_cons]
  by_cases hbound : n ∈ b.declared
  · simp only [hbound, true_or, or_true]
  · have hfree : n ∈ freeNames ([] : List (Param ι)) b :=
      mem_freeNames.mpr ⟨hn, hbound, List.not_mem_nil⟩
    simp only [hbound, false_or, or_false, h n hfree, Param.names, List.map_nil, List.not_mem_nil]

/-- Where the names fit, conversion finds the captures of a function literal. -/
theorem isCaptures_captures {available : List String} {around : Enclosing ι}
    {params : List (Param ι)} {b : Block ι} (h : Fits available around (freeNames params b))
    (i : ι) (m : Option String) :
    IsCaptures around (.functionLit i m params b) (captures available params b) := by
  refine ⟨Names.pairwise_sorted _, fun n => ?_⟩
  rw [mem_captures, usesFree_expr, free_functionLit]
  exact and_congr_right fun hn => h n hn

/-- Closure conversion lifts function literals as their lexical scopes require. -/
theorem mapper_follows : (mapper : Mapper (List String) ι).Follows lifting Fits where
  keepsMembers := mapper_keepsMembers
  fewer h hnames n hn := h n (hnames n hn)
  function _ _ h := h.function
  block _ h := h.block
  heads _ _ := rfl
  stmt s _ _ := Mapper.stmt_eq _ _ s
  expr {available around} e h := by
    cases e with
    | functionLit i n params b =>
        rw [free_functionLit] at h
        have hcaptures := isCaptures_captures h i n
        rw [expr_functionLit, bundle]
        split
        · rename_i hnone
          rw [List.isEmpty_iff] at hnone
          exact .closed i n params _ (hnone ▸ hcaptures)
        · rename_i hsome
          rw [List.isEmpty_iff] at hsome
          exact .bundled i n params _ _ hsome hcaptures
    | _ => exact .other _ (by simp [Mapper.rebuild, Expr.kind])

/-! ## Erased closures -/

/-- Replace each closure by its function, without as many parameters as it has captures. -/
def erase (p : Program ι) : Program ι :=
  ⟨undoing.block () p.statements⟩

/-- Conversion makes no difference if closures are erased afterwards. -/
theorem undoing_composes :
    (mapper : Mapper (List String) ι).Composes undoing undoing (fun _ _ _ => True) .any where
  heads _ _ := ⟨rfl, rfl, rfl⟩
  callees := mapper_keepsCallees
  ofFunction _ _ _ := trivial
  ofBlock _ _ := trivial
  stmt _ s _ hrebuilt := by
    rw [Mapper.stmt_eq, Mapper.stmt_eq, Mapper.stmt_eq]
    exact hrebuilt
  expr {available _ _} _ e _ hrebuilt := by
    cases e with
    | functionLit i n params b =>
        -- the literal is kept or bundled, and erasing gives the literal back either way
        rcases undoneBy.expr available (.functionLit i n params b) with hkept | hchanged
        · rw [hkept]
          exact congrArg unbundle hrebuilt
        · exact hchanged.trans hrebuilt
    | _ => exact congrArg unbundle hrebuilt

/-- Erasing closures undoes the conversion, up to closures that were there before. -/
theorem erase_run (p : Program ι) : erase (run p) = erase p :=
  congrArg Program.mk (undoing_composes.stmts trivial p.statements (Form.any_stmts _))

end Closure

/-- Captures are exactly lexical: a function literal gets, in increasing order, the names that are
used freely in it and that some block around it binds, however many functions lie in between. They
become parameters before its own, and it is bundled with their values if there are any. Nothing else
is changed. -/
theorem captures_lexical (p q : Program ι) :
    Closure.run p = q ↔ Closure.lifting.RewritesBlock [] [] p.statements q.statements := by
  -- around the program nothing is bound and nothing can be captured, so that the two agree
  have hrun : Closure.lifting.RewritesBlock [] [] p.statements (Closure.run p).statements :=
    Closure.mapper_follows.block_rewrites fun n _ =>
      iff_of_false List.not_mem_nil (Enclosing.not_binds_nil n)
  constructor
  · rintro rfl
    exact hrun
  · intro hq
    exact congrArg Program.mk (Closure.lifting_determined.block hq hrun)

/-- Closure conversion can be undone by erasing closures: it makes no difference to what is left
then, and that is the program itself if it makes no closures. -/
theorem closures_erased (p : Program ι) :
    Closure.erase (Closure.run p) = Closure.erase p ∧
    (Stage.closures.avoided.HoldsStmts p.statements → Closure.erase (Closure.run p) = p) :=
  ⟨Closure.erase_run p, fun hp => congrArg Program.mk (Closure.undoneBy.block_eq [] hp)⟩

/-- Functions in functions that use names from all around, one of them in a method. -/
def nestedCaptures : Program ℕ :=
  ⟨[.declare 1 "top" (.number 2 "1"),
    .expr (.functionLit 3 (some "outer") [⟨4, "a"⟩]
      [.ret 5 (.functionLit 6 (some "inner") [⟨7, "b"⟩]
        [.ret 8 (.functionLit 9 none [⟨10, "c"⟩]
          [.assign 11 "b" (.variable 12 "a"),
            .ret 13 (.call 14 (.variable 15 "top") [.variable 16 "c"])])])]),
    .declare 17 "made" (.classLit 18 none
      [.mk 19 "make" [] [.ret 20 (.functionLit 21 none [] [.ret 22 (.variable 23 "top")])]])]⟩

/-- Captures are passed on from function to function, and erasing gives the program back. -/
theorem erased_nestedCaptures :
    Closure.captured nestedCaptures = [["top"], ["a", "top"], ["a", "b", "top"], ["top"]] ∧
    Stage.closures.avoided.HoldsStmts nestedCaptures.statements ∧
    Closure.erase (Closure.run nestedCaptures) = nestedCaptures := by
  have havoided : Stage.closures.avoided.HoldsStmts nestedCaptures.statements := by
    simp [nestedCaptures, Stage.avoided, Form.calls, Expr.hook?, Form.HoldsStmts, Form.BelowStmt,
      Form.BelowExpr, Form.HoldsExprs, Form.HoldsMethods, Form.HoldsMethod]
  exact ⟨rfl, havoided, (closures_erased nestedCaptures).2 havoided⟩

end Lowering

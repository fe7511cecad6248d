import Lowering.Proofs.FreeNames

/-!
# Rewriting by lexical scope

A `Rewriting` says what becomes of a node, given the blocks that enclose it in the source: all of
them, out to the program itself, each with its statements and the parameters that belong to it. It
is a relation between trees and knows nothing of the scopes that a traversal carries.

A mapper whose rules agree with those of a rewriting at each node rewrites whole trees that way
(`Mapper.Follows.stmts`). If the rules leave no choice, rewriting has only one result
(`Rewriting.Determined.stmts`), and so describes the mapper completely.
-/

namespace Lowering

variable {σ ι : Type}

/-- The blocks around a node, the innermost one first, each with the parameters that belong to
it. -/
abbrev Enclosing (ι : Type) := List (List (Param ι) × Block ι)

/-- One of the blocks binds the name, by a parameter or by a declaration anywhere in the block. -/
def Enclosing.Binds (around : Enclosing ι) (n : String) : Prop :=
  ∃ frame ∈ around, n ∈ Param.names frame.1 ∨ n ∈ Block.declared frame.2

/-- Around the program nothing is bound. -/
theorem Enclosing.not_binds_nil (n : String) : ¬ Enclosing.Binds ([] : Enclosing ι) n :=
  fun ⟨_, hframe, _⟩ => absurd hframe List.not_mem_nil

/-- The innermost block binds a name, or the blocks around it do. -/
theorem Enclosing.binds_cons {params : List (Param ι)} {b : Block ι} {around : Enclosing ι}
    {n : String} :
    Enclosing.Binds ((params, b) :: around) n ↔
      (n ∈ Param.names params ∨ n ∈ b.declared) ∨ around.Binds n :=
  List.exists_mem_cons_iff _ _ _

/-- The statement stands directly in the innermost of the blocks, if there is one. -/
def Enclosing.Contains : Enclosing ι → Stmt ι → Prop
  | [], _ => True
  | (_, b) :: _, s => s ∈ b

/-- What becomes of single nodes. -/
structure Rewriting (ι : Type) where
  /-- The statements that are put before those of a block with its parameters. -/
  heads : List (Param ι) → Block ι → Block ι → Prop := fun _ _ heads => heads = []
  /-- What becomes of a statement, given with its children rewritten. -/
  stmt : Enclosing ι → Stmt ι → Stmt ι → Prop := fun _ rebuilt result => result = rebuilt
  /-- What becomes of an expression, given as it was and with its children rewritten. -/
  expr : Enclosing ι → Expr ι → Expr ι → Expr ι → Prop

namespace Rewriting

mutual

/-- `R.RebuildsExpr around e e'` says that `e'` is `e` with its children rewritten. -/
inductive RebuildsExpr (R : Rewriting ι) : Enclosing ι → Expr ι → Expr ι → Prop where
  | unit (around i) : RebuildsExpr R around (.unit i) (.unit i)
  | name (around i n) : RebuildsExpr R around (.name i n) (.name i n)
  | text (around i t) : RebuildsExpr R around (.text i t) (.text i t)
  | number (around i d) : RebuildsExpr R around (.number i d) (.number i d)
  | variable (around i n) : RebuildsExpr R around (.variable i n) (.variable i n)
  | member (around i object object' m) :
      RewritesExpr R around object object' →
      RebuildsExpr R around (.member i object m) (.member i object' m)
  | call (around i callee callee' inputs inputs') :
      RewritesExpr R around callee callee' → RewritesExprs R around inputs inputs' →
      RebuildsExpr R around (.call i callee inputs) (.call i callee' inputs')
  | functionLit (around i n params b b') :
      RewritesBlock R around params b b' →
      RebuildsExpr R around (.functionLit i n params b) (.functionLit i n params b')
  | classLit (around i n methods methods') :
      RewritesMethods R around methods methods' →
      RebuildsExpr R around (.classLit i n methods) (.classLit i n methods')

/-- `R.RewritesExpr around e e'` says that `e` becomes `e'`. -/
inductive RewritesExpr (R : Rewriting ι) : Enclosing ι → Expr ι → Expr ι → Prop where
  | node (around e rebuilt result) :
      RebuildsExpr R around e rebuilt → R.expr around e rebuilt result →
      RewritesExpr R around e result

/-- The same for each expression of a list. -/
inductive RewritesExprs (R : Rewriting ι) :
    Enclosing ι → List (Expr ι) → List (Expr ι) → Prop where
  | nil (around) : RewritesExprs R around [] []
  | cons (around e e' es es') :
      RewritesExpr R around e e' → RewritesExprs R around es es' →
      RewritesExprs R around (e :: es) (e' :: es')

/-- `R.RebuildsStmt around s s'` says that `s'` is `s` with its children rewritten. -/
inductive RebuildsStmt (R : Rewriting ι) : Enclosing ι → Stmt ι → Stmt ι → Prop where
  | importPackage (around i n path) :
      RebuildsStmt R around (.importPackage i n path) (.importPackage i n path)
  | declare (around i n value value') :
      RewritesExpr R around value value' →
      RebuildsStmt R around (.declare i n value) (.declare i n value')
  | assign (around i n value value') :
      RewritesExpr R around value value' →
      RebuildsStmt R around (.assign i n value) (.assign i n value')
  | assignMember (around i object object' m value value') :
      RewritesExpr R around object object' → RewritesExpr R around value value' →
      RebuildsStmt R around (.assignMember i object m value) (.assignMember i object' m value')
  | ret (around i value value') :
      RewritesExpr R around value value' → RebuildsStmt R around (.ret i value) (.ret i value')
  | branch (around i condition condition' thenBlock thenBlock' elseBlock elseBlock') :
      RewritesExpr R around condition condition' →
      RewritesBlock R around [] thenBlock thenBlock' →
      RewritesBlock R around [] elseBlock elseBlock' →
      RebuildsStmt R around (.branch i condition thenBlock elseBlock)
        (.branch i condition' thenBlock' elseBlock')
  | expr (around e e') :
      RewritesExpr R around e e' → RebuildsStmt R around (.expr e) (.expr e')

/-- `R.RewritesStmts around ss ss'` says that the statements `ss` become the statements `ss'`, one
by one. -/
inductive RewritesStmts (R : Rewriting ι) :
    Enclosing ι → List (Stmt ι) → List (Stmt ι) → Prop where
  | nil (around) : RewritesStmts R around [] []
  | cons (around s rebuilt s' ss ss') :
      RebuildsStmt R around s rebuilt → R.stmt around rebuilt s' →
      RewritesStmts R around ss ss' → RewritesStmts R around (s :: ss) (s' :: ss')

/-- `R.RewritesBlock around params b b'` says that the block `b` with its parameters becomes the
block `b'`. It encloses its own statements. -/
inductive RewritesBlock (R : Rewriting ι) :
    Enclosing ι → List (Param ι) → Block ι → Block ι → Prop where
  | block (around params b heads ss') :
      R.heads params b heads → RewritesStmts R ((params, b) :: around) b ss' →
      RewritesBlock R around params b (heads ++ ss')

/-- The same for the body of each method of a list. It is a block without parameters: those of a
method count only once it has become a function. -/
inductive RewritesMethods (R : Rewriting ι) :
    Enclosing ι → List (Method ι) → List (Method ι) → Prop where
  | nil (around) : RewritesMethods R around [] []
  | cons (around i n params b b' methods methods') :
      RewritesBlock R around [] b b' → RewritesMethods R around methods methods' →
      RewritesMethods R around (.mk i n params b :: methods) (.mk i n params b' :: methods')

end

end Rewriting

/-! ## Mappers that rewrite -/

/-- The rules of a mapper agree with those of a rewriting. A scope has to fit the blocks around a
node as far as the names go that are used below the node. -/
structure Mapper.Follows (M : Mapper σ ι) (R : Rewriting ι)
    (Fits : σ → Enclosing ι → List String → Prop) : Prop where
  keepsMembers : M.KeepsMembers
  fewer : ∀ {scope around names names'}, Fits scope around names →
    (∀ n ∈ names', n ∈ names) → Fits scope around names'
  function : ∀ {scope around} params b, Fits scope around (freeNames params b) →
    Fits (M.ofBlock (M.ofFunction scope params b) b) ((params, b) :: around)
      (freeNameCollector.stmts [] b)
  block : ∀ {scope around} b, Fits scope around (freeNameCollector.block [] b) →
    Fits (M.ofBlock scope b) (([], b) :: around) (freeNameCollector.stmts [] b)
  heads : ∀ params b, R.heads params b (M.heads params b)
  stmt : ∀ {scope around} s, Fits scope around (freeNameCollector.stmt [] s) →
    around.Contains s → R.stmt around (M.rebuildStmt scope s) (M.stmt scope s)
  expr : ∀ {scope around} e, Fits scope around (freeNameCollector.expr [] e) →
    R.expr around e (M.rebuild scope e) (M.expr scope e)

namespace Mapper.Follows

variable {M : Mapper σ ι} {R : Rewriting ι} {Fits : σ → Enclosing ι → List String → Prop}

/-- What fits some names fits the first of them. -/
theorem left (h : M.Follows R Fits) {scope : σ} {around : Enclosing ι} {first second : List String}
    (hfits : Fits scope around (first ++ second)) : Fits scope around first :=
  h.fewer hfits fun _ => List.mem_append_left _

/-- What fits some names fits the last of them. -/
theorem right (h : M.Follows R Fits) {scope : σ} {around : Enclosing ι} {first second : List String}
    (hfits : Fits scope around (first ++ second)) : Fits scope around second :=
  h.fewer hfits fun _ => List.mem_append_right _

/-- The step from the children of an expression to the expression. -/
theorem expr_of_rebuild (h : M.Follows R Fits) {scope : σ} {around : Enclosing ι} {e : Expr ι}
    (hfits : Fits scope around (freeNameCollector.expr [] e))
    (hbelow : R.RebuildsExpr around e (M.rebuild scope e)) :
    R.RewritesExpr around e (M.expr scope e) :=
  .node around e _ _ hbelow (h.expr e hfits)

/-- The step from the statements of a branch or of the body of a method to the block. -/
theorem block_of_stmts (h : M.Follows R Fits) {scope : σ} {around : Enclosing ι} {b : Block ι}
    (hstmts : R.RewritesStmts (([], b) :: around) b (M.stmts (M.ofBlock scope b) b)) :
    R.RewritesBlock around [] b (M.block scope b) :=
  .block around [] b _ _ (h.heads [] b) hstmts

mutual

/-- The mapper rewrites the children of an expression. -/
theorem rebuild (h : M.Follows R Fits) {scope : σ} {around : Enclosing ι} : (e : Expr ι) →
    Fits scope around (freeNameCollector.expr [] e) →
    R.RebuildsExpr around e (M.rebuild scope e)
  | .unit i, _ => .unit around i
  | .name i n, _ => .name around i n
  | .text i t, _ => .text around i t
  | .number i d, _ => .number around i d
  | .variable i n, _ => .variable around i n
  | .member i object m, hfits => by
      simp only [Collector.expr, free_onExpr, List.nil_append] at hfits
      exact .member around i _ _ m (h.expr_of_rebuild hfits (rebuild h object hfits))
  | .call i callee inputs, hfits => by
      simp only [Collector.expr, free_onExpr, List.nil_append] at hfits
      have hcallee := h.expr_of_rebuild (h.left hfits) (rebuild h callee (h.left hfits))
      -- a selected method is skipped by the rules, but they would not change it
      rw [h.keepsMembers.rebuild_call]
      exact .call around i _ _ _ _ hcallee (exprs h inputs (h.right hfits))
  | .functionLit i n params b, hfits => by
      rw [free_functionLit] at hfits
      -- the statements of the body stand in the body and behind the parameters
      have hbody := stmts h b (h.function params b hfits) fun _ hs => hs
      exact .functionLit around i n params _ _
        (.block around params b _ _ (h.heads params b) hbody)
  | .classLit i n ms, hfits => by
      simp only [Collector.expr, free_onExpr, List.nil_append] at hfits
      exact .classLit around i n _ _ (methods h ms hfits)

/-- The mapper rewrites a list of expressions. -/
theorem exprs (h : M.Follows R Fits) {scope : σ} {around : Enclosing ι} : (es : List (Expr ι)) →
    Fits scope around (freeNameCollector.exprs [] es) →
    R.RewritesExprs around es (M.exprs scope es)
  | [], _ => .nil around
  | e :: es, hfits => by
      rw [Collector.exprs] at hfits
      have hhead := h.expr_of_rebuild (h.left hfits) (rebuild h e (h.left hfits))
      exact .cons around _ _ _ _ hhead (exprs h es (h.right hfits))

/-- The mapper rewrites the children of a statement. -/
theorem rebuildStmt (h : M.Follows R Fits) {scope : σ} {around : Enclosing ι} : (s : Stmt ι) →
    Fits scope around (freeNameCollector.stmt [] s) →
    R.RebuildsStmt around s (M.rebuildStmt scope s)
  | .importPackage i n path, _ => .importPackage around i n path
  | .declare i n value, hfits => by
      simp only [Collector.stmt, free_onStmt, free_afterStmt, List.nil_append,
        List.append_nil] at hfits
      exact .declare around i n _ _ (h.expr_of_rebuild hfits (rebuild h value hfits))
  | .assign i n value, hfits => by
      simp only [Collector.stmt, free_afterStmt, List.append_nil] at hfits
      have hvalue := h.right hfits
      exact .assign around i n _ _ (h.expr_of_rebuild hvalue (rebuild h value hvalue))
  | .assignMember i object m value, hfits => by
      simp only [Collector.stmt, free_onStmt, free_afterStmt, List.nil_append,
        List.append_nil] at hfits
      have hobject := h.expr_of_rebuild (h.left hfits) (rebuild h object (h.left hfits))
      have hvalue := h.expr_of_rebuild (h.right hfits) (rebuild h value (h.right hfits))
      exact .assignMember around i _ _ m _ _ hobject hvalue
  | .ret i value, hfits => by
      simp only [Collector.stmt, free_onStmt, free_afterStmt, List.nil_append,
        List.append_nil] at hfits
      exact .ret around i _ _ (h.expr_of_rebuild hfits (rebuild h value hfits))
  | .branch i condition thenBlock elseBlock, hfits => by
      simp only [Collector.stmt, free_onStmt, free_onBlock, free_afterStmt, List.nil_append,
        List.append_nil] at hfits
      have hcondition := h.left (h.left hfits)
      have hthen := stmts h thenBlock (h.block thenBlock (h.right (h.left hfits))) fun _ hs => hs
      have helse := stmts h elseBlock (h.block elseBlock (h.right hfits)) fun _ hs => hs
      exact .branch around i _ _ _ _ _ _
        (h.expr_of_rebuild hcondition (rebuild h condition hcondition))
        (h.block_of_stmts hthen) (h.block_of_stmts helse)
  | .expr e, hfits => by
      simp only [Collector.stmt, free_onStmt, free_afterStmt, List.nil_append,
        List.append_nil] at hfits
      exact .expr around _ _ (h.expr_of_rebuild hfits (rebuild h e hfits))

/-- The mapper rewrites a list of statements that stand in the innermost block around them. -/
theorem stmts (h : M.Follows R Fits) {scope : σ} {around : Enclosing ι} : (ss : List (Stmt ι)) →
    Fits scope around (freeNameCollector.stmts [] ss) →
    (∀ s ∈ ss, around.Contains s) → R.RewritesStmts around ss (M.stmts scope ss)
  | [], _, _ => .nil around
  | s :: ss, hfits, hcontains => by
      rw [Collector.stmts] at hfits
      have hhead := rebuildStmt h s (h.left hfits)
      have hrule := h.stmt s (h.left hfits) (hcontains s List.mem_cons_self)
      have htail := stmts h ss (h.right hfits) fun t ht => hcontains t (List.mem_cons_of_mem _ ht)
      exact .cons around s _ _ ss _ hhead hrule htail

/-- The mapper rewrites a list of methods. -/
theorem methods (h : M.Follows R Fits) {scope : σ} {around : Enclosing ι} :
    (ms : List (Method ι)) → Fits scope around (freeNameCollector.methods [] ms) →
    R.RewritesMethods around ms (M.methods scope ms)
  | [], _ => .nil around
  | .mk i n params b :: ms, hfits => by
      simp only [Collector.methods, Collector.method, free_onMethod, free_onBlock,
        List.nil_append] at hfits
      have hbody := stmts h b (h.block b (h.left hfits)) fun _ hs => hs
      exact .cons around i n params b _ ms _ (h.block_of_stmts hbody) (methods h ms (h.right hfits))

end

/-- The mapper rewrites a block that opens a scope of its own. -/
theorem block_rewrites (h : M.Follows R Fits) {scope : σ} {around : Enclosing ι} {b : Block ι}
    (hfits : Fits scope around (freeNameCollector.block [] b)) :
    R.RewritesBlock around [] b (M.block scope b) :=
  h.block_of_stmts (h.stmts b (h.block b hfits) fun _ hs => hs)

end Mapper.Follows

/-! ## One result -/

namespace Rewriting

/-- The rules leave no choice. -/
structure Determined (R : Rewriting ι) : Prop where
  heads : ∀ {params b heads heads'}, R.heads params b heads → R.heads params b heads' →
    heads' = heads
  stmt : ∀ {around s t t'}, R.stmt around s t → R.stmt around s t' → t' = t
  expr : ∀ {around e rebuilt t t'}, R.expr around e rebuilt t → R.expr around e rebuilt t' → t' = t

namespace Determined

variable {R : Rewriting ι}

/-- The step from the children of an expression to the expression. -/
theorem expr_of_rebuilds (h : R.Determined) {around : Enclosing ι} {e t t' : Expr ι}
    (hbelow : ∀ {r r'}, R.RebuildsExpr around e r → R.RebuildsExpr around e r' → r' = r)
    (ht : R.RewritesExpr around e t) (ht' : R.RewritesExpr around e t') : t' = t := by
  obtain ⟨_, _, rebuilt, _, hrebuilt, hrule⟩ := ht
  obtain ⟨_, _, _, _, hrebuilt', hrule'⟩ := ht'
  obtain rfl := hbelow hrebuilt hrebuilt'
  exact h.expr hrule hrule'

/-- The step from the statements of a block to the block. -/
theorem block_of_stmts (h : R.Determined) {around : Enclosing ι} {params : List (Param ι)}
    {b t t' : Block ι}
    (hstmts : ∀ {ss ss'}, R.RewritesStmts ((params, b) :: around) b ss →
      R.RewritesStmts ((params, b) :: around) b ss' → ss' = ss)
    (ht : R.RewritesBlock around params b t) (ht' : R.RewritesBlock around params b t') :
    t' = t := by
  obtain ⟨_, _, _, heads, ss, hheads, hss⟩ := ht
  obtain ⟨_, _, _, heads', ss', hheads', hss'⟩ := ht'
  rw [h.heads hheads hheads', hstmts hss hss']

mutual

/-- There is one way to rewrite the children of an expression. -/
theorem rebuilds (h : R.Determined) {around : Enclosing ι} : (e : Expr ι) → {t t' : Expr ι} →
    R.RebuildsExpr around e t → R.RebuildsExpr around e t' → t' = t
  | .unit _, _, _, ht, ht' | .name _ _, _, _, ht, ht' | .text _ _, _, _, ht, ht'
  | .number _ _, _, _, ht, ht' | .variable _ _, _, _, ht, ht' => by
      cases ht
      cases ht'
      rfl
  | .member _ object _, _, _, ht, ht' => by
      cases ht with | member _ _ _ _ _ hobject =>
      cases ht' with | member _ _ _ _ _ hobject' =>
      rw [h.expr_of_rebuilds (rebuilds h object) hobject hobject']
  | .call _ callee inputs, _, _, ht, ht' => by
      cases ht with | call _ _ _ _ _ _ hcallee hinputs =>
      cases ht' with | call _ _ _ _ _ _ hcallee' hinputs' =>
      rw [h.expr_of_rebuilds (rebuilds h callee) hcallee hcallee', exprs h inputs hinputs hinputs']
  | .functionLit _ _ _ b, _, _, ht, ht' => by
      cases ht with | functionLit _ _ _ _ _ _ hb =>
      cases ht' with | functionLit _ _ _ _ _ _ hb' =>
      rw [h.block_of_stmts (stmts h b) hb hb']
  | .classLit _ _ ms, _, _, ht, ht' => by
      cases ht with | classLit _ _ _ _ _ hms =>
      cases ht' with | classLit _ _ _ _ _ hms' =>
      rw [methods h ms hms hms']
termination_by structural e => e

/-- There is one way to rewrite a list of expressions. -/
theorem exprs (h : R.Determined) {around : Enclosing ι} : (es : List (Expr ι)) →
    {ts ts' : List (Expr ι)} →
    R.RewritesExprs around es ts → R.RewritesExprs around es ts' → ts' = ts
  | [], _, _, ht, ht' => by
      cases ht
      cases ht'
      rfl
  | e :: es, _, _, ht, ht' => by
      cases ht with | cons _ _ _ _ _ he hes =>
      cases ht' with | cons _ _ _ _ _ he' hes' =>
      rw [h.expr_of_rebuilds (rebuilds h e) he he', exprs h es hes hes']
termination_by structural es => es

/-- There is one way to rewrite the children of a statement. -/
theorem rebuildsStmt (h : R.Determined) {around : Enclosing ι} : (s : Stmt ι) →
    {t t' : Stmt ι} → R.RebuildsStmt around s t → R.RebuildsStmt around s t' → t' = t
  | .importPackage _ _ _, _, _, ht, ht' => by
      cases ht
      cases ht'
      rfl
  | .declare _ _ value, _, _, ht, ht' => by
      cases ht with | declare _ _ _ _ _ hvalue =>
      cases ht' with | declare _ _ _ _ _ hvalue' =>
      rw [h.expr_of_rebuilds (rebuilds h value) hvalue hvalue']
  | .assign _ _ value, _, _, ht, ht' => by
      cases ht with | assign _ _ _ _ _ hvalue =>
      cases ht' with | assign _ _ _ _ _ hvalue' =>
      rw [h.expr_of_rebuilds (rebuilds h value) hvalue hvalue']
  | .assignMember _ object _ value, _, _, ht, ht' => by
      cases ht with | assignMember _ _ _ _ _ _ _ hobject hvalue =>
      cases ht' with | assignMember _ _ _ _ _ _ _ hobject' hvalue' =>
      rw [h.expr_of_rebuilds (rebuilds h object) hobject hobject',
        h.expr_of_rebuilds (rebuilds h value) hvalue hvalue']
  | .ret _ value, _, _, ht, ht' => by
      cases ht with | ret _ _ _ _ hvalue =>
      cases ht' with | ret _ _ _ _ hvalue' =>
      rw [h.expr_of_rebuilds (rebuilds h value) hvalue hvalue']
  | .branch _ condition thenBlock elseBlock, _, _, ht, ht' => by
      cases ht with | branch _ _ _ _ _ _ _ _ hcondition hthen helse =>
      cases ht' with | branch _ _ _ _ _ _ _ _ hcondition' hthen' helse' =>
      rw [h.expr_of_rebuilds (rebuilds h condition) hcondition hcondition',
        h.block_of_stmts (stmts h thenBlock) hthen hthen',
        h.block_of_stmts (stmts h elseBlock) helse helse']
  | .expr e, _, _, ht, ht' => by
      cases ht with | expr _ _ _ he =>
      cases ht' with | expr _ _ _ he' =>
      rw [h.expr_of_rebuilds (rebuilds h e) he he']
termination_by structural s => s

/-- There is one way to rewrite a list of statements. -/
theorem stmts (h : R.Determined) {around : Enclosing ι} : (ss : List (Stmt ι)) →
    {ts ts' : List (Stmt ι)} →
    R.RewritesStmts around ss ts → R.RewritesStmts around ss ts' → ts' = ts
  | [], _, _, ht, ht' => by
      cases ht
      cases ht'
      rfl
  | s :: ss, _, _, ht, ht' => by
      cases ht with | cons _ _ _ _ _ _ hs hrule hss =>
      cases ht' with | cons _ _ _ _ _ _ hs' hrule' hss' =>
      -- the rule for statements looks at the children too, so these come first
      obtain rfl := rebuildsStmt h s hs hs'
      rw [h.stmt hrule hrule', stmts h ss hss hss']
termination_by structural ss => ss

/-- There is one way to rewrite a list of methods. -/
theorem methods (h : R.Determined) {around : Enclosing ι} : (ms : List (Method ι)) →
    {ts ts' : List (Method ι)} →
    R.RewritesMethods around ms ts → R.RewritesMethods around ms ts' → ts' = ts
  | [], _, _, ht, ht' => by
      cases ht
      cases ht'
      rfl
  | .mk _ _ _ b :: ms, _, _, ht, ht' => by
      cases ht with | cons _ _ _ _ _ _ _ _ hb hms =>
      cases ht' with | cons _ _ _ _ _ _ _ _ hb' hms' =>
      rw [h.block_of_stmts (stmts h b) hb hb', methods h ms hms hms']
termination_by structural ms => ms

end

/-- There is one way to rewrite a block with its parameters. -/
theorem block (h : R.Determined) {around : Enclosing ι} {params : List (Param ι)}
    {b t t' : Block ι} (ht : R.RewritesBlock around params b t)
    (ht' : R.RewritesBlock around params b t') : t' = t :=
  h.block_of_stmts (h.stmts b) ht ht'

end Determined

end Rewriting

end Lowering

import Lowering.Proofs.Nodes
import Lowering.Tree.Kind

/-!
# Facts collected from a tree

Facts about all that a collector finds in a tree are proved node by node. `D.Ensures Fits Q` is a
condition on single nodes: what `D` contributes at a node that fits its scope has the property `Q`,
and the children of the node fit in their turn. Then all that is found has the property
(`Collector.Ensures.stmts`). So what one collector finds can be read off what another one finds in
the same tree (`Collector.Entails.stmts`).

In the same way, what is found in a mapped tree is compared with what was found in the tree before.
`M.Relates C D Fits S` is the condition on single nodes (`Mapper.Relates.stmts_of_fits`). It leaves
open how the rules of the mapper change what a node contributes. Where they keep it,
`Mapper.Transfers` and `Mapper.Carries` ask for less.
-/

namespace Lowering

variable {σ τ υ ι α β : Type}

namespace Collector

/-! ## One tree -/

/-- What `D` contributes at a node that fits its scope has the property `Q`, and what stands below
the node fits the scopes there. -/
structure Ensures (D : Collector τ ι β) (Fits : τ → Node ι → Prop) (Q : β → Prop) : Prop where
  child : ∀ {t n}, Fits t n → n.isBlock = false → ∀ c ∈ n.children, Fits t c
  inFunction : ∀ {t params b}, Fits t (.function params b) →
    ∀ st ∈ b, Fits (D.ofBlock (D.ofFunction t params b) b) (.stmt st)
  inBlock : ∀ {t b}, Fits t (.block b) → ∀ st ∈ b, Fits (D.ofBlock t b) (.stmt st)
  onFunction : ∀ {t params b}, Fits t (.function params b) →
    ∀ y ∈ D.onBlock (D.ofFunction t params b) params b, Q y
  onBlock : ∀ {t b}, Fits t (.block b) → ∀ y ∈ D.onBlock t [] b, Q y
  onStmt : ∀ {t st}, Fits t (.stmt st) →
    (∀ y ∈ D.onStmt t st, Q y) ∧ ∀ y ∈ D.afterStmt t st, Q y
  onExpr : ∀ {t e}, Fits t (.expr e) → ∀ y ∈ D.onExpr t e, Q y
  onMethod : ∀ {t m}, Fits t (.method m) → ∀ y ∈ D.onMethod t m, Q y

namespace Ensures

variable {D : Collector τ ι β} {Fits : τ → Node ι → Prop} {Q : β → Prop}

/-- All that is found at and below a node that fits has the property. -/
theorem node (h : D.Ensures Fits Q) {t : τ} {n : Node ι} (hn : Fits t n) :
    ∀ y ∈ D.node t n, Q y := by
  induction n using Node.preorder.induct generalizing t with
  | case1 n ih =>
      have hbelow : n.isBlock = false → ∀ y ∈ D.below t n, Q y := by
        intro hblock y hy
        obtain ⟨c, hc, hy⟩ := List.mem_flatMap.mp hy
        exact ih ⟨c, hc⟩ (h.child hn hblock c hc) y hy
      have hinside : ∀ {scope b}, n.children = b.map .stmt → (∀ st ∈ b, Fits scope (.stmt st)) →
          ∀ y ∈ D.stmts scope b, Q y := by
        intro scope b hb hfits y hy
        rw [stmts_eq_flatMap] at hy
        obtain ⟨st, hst, hy⟩ := List.mem_flatMap.mp hy
        exact ih ⟨.stmt st, hb ▸ List.mem_map_of_mem hst⟩ (hfits st hst) y hy
      cases n with
      | expr e =>
          rw [Collector.node, expr_eq_below, List.forall_mem_append]
          exact ⟨h.onExpr hn, hbelow rfl⟩
      | stmt st =>
          rw [Collector.node, stmt_eq_below, List.forall_mem_append, List.forall_mem_append]
          exact ⟨⟨(h.onStmt hn).1, hbelow rfl⟩, (h.onStmt hn).2⟩
      | method m =>
          rw [Collector.node, method_eq_below, List.forall_mem_append]
          exact ⟨h.onMethod hn, hbelow rfl⟩
      | function params b =>
          exact List.forall_mem_append.mpr ⟨h.onFunction hn, hinside rfl (h.inFunction hn)⟩
      | block b => exact List.forall_mem_append.mpr ⟨h.onBlock hn, hinside rfl (h.inBlock hn)⟩

/-- All that is found in statements that fit has the property. -/
theorem stmts (h : D.Ensures Fits Q) {t : τ} {ss : List (Stmt ι)}
    (hss : ∀ st ∈ ss, Fits t (.stmt st)) : ∀ y ∈ D.stmts t ss, Q y := by
  intro y hy
  rw [stmts_eq_flatMap] at hy
  obtain ⟨st, hst, hy⟩ := List.mem_flatMap.mp hy
  exact h.node (hss st hst) y hy

end Ensures

/-- What `D` contributes at a node follows from what `C` contributes at and below it. -/
structure Entails (C : Collector σ ι α) (P : α → Prop) (D : Collector τ ι β) (Q : β → Prop)
    (R : σ → τ → Prop) : Prop where
  ofFunction : ∀ {s t}, R s t → ∀ params b, (∀ x ∈ C.body (C.ofFunction s params b) params b, P x) →
    R (C.ofFunction s params b) (D.ofFunction t params b)
  ofBlock : ∀ {s t}, R s t → ∀ params b, (∀ x ∈ C.body s params b, P x) →
    R (C.ofBlock s b) (D.ofBlock t b)
  onBlock : ∀ {s t}, R s t → ∀ params b, (∀ x ∈ C.body s params b, P x) →
    ∀ y ∈ D.onBlock t params b, Q y
  onStmt : ∀ {s t}, R s t → ∀ st, (∀ x ∈ C.stmt s st, P x) →
    (∀ y ∈ D.onStmt t st, Q y) ∧ ∀ y ∈ D.afterStmt t st, Q y
  onExpr : ∀ {s t}, R s t → ∀ e, (∀ x ∈ C.expr s e, P x) → ∀ y ∈ D.onExpr t e, Q y
  onMethod : ∀ {s t}, R s t → ∀ m, (∀ x ∈ C.method s m, P x) → ∀ y ∈ D.onMethod t m, Q y

namespace Entails

variable {C : Collector σ ι α} {P : α → Prop} {D : Collector τ ι β} {Q : β → Prop}
  {R : σ → τ → Prop}

/-- A node fits if all that `C` finds there has the property, in a scope that is related. -/
theorem ensures (h : C.Entails P D Q R) :
    D.Ensures (fun t n => ∃ s, R s t ∧ ∀ x ∈ C.node s n, P x) Q where
  child := fun ⟨s, hR, hC⟩ hblock _ hc =>
    ⟨s, hR, fun x hx => hC x (C.node_subset_of_child s hblock hc hx)⟩
  inFunction := fun ⟨_, hR, hC⟩ _ hst =>
    ⟨_, h.ofBlock (h.ofFunction hR _ _ hC) _ _ hC,
      fun x hx => hC x (List.mem_append_right _ (C.stmt_subset_stmts _ hst hx))⟩
  inBlock := fun ⟨_, hR, hC⟩ _ hst =>
    ⟨_, h.ofBlock hR [] _ hC,
      fun x hx => hC x (List.mem_append_right _ (C.stmt_subset_stmts _ hst hx))⟩
  onFunction := fun ⟨_, hR, hC⟩ => h.onBlock (h.ofFunction hR _ _ hC) _ _ hC
  onBlock := fun ⟨_, hR, hC⟩ => h.onBlock hR [] _ hC
  onStmt := fun ⟨_, hR, hC⟩ => h.onStmt hR _ hC
  onExpr := fun ⟨_, hR, hC⟩ => h.onExpr hR _ hC
  onMethod := fun ⟨_, hR, hC⟩ => h.onMethod hR _ hC

/-- What `D` finds at and below a node follows from what `C` finds there. -/
theorem node (h : C.Entails P D Q R) {s : σ} {t : τ} (hR : R s t) {n : Node ι}
    (hC : ∀ x ∈ C.node s n, P x) : ∀ y ∈ D.node t n, Q y :=
  h.ensures.node ⟨s, hR, hC⟩

/-- The same for a list of statements in its own scope. -/
theorem stmts (h : C.Entails P D Q R) {s : σ} {t : τ} (hR : R s t) (ss : List (Stmt ι))
    (hC : ∀ x ∈ C.stmts s ss, P x) : ∀ y ∈ D.stmts t ss, Q y :=
  h.ensures.stmts fun _ hst => ⟨s, hR, fun x hx => hC x (C.stmt_subset_stmts s hst hx)⟩

/-- The same for a block that opens a scope of its own. -/
theorem block (h : C.Entails P D Q R) {s : σ} {t : τ} (hR : R s t) (b : Block ι)
    (hC : ∀ x ∈ C.block s b, P x) : ∀ y ∈ D.block t b, Q y :=
  h.node hR (n := .block b) hC

end Entails

end Collector

/-! ## Mapped trees -/

/-- The collector that finds nothing, for facts about a mapped tree alone. -/
def Collector.nothing : Collector Unit ι Empty := {}

/-- What `D` finds at what the mapper makes of a node is related by `S` to what `C` finds at the
node, if the node fits the scopes of `C`, of the mapper and of `D`. The own contribution of a node
is compared after its rule has been applied, given that it is so below the node. A function literal
or a block says in which scope of `D` its statements come to stand. -/
structure Mapper.Relates (M : Mapper σ ι) (C : Collector τ ι α) (D : Collector υ ι β)
    (Fits : τ → σ → υ → Node ι → Prop) (S : List α → List β → Prop) : Prop where
  nil : S [] []
  append : ∀ {xs ys xs' ys'}, S xs ys → S xs' ys' → S (xs ++ xs') (ys ++ ys')
  child : ∀ {s u t n}, Fits s u t n → n.isBlock = false → ∀ c ∈ n.children, Fits s u t c
  function : ∀ {s u t i n params b}, Fits s u t (.expr (.functionLit i n params b)) →
    (∀ t', (∀ st ∈ b, Fits (C.ofBlock (C.ofFunction s params b) b)
        (M.ofBlock (M.ofFunction u params b) b) t' (.stmt st)) →
      S (C.stmts (C.ofBlock (C.ofFunction s params b) b) b)
        (D.stmts t' (M.stmts (M.ofBlock (M.ofFunction u params b) b) b))) →
    S (C.expr s (.functionLit i n params b)) (D.expr t (M.expr u (.functionLit i n params b)))
  block : ∀ {s u t b}, Fits s u t (.block b) →
    (∀ t', (∀ st ∈ b, Fits (C.ofBlock s b) (M.ofBlock u b) t' (.stmt st)) →
      S (C.stmts (C.ofBlock s b) b) (D.stmts t' (M.stmts (M.ofBlock u b) b))) →
    S (C.body s [] b) (D.body t [] (M.block u b))
  expr : ∀ {s u t e}, Fits s u t (.expr e) → e.kind ≠ .functionLit →
    S (C.below s (.expr e)) (D.below t (.expr (M.rebuild u e))) →
    S (C.expr s e) (D.expr t (M.expr u e))
  /-- The rule does not apply to the member access that is a callee. -/
  callee : ∀ {s u t i object m}, Fits s u t (.expr (.member i object m)) →
    S (C.onExpr s (.member i object m)) (D.onExpr t (M.rebuild u (.member i object m)))
  stmt : ∀ {s u t st}, Fits s u t (.stmt st) →
    S (C.below s (.stmt st)) (D.below t (.stmt (M.rebuildStmt u st))) →
    S (C.stmt s st) (D.stmt t (M.stmt u st))
  method : ∀ {s u t m}, Fits s u t (.method m) → S (C.onMethod s m) (D.onMethod t (M.method u m))

namespace Mapper.Relates

variable {M : Mapper σ ι} {C : Collector τ ι α} {D : Collector υ ι β}
  {Fits : τ → σ → υ → Node ι → Prop} {S : List α → List β → Prop}

mutual

/-- What is found in a mapped expression is related to what was found in it. -/
theorem expr_of_fits (h : M.Relates C D Fits S) {s : τ} {u : σ} {t : υ} : (e : Expr ι) →
    Fits s u t (.expr e) → S (C.expr s e) (D.expr t (M.expr u e))
  | .unit _, he | .name _ _, he | .text _ _, he | .number _ _, he | .variable _ _, he =>
      h.expr he (by simp [Expr.kind]) h.nil
  | .member i object m, he => by
      have hobject := expr_of_fits h object (h.child he rfl _ (by simp [Node.children]))
      refine h.expr he (by simp [Expr.kind]) ?_
      rwa [rebuild_member, Collector.below_member, Collector.below_member]
  | .call i callee inputs, he => by
      have hcallee := h.child he rfl (.expr callee) List.mem_cons_self
      have hinputs := exprs_of_fits h inputs fun e he' =>
        h.child he rfl _ (List.mem_cons_of_mem _ (List.mem_map_of_mem he'))
      refine h.expr he (by simp [Expr.kind]) ?_
      rw [rebuild, Collector.below_call, Collector.below_call]
      refine h.append ?_ hinputs
      cases callee with
      | member j object m =>
          have hobject := expr_of_fits h object (h.child hcallee rfl _ List.mem_cons_self)
          exact h.append (h.callee hcallee) hobject
      | _ => exact expr_of_fits h _ hcallee
  | .functionLit i n params b, he =>
      h.function he fun t' hb => stmts_of_fits h b hb
  | .classLit i n ms, he => by
      have hms := methods_of_fits h ms fun m hm => h.child he rfl _ (List.mem_map_of_mem hm)
      refine h.expr he (by simp [Expr.kind]) ?_
      rwa [rebuild, Collector.below_classLit, Collector.below_classLit]

/-- The same for a list of expressions. -/
theorem exprs_of_fits (h : M.Relates C D Fits S) {s : τ} {u : σ} {t : υ} : (es : List (Expr ι)) →
    (∀ e ∈ es, Fits s u t (.expr e)) → S (C.exprs s es) (D.exprs t (M.exprs u es))
  | [], _ => h.nil
  | e :: es, hes =>
      h.append (expr_of_fits h e (hes e List.mem_cons_self))
        (exprs_of_fits h es fun e he => hes e (List.mem_cons_of_mem _ he))

/-- The same for a statement. -/
theorem stmt_of_fits (h : M.Relates C D Fits S) {s : τ} {u : σ} {t : υ} : (st : Stmt ι) →
    Fits s u t (.stmt st) → S (C.stmt s st) (D.stmt t (M.stmt u st))
  | .importPackage i n path, hst => h.stmt hst h.nil
  | .declare i n value, hst | .assign i n value, hst | .ret i value, hst | .expr value, hst => by
      have hvalue := expr_of_fits h value (h.child hst rfl _ (by simp [Node.children]))
      refine h.stmt hst ?_
      simpa [Collector.below, Node.children, Collector.node, rebuildStmt] using hvalue
  | .assignMember i object m value, hst => by
      have hobject := expr_of_fits h object (h.child hst rfl _ (by simp [Node.children]))
      have hvalue := expr_of_fits h value (h.child hst rfl _ (by simp [Node.children]))
      refine h.stmt hst ?_
      rw [rebuildStmt, Collector.below_assignMember, Collector.below_assignMember]
      exact h.append hobject hvalue
  | .branch i condition thenBlock elseBlock, hst => by
      have hcondition := expr_of_fits h condition (h.child hst rfl _ (by simp [Node.children]))
      have hthen := h.block (h.child hst rfl (.block thenBlock) (by simp [Node.children]))
        fun t' hb => stmts_of_fits h thenBlock hb
      have helse := h.block (h.child hst rfl (.block elseBlock) (by simp [Node.children]))
        fun t' hb => stmts_of_fits h elseBlock hb
      refine h.stmt hst ?_
      rw [rebuildStmt, Collector.below_branch, Collector.below_branch]
      exact h.append (h.append hcondition hthen) helse

/-- The same for a list of statements. -/
theorem stmts_of_fits (h : M.Relates C D Fits S) {s : τ} {u : σ} {t : υ} : (ss : List (Stmt ι)) →
    (∀ st ∈ ss, Fits s u t (.stmt st)) → S (C.stmts s ss) (D.stmts t (M.stmts u ss))
  | [], _ => h.nil
  | st :: ss, hss =>
      h.append (stmt_of_fits h st (hss st List.mem_cons_self))
        (stmts_of_fits h ss fun st hst => hss st (List.mem_cons_of_mem _ hst))

/-- The same for a method. -/
theorem method_of_fits (h : M.Relates C D Fits S) {s : τ} {u : σ} {t : υ} : (m : Method ι) →
    Fits s u t (.method m) → S (C.method s m) (D.method t (M.method u m))
  | .mk i n params b, hm => by
      have hown := h.method hm
      have hb := h.block (h.child hm rfl (.block b) (List.mem_singleton_self _))
        fun t' hb => stmts_of_fits h b hb
      rw [method_mk] at hown ⊢
      rw [Collector.method_mk, Collector.method_mk]
      exact h.append hown hb

/-- The same for a list of methods. -/
theorem methods_of_fits (h : M.Relates C D Fits S) {s : τ} {u : σ} {t : υ} :
    (ms : List (Method ι)) → (∀ m ∈ ms, Fits s u t (.method m)) →
    S (C.methods s ms) (D.methods t (M.methods u ms))
  | [], _ => h.nil
  | m :: ms, hms =>
      h.append (method_of_fits h m (hms m List.mem_cons_self))
        (methods_of_fits h ms fun m hm => hms m (List.mem_cons_of_mem _ hm))

end

/-- The same for a block that opens a scope of its own. -/
theorem block_of_fits (h : M.Relates C D Fits S) {s : τ} {u : σ} {t : υ} {b : Block ι}
    (hb : Fits s u t (.block b)) : S (C.block s b) (D.block t (M.block u b)) :=
  h.block hb fun _ hstmts => h.stmts_of_fits b hstmts

end Mapper.Relates

/-- What `D` contributes after mapping corresponds to what `C` contributes before, if all of that
has the property `P`. The scopes of `C`, of the mapper and of `D` are related by `R`, inside
functions and inside other blocks, and lists of contributions correspond by `S`. Own contributions
of nodes correspond while only their children are mapped, and the rules of the mapper keep the
correspondence. The statements that the mapper puts at the head of a block count as contributions of
the block. -/
structure Mapper.Transfers (M : Mapper σ ι) (C : Collector τ ι α) (P : α → Prop)
    (D : Collector υ ι β) (R : τ → σ → υ → Prop) (S : List α → List β → Prop) : Prop where
  nil : S [] []
  append : ∀ {xs ys xs' ys'}, S xs ys → S xs' ys' → S (xs ++ xs') (ys ++ ys')
  inFunction : ∀ {s u t}, R s u t → ∀ params b,
    (∀ x ∈ C.body (C.ofFunction s params b) params b, P x) →
    R (C.ofBlock (C.ofFunction s params b) b) (M.ofBlock (M.ofFunction u params b) b)
      (D.ofBlock (D.ofFunction t params (M.body u params b)) (M.body u params b))
  inBlock : ∀ {s u t}, R s u t → ∀ b, (∀ x ∈ C.body s [] b, P x) →
    R (C.ofBlock s b) (M.ofBlock u b) (D.ofBlock t (M.block u b))
  onFunction : ∀ {s u t}, R s u t → ∀ params b,
    (∀ x ∈ C.body (C.ofFunction s params b) params b, P x) →
    S (C.onBlock (C.ofFunction s params b) params b)
      (D.onBlock (D.ofFunction t params (M.body u params b)) params (M.body u params b) ++
        D.stmts (D.ofBlock (D.ofFunction t params (M.body u params b)) (M.body u params b))
          (M.heads params b))
  onBlock : ∀ {s u t}, R s u t → ∀ b, (∀ x ∈ C.body s [] b, P x) →
    S (C.onBlock s [] b) (D.onBlock t [] (M.block u b) ++
      D.stmts (D.ofBlock t (M.block u b)) (M.heads [] b))
  onStmt : ∀ {s u t}, R s u t → ∀ st, (∀ x ∈ C.stmt s st, P x) →
    S (C.onStmt s st) (D.onStmt t (M.rebuildStmt u st))
  afterStmt : ∀ {s u t}, R s u t → ∀ st, (∀ x ∈ C.stmt s st, P x) →
    S (C.afterStmt s st) (D.afterStmt t (M.rebuildStmt u st))
  onExpr : ∀ {s u t}, R s u t → ∀ e, (∀ x ∈ C.expr s e, P x) →
    S (C.onExpr s e) (D.onExpr t (M.rebuild u e))
  onMethod : ∀ {s u t}, R s u t → ∀ m, (∀ x ∈ C.method s m, P x) →
    S (C.onMethod s m) (D.onMethod t (M.method u m))
  stmt : ∀ {s u t}, R s u t → ∀ st, (∀ x ∈ C.stmt s st, P x) →
    S (C.stmt s st) (D.stmt t (M.rebuildStmt u st)) → S (C.stmt s st) (D.stmt t (M.stmt u st))
  expr : ∀ {s u t}, R s u t → ∀ e, (∀ x ∈ C.expr s e, P x) →
    S (C.expr s e) (D.expr t (M.rebuild u e)) → S (C.expr s e) (D.expr t (M.expr u e))

namespace Mapper.Transfers

variable {M : Mapper σ ι} {C : Collector τ ι α} {P : α → Prop} {D : Collector υ ι β}
  {R : τ → σ → υ → Prop} {S : List α → List β → Prop}

/-- The step from the statements of a function to its body with the heads. -/
theorem body_of_stmts (h : M.Transfers C P D R S) {s : τ} {u : σ} {t : υ} (hR : R s u t)
    (params : List (Param ι)) (b : Block ι)
    (hC : ∀ x ∈ C.body (C.ofFunction s params b) params b, P x)
    (hstmts : S (C.stmts (C.ofBlock (C.ofFunction s params b) b) b)
      (D.stmts (D.ofBlock (D.ofFunction t params (M.body u params b)) (M.body u params b))
        (M.stmts (M.ofBlock (M.ofFunction u params b) b) b))) :
    S (C.body (C.ofFunction s params b) params b)
      (D.body (D.ofFunction t params (M.body u params b)) params (M.body u params b)) := by
  have hbody := h.append (h.onFunction hR params b hC) hstmts
  rw [List.append_assoc, ← Collector.stmts_append] at hbody
  exact hbody

/-- The step from the statements of a block to the block with its heads. -/
theorem block_of_stmts (h : M.Transfers C P D R S) {s : τ} {u : σ} {t : υ} (hR : R s u t)
    (b : Block ι) (hC : ∀ x ∈ C.body s [] b, P x)
    (hstmts : S (C.stmts (C.ofBlock s b) b)
      (D.stmts (D.ofBlock t (M.block u b)) (M.stmts (M.ofBlock u b) b))) :
    S (C.body s [] b) (D.body t [] (M.block u b)) := by
  have hblock := h.append (h.onBlock hR b hC) hstmts
  rw [List.append_assoc, ← Collector.stmts_append] at hblock
  exact hblock

/-- A node fits if all that `C` finds there has the property, in scopes that are related. -/
theorem relates (h : M.Transfers C P D R S) :
    M.Relates C D (fun s u t n => R s u t ∧ ∀ x ∈ C.node s n, P x) S where
  nil := h.nil
  append := h.append
  child := fun ⟨hR, hC⟩ hblock _ hc =>
    ⟨hR, fun x hx => hC x (C.node_subset_of_child _ hblock hc hx)⟩
  function := by
    intro s u t i n params b ⟨hR, hC⟩ hstmts
    have hbody := fun x hx =>
      hC x (C.node_subset_of_child s (c := .function params b) rfl (List.mem_singleton_self _) hx)
    have hinside := hstmts _ fun st hst => ⟨h.inFunction hR params b hbody,
      fun x hx => hbody x (List.mem_append_right _ (C.stmt_subset_stmts _ hst hx))⟩
    refine h.expr hR _ hC ?_
    rw [Collector.expr_functionLit, rebuild_functionLit, Collector.expr_functionLit]
    exact h.append (h.onExpr hR _ hC) (h.body_of_stmts hR params b hbody hinside)
  block := fun ⟨hR, hC⟩ hstmts =>
    h.block_of_stmts hR _ hC (hstmts _ fun _ hst => ⟨h.inBlock hR _ hC,
      fun x hx => hC x (List.mem_append_right _ (C.stmt_subset_stmts _ hst hx))⟩)
  expr := by
    intro s u t e ⟨hR, hC⟩ _ hbelow
    refine h.expr hR e hC ?_
    rw [Collector.expr_eq_below, Collector.expr_eq_below]
    exact h.append (h.onExpr hR e hC) hbelow
  callee := fun ⟨hR, hC⟩ => h.onExpr hR _ hC
  stmt := by
    intro s u t st ⟨hR, hC⟩ hbelow
    refine h.stmt hR st hC ?_
    rw [Collector.stmt_eq_below, Collector.stmt_eq_below]
    exact h.append (h.append (h.onStmt hR st hC) hbelow) (h.afterStmt hR st hC)
  method := fun ⟨hR, hC⟩ => h.onMethod hR _ hC

/-- What is found in mapped statements corresponds to what was found in them. -/
theorem stmts (h : M.Transfers C P D R S) {s : τ} {u : σ} {t : υ} (hR : R s u t)
    (ss : List (Stmt ι)) (hC : ∀ x ∈ C.stmts s ss, P x) :
    S (C.stmts s ss) (D.stmts t (M.stmts u ss)) :=
  h.relates.stmts_of_fits ss fun _ hst =>
    ⟨hR, fun x hx => hC x (C.stmt_subset_stmts s hst hx)⟩

/-- The same for a block that opens a scope of its own. -/
theorem block (h : M.Transfers C P D R S) {s : τ} {u : σ} {t : υ} (hR : R s u t) (b : Block ι)
    (hC : ∀ x ∈ C.block s b, P x) : S (C.block s b) (D.block t (M.block u b)) :=
  h.relates.block_of_fits ⟨hR, hC⟩

end Mapper.Transfers

/-- The same without a condition, for a mapper whose heads contribute nothing. -/
structure Mapper.Carries (M : Mapper σ ι) (C : Collector τ ι α) (D : Collector υ ι β)
    (R : τ → σ → υ → Prop) (S : List α → List β → Prop) : Prop where
  nil : S [] []
  append : ∀ {xs ys xs' ys'}, S xs ys → S xs' ys' → S (xs ++ xs') (ys ++ ys')
  ofFunction : ∀ {s u t}, R s u t → ∀ params b,
    R (C.ofFunction s params b) (M.ofFunction u params b)
      (D.ofFunction t params (M.body u params b))
  ofBlock : ∀ {s u t}, R s u t → ∀ params b,
    R (C.ofBlock s b) (M.ofBlock u b) (D.ofBlock t (M.heads params b ++ M.stmts (M.ofBlock u b) b))
  heads : ∀ {s u t}, R s u t → ∀ params b, S [] (D.stmts t (M.heads params b))
  onBlock : ∀ {s u t}, R s u t → ∀ params b, S (C.onBlock s params b)
    (D.onBlock t params (M.heads params b ++ M.stmts (M.ofBlock u b) b))
  onStmt : ∀ {s u t}, R s u t → ∀ st, S (C.onStmt s st) (D.onStmt t (M.rebuildStmt u st))
  afterStmt : ∀ {s u t}, R s u t → ∀ st, S (C.afterStmt s st) (D.afterStmt t (M.rebuildStmt u st))
  onExpr : ∀ {s u t}, R s u t → ∀ e, S (C.onExpr s e) (D.onExpr t (M.rebuild u e))
  onMethod : ∀ {s u t}, R s u t → ∀ m, S (C.onMethod s m) (D.onMethod t (M.method u m))
  stmt : ∀ {s u t}, R s u t → ∀ st, S (C.stmt s st) (D.stmt t (M.rebuildStmt u st)) →
    S (C.stmt s st) (D.stmt t (M.stmt u st))
  expr : ∀ {s u t}, R s u t → ∀ e, S (C.expr s e) (D.expr t (M.rebuild u e)) →
    S (C.expr s e) (D.expr t (M.expr u e))

namespace Mapper.Carries

variable {M : Mapper σ ι} {C : Collector τ ι α} {D : Collector υ ι β} {R : τ → σ → υ → Prop}
  {S : List α → List β → Prop}

/-- The heads of a block change nothing. -/
theorem onBody (h : M.Carries C D R S) {s : τ} {u : σ} {t : υ} (hR : R s u t)
    (params : List (Param ι)) (b : Block ι) :
    S (C.onBlock s params b)
      (D.onBlock t params (M.heads params b ++ M.stmts (M.ofBlock u b) b) ++
        D.stmts (D.ofBlock t (M.heads params b ++ M.stmts (M.ofBlock u b) b))
          (M.heads params b)) := by
  have hheads := h.heads (h.ofBlock hR params b) params b
  simpa only [List.append_nil] using h.append (h.onBlock hR params b) hheads

/-- A mapper that carries what is found transfers every property of it. -/
theorem transfers (h : M.Carries C D R S) : M.Transfers C (fun _ => True) D R S where
  nil := h.nil
  append := h.append
  inFunction hR params b _ := h.ofBlock (h.ofFunction hR params b) params b
  inBlock hR b _ := h.ofBlock hR [] b
  onFunction hR params b _ := h.onBody (h.ofFunction hR params b) params b
  onBlock hR b _ := h.onBody hR [] b
  onStmt hR st _ := h.onStmt hR st
  afterStmt hR st _ := h.afterStmt hR st
  onExpr hR e _ := h.onExpr hR e
  onMethod hR m _ := h.onMethod hR m
  stmt hR st _ := h.stmt hR st
  expr hR e _ := h.expr hR e

/-- What is found in mapped statements corresponds to what was found in them. -/
theorem stmts (h : M.Carries C D R S) {s : τ} {u : σ} {t : υ} (hR : R s u t)
    (ss : List (Stmt ι)) : S (C.stmts s ss) (D.stmts t (M.stmts u ss)) :=
  h.transfers.stmts hR ss fun _ _ => trivial

/-- The same for a block that opens a scope of its own. -/
theorem block (h : M.Carries C D R S) {s : τ} {u : σ} {t : υ} (hR : R s u t) (b : Block ι) :
    S (C.block s b) (D.block t (M.block u b)) :=
  h.transfers.block hR b fun _ _ => trivial

end Mapper.Carries

/-- A mapper keeps what a collector finds in statements and expressions if its heads contribute
nothing, and neither mapping the children of a node nor applying a rule to it changes what it
contributes. -/
theorem Mapper.carries_of_rules {M : Mapper σ ι} {C : Collector Unit ι α}
    (honBlock : ∀ params b, C.onBlock () params b = []) (hafterStmt : ∀ s, C.afterStmt () s = [])
    (honMethod : ∀ m, C.onMethod () m = [])
    (hheads : ∀ params b, C.stmts () (M.heads params b) = [])
    (honStmt : ∀ scope s, C.onStmt () (M.rebuildStmt scope s) = C.onStmt () s)
    (honExpr : ∀ scope e, C.onExpr () (M.rebuild scope e) = C.onExpr () e)
    (hstmt : ∀ scope s, C.stmt () (M.onStmt scope s) = C.stmt () s)
    (hexpr : ∀ scope e, C.expr () (M.expr scope e) = C.expr () (M.rebuild scope e)) :
    M.Carries C C (fun _ _ _ => True) (fun before after => after = before) where
  nil := rfl
  append hfirst hsecond := by rw [hfirst, hsecond]
  ofFunction _ _ _ := trivial
  ofBlock _ _ _ := trivial
  heads _ params b := hheads params b
  onBlock _ params b := (honBlock params _).trans (honBlock params b).symm
  onStmt _ s := honStmt _ s
  afterStmt _ s := (hafterStmt _).trans (hafterStmt s).symm
  onExpr _ e := honExpr _ e
  onMethod _ m := (honMethod _).trans (honMethod m).symm
  stmt _ s hbelow := by rw [Mapper.stmt_eq, hstmt, hbelow]
  expr _ e hbelow := by rw [hexpr, hbelow]

end Lowering

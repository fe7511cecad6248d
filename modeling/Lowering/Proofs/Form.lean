import Lowering.Proofs.Nodes

/-!
# Forms of trees

A `Form` is a condition on single nodes; a tree has the form if all its nodes meet the condition.
The member access that is the callee of a call selects a method and is exempt, as it is from the
rule of a mapper; its object is not. It is enough, then, that every node listed for the tree meets
the condition (`Form.holds_of_preorder`). A mapper whose rules turn nodes of one form into trees of
another does so for whole trees (`Mapper.Establishes.stmts`).
-/

namespace Lowering

variable {σ ι : Type}

/-- A condition on statements and on expressions that are not the selected method of a call. -/
structure Form (ι : Type) where
  stmt : Stmt ι → Prop := fun _ => True
  expr : Expr ι → Prop := fun _ => True

namespace Form

/-- No condition at all. -/
def any : Form ι := {}

variable (F : Form ι)

mutual

/-- All nodes below an expression have the form. -/
def BelowExpr : Expr ι → Prop
  | .unit _ | .name _ _ | .text _ _ | .number _ _ | .variable _ _ => True
  | .member _ object _ => F.expr object ∧ BelowExpr object
  | .call _ callee inputs =>
      (callee.isMember = true ∨ F.expr callee) ∧ BelowExpr callee ∧ HoldsExprs inputs
  | .functionLit _ _ _ body => HoldsStmts body
  | .classLit _ _ ms => HoldsMethods ms

/-- All expressions of a list have the form at every depth. -/
def HoldsExprs : List (Expr ι) → Prop
  | [] => True
  | e :: es => (F.expr e ∧ BelowExpr e) ∧ HoldsExprs es

/-- All nodes below a statement have the form. -/
def BelowStmt : Stmt ι → Prop
  | .importPackage _ _ _ => True
  | .declare _ _ value | .assign _ _ value | .ret _ value | .expr value =>
      F.expr value ∧ BelowExpr value
  | .assignMember _ object _ value =>
      (F.expr object ∧ BelowExpr object) ∧ F.expr value ∧ BelowExpr value
  | .branch _ condition thenBlock elseBlock =>
      (F.expr condition ∧ BelowExpr condition) ∧ HoldsStmts thenBlock ∧ HoldsStmts elseBlock

/-- All statements of a list have the form at every depth. -/
def HoldsStmts : List (Stmt ι) → Prop
  | [] => True
  | s :: ss => (F.stmt s ∧ BelowStmt s) ∧ HoldsStmts ss

/-- The body of a method has the form. -/
def HoldsMethod : Method ι → Prop
  | .mk _ _ _ body => HoldsStmts body

/-- The bodies of all methods of a list have the form. -/
def HoldsMethods : List (Method ι) → Prop
  | [] => True
  | m :: ms => HoldsMethod m ∧ HoldsMethods ms

end

/-- An expression has the form at every depth. -/
def HoldsExpr (e : Expr ι) : Prop := F.expr e ∧ F.BelowExpr e

/-- A statement has the form at every depth. -/
def HoldsStmt (s : Stmt ι) : Prop := F.stmt s ∧ F.BelowStmt s

variable {F}

/-- A list of statements has the form exactly if each of them has it. -/
theorem holdsStmts_iff {ss : List (Stmt ι)} : F.HoldsStmts ss ↔ ∀ s ∈ ss, F.HoldsStmt s := by
  induction ss with
  | nil => simp [HoldsStmts]
  | cons s ss ih => rw [HoldsStmts, ih, List.forall_mem_cons, HoldsStmt]

/-- A list of expressions has the form exactly if each of them has it. -/
theorem holdsExprs_iff {es : List (Expr ι)} : F.HoldsExprs es ↔ ∀ e ∈ es, F.HoldsExpr e := by
  induction es with
  | nil => simp [HoldsExprs]
  | cons e es ih => rw [HoldsExprs, ih, List.forall_mem_cons, HoldsExpr]

/-- A list of methods has the form exactly if each of them has it. -/
theorem holdsMethods_iff {ms : List (Method ι)} :
    F.HoldsMethods ms ↔ ∀ m ∈ ms, F.HoldsMethod m := by
  induction ms with
  | nil => simp [HoldsMethods]
  | cons m ms ih => rw [HoldsMethods, ih, List.forall_mem_cons]

/-- Concatenation of lists of statements that have the form. -/
theorem HoldsStmts.append {first second : List (Stmt ι)} (hfirst : F.HoldsStmts first)
    (hsecond : F.HoldsStmts second) : F.HoldsStmts (first ++ second) := by
  rw [holdsStmts_iff] at hfirst hsecond ⊢
  intro s hs
  exact (List.mem_append.mp hs).elim (hfirst s) (hsecond s)

/-- The condition on a single node. -/
def node (F : Form ι) : Node ι → Prop
  | .expr e => F.expr e
  | .stmt s => F.stmt s
  | _ => True

/-- A node has the form at every depth. -/
def Holds (F : Form ι) : Node ι → Prop
  | .expr e => F.HoldsExpr e
  | .stmt s => F.HoldsStmt s
  | .method m => F.HoldsMethod m
  | .function _ b | .block b => F.HoldsStmts b

/-- A node that meets the condition has the form if its children have it. -/
theorem holds_of_children {n : Node ι} (hnode : F.node n) (h : ∀ c ∈ n.children, F.Holds c) :
    F.Holds n := by
  cases n with
  | expr e =>
      refine ⟨hnode, ?_⟩
      cases e with
      | member i object m => exact h _ List.mem_cons_self
      | call i callee inputs =>
          have hcallee := h _ List.mem_cons_self
          refine ⟨Or.inr hcallee.1, hcallee.2, holdsExprs_iff.mpr fun e he => ?_⟩
          exact h _ (List.mem_cons_of_mem _ (List.mem_map_of_mem he))
      | functionLit i n params b => exact h _ List.mem_cons_self
      | classLit i n ms =>
          exact holdsMethods_iff.mpr fun m hm => h _ (List.mem_map_of_mem hm)
      | _ => trivial
  | stmt s =>
      refine ⟨hnode, ?_⟩
      cases s with
      | importPackage i n path => trivial
      | declare | assign | ret | expr => exact h _ List.mem_cons_self
      | assignMember i object m value =>
          exact ⟨h (.expr object) (by simp [Node.children]),
            h (.expr value) (by simp [Node.children])⟩
      | branch i condition thenBlock elseBlock =>
          exact ⟨h (.expr condition) (by simp [Node.children]),
            h (.block thenBlock) (by simp [Node.children]),
            h (.block elseBlock) (by simp [Node.children])⟩
  | method m =>
      obtain ⟨i, n, params, b⟩ := m
      exact h (.block b) List.mem_cons_self
  | function _ b | block b => exact holdsStmts_iff.mpr fun s hs => h _ (List.mem_map_of_mem hs)

/-- A node has the form if all nodes at and below it meet the condition. -/
theorem holds_of_preorder {n : Node ι} (h : ∀ m ∈ n.preorder, F.node m) : F.Holds n := by
  induction n using Node.preorder.induct with
  | case1 n ih =>
      rw [Node.preorder_eq, List.forall_mem_cons] at h
      exact holds_of_children h.1 fun c hc =>
        ih ⟨c, hc⟩ fun m hm => h.2 m (List.mem_flatMap.mpr ⟨c, hc, hm⟩)

/-- Where there is no condition, every node meets it. -/
theorem any_holds (n : Node ι) : any.Holds n :=
  holds_of_preorder fun m _ => by cases m <;> trivial

/-- Below every expression there is no condition to meet. -/
theorem any_expr (e : Expr ι) : any.BelowExpr e :=
  (any_holds (.expr e)).2

/-- The same below a statement. -/
theorem any_stmt (s : Stmt ι) : any.BelowStmt s :=
  (any_holds (.stmt s)).2

/-- The same for a list of statements. -/
theorem any_stmts (ss : List (Stmt ι)) : any.HoldsStmts ss :=
  any_holds (.block ss)

/-- A call of a hook has the form if its parts have it. -/
theorem holdsExpr_hook_call {hook : Hook} {i : ι} {inputs : List (Expr ι)}
    (hcall : F.expr (hook.call i inputs)) (hunit : F.expr (.unit i))
    (hinputs : F.HoldsExprs inputs) : F.HoldsExpr (hook.call i inputs) := by
  refine ⟨hcall, ?_⟩
  simp only [Hook.call, Expr.callMethod, BelowExpr]
  exact ⟨Or.inl rfl, ⟨hunit, trivial⟩, hinputs⟩

/-- A call of a box method has the form if its parts have it. -/
theorem holdsExpr_box_call {op : BoxOp} {i : ι} {n : String} {inputs : List (Expr ι)}
    (hcall : F.expr (op.call i n inputs)) (hbox : F.expr (.variable i n))
    (hinputs : F.HoldsExprs inputs) : F.HoldsExpr (op.call i n inputs) := by
  refine ⟨hcall, ?_⟩
  simp only [BoxOp.call, Expr.callMethod, BelowExpr]
  exact ⟨Or.inl rfl, ⟨hbox, trivial⟩, hinputs⟩

end Form

/-- The rules of a mapper turn nodes of the form `F` into trees of the form `G`, given that the
children have been mapped to trees of the form `G`. -/
structure Mapper.Establishes (M : Mapper σ ι) (F G : Form ι) : Prop where
  heads : ∀ params b, G.HoldsStmts (M.heads params b)
  stmt : ∀ scope s, F.stmt s → G.BelowStmt (M.rebuildStmt scope s) → G.HoldsStmt (M.stmt scope s)
  expr : ∀ scope e, F.expr e → G.BelowExpr (M.rebuild scope e) → G.HoldsExpr (M.expr scope e)

namespace Mapper.Establishes

variable {M : Mapper σ ι} {F G : Form ι}

/-- The children of a call, with its callee as the traversal leaves it. -/
theorem belowExpr_call (h : M.Establishes F G) (scope : σ) (i : ι) (callee : Expr ι)
    (inputs : List (Expr ι)) (hcallee : callee.isMember = true ∨ F.expr callee)
    (hbelow : G.BelowExpr (M.rebuild scope callee))
    (hinputs : G.HoldsExprs (M.exprs scope inputs)) :
    G.BelowExpr (M.rebuild scope (.call i callee inputs)) := by
  rw [rebuild]
  by_cases hmember : callee.isMember = true
  · rw [if_pos hmember, Form.BelowExpr]
    refine ⟨Or.inl ?_, hbelow, hinputs⟩
    cases callee with
    | member => rfl
    | _ => exact absurd hmember (by simp [Expr.isMember])
  · rw [if_neg hmember, Form.BelowExpr]
    have hexpr := h.expr scope callee (hcallee.resolve_left hmember) hbelow
    exact ⟨Or.inr hexpr.1, hexpr.2, hinputs⟩

mutual

/-- Below a mapped expression everything has the new form. -/
theorem below (h : M.Establishes F G) (scope : σ) : (e : Expr ι) → F.BelowExpr e →
    G.BelowExpr (M.rebuild scope e)
  | .unit _, _ | .name _ _, _ | .text _ _, _ | .number _ _, _ | .variable _ _, _ => by
      simp [rebuild, Form.BelowExpr]
  | .member _ object _, hbelow => by
      rw [Form.BelowExpr] at hbelow
      have hobject := h.expr scope object hbelow.1 (below h scope object hbelow.2)
      rw [rebuild_member, Form.BelowExpr]
      exact hobject
  | .call i callee inputs, hbelow => by
      rw [Form.BelowExpr] at hbelow
      exact h.belowExpr_call scope i callee inputs hbelow.1 (below h scope callee hbelow.2.1)
        (exprs h scope inputs hbelow.2.2)
  | .functionLit _ _ params body, hbelow => by
      rw [Form.BelowExpr] at hbelow
      rw [rebuild_functionLit, Form.BelowExpr]
      exact (h.heads params body).append (stmts h _ body hbelow)
  | .classLit _ _ ms, hbelow => by
      rw [Form.BelowExpr] at hbelow
      rw [rebuild, Form.BelowExpr]
      exact methods h scope ms hbelow

/-- A mapped list of expressions has the new form. -/
theorem exprs (h : M.Establishes F G) (scope : σ) : (es : List (Expr ι)) → F.HoldsExprs es →
    G.HoldsExprs (M.exprs scope es)
  | [], _ => trivial
  | e :: es, hholds => by
      rw [Form.HoldsExprs] at hholds
      rw [exprs_cons, Form.HoldsExprs]
      exact ⟨h.expr scope e hholds.1.1 (below h scope e hholds.1.2), exprs h scope es hholds.2⟩

/-- Below a mapped statement everything has the new form. -/
theorem belowStmt (h : M.Establishes F G) (scope : σ) : (s : Stmt ι) → F.BelowStmt s →
    G.BelowStmt (M.rebuildStmt scope s)
  | .importPackage _ _ _, _ => trivial
  | .declare _ _ value, hbelow | .assign _ _ value, hbelow | .ret _ value, hbelow
  | .expr value, hbelow => by
      rw [Form.BelowStmt] at hbelow
      rw [rebuildStmt, Form.BelowStmt]
      exact h.expr scope value hbelow.1 (below h scope value hbelow.2)
  | .assignMember _ object _ value, hbelow => by
      rw [Form.BelowStmt] at hbelow
      rw [rebuildStmt, Form.BelowStmt]
      exact ⟨h.expr scope object hbelow.1.1 (below h scope object hbelow.1.2),
        h.expr scope value hbelow.2.1 (below h scope value hbelow.2.2)⟩
  | .branch _ condition thenBlock elseBlock, hbelow => by
      rw [Form.BelowStmt] at hbelow
      rw [rebuildStmt, Form.BelowStmt]
      exact ⟨h.expr scope condition hbelow.1.1 (below h scope condition hbelow.1.2),
        (h.heads [] thenBlock).append (stmts h _ thenBlock hbelow.2.1),
        (h.heads [] elseBlock).append (stmts h _ elseBlock hbelow.2.2)⟩

/-- A mapped list of statements has the new form. -/
theorem stmts (h : M.Establishes F G) (scope : σ) : (ss : List (Stmt ι)) → F.HoldsStmts ss →
    G.HoldsStmts (M.stmts scope ss)
  | [], _ => trivial
  | s :: ss, hholds => by
      rw [Form.HoldsStmts] at hholds
      rw [Mapper.stmts, Form.HoldsStmts]
      exact ⟨h.stmt scope s hholds.1.1 (belowStmt h scope s hholds.1.2), stmts h scope ss hholds.2⟩

/-- A mapped method has the new form. -/
theorem method (h : M.Establishes F G) (scope : σ) : (m : Method ι) → F.HoldsMethod m →
    G.HoldsMethod (M.method scope m)
  | .mk _ _ _ body, hholds => by
      rw [Form.HoldsMethod] at hholds
      rw [method_mk, Form.HoldsMethod]
      exact (h.heads [] body).append (stmts h _ body hholds)

/-- A mapped list of methods has the new form. -/
theorem methods (h : M.Establishes F G) (scope : σ) : (ms : List (Method ι)) →
    F.HoldsMethods ms → G.HoldsMethods (M.methods scope ms)
  | [], _ => trivial
  | m :: ms, hholds => by
      rw [Form.HoldsMethods] at hholds
      rw [Mapper.methods, Form.HoldsMethods]
      exact ⟨method h scope m hholds.1, methods h scope ms hholds.2⟩

end

/-- A mapped block has the new form. -/
theorem block (h : M.Establishes F G) (scope : σ) (b : Block ι) (hholds : F.HoldsStmts b) :
    G.HoldsStmts (M.block scope b) :=
  (h.heads [] b).append (h.stmts _ b hholds)

end Mapper.Establishes

end Lowering

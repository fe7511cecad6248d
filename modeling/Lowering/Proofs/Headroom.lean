import Lowering.Proofs.CoreForm

/-!
# Headroom

How deep the data of a tree nest, counted on the tree, and how deep they may come to nest. A
`Headroom` says for each kind of node how much may still be added to the depth of such nodes. A
mapper that makes no node deeper than its headroom allows leaves whole trees within it
(`Mapper.Spends.depthStmt`).
-/

namespace Lowering

variable {σ ι : Type}

/-- How the depth of a node may grow: by so much, and to at least so much. -/
structure Growth where
  added : Nat := 0
  least : Nat := 0
deriving DecidableEq, Repr

/-- The depth that a node may come to have. -/
def Growth.of (g : Growth) (depth : Nat) : Nat :=
  max g.least (depth + g.added)

/-- What is deeper may come to be deeper. -/
theorem Growth.of_le_of {g : Growth} {depth depth' : Nat} (h : depth' ≤ depth) :
    g.of depth' ≤ g.of depth := by
  rw [of, of]
  omega

/-- No growth makes a node less deep. -/
theorem Growth.le_of (g : Growth) (depth : Nat) : depth ≤ g.of depth := by
  rw [of]
  omega

/-- Without growth a node is as deep as it was. -/
theorem Growth.of_empty (depth : Nat) : Growth.of {} depth = depth :=
  Nat.zero_max depth

/-- How the depths of nodes may grow, by their kind. A callee that selects a method, like nodes of
the kinds that are not listed, grows only by what is below it. -/
structure Headroom where
  /-- Reads of variables. -/
  read : Growth := {}
  member : Growth := {}
  /-- Calls of function values. -/
  call : Growth := {}
  functionLit : Growth := {}
  classLit : Growth := {}
  /-- Declarations of and assignments to variables. -/
  set : Growth := {}
  assignMember : Growth := {}
  importPackage : Growth := {}
  /-- Named literals that stand as statements. -/
  namedLiteral : Growth := {}
  /-- How deep the statements may nest that are put at the start of a block. -/
  block : Nat := 0
deriving DecidableEq, Repr

/-- How deep the list of parameters nests below itself. -/
def Param.depth (params : List (Param ι)) : Nat :=
  if params.isEmpty then 0 else 1

/-- Parameters have nothing nested below them. -/
theorem Param.depth_le_one (params : List (Param ι)) : Param.depth params ≤ 1 := by
  rw [Param.depth]
  split <;> decide

namespace Headroom

/-- Nothing may be added. -/
def none : Headroom := {}

variable (H : Headroom)

/-- How deep an expression may come to nest, given how deep it may by what is added below it. -/
def expr : Expr ι → Nat → Nat
  | .variable _ _, depth => H.read.of depth
  | .member _ _ _, depth => H.member.of depth
  | .call _ callee _, depth => if callee.isMember then depth else H.call.of depth
  | .functionLit _ _ _ _, depth => H.functionLit.of depth
  | .classLit _ _ _, depth => H.classLit.of depth
  | _, depth => depth

/-- How deep a statement may come to nest, given how deep it may by what is added below it. -/
def stmt : Stmt ι → Nat → Nat
  | .importPackage _ _ _, depth => H.importPackage.of depth
  | .declare _ _ _, depth | .assign _ _ _, depth => H.set.of depth
  | .assignMember _ _ _ _, depth => H.assignMember.of depth
  | .expr e, depth => if e.isNamedLiteral then H.namedLiteral.of depth else depth
  | _, depth => depth

mutual

/-- How deep the item of an expression may come to nest by what is added below the expression. -/
def below : Expr ι → Nat
  | .unit _ => 0
  | .name _ _ | .text _ _ | .number _ _ | .variable _ _ => 1
  | .member _ object _ => H.expr object (below object) + 3
  | .call _ callee inputs =>
      max (if callee.isMember then below callee else H.expr callee (below callee))
        (exprs inputs) + 3
  | .functionLit _ _ params body => max (Param.depth params) (max H.block (stmts body)) + 3
  | .classLit _ _ ms => methods ms + 3

/-- How deep the nodes of a list of expressions may come to nest. -/
def exprs : List (Expr ι) → Nat
  | [] => 0
  | e :: es => max (H.expr e (below e) + 1) (exprs es)

/-- How deep the item of a statement may come to nest by what is added below the statement. -/
def belowStmt : Stmt ι → Nat
  | .importPackage _ _ _ => 2
  | .declare _ _ value | .assign _ _ value => H.expr value (below value) + 3
  | .assignMember _ object _ value =>
      max (H.expr object (below object)) (H.expr value (below value)) + 3
  | .ret _ value => H.expr value (below value) + 2
  | .branch _ condition thenBlock elseBlock =>
      max (H.expr condition (below condition))
        (max H.block (max (stmts thenBlock) (stmts elseBlock))) + 3
  | .expr e => H.expr e (below e) + 1

/-- How deep the nodes of a list of statements may come to nest. -/
def stmts : List (Stmt ι) → Nat
  | [] => 0
  | s :: ss => max (H.stmt s (belowStmt s) + 1) (stmts ss)

/-- How deep the node of a method may come to nest. -/
def method : Method ι → Nat
  | .mk _ _ params body => max (Param.depth params) (max H.block (stmts body)) + 4

/-- How deep the nodes of a list of methods may come to nest. -/
def methods : List (Method ι) → Nat
  | [] => 0
  | m :: ms => max (method m) (methods ms)

end

/-- How deep the item of an expression may come to nest. -/
def depth (e : Expr ι) : Nat := H.expr e (H.below e)

/-- How deep the item of a callee may come to nest: nothing is added if it selects a method. -/
def depthCallee (callee : Expr ι) : Nat :=
  if callee.isMember then H.below callee else H.depth callee

/-- How deep the item of a statement may come to nest. -/
def depthStmt (s : Stmt ι) : Nat := H.stmt s (H.belowStmt s)

/-- How deep the nodes of a block may come to nest. -/
def depthBlock (b : Block ι) : Nat := max H.block (H.stmts b)

variable {H}

/-- An expression may nest at least as deep as what is below it makes it. -/
theorem below_le_depth (e : Expr ι) : H.below e ≤ H.depth e := by
  cases e with
  | call i callee inputs =>
      rw [depth, expr]
      split
      · exact Nat.le_refl _
      · exact Growth.le_of _ _
  | «variable» _ _ | member _ _ _ | functionLit _ _ _ _ | classLit _ _ _ => exact Growth.le_of _ _
  | _ => exact Nat.le_refl _

/-- Where nothing is added, the depth is what it is. -/
theorem depth_none (e : Expr ι) : none.depth e = none.below e := by
  cases e with
  | call i callee inputs =>
      rw [depth, expr, none, Growth.of_empty, ite_self]
  | «variable» _ _ | member _ _ _ | functionLit _ _ _ _ | classLit _ _ _ => exact Growth.of_empty _
  | _ => rfl

/-- Where nothing may be added, a statement is as deep as what is below it makes it. -/
theorem depthStmt_none (s : Stmt ι) : none.depthStmt s = none.belowStmt s := by
  cases s with
  | expr e => rw [depthStmt, stmt, none, Growth.of_empty, ite_self]
  | importPackage _ _ _ | declare _ _ _ | assign _ _ _ | assignMember _ _ _ _ =>
      exact Growth.of_empty _
  | _ => rfl

/-- Where nothing may be added, it is the same for every callee. -/
theorem depthCallee_none (callee : Expr ι) : none.depthCallee callee = none.below callee := by
  rw [depthCallee, depth_none, ite_self]

/-- A callee may nest no deeper than the same expression elsewhere. -/
theorem depthCallee_le (callee : Expr ι) : H.depthCallee callee ≤ H.depth callee := by
  rw [depthCallee]
  split
  · exact below_le_depth callee
  · exact Nat.le_refl _

/-- A call is as deep as its callee or its inputs make it. -/
theorem below_call (i : ι) (callee : Expr ι) (inputs : List (Expr ι)) :
    H.below (.call i callee inputs) = max (H.depthCallee callee) (H.exprs inputs) + 3 := rfl

/-- A function literal is as deep as its parameters or its body make it. -/
theorem below_functionLit (i : ι) (n : Option String) (params : List (Param ι)) (b : Block ι) :
    H.below (.functionLit i n params b) = max (Param.depth params) (H.depthBlock b) + 3 := rfl

/-- A list of expressions is as deep as the first one or the others make it. -/
theorem exprs_cons (e : Expr ι) (es : List (Expr ι)) :
    H.exprs (e :: es) = max (H.depth e + 1) (H.exprs es) := rfl

/-- The bound of a list of expressions is one for each of them. -/
theorem exprs_le_iff {es : List (Expr ι)} {n : Nat} :
    H.exprs es ≤ n ↔ ∀ e ∈ es, H.depth e < n := by
  induction es with
  | nil => simp [exprs]
  | cons e es ih => rw [exprs_cons, Nat.max_le, ih, List.forall_mem_cons, Nat.succ_le_iff]

/-- A branch is as deep as its condition or one of its blocks makes it. -/
theorem belowStmt_branch (i : ι) (condition : Expr ι) (thenBlock elseBlock : Block ι) :
    H.belowStmt (.branch i condition thenBlock elseBlock) =
      max (H.depth condition) (max (H.depthBlock thenBlock) (H.depthBlock elseBlock)) + 3 := by
  rw [belowStmt, depth, depthBlock, depthBlock]
  omega

/-- A method is as deep as its parameters or its body make it. -/
theorem method_mk (i : ι) (n : String) (params : List (Param ι)) (b : Block ι) :
    H.method (.mk i n params b) = max (Param.depth params) (H.depthBlock b) + 4 := rfl

/-- A list of statements is as deep as the first one or the others make it. -/
theorem stmts_cons (s : Stmt ι) (ss : List (Stmt ι)) :
    H.stmts (s :: ss) = max (H.depthStmt s + 1) (H.stmts ss) := rfl

/-- Two lists of statements in a row are as deep as the deeper one. -/
theorem stmts_append (first second : List (Stmt ι)) :
    H.stmts (first ++ second) = max (H.stmts first) (H.stmts second) := by
  induction first with
  | nil => exact (Nat.zero_max _).symm
  | cons s ss ih => rw [List.cons_append, stmts_cons, stmts_cons, ih, Nat.max_assoc]

/-- The bound of a list of statements is one for each of them. -/
theorem stmts_le_iff {ss : List (Stmt ι)} {n : Nat} :
    H.stmts ss ≤ n ↔ ∀ s ∈ ss, H.depthStmt s < n := by
  induction ss with
  | nil => simp [stmts]
  | cons s ss ih => rw [stmts_cons, Nat.max_le, ih, List.forall_mem_cons, Nat.succ_le_iff]

/-- No method of a list is deeper than the list. -/
theorem method_le_methods {m : Method ι} {ms : List (Method ι)} (h : m ∈ ms) :
    H.method m ≤ H.methods ms := by
  induction ms with
  | nil => cases h
  | cons m' ms ih =>
      rw [methods]
      rcases List.mem_cons.mp h with rfl | h
      · exact Nat.le_max_left _ _
      · exact Nat.le_trans (ih h) (Nat.le_max_right _ _)

/-- A call of a hook grows only by what is below it. -/
theorem depth_hook_call (hook : Hook) (i : ι) (inputs : List (Expr ι)) :
    H.depth (hook.call i inputs) = max 3 (H.exprs inputs) + 3 := rfl

/-! ## Nodes that are only rebuilt -/

/-- An expression with mapped children has no more headroom than before. -/
theorem expr_rebuild (M : Mapper σ ι) (scope : σ) (e : Expr ι) {depth depth' : Nat}
    (h : depth' ≤ depth) : H.expr (M.rebuild scope e) depth' ≤ H.expr e depth := by
  -- a callee may become the selection of a method, but never ceases to be one
  have hcall : ∀ member : Bool,
      (if member then depth' else H.call.of depth') ≤ H.call.of depth := by
    intro member
    cases member with
    | true => exact Nat.le_trans h (Growth.le_of _ _)
    | false => exact Growth.of_le_of h
  cases e with
  | call i callee inputs =>
      cases callee with
      | member j object m => exact h
      | _ => exact hcall _
  | «variable» _ _ | member _ _ _ | functionLit _ _ _ _ | classLit _ _ _ =>
      exact Growth.of_le_of h
  | _ => exact h

/-- Nor has a statement, if the mapper makes no named literals. -/
theorem stmt_rebuildStmt {M : Mapper σ ι} (hM : M.KeepsUnnamed) (scope : σ) (s : Stmt ι)
    {depth depth' : Nat} (h : depth' ≤ depth) :
    H.stmt (M.rebuildStmt scope s) depth' ≤ H.stmt s depth := by
  cases s with
  | expr e =>
      rw [Mapper.rebuildStmt, stmt, stmt]
      cases he : e.isNamedLiteral with
      | false =>
          rw [hM.expr scope he]
          exact h
      | true =>
          rw [if_pos rfl]
          split
          · exact Growth.of_le_of h
          · exact Nat.le_trans h (Growth.le_of _ _)
  | importPackage _ _ _ | declare _ _ _ | assign _ _ _ | assignMember _ _ _ _ =>
      exact Growth.of_le_of h
  | _ => exact h

end Headroom

/-- What the rules of a mapper make of a node stays within the headroom of the node, where the
second headroom is what is left of the first. -/
structure Mapper.Spends (M : Mapper σ ι) (H left : Headroom) : Prop where
  unnamed : M.KeepsUnnamed
  block_le : left.block ≤ H.block
  heads : ∀ params b, left.stmts (M.heads params b) ≤ H.block
  onExpr : ∀ scope e rebuilt,
    left.depth (M.onExpr scope e rebuilt) ≤ H.expr rebuilt (left.below rebuilt)
  onStmt : ∀ scope s, left.depthStmt (M.onStmt scope s) ≤ H.stmt s (left.belowStmt s)

namespace Mapper.Spends

variable {M : Mapper σ ι} {H left : Headroom}

/-- An expression stays within its headroom if what is below it does. -/
theorem expr_of_below (h : M.Spends H left) (scope : σ) {e : Expr ι}
    (hbelow : left.below (M.rebuild scope e) ≤ H.below e) :
    left.depth (M.expr scope e) ≤ H.depth e :=
  Nat.le_trans (h.onExpr scope e _) (Headroom.expr_rebuild M scope e hbelow)

/-- A statement stays within its headroom if what is below it does. -/
theorem stmt_of_below (h : M.Spends H left) (scope : σ) {s : Stmt ι}
    (hbelow : left.belowStmt (M.rebuildStmt scope s) ≤ H.belowStmt s) :
    left.depthStmt (M.stmt scope s) ≤ H.depthStmt s := by
  rw [Mapper.stmt_eq]
  exact Nat.le_trans (h.onStmt scope _) (Headroom.stmt_rebuildStmt h.unnamed scope s hbelow)

/-- A block stays within the headroom if its statements do. -/
theorem block_of_stmts (h : M.Spends H left) (params : List (Param ι)) {scope : σ} {b : Block ι}
    (hb : left.stmts (M.stmts scope b) ≤ H.stmts b) :
    left.depthBlock (M.heads params b ++ M.stmts scope b) ≤ H.depthBlock b := by
  have hheads := h.heads params b
  have hblock := h.block_le
  rw [Headroom.depthBlock, Headroom.depthBlock, Headroom.stmts_append]
  omega

/-- A callee stays within the headroom, whether it selects a method or not. -/
theorem callee_of_below (h : M.Spends H left) (scope : σ) {callee : Expr ι}
    (hcallee : left.below (M.rebuild scope callee) ≤ H.below callee) :
    left.depthCallee (if callee.isMember then M.rebuild scope callee else M.expr scope callee) ≤
      H.depthCallee callee := by
  cases callee with
  | member i object m => exact hcallee
  | _ => exact Nat.le_trans (Headroom.depthCallee_le _) (h.expr_of_below scope hcallee)

mutual

/-- What is below an expression stays within its headroom. -/
theorem rebuild (h : M.Spends H left) (scope : σ) : (e : Expr ι) →
    left.below (M.rebuild scope e) ≤ H.below e
  | .unit _ | .name _ _ | .text _ _ | .number _ _ | .variable _ _ => Nat.le_refl _
  | .member i object m =>
      Nat.add_le_add_right (h.expr_of_below scope (rebuild h scope object)) 3
  | .call i callee inputs => by
      have hcallee := h.callee_of_below scope (rebuild h scope callee)
      have hinputs := exprs h scope inputs
      rw [Mapper.rebuild, Headroom.below_call, Headroom.below_call]
      rw [Mapper.expr] at hcallee
      omega
  | .functionLit i n params b => by
      have hb := h.block_of_stmts params
        (stmts h (M.ofBlock (M.ofFunction scope params b) b) b)
      rw [rebuild_functionLit, body, Headroom.below_functionLit, Headroom.below_functionLit]
      omega
  | .classLit i n ms => Nat.add_le_add_right (methods h scope ms) 3

/-- The same for a list of expressions. -/
theorem exprs (h : M.Spends H left) (scope : σ) : (es : List (Expr ι)) →
    left.exprs (M.exprs scope es) ≤ H.exprs es
  | [] => Nat.le_refl _
  | e :: es => by
      have he := h.expr_of_below scope (rebuild h scope e)
      have hes := exprs h scope es
      rw [Mapper.exprs_cons, Headroom.exprs_cons, Headroom.exprs_cons]
      omega

/-- The same below a statement. -/
theorem rebuildStmt (h : M.Spends H left) (scope : σ) : (s : Stmt ι) →
    left.belowStmt (M.rebuildStmt scope s) ≤ H.belowStmt s
  | .importPackage _ _ _ => Nat.le_refl _
  | .declare _ _ value | .assign _ _ value =>
      Nat.add_le_add_right (h.expr_of_below scope (rebuild h scope value)) 3
  | .assignMember _ object _ value => by
      have hobject := h.expr_of_below scope (rebuild h scope object)
      have hvalue := h.expr_of_below scope (rebuild h scope value)
      show max (left.depth _) (left.depth _) + 3 ≤ max (H.depth _) (H.depth _) + 3
      omega
  | .ret _ value => Nat.add_le_add_right (h.expr_of_below scope (rebuild h scope value)) 2
  | .branch _ condition thenBlock elseBlock => by
      have hcondition := h.expr_of_below scope (rebuild h scope condition)
      have hthen := h.block_of_stmts [] (stmts h (M.ofBlock scope thenBlock) thenBlock)
      have helse := h.block_of_stmts [] (stmts h (M.ofBlock scope elseBlock) elseBlock)
      rw [Mapper.rebuildStmt, Mapper.block, Mapper.block, Headroom.belowStmt_branch,
        Headroom.belowStmt_branch]
      omega
  | .expr e => Nat.add_le_add_right (h.expr_of_below scope (rebuild h scope e)) 1

/-- The same for a list of statements in its own scope. -/
theorem stmts (h : M.Spends H left) (scope : σ) : (ss : List (Stmt ι)) →
    left.stmts (M.stmts scope ss) ≤ H.stmts ss
  | [] => Nat.le_refl _
  | s :: ss => by
      have hs := h.stmt_of_below scope (rebuildStmt h scope s)
      have hss := stmts h scope ss
      rw [Mapper.stmts, Headroom.stmts_cons, Headroom.stmts_cons]
      omega

/-- The same for a method. -/
theorem method (h : M.Spends H left) (scope : σ) : (m : Method ι) →
    left.method (M.method scope m) ≤ H.method m
  | .mk i n params b => by
      have hb := h.block_of_stmts [] (stmts h (M.ofBlock scope b) b)
      rw [method_mk, Mapper.block, Headroom.method_mk, Headroom.method_mk]
      omega

/-- The same for a list of methods. -/
theorem methods (h : M.Spends H left) (scope : σ) : (ms : List (Method ι)) →
    left.methods (M.methods scope ms) ≤ H.methods ms
  | [] => Nat.le_refl _
  | m :: ms => by
      have hm := method h scope m
      have hms := methods h scope ms
      rw [Mapper.methods, Headroom.methods, Headroom.methods]
      omega

end

/-- A statement stays within its headroom. -/
theorem depthStmt (h : M.Spends H left) (scope : σ) (s : Stmt ι) :
    left.depthStmt (M.stmt scope s) ≤ H.depthStmt s :=
  h.stmt_of_below scope (h.rebuildStmt scope s)

end Mapper.Spends

end Lowering

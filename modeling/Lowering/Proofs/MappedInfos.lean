import Lowering.Proofs.Collecting
import Lowering.Tree.Render

/-!
# Trees with mapped infos

`Program.mapInfo g` applies `g` to the info of every node and parameter, and keeps all else. It says
what it means that a traversal does not look at infos: mapped trees are traversed as the trees they
come from. For a mapper this is a condition on its rules (`Mapper.Natural`), which then holds for
whole trees (`Mapper.Natural.stmts`); for a collector it is one on what single nodes contribute
(`Collector.Natural.stmts`). Rendering does not look at infos either (`Program.render_mapInfo`).
-/

namespace Lowering

variable {σ ι κ α : Type}

/-! ## Mapping -/

/-- Map the info of a parameter. -/
def Param.mapInfo (g : ι → κ) (p : Param ι) : Param κ := ⟨g p.info, p.name⟩

mutual

/-- Map all infos of an expression. -/
def Expr.mapInfo (g : ι → κ) : Expr ι → Expr κ
  | .unit i => .unit (g i)
  | .name i n => .name (g i) n
  | .text i t => .text (g i) t
  | .number i d => .number (g i) d
  | .variable i n => .variable (g i) n
  | .member i object m => .member (g i) (Expr.mapInfo g object) m
  | .call i callee inputs => .call (g i) (Expr.mapInfo g callee) (Expr.mapInfos g inputs)
  | .functionLit i n params body =>
      .functionLit (g i) n (params.map (Param.mapInfo g)) (Stmt.mapInfos g body)
  | .classLit i n methods => .classLit (g i) n (Method.mapInfos g methods)

/-- Map all infos of a list of expressions. -/
def Expr.mapInfos (g : ι → κ) : List (Expr ι) → List (Expr κ)
  | [] => []
  | e :: es => Expr.mapInfo g e :: Expr.mapInfos g es

/-- Map all infos of a statement. -/
def Stmt.mapInfo (g : ι → κ) : Stmt ι → Stmt κ
  | .importPackage i n path => .importPackage (g i) n path
  | .declare i n value => .declare (g i) n (Expr.mapInfo g value)
  | .assign i n value => .assign (g i) n (Expr.mapInfo g value)
  | .assignMember i object m value =>
      .assignMember (g i) (Expr.mapInfo g object) m (Expr.mapInfo g value)
  | .ret i value => .ret (g i) (Expr.mapInfo g value)
  | .branch i condition thenBlock elseBlock =>
      .branch (g i) (Expr.mapInfo g condition) (Stmt.mapInfos g thenBlock)
        (Stmt.mapInfos g elseBlock)
  | .expr e => .expr (Expr.mapInfo g e)

/-- Map all infos of a list of statements. -/
def Stmt.mapInfos (g : ι → κ) : List (Stmt ι) → List (Stmt κ)
  | [] => []
  | s :: ss => Stmt.mapInfo g s :: Stmt.mapInfos g ss

/-- Map all infos of a method. -/
def Method.mapInfo (g : ι → κ) : Method ι → Method κ
  | .mk i n params body => .mk (g i) n (params.map (Param.mapInfo g)) (Stmt.mapInfos g body)

/-- Map all infos of a list of methods. -/
def Method.mapInfos (g : ι → κ) : List (Method ι) → List (Method κ)
  | [] => []
  | m :: ms => Method.mapInfo g m :: Method.mapInfos g ms

end

/-- Map all infos of a program. -/
def Program.mapInfo (g : ι → κ) (p : Program ι) : Program κ :=
  ⟨Stmt.mapInfos g p.statements⟩

variable (g : ι → κ)

/-- The infos of a list of expressions are replaced one by one. -/
theorem Expr.mapInfos_eq_map (es : List (Expr ι)) :
    Expr.mapInfos g es = es.map (Expr.mapInfo g) := by
  induction es with
  | nil => rfl
  | cons e es ih => rw [mapInfos, ih, List.map_cons]

/-- The infos of a list of statements are replaced one by one. -/
theorem Stmt.mapInfos_eq_map (ss : List (Stmt ι)) :
    Stmt.mapInfos g ss = ss.map (Stmt.mapInfo g) := by
  induction ss with
  | nil => rfl
  | cons s ss ih => rw [mapInfos, ih, List.map_cons]

/-- The infos of two lists of statements in a row are replaced on their own. -/
theorem Stmt.mapInfos_append (first second : List (Stmt ι)) :
    Stmt.mapInfos g (first ++ second) = Stmt.mapInfos g first ++ Stmt.mapInfos g second := by
  simp only [mapInfos_eq_map, List.map_append]

/-- The info of an expression is replaced like those in it. -/
@[simp] theorem Expr.info_mapInfo (e : Expr ι) : (e.mapInfo g).info = g e.info := by
  cases e <;> rfl

/-- The info of a statement is replaced like those in it. -/
@[simp] theorem Stmt.info_mapInfo (s : Stmt ι) : (s.mapInfo g).info = g s.info := by
  cases s with
  | expr e => exact e.info_mapInfo g
  | _ => rfl

/-- Member accesses stay such under all infos. -/
@[simp] theorem Expr.isMember_mapInfo (e : Expr ι) : (e.mapInfo g).isMember = e.isMember := by
  cases e <;> rfl

/-- A statement declares the same name under all infos. -/
@[simp] theorem Stmt.declared?_mapInfo (s : Stmt ι) : (s.mapInfo g).declared? = s.declared? := by
  cases s <;> rfl

/-- Parameters have the same names under all infos. -/
@[simp] theorem Param.names_mapInfo (params : List (Param ι)) :
    Param.names (params.map (Param.mapInfo g)) = Param.names params := by
  rw [Param.names, List.map_map]
  rfl

/-- A block declares the same names under all infos. -/
@[simp] theorem Block.declared_mapInfos (b : Block ι) :
    Block.declared (Stmt.mapInfos g b) = Block.declared b := by
  rw [Block.declared, Stmt.mapInfos_eq_map, List.filterMap_map]
  exact List.filterMap_congr fun s _ => s.declared?_mapInfo g

/-! ## Mappers -/

/-- Two scopings, for trees with infos of two types, make the same scopes for a tree and for the
tree with mapped infos. -/
structure Scoping.Natural (S : Scoping σ ι) (T : Scoping σ κ) : Prop where
  ofFunction : ∀ scope params b,
    T.ofFunction scope (params.map (Param.mapInfo g)) (Stmt.mapInfos g b) =
      S.ofFunction scope params b
  ofBlock : ∀ scope b, T.ofBlock scope (Stmt.mapInfos g b) = S.ofBlock scope b

/-- The rules of two mappers, for trees with infos of two types, do the same up to infos. -/
structure Mapper.Natural (M : Mapper σ ι) (N : Mapper σ κ) : Prop
    extends Scoping.Natural g M.toScoping N.toScoping where
  heads : ∀ params b, N.heads (params.map (Param.mapInfo g)) (Stmt.mapInfos g b) =
    Stmt.mapInfos g (M.heads params b)
  onStmt : ∀ scope s, N.onStmt scope (Stmt.mapInfo g s) = Stmt.mapInfo g (M.onStmt scope s)
  onExpr : ∀ scope e rebuilt, N.onExpr scope (Expr.mapInfo g e) (Expr.mapInfo g rebuilt) =
    Expr.mapInfo g (M.onExpr scope e rebuilt)

namespace Mapper.Natural

variable {g} {M : Mapper σ ι} {N : Mapper σ κ}

/-- The step from the children of an expression to the expression. -/
theorem expr_of_rebuild (h : Natural g M N) (scope : σ) {e : Expr ι}
    (hbelow : N.rebuild scope (e.mapInfo g) = (M.rebuild scope e).mapInfo g) :
    N.expr scope (e.mapInfo g) = (M.expr scope e).mapInfo g := by
  rw [Mapper.expr, hbelow, h.onExpr, Mapper.expr]

/-- The step from the statements of a block to the block with its heads. -/
theorem block_of_stmts (h : Natural g M N) (scope : σ) (params : List (Param ι)) (b : Block ι)
    (hstmts : N.stmts (M.ofBlock scope b) (Stmt.mapInfos g b) =
      Stmt.mapInfos g (M.stmts (M.ofBlock scope b) b)) :
    N.heads (params.map (Param.mapInfo g)) (Stmt.mapInfos g b) ++
        N.stmts (N.ofBlock scope (Stmt.mapInfos g b)) (Stmt.mapInfos g b) =
      Stmt.mapInfos g (M.heads params b ++ M.stmts (M.ofBlock scope b) b) := by
  rw [h.heads, h.ofBlock, hstmts, Stmt.mapInfos_append]

mutual

/-- Below an expression, mapping its infos first or last is the same. -/
theorem rebuild (h : Natural g M N) (scope : σ) : (e : Expr ι) →
    N.rebuild scope (e.mapInfo g) = (M.rebuild scope e).mapInfo g
  | .unit _ | .name _ _ | .text _ _ | .number _ _ | .variable _ _ => rfl
  | .member i object m =>
      congrArg (Expr.member (g i) · m) (h.expr_of_rebuild scope (rebuild h scope object))
  | .call i callee inputs => by
      have hcallee := rebuild h scope callee
      rw [Expr.mapInfo, Mapper.rebuild, Mapper.rebuild, Expr.mapInfo, exprs h scope inputs,
        Expr.isMember_mapInfo]
      split
      · rw [hcallee]
      · rw [hcallee, h.onExpr]
  | .functionLit i n params b => by
      have hstmts := stmts h (M.ofBlock (M.ofFunction scope params b) b) b
      have hbody := h.block_of_stmts (M.ofFunction scope params b) params b hstmts
      rw [Expr.mapInfo, rebuild_functionLit, rebuild_functionLit, Expr.mapInfo, body, body,
        h.ofFunction, hbody]
  | .classLit i n ms => congrArg (Expr.classLit (g i) n) (methods h scope ms)

/-- The same for a list of expressions. -/
theorem exprs (h : Natural g M N) (scope : σ) : (es : List (Expr ι)) →
    N.exprs scope (Expr.mapInfos g es) = Expr.mapInfos g (M.exprs scope es)
  | [] => rfl
  | e :: es => by
      rw [Expr.mapInfos, exprs_cons, exprs_cons, Expr.mapInfos, exprs h scope es,
        h.expr_of_rebuild scope (rebuild h scope e)]

/-- The same for a statement. -/
theorem stmt (h : Natural g M N) (scope : σ) : (s : Stmt ι) →
    N.stmt scope (s.mapInfo g) = (M.stmt scope s).mapInfo g
  | .importPackage i n path => h.onStmt scope (.importPackage i n path)
  | .declare i n value => by
      rw [Stmt.mapInfo, stmt_declare, stmt_declare, ← h.onStmt, Stmt.mapInfo,
        h.expr_of_rebuild scope (rebuild h scope value)]
  | .assign i n value => by
      rw [Stmt.mapInfo, stmt_assign, stmt_assign, ← h.onStmt, Stmt.mapInfo,
        h.expr_of_rebuild scope (rebuild h scope value)]
  | .assignMember i object m value => by
      rw [Stmt.mapInfo, stmt_assignMember, stmt_assignMember, ← h.onStmt, Stmt.mapInfo,
        h.expr_of_rebuild scope (rebuild h scope object),
        h.expr_of_rebuild scope (rebuild h scope value)]
  | .ret i value => by
      rw [Stmt.mapInfo, stmt_ret, stmt_ret, ← h.onStmt, Stmt.mapInfo,
        h.expr_of_rebuild scope (rebuild h scope value)]
  | .branch i condition thenBlock elseBlock => by
      have hthen := h.block_of_stmts scope [] thenBlock (stmts h _ thenBlock)
      have helse := h.block_of_stmts scope [] elseBlock (stmts h _ elseBlock)
      rw [Stmt.mapInfo, stmt_branch, stmt_branch, ← h.onStmt, Stmt.mapInfo,
        h.expr_of_rebuild scope (rebuild h scope condition)]
      exact congrArg (N.onStmt scope) (congrArg₂ (Stmt.branch (g i) _) hthen helse)
  | .expr e => by
      rw [Stmt.mapInfo, stmt_expr, stmt_expr, ← h.onStmt, Stmt.mapInfo,
        h.expr_of_rebuild scope (rebuild h scope e)]

/-- The same for a list of statements in its own scope. -/
theorem stmts (h : Natural g M N) (scope : σ) : (ss : List (Stmt ι)) →
    N.stmts scope (Stmt.mapInfos g ss) = Stmt.mapInfos g (M.stmts scope ss)
  | [] => rfl
  | s :: ss => by
      rw [Stmt.mapInfos, Mapper.stmts, Mapper.stmts, Stmt.mapInfos, stmt h scope s,
        stmts h scope ss]

/-- The same for a method. -/
theorem method (h : Natural g M N) (scope : σ) : (m : Method ι) →
    N.method scope (m.mapInfo g) = (M.method scope m).mapInfo g
  | .mk i n params b => by
      have hbody := h.block_of_stmts scope [] b (stmts h _ b)
      rw [Method.mapInfo, method_mk, method_mk, Method.mapInfo]
      exact congrArg _ hbody

/-- The same for a list of methods. -/
theorem methods (h : Natural g M N) (scope : σ) : (ms : List (Method ι)) →
    N.methods scope (Method.mapInfos g ms) = Method.mapInfos g (M.methods scope ms)
  | [] => rfl
  | m :: ms => by
      rw [Method.mapInfos, Mapper.methods, Mapper.methods, Method.mapInfos, method h scope m,
        methods h scope ms]

end

/-- The same for a block that opens a scope of its own. -/
theorem block (h : Natural g M N) (scope : σ) (b : Block ι) :
    N.block scope (Stmt.mapInfos g b) = Stmt.mapInfos g (M.block scope b) :=
  h.block_of_stmts scope [] b (h.stmts _ b)

end Mapper.Natural

/-! ## Collectors -/

/-- The nodes of a tree contribute the same to two collectors, for trees with infos of two types,
before and after infos are mapped. -/
structure Collector.Natural (C : Collector σ ι α) (D : Collector σ κ α) : Prop
    extends Scoping.Natural g C.toScoping D.toScoping where
  onBlock : ∀ scope params b, D.onBlock scope (params.map (Param.mapInfo g)) (Stmt.mapInfos g b) =
    C.onBlock scope params b
  onStmt : ∀ scope s, D.onStmt scope (Stmt.mapInfo g s) = C.onStmt scope s
  afterStmt : ∀ scope s, D.afterStmt scope (Stmt.mapInfo g s) = C.afterStmt scope s
  onExpr : ∀ scope e, D.onExpr scope (Expr.mapInfo g e) = C.onExpr scope e
  onMethod : ∀ scope m, D.onMethod scope (Method.mapInfo g m) = C.onMethod scope m

namespace Collector.Natural

variable {g} {C : Collector σ ι α} {D : Collector σ κ α}

/-- The step from the statements of a block to the block. -/
theorem body_of_stmts (h : Natural g C D) (scope : σ) (params : List (Param ι)) (b : Block ι)
    (hstmts : D.stmts (C.ofBlock scope b) (Stmt.mapInfos g b) =
      C.stmts (C.ofBlock scope b) b) :
    D.body scope (params.map (Param.mapInfo g)) (Stmt.mapInfos g b) = C.body scope params b := by
  rw [body, h.onBlock, h.ofBlock, hstmts, body]

mutual

/-- An expression contributes the same before and after its infos are mapped. -/
theorem expr (h : Natural g C D) (scope : σ) : (e : Expr ι) →
    D.expr scope (e.mapInfo g) = C.expr scope e
  | .unit i => h.onExpr scope (.unit i)
  | .name i n => h.onExpr scope (.name i n)
  | .text i t => h.onExpr scope (.text i t)
  | .number i d => h.onExpr scope (.number i d)
  | .variable i n => h.onExpr scope (.variable i n)
  | .member i object m =>
      congrArg₂ (· ++ ·) (h.onExpr scope (.member i object m)) (expr h scope object)
  | .call i callee inputs =>
      congrArg₂ (· ++ ·)
        (congrArg₂ (· ++ ·) (h.onExpr scope (.call i callee inputs)) (expr h scope callee))
        (exprs h scope inputs)
  | .functionLit i n params b => by
      have hnode := h.onExpr scope (.functionLit i n params b)
      have hbody := h.body_of_stmts (C.ofFunction scope params b) params b (stmts h _ b)
      rw [Expr.mapInfo] at hnode ⊢
      rw [expr_functionLit, expr_functionLit, hnode, h.ofFunction, hbody]
  | .classLit i n ms =>
      congrArg₂ (· ++ ·) (h.onExpr scope (.classLit i n ms)) (methods h scope ms)

/-- The same for a list of expressions. -/
theorem exprs (h : Natural g C D) (scope : σ) : (es : List (Expr ι)) →
    D.exprs scope (Expr.mapInfos g es) = C.exprs scope es
  | [] => rfl
  | e :: es => congrArg₂ (· ++ ·) (expr h scope e) (exprs h scope es)

/-- The same for a statement. -/
theorem stmt (h : Natural g C D) (scope : σ) : (s : Stmt ι) →
    D.stmt scope (s.mapInfo g) = C.stmt scope s
  | .importPackage i n path =>
      congrArg₂ (· ++ ·) (h.onStmt scope (.importPackage i n path))
        (h.afterStmt scope (.importPackage i n path))
  | .declare i n value =>
      congrArg₂ (· ++ ·)
        (congrArg₂ (· ++ ·) (h.onStmt scope (.declare i n value)) (expr h scope value))
        (h.afterStmt scope (.declare i n value))
  | .assign i n value =>
      congrArg₂ (· ++ ·)
        (congrArg₂ (· ++ ·) (h.onStmt scope (.assign i n value)) (expr h scope value))
        (h.afterStmt scope (.assign i n value))
  | .assignMember i object m value =>
      congrArg₂ (· ++ ·)
        (congrArg₂ (· ++ ·)
          (congrArg₂ (· ++ ·) (h.onStmt scope (.assignMember i object m value))
            (expr h scope object))
          (expr h scope value))
        (h.afterStmt scope (.assignMember i object m value))
  | .ret i value =>
      congrArg₂ (· ++ ·)
        (congrArg₂ (· ++ ·) (h.onStmt scope (.ret i value)) (expr h scope value))
        (h.afterStmt scope (.ret i value))
  | .branch i condition thenBlock elseBlock => by
      have hon := h.onStmt scope (.branch i condition thenBlock elseBlock)
      have hafter := h.afterStmt scope (.branch i condition thenBlock elseBlock)
      have hthen := h.body_of_stmts scope [] thenBlock (stmts h _ thenBlock)
      have helse := h.body_of_stmts scope [] elseBlock (stmts h _ elseBlock)
      rw [List.map_nil] at hthen helse
      rw [Stmt.mapInfo] at hon hafter ⊢
      rw [stmt_branch, stmt_branch, hon, hafter, expr h scope condition, hthen, helse]
  | .expr e =>
      congrArg₂ (· ++ ·)
        (congrArg₂ (· ++ ·) (h.onStmt scope (.expr e)) (expr h scope e))
        (h.afterStmt scope (.expr e))

/-- The same for a list of statements in its own scope. -/
theorem stmts (h : Natural g C D) (scope : σ) : (ss : List (Stmt ι)) →
    D.stmts scope (Stmt.mapInfos g ss) = C.stmts scope ss
  | [] => rfl
  | s :: ss => congrArg₂ (· ++ ·) (stmt h scope s) (stmts h scope ss)

/-- The same for a method. -/
theorem method (h : Natural g C D) (scope : σ) : (m : Method ι) →
    D.method scope (m.mapInfo g) = C.method scope m
  | .mk i n params b => by
      have hnode := h.onMethod scope (.mk i n params b)
      have hbody := h.body_of_stmts scope [] b (stmts h _ b)
      rw [Method.mapInfo] at hnode ⊢
      rw [method_mk, method_mk, hnode]
      exact congrArg _ hbody

/-- The same for a list of methods. -/
theorem methods (h : Natural g C D) (scope : σ) : (ms : List (Method ι)) →
    D.methods scope (Method.mapInfos g ms) = C.methods scope ms
  | [] => rfl
  | m :: ms => congrArg₂ (· ++ ·) (method h scope m) (methods h scope ms)

end

/-- The same for a block that opens a scope of its own. -/
theorem block (h : Natural g C D) (scope : σ) (b : Block ι) :
    D.block scope (Stmt.mapInfos g b) = C.block scope b :=
  h.body_of_stmts scope [] b (h.stmts _ b)

end Collector.Natural

/-! ## Rendering -/

/-- Infos do not show in the text of parameters. -/
theorem Param.render_mapInfo (params : List (Param ι)) :
    Param.render (params.map (Param.mapInfo g)) = Param.render params := by
  rw [Param.render, Param.names_mapInfo, Param.render]

mutual

/-- Rendering an expression does not look at its infos. -/
theorem Expr.renderAt_mapInfo (depth : Nat) : (e : Expr ι) →
    (e.mapInfo g).renderAt depth = e.renderAt depth
  | .unit _ | .name _ _ | .text _ _ | .number _ _ | .variable _ _ => rfl
  | .member _ object _ => by
      rw [Expr.mapInfo, Expr.renderAt, Expr.renderAt, Expr.renderAt_mapInfo depth object]
  | .call _ callee inputs => by
      rw [Expr.mapInfo, Expr.renderAt, Expr.renderAt, Expr.renderAt_mapInfo depth callee,
        Expr.renderAll_mapInfos depth inputs]
  | .functionLit _ _ params body => by
      rw [Expr.mapInfo, Expr.renderAt, Expr.renderAt, Param.render_mapInfo,
        Stmt.renderAll_mapInfos (depth + 1) body]
  | .classLit _ _ methods => by
      rw [Expr.mapInfo, Expr.renderAt, Expr.renderAt, Method.renderAll_mapInfos (depth + 1) methods]

/-- The same for a list of expressions. -/
theorem Expr.renderAll_mapInfos (depth : Nat) : (es : List (Expr ι)) →
    Expr.renderAll depth (Expr.mapInfos g es) = Expr.renderAll depth es
  | [] => rfl
  | e :: es =>
      congrArg₂ List.cons (Expr.renderAt_mapInfo depth e) (Expr.renderAll_mapInfos depth es)

/-- Rendering a statement does not look at its infos. -/
theorem Stmt.renderAt_mapInfo (depth : Nat) : (s : Stmt ι) →
    (s.mapInfo g).renderAt depth = s.renderAt depth
  | .importPackage _ _ _ => rfl
  | .declare _ _ value | .assign _ _ value | .ret _ value | .expr value => by
      rw [Stmt.mapInfo, Stmt.renderAt, Stmt.renderAt, Expr.renderAt_mapInfo depth value]
  | .assignMember _ object _ value => by
      rw [Stmt.mapInfo, Stmt.renderAt, Stmt.renderAt, Expr.renderAt_mapInfo depth object,
        Expr.renderAt_mapInfo depth value]
  | .branch _ condition thenBlock elseBlock => by
      have hempty : (Stmt.mapInfos g elseBlock).isEmpty = elseBlock.isEmpty := by
        rw [Stmt.mapInfos_eq_map, List.isEmpty_map]
      rw [Stmt.mapInfo, Stmt.renderAt, Stmt.renderAt, Expr.renderAt_mapInfo depth condition,
        Stmt.renderAll_mapInfos (depth + 1) thenBlock,
        Stmt.renderAll_mapInfos (depth + 1) elseBlock, hempty]

/-- The same for a list of statements. -/
theorem Stmt.renderAll_mapInfos (depth : Nat) : (ss : List (Stmt ι)) →
    Stmt.renderAll depth (Stmt.mapInfos g ss) = Stmt.renderAll depth ss
  | [] => rfl
  | s :: ss =>
      congrArg₂ List.cons (Stmt.renderAt_mapInfo depth s) (Stmt.renderAll_mapInfos depth ss)

/-- The same for a method. -/
theorem Method.renderAt_mapInfo (depth : Nat) : (m : Method ι) →
    (m.mapInfo g).renderAt depth = m.renderAt depth
  | .mk _ _ params body => by
      rw [Method.mapInfo, Method.renderAt, Method.renderAt, Param.render_mapInfo,
        Stmt.renderAll_mapInfos (depth + 1) body]

/-- The same for a list of methods. -/
theorem Method.renderAll_mapInfos (depth : Nat) : (ms : List (Method ι)) →
    Method.renderAll depth (Method.mapInfos g ms) = Method.renderAll depth ms
  | [] => rfl
  | m :: ms =>
      congrArg₂ List.cons (Method.renderAt_mapInfo depth m) (Method.renderAll_mapInfos depth ms)

end

/-- Rendering does not look at infos. -/
theorem Program.render_mapInfo (p : Program ι) : (p.mapInfo g).render = p.render := by
  rw [Program.render, Program.mapInfo, Stmt.renderAll_mapInfos, Program.render]

end Lowering

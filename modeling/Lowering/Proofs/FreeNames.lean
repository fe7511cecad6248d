import Lowering.Proofs.Collecting

/-!
# Free names

The names that a tree reads or assigns and does not bind, as `freeNameCollector` lists them. Below
more bound names there are fewer free ones (`mem_free_node`), and after global names have been
resolved there are none (`free_resolved_stmts`).
-/

namespace Lowering

variable {ι : Type}

/-! ## What is free below more bound names -/

section Collector

variable (bound : List String)

/-- The parameters of a function are bound in it. -/
@[simp] theorem free_ofFunction (params : List (Param ι)) (b : Block ι) :
    freeNameCollector.ofFunction bound params b = Param.names params ++ bound := rfl

/-- The names that a block declares are bound in it. -/
@[simp] theorem free_ofBlock (b : Block ι) :
    freeNameCollector.ofBlock bound b = b.declared ++ bound := rfl

/-- Blocks use no names by themselves. -/
@[simp] theorem free_onBlock (params : List (Param ι)) (b : Block ι) :
    freeNameCollector.onBlock bound params b = [] := rfl

/-- An assignment uses its name, which is free unless it is bound. -/
@[simp] theorem free_onStmt (s : Stmt ι) :
    freeNameCollector.onStmt bound s =
      match s with
      | .assign _ n _ => if n ∈ bound then [] else [n]
      | _ => [] := by
  cases s <;> rfl

/-- Statements use nothing after their parts do. -/
@[simp] theorem free_afterStmt (s : Stmt ι) : freeNameCollector.afterStmt bound s = [] := rfl

/-- A variable uses its name, which is free unless it is bound. -/
@[simp] theorem free_onExpr (e : Expr ι) :
    freeNameCollector.onExpr bound e =
      match e with
      | .variable _ n => if n ∈ bound then [] else [n]
      | _ => [] := by
  cases e <;> rfl

/-- Methods use no names by themselves. -/
@[simp] theorem free_onMethod (m : Method ι) : freeNameCollector.onMethod bound m = [] := rfl

end Collector

/-- A use contributes no name that is bound. -/
theorem unbound_use_ne {n m : String} {bound : List String} (h : m = n → m ∈ bound) :
    ∀ y ∈ (if m ∈ bound then [] else [m]), y ≠ n := by
  by_cases hm : m ∈ bound
  · simp [hm]
  · simpa [hm] using fun hmn => hm (h hmn)

/-- A name that is not free below some bound names is not free below others either, if these bind it
where those do. -/
theorem free_entails_free (n : String) :
    freeNameCollector.Entails (· ≠ n) (freeNameCollector : Collector _ ι _) (· ≠ n)
      (fun bound bound' => n ∈ bound → n ∈ bound') where
  ofFunction h params b _ := by
    simp only [free_ofFunction, List.mem_append]
    exact Or.imp_right h
  ofBlock h params b _ := by
    simp only [free_ofBlock, List.mem_append]
    exact Or.imp_right h
  onBlock _ _ _ _ := by simp
  onStmt h st hfree := by
    refine ⟨?_, by simp⟩
    cases st with
    | assign i m value =>
        refine unbound_use_ne ?_
        rintro rfl
        exact h (by_contra fun hbound => hfree m (by simp [Collector.stmt, hbound]) rfl)
    | _ => simp
  onExpr h e hfree := by
    cases e with
    | «variable» i m =>
        refine unbound_use_ne ?_
        rintro rfl
        exact h (by_contra fun hbound => hfree m (by simp [Collector.expr, hbound]) rfl)
    | _ => simp
  onMethod _ _ _ := by simp

/-- A bound name is not free. -/
theorem bound_ensures_not_free (n : String) :
    (freeNameCollector : Collector _ ι _).Ensures (fun bound _ => n ∈ bound) (· ≠ n) where
  child h _ _ _ := h
  inFunction h _ _ := by simp [h]
  inBlock h _ _ := by simp [h]
  onFunction _ := by simp
  onBlock _ := by simp
  onStmt {_ st} h := by
    refine ⟨?_, by simp⟩
    cases st with
    | assign i m value => exact unbound_use_ne fun hm => hm ▸ h
    | _ => simp
  onExpr {_ e} h := by
    cases e with
    | «variable» i m => exact unbound_use_ne fun hm => hm ▸ h
    | _ => simp
  onMethod _ := by simp

/-- A name is free in a node below bound names exactly if it is free in the node alone and is none
of them. -/
theorem mem_free_node {n : String} (bound : List String) (m : Node ι) :
    n ∈ freeNameCollector.node bound m ↔ n ∈ freeNameCollector.node [] m ∧ n ∉ bound := by
  constructor
  · intro hn
    constructor
    · by_contra hfree
      have hnone := (free_entails_free n).node (s := []) (t := bound) (n := m) (by simp)
        fun x hx hxn => hfree (hxn ▸ hx)
      exact hnone n hn rfl
    · exact fun hbound => (bound_ensures_not_free n).node hbound n hn rfl
  · rintro ⟨hn, hbound⟩
    by_contra hfree
    have hnone := (free_entails_free n).node (s := bound) (t := []) (n := m) (absurd · hbound)
      fun x hx hxn => hfree (hxn ▸ hx)
    exact hnone n hn rfl

/-- The same for an expression. -/
theorem mem_free_expr {n : String} (bound : List String) (e : Expr ι) :
    n ∈ freeNameCollector.expr bound e ↔ n ∈ freeNameCollector.expr [] e ∧ n ∉ bound :=
  mem_free_node bound (.expr e)

/-- The same for a list of statements in its own scope. -/
theorem mem_free_stmts {n : String} (bound : List String) (ss : List (Stmt ι)) :
    n ∈ freeNameCollector.stmts bound ss ↔ n ∈ freeNameCollector.stmts [] ss ∧ n ∉ bound := by
  have hstmt (s : Stmt ι) : n ∈ freeNameCollector.stmt bound s ↔
      n ∈ freeNameCollector.stmt [] s ∧ n ∉ bound := mem_free_node bound (.stmt s)
  simp only [Collector.stmts_eq_flatMap, List.mem_flatMap, hstmt, ← and_assoc, exists_and_right]

/-! ## Captures -/

/-- The free names of a function literal are those of the function. -/
theorem free_functionLit (i : ι) (name : Option String) (params : List (Param ι))
    (body : Block ι) :
    freeNameCollector.expr [] (.functionLit i name params body) = freeNames params body := by
  simp [Collector.expr, freeNames, Collector.block]

/-- A name is free in a function exactly if its body uses it and nothing in the function binds
it. -/
theorem mem_freeNames {n : String} {params : List (Param ι)} {body : Block ι} :
    n ∈ freeNames params body ↔
      n ∈ freeNameCollector.stmts [] body ∧ n ∉ body.declared ∧ n ∉ Param.names params := by
  rw [freeNames, Collector.block, free_onBlock, List.nil_append, free_ofBlock, mem_free_stmts,
    List.mem_append, not_or]

/-- The captures of a function are its free names that are bound around it. -/
theorem mem_captures {n : String} {available : List String} {params : List (Param ι)}
    {body : Block ι} :
    n ∈ captures available params body ↔ n ∈ freeNames params body ∧ n ∈ available := by
  simp only [captures, Names.mem_sorted, List.mem_filter, decide_eq_true_eq]

/-! ## Calls of the runtime -/

/-- A call of a hook uses the names that its inputs use. -/
@[simp] theorem free_hook_call (bound : List String) (hook : Hook) (i : ι)
    (inputs : List (Expr ι)) :
    freeNameCollector.expr bound (hook.call i inputs) = freeNameCollector.exprs bound inputs := by
  simp [Hook.call, Expr.callMethod, Collector.expr]

/-- A call of a box method uses the variable that holds the box. -/
@[simp] theorem free_box_call (bound : List String) (op : BoxOp) (i : ι) (n : String)
    (inputs : List (Expr ι)) :
    freeNameCollector.expr bound (op.call i n inputs) =
      (if n ∈ bound then [] else [n]) ++ freeNameCollector.exprs bound inputs := by
  simp [BoxOp.call, Expr.callMethod, Collector.expr]

/-! ## Resolved global names -/

namespace GlobalName

/-- The parameters of a function are no global names in it. -/
@[simp] theorem mapper_ofFunction (bound : List String) (params : List (Param ι)) (b : Block ι) :
    mapper.ofFunction bound params b = Param.names params ++ bound := rfl

/-- The names that a block declares are no global names in it. -/
@[simp] theorem mapper_ofBlock (bound : List String) (b : Block ι) :
    mapper.ofBlock bound b = b.declared ++ bound := rfl

/-- Resolving global names adds no statements at the head of a block. -/
@[simp] theorem mapper_heads (params : List (Param ι)) (b : Block ι) :
    mapper.heads params b = [] := rfl

/-- Statements are mapped by the rule for declarations and assignments. -/
@[simp] theorem mapper_onStmt (bound : List String) (s : Stmt ι) :
    mapper.onStmt bound s = access bound s := rfl

/-- Every expression is mapped by the rule for reads. -/
theorem mapper_expr (bound : List String) (e : Expr ι) :
    mapper.expr bound e = read bound (mapper.rebuild bound e) := rfl

/-- Resolving global names does not change member accesses by itself. -/
theorem mapper_keepsMembers : (mapper : Mapper (List String) ι).KeepsMembers :=
  fun _ _ _ _ _ => rfl

/-- A declaration of a bound name stays a declaration of it, and no other statement becomes one. -/
theorem declared?_stmt {bound : List String} {s : Stmt ι}
    (h : ∀ n, s.declared? = some n → n ∈ bound) :
    (mapper.stmt bound s).declared? = s.declared? := by
  cases s with
  | declare i n value =>
      have hn : n ∈ bound := h n rfl
      rw [Mapper.stmt_declare, mapper_onStmt, access, if_pos hn]
      rfl
  | assign i n value =>
      rw [Mapper.stmt_assign, mapper_onStmt, access]
      split <;> rfl
  | importPackage | assignMember | ret | branch | expr => rfl

/-- A block that opens a scope declares the same names as before. -/
theorem declared_stmts (bound : List String) (b : Block ι) :
    Block.declared (mapper.stmts (b.declared ++ bound) b) = b.declared := by
  apply Mapper.declared_stmts
  intro s hs
  apply declared?_stmt
  intro n hn
  exact List.mem_append_left _ (Block.mem_declared.mpr ⟨s, hs, hn⟩)

end GlobalName

/-- After resolution, code uses only bound names. -/
theorem GlobalName.relates_free : (mapper : Mapper (List String) ι).Relates .nothing
    freeNameCollector (fun _ bound bound' _ => bound' = bound) (fun _ free => free = []) where
  nil := rfl
  append hfirst hsecond := by rw [hfirst, hsecond, List.append_nil]
  child h _ _ _ := h
  function := by
    rintro _ _ bound i n params b rfl hstmts
    have hbody := hstmts (Block.declared b ++ (Param.names params ++ bound)) fun _ _ => rfl
    rw [mapper_expr, Mapper.rebuild_functionLit]
    simpa [Mapper.body, read, Collector.expr, declared_stmts] using hbody
  block := by
    rintro _ _ bound b rfl hstmts
    have hblock := hstmts (b.declared ++ bound) fun _ _ => rfl
    simpa [Mapper.block, Collector.body, declared_stmts] using hblock
  expr := by
    rintro _ _ bound e rfl hkind hbelow
    cases e with
    | «variable» i n =>
        rw [mapper_expr, Mapper.rebuild, read]
        split <;> simp_all [Collector.expr, Collector.exprs]
    | functionLit => exact absurd rfl hkind
    | _ =>
        rw [Collector.expr_eq_below]
        exact hbelow
  callee _ := rfl
  stmt := by
    rintro _ _ bound st rfl hbelow
    cases st with
    | declare i n value | assign i n value =>
        have hvalue : freeNameCollector.expr bound (mapper.expr bound value) = [] := by
          simpa [Collector.below, Node.children, Collector.node, Mapper.rebuildStmt] using hbelow
        rw [Mapper.stmt_eq, mapper_onStmt, Mapper.rebuildStmt, access]
        split <;> simp_all [Collector.stmt, Collector.exprs, Collector.expr]
    | _ =>
        rw [Collector.stmt_eq_below, free_afterStmt, List.append_nil]
        exact hbelow
  method _ := rfl

/-- After resolution, statements use only bound names. -/
theorem free_resolved_stmts (bound : List String) (ss : List (Stmt ι)) :
    freeNameCollector.stmts bound (GlobalName.mapper.stmts bound ss) = [] :=
  GlobalName.relates_free.stmts_of_fits (s := ()) ss fun _ _ => rfl

end Lowering

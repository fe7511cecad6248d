import Lowering.Proofs.Collecting
import Lowering.Proofs.TopLevel

/-!
# Closed functions

In a lowered program no name reaches across a function boundary. `NameUse.collector` lists every
read of and assignment to a variable with the names that are bound for it in the innermost function
around it; `lower_functions_closed` says that the name itself is always among them.

Resolution of global names leaves only lexically bound names, boxing keeps them bound, and closure
conversion adds to each function exactly the parameters that make it closed.
-/

namespace Lowering

variable {σ ι α : Type}

/-- A read of a variable or an assignment to one. -/
structure NameUse where
  name : String
  /-- The names bound around the use in the innermost function: its parameters and what those of
  its blocks declare in which the use stands. -/
  bound : List String

/-- Each read and assignment contributes itself. A function starts with its parameters only. -/
def NameUse.collector : Collector (List String) ι NameUse where
  ofFunction _ params _ := Param.names params
  ofBlock bound b := b.declared ++ bound
  onStmt
    | bound, .assign _ n _ => [⟨n, bound⟩]
    | _, _ => []
  onExpr
    | bound, .variable _ n => [⟨n, bound⟩]
    | _, _ => []

/-- The uses of names in a program. Outside all functions only the branches of conditionals bind
names: what the program declares directly is not counted. -/
def Program.nameUses (p : Program ι) : List NameUse :=
  NameUse.collector.stmts [] p.statements

/-- Every name is bound inside the innermost function around its use. -/
def Program.FunctionsClosed (p : Program ι) : Prop :=
  ∀ use ∈ p.nameUses, use.name ∈ use.bound

namespace NameUse

section Rules

variable (bound : List String)

/-- Inside a function only its parameters are bound. -/
@[simp] theorem collector_ofFunction (params : List (Param ι)) (b : Block ι) :
    collector.ofFunction bound params b = Param.names params := rfl

/-- A block binds the names that it declares. -/
@[simp] theorem collector_ofBlock (b : Block ι) :
    collector.ofBlock bound b = b.declared ++ bound := rfl

/-- Blocks use no names by themselves. -/
@[simp] theorem collector_onBlock (params : List (Param ι)) (b : Block ι) :
    collector.onBlock bound params b = [] := rfl

/-- Assignments use their name. -/
@[simp] theorem collector_onStmt (s : Stmt ι) :
    collector.onStmt bound s =
      match s with
      | .assign _ n _ => [⟨n, bound⟩]
      | _ => [] := by
  cases s <;> rfl

/-- Statements use nothing after their parts do. -/
@[simp] theorem collector_afterStmt (s : Stmt ι) : collector.afterStmt bound s = [] := rfl

/-- Variables use their name. -/
@[simp] theorem collector_onExpr (e : Expr ι) :
    collector.onExpr bound e =
      match e with
      | .variable _ n => [⟨n, bound⟩]
      | _ => [] := by
  cases e <;> rfl

/-- Methods use no names by themselves. -/
@[simp] theorem collector_onMethod (m : Method ι) : collector.onMethod bound m = [] := rfl

/-- A call of a hook uses the names that its inputs use. -/
@[simp] theorem collector_hook_call (hook : Hook) (i : ι) (inputs : List (Expr ι)) :
    collector.expr bound (hook.call i inputs) = collector.exprs bound inputs := by
  simp [Hook.call, Expr.callMethod, Collector.expr]

/-- Reads of variables as inputs contribute one use each. -/
theorem collector_variables (i : ι) (names : List String) :
    collector.exprs bound (names.map (Expr.variable i ·)) = names.map fun n => ⟨n, bound⟩ := by
  induction names with
  | nil => rfl
  | cons n ns ih => simp [Collector.exprs, Collector.expr, ih]

end Rules

end NameUse

/-! ## Closure conversion closes every function -/

namespace Closure

/-- Inside a function its captures and its parameters can be captured. -/
@[simp] theorem mapper_ofFunction (available : List String) (params : List (Param ι))
    (b : Block ι) :
    mapper.ofFunction available params b = captures available params b ++ Param.names params := rfl

/-- A block adds the names that it declares to those that can be captured. -/
@[simp] theorem mapper_ofBlock (available : List String) (b : Block ι) :
    mapper.ofBlock available b = b.declared ++ available := rfl

/-- Closure conversion adds no statements at the head of a block. -/
@[simp] theorem mapper_heads (params : List (Param ι)) (b : Block ι) :
    mapper.heads params b = [] := rfl

/-- Statements are changed in their parts only. -/
@[simp] theorem mapper_onStmt (available : List String) (s : Stmt ι) :
    mapper.onStmt available s = s := rfl

/-- Expressions are mapped by the rule for function literals. -/
theorem mapper_expr (available : List String) (e : Expr ι) :
    mapper.expr available e = closure available e (mapper.rebuild available e) := rfl

/-- Closure conversion does not change member accesses by itself. -/
theorem mapper_keepsMembers : (mapper : Mapper (List String) ι).KeepsMembers :=
  fun _ _ _ _ _ => rfl

/-- Closure conversion keeps what a list of statements declares. -/
@[simp] theorem declared_stmts (available : List String) (b : Block ι) :
    Block.declared (mapper.stmts available b) = b.declared :=
  Mapper.declared_stmts available b fun s _ => by cases s <;> rfl

/-- A block keeps its statements, each converted. -/
@[simp] theorem mapper_block (available : List String) (b : Block ι) :
    mapper.block available b = mapper.stmts (b.declared ++ available) b := rfl

/-- Inside a function, what can be captured is what the function binds or captures itself. -/
@[simp] theorem mapper_body (available : List String) (params : List (Param ι)) (b : Block ι) :
    mapper.body available params b =
      mapper.stmts (b.declared ++ (captures available params b ++ Param.names params)) b := rfl

/-- A converted function literal is bundled with its captures. -/
theorem expr_functionLit (available : List String) (i : ι) (n : Option String)
    (params : List (Param ι)) (b : Block ι) :
    mapper.expr available (.functionLit i n params b) =
      bundle (captures available params b)
        (.functionLit i n params (mapper.body available params b)) := rfl

/-- What is found at an expression are the captures of a function. -/
theorem eq_captures_of_mem {available captured : List String} {e : Expr ι}
    (h : captured ∈ captureCollector.onExpr available e) : ∃ i name params b,
      e = .functionLit i name params b ∧ captured = captures available params b := by
  cases e with
  | functionLit i name params b =>
      simp only [captureCollector] at h
      split at h
      · exact absurd h List.not_mem_nil
      · exact ⟨i, name, params, b, rfl, List.mem_singleton.mp h⟩
  | _ => exact absurd h List.not_mem_nil

/-- Everything that the body of a function uses is bound or captured by the function. -/
theorem bound_of_free {available : List String} {params : List (Param ι)} {body : Block ι}
    (h : ∀ n ∈ freeNames params body, n ∈ available) :
    ∀ n ∈ freeNameCollector.stmts [] body,
      n ∈ body.declared ++ (captures available params body ++ Param.names params) := by
  intro n hn
  rw [List.mem_append, List.mem_append]
  by_cases hdeclared : n ∈ body.declared
  · exact Or.inl hdeclared
  · by_cases hparams : n ∈ Param.names params
    · exact Or.inr (Or.inr hparams)
    · have hfree : n ∈ freeNames params body := mem_freeNames.mpr ⟨hn, hdeclared, hparams⟩
      exact Or.inr (Or.inl (mem_captures.mpr ⟨hfree, h n hfree⟩))

/-- Everything that a block uses is bound in it if it is bound around the block. -/
theorem bound_of_free_block {available : List String} {b : Block ι}
    (h : ∀ n ∈ freeNameCollector.block [] b, n ∈ available) :
    ∀ n ∈ freeNameCollector.stmts [] b, n ∈ b.declared ++ available := by
  intro n hn
  rw [List.mem_append]
  by_cases hdeclared : n ∈ b.declared
  · exact Or.inl hdeclared
  · refine Or.inr (h n ?_)
    rw [Collector.block, free_onBlock, List.nil_append, free_ofBlock, List.append_nil,
      mem_free_stmts]
    exact ⟨hn, hdeclared⟩

/-- The names of the parameters that a function has when its captures stand before them. -/
@[simp] theorem names_captured (i : ι) (captured : List String) (params : List (Param ι)) :
    Param.names (captured.map (⟨i, ·⟩) ++ params) = captured ++ Param.names params := by
  simp [Param.names, Function.comp_def]

/-- The uses of names in a bundled function are those in the function, with its captures as more
parameters, and the reads of the captures. -/
theorem uses_bundle (bound captured : List String) (i : ι) (n : Option String)
    (params : List (Param ι)) (b : Block ι) :
    NameUse.collector.expr bound (bundle captured (.functionLit i n params b)) =
      NameUse.collector.stmts (b.declared ++ (captured ++ Param.names params)) b ++
        captured.map fun n => ⟨n, bound⟩ := by
  by_cases h : captured.isEmpty
  · rw [List.isEmpty_iff] at h
    subst h
    simp [bundle, Collector.expr]
  · rw [bundle, if_neg h, NameUse.collector_hook_call, Collector.exprs,
      NameUse.collector_variables]
    simp [Collector.expr]

/-- If everything that code uses is bound around it, then after closure conversion each name is
bound in the innermost function around its use. -/
theorem relates_uses : (mapper : Mapper (List String) ι).Relates .nothing NameUse.collector
    (fun _ available bound n => bound = available ∧
      ∀ m ∈ freeNameCollector.node [] n, m ∈ available)
    (fun _ uses => ∀ use ∈ uses, use.name ∈ use.bound) where
  nil := List.forall_mem_nil _
  append hfirst hsecond := List.forall_mem_append.mpr ⟨hfirst, hsecond⟩
  child := fun ⟨hbound, hfree⟩ hblock _ hc =>
    ⟨hbound, fun m hm => hfree m (freeNameCollector.node_subset_of_child [] hblock hc hm)⟩
  function := by
    rintro _ _ available i name params b ⟨rfl, hfree⟩ hstmts
    rw [Collector.node, free_functionLit] at hfree
    have hbody := hstmts (Block.declared b ++ (captures available params b ++ Param.names params))
      fun st hst => ⟨rfl, fun m hm =>
        bound_of_free hfree m (freeNameCollector.stmt_subset_stmts [] hst hm)⟩
    rw [expr_functionLit, uses_bundle, mapper_body, declared_stmts, List.forall_mem_append,
      List.forall_mem_map]
    exact ⟨hbody, fun m hm => (mem_captures.mp hm).2⟩
  block := by
    rintro _ _ available b ⟨rfl, hfree⟩ hstmts
    have hblock := hstmts (Block.declared b ++ available) fun st hst => ⟨rfl, fun m hm =>
      bound_of_free_block hfree m (freeNameCollector.stmt_subset_stmts [] hst hm)⟩
    simpa [Collector.body] using hblock
  expr := by
    rintro _ _ available e ⟨rfl, hfree⟩ hkind hbelow
    cases e with
    | «variable» i n =>
        have hn : n ∈ available := hfree n (by simp [Collector.node, Collector.expr])
        simpa [mapper_expr, Mapper.rebuild, closure, Collector.expr] using hn
    | functionLit => exact absurd rfl hkind
    | _ =>
        rw [Collector.expr_eq_below]
        exact hbelow
  callee _ := List.forall_mem_nil _
  stmt := by
    rintro _ _ available st ⟨rfl, hfree⟩ hbelow
    rw [Mapper.stmt_eq, mapper_onStmt, Collector.stmt_eq_below, NameUse.collector_afterStmt,
      List.append_nil]
    cases st with
    | assign i n value =>
        have hn : n ∈ available := hfree n (by simp [Collector.node, Collector.stmt])
        exact List.forall_mem_cons.mpr ⟨hn, hbelow⟩
    | _ => exact hbelow
  method _ := List.forall_mem_nil _

end Closure

/-- If everything that statements use is bound around them, closure conversion leaves each name
bound in the innermost function around its use. -/
theorem closed_stmts (available : List String) (ss : List (Stmt ι))
    (h : ∀ n ∈ freeNameCollector.stmts [] ss, n ∈ available) :
    ∀ use ∈ NameUse.collector.stmts available (Closure.mapper.stmts available ss),
      use.name ∈ use.bound :=
  Closure.relates_uses.stmts_of_fits (s := ()) ss fun _ hst =>
    ⟨rfl, fun n hn => h n (freeNameCollector.stmt_subset_stmts [] hst hn)⟩

/-! ## Calls of function values keep all uses -/

namespace Application

/-- Lowering function calls adds no statements at the head of a block. -/
@[simp] theorem mapper_heads (params : List (Param ι)) (b : Block ι) :
    mapper.heads params b = [] := rfl

/-- Statements are changed in their parts only. -/
@[simp] theorem mapper_onStmt (s : Stmt ι) : mapper.onStmt () s = s := rfl

/-- Expressions are mapped by the rule for calls. -/
theorem mapper_expr (e : Expr ι) : mapper.expr () e = application (mapper.rebuild () e) := rfl

/-- Lowering function calls does not change member accesses by itself. -/
theorem mapper_keepsMembers : (mapper : Mapper Unit ι).KeepsMembers :=
  fun _ _ _ _ _ => rfl

/-- A block keeps its statements, each with lowered calls. -/
@[simp] theorem mapper_block (b : Block ι) : mapper.block () b = mapper.stmts () b := rfl

/-- So does the body of a function. -/
@[simp] theorem mapper_body (params : List (Param ι)) (b : Block ι) :
    mapper.body () params b = mapper.stmts () b := rfl

/-- The stage keeps what a list of statements declares. -/
@[simp] theorem declared_stmts (b : Block ι) :
    Block.declared (mapper.stmts () b) = Block.declared b :=
  Mapper.declared_stmts () b fun s _ => by cases s <;> rfl

/-- The rule for calls keeps what a collector finds, if calls and hooks contribute nothing but what
their parts contribute. -/
theorem collect_expr {C : Collector σ ι α} {scope : σ}
    (hcall : ∀ i callee inputs, C.onExpr scope (.call i callee inputs) = [])
    (hhook : ∀ (hook : Hook) i inputs, C.expr scope (hook.call i inputs) = C.exprs scope inputs)
    (e : Expr ι) : C.expr scope (mapper.expr () e) = C.expr scope (mapper.rebuild () e) := by
  rw [mapper_expr]
  cases e with
  | call i callee inputs =>
      rw [mapper_keepsMembers.rebuild_call, application]
      split
      · rfl
      · rw [hhook, Collector.exprs, Collector.expr, hcall, List.nil_append]
  | _ => rfl

/-- Making the call of a function value explicit keeps all uses of names. -/
theorem carries_uses : (mapper : Mapper Unit ι).Carries NameUse.collector NameUse.collector
    (fun bound _ bound' => bound' = bound) (fun xs ys => ys = xs) where
  nil := rfl
  append h h' := by rw [h, h']
  ofFunction h params b := by rw [h]; rfl
  ofBlock h params b := by
    rw [h, mapper_heads, List.nil_append, NameUse.collector_ofBlock, declared_stmts]
    rfl
  heads _ _ _ := rfl
  onBlock _ _ _ := rfl
  onStmt h st := by
    rw [h]
    cases st <;> rfl
  afterStmt _ _ := rfl
  onExpr h e := by
    rw [h]
    cases e <;> rfl
  onMethod _ _ := rfl
  stmt _ st h := by
    rw [Mapper.stmt_eq]
    exact h
  expr _ e h := by
    rw [← h]
    exact collect_expr (fun _ _ _ => rfl) (NameUse.collector_hook_call _) e

end Application

/-- The stage keeps all uses of names in a list of statements. -/
theorem uses_applied_stmts (bound : List String) (ss : List (Stmt ι)) :
    NameUse.collector.stmts bound (Application.mapper.stmts () ss) =
      NameUse.collector.stmts bound ss :=
  Application.carries_uses.stmts rfl ss

/-! ## The whole pipeline -/

/-- Lowering is the composition of its stages. -/
theorem Program.lower_eq (p : Program ι) :
    p.lower = Application.run (Closure.run (p.lowerUpTo .boxing)) := rfl

/-- After resolution the top-level block declares nothing. -/
theorem GlobalName.declared_run (p : Program ι) : Block.declared (run p).statements = [] :=
  Block.declared_eq_nil (not_setsVariable_run p)

/-- After boxing the top-level block still declares nothing. -/
theorem Program.declared_lowerUpTo_boxing (p : Program ι) :
    Block.declared (p.lowerUpTo .boxing).statements = [] :=
  Block.declared_eq_nil (BoxedName.not_setsVariable_run _ (GlobalName.not_setsVariable_run _))

/-- After boxing a program uses no name that is not lexically bound. -/
theorem Program.free_lowerUpTo_boxing (p : Program ι) :
    freeNameCollector.stmts [] (p.lowerUpTo .boxing).statements = [] := by
  have hboxed : freeNameCollector.block [] (p.lowerUpTo .boxing).statements =
      freeNameCollector.block [] (GlobalName.run (p.lowerUpTo .memberAccess)).statements :=
    free_boxed_block [] (fun _ => Iff.rfl) _
  simp only [Collector.block, free_onBlock, List.nil_append, free_ofBlock, List.append_nil,
    p.declared_lowerUpTo_boxing, GlobalName.declared_run] at hboxed
  exact hboxed.trans (free_resolved_stmts [] _)

/-- In a lowered program every name that is read or assigned is bound inside the innermost function
around it, by a parameter or by a declaration of a block around it; outside all functions it is
bound by a declaration of a branch. -/
theorem lower_functions_closed (p : Program ι) : p.lower.FunctionsClosed := by
  have hfree : ∀ n ∈ freeNameCollector.stmts [] (p.lowerUpTo .boxing).statements, n ∈ [] := by
    rw [p.free_lowerUpTo_boxing]
    exact fun n hn => hn
  have hclosed := closed_stmts [] (p.lowerUpTo .boxing).statements hfree
  -- the top-level block declares nothing, so it binds nothing for its own statements
  have hlower : p.lower.nameUses = NameUse.collector.stmts []
      (Closure.mapper.stmts [] (p.lowerUpTo .boxing).statements) := by
    rw [Program.nameUses, Program.lower_eq, Application.run, Application.mapper_block,
      uses_applied_stmts, Closure.run, Closure.mapper_block, p.declared_lowerUpTo_boxing,
      List.nil_append]
  intro use huse
  rw [hlower] at huse
  exact hclosed use huse

end Lowering

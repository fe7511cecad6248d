import Mathlib.Data.List.Sort
import Lowering.Proofs.CallShaping
import Lowering.Proofs.DeclaredFirst
import Lowering.Proofs.IdleStages

/-!
# Running a stage twice

A stage finds nothing to do in its own results, whatever it has run on. Five stages compose with
themselves: their rules leave alone what they have made of a node (`Mapper.Idempotent`). Closure
conversion is one of them since it keeps the free names of all code (`Closure.carries_free`), so
that a function captures the same names as before, and none of them once they are its parameters.
After the resolution of global names all names are bound, and after boxing no name needs a box. Main
statement: `stage_run_idempotent`.
-/

namespace Lowering

variable {σ ι : Type}

/-- In each scope, mapping twice is mapping once. -/
abbrev Mapper.Idempotent (M : Mapper σ ι) : Prop :=
  M.Composes M M (fun s t u => t = s ∧ u = s) .any

/-- A block that is mapped twice is mapped once. -/
theorem Mapper.Idempotent.block_block {M : Mapper σ ι} (h : M.Idempotent) (scope : σ)
    (b : Block ι) : M.block scope (M.block scope b) = M.block scope b :=
  h.block ⟨rfl, rfl⟩ (Form.any_stmts b)

/-! ## Stages without scopes -/

/-- A mapper without scopes and heads is idempotent if its rules leave alone what they have made. -/
theorem Mapper.idempotent_of_rules {M : Mapper Unit ι} (hheads : ∀ params b, M.heads params b = [])
    (hcallees : M.KeepsCallees)
    (hstmt : ∀ s, M.rebuildStmt () s = s →
      M.onStmt () (M.rebuildStmt () (M.onStmt () s)) = M.onStmt () s)
    (hexpr : ∀ original e, M.rebuild () e = e →
      M.expr () (M.onExpr () original e) = M.onExpr () original e) : M.Idempotent where
  heads params b := ⟨hheads params b, hheads params b, hheads params b⟩
  callees := hcallees
  ofFunction _ _ _ := ⟨rfl, rfl⟩
  ofBlock _ _ := ⟨rfl, rfl⟩
  stmt _ s _ hbelow := by
    rw [Mapper.stmt_eq M () s, Mapper.stmt_eq]
    exact hstmt _ hbelow
  expr _ e _ hbelow := hexpr e _ hbelow

/-- A declaration stays one, and what it declares has been dealt with. -/
theorem Declaration.mapper_idempotent : (mapper : Mapper Unit ι).Idempotent := by
  refine Mapper.idempotent_of_rules (fun _ _ => rfl) mapper_keepsCallees (fun s hs => ?_)
    (fun _ _ he => he)
  show declaration (mapper.rebuildStmt () (declaration s)) = declaration s
  cases s with
  | importPackage => rfl
  | expr e =>
      cases e with
      | functionLit i n params body =>
          cases n with
          | none => exact congrArg declaration hs
          | some n =>
              injection hs with hs
              injection hs with _ _ _ hbody
              exact congrArg (fun b => Stmt.declare i n (.functionLit i none params b)) hbody
      | classLit i n ms =>
          cases n with
          | none => exact congrArg declaration hs
          | some n =>
              injection hs with hs
              injection hs with _ _ hmethods
              exact congrArg (fun ms => Stmt.declare i n (.classLit i none ms)) hmethods
      | _ => exact congrArg declaration hs
  | _ => exact congrArg declaration hs

namespace Constructor

/-- Inside a constructor, the methods are mapped. -/
theorem mapped_assignMethods (i : ι) : (ms : List (Method ι)) →
    mapper.stmts () (ms.map (assignMethod i)) = (mapper.methods () ms).map (assignMethod i)
  | [] => rfl
  | .mk j n params body :: ms => by
      rw [List.map_cons, Mapper.stmts, mapped_assignMethods i ms]
      rfl

/-- A constructor has no classes but those in its methods. -/
theorem mapper_idempotent : (mapper : Mapper Unit ι).Idempotent := by
  refine Mapper.idempotent_of_rules (fun _ _ => rfl) mapper_keepsCallees (fun _ hs => hs)
    (fun _ e he => ?_)
  show mapper.expr () (construction e) = construction e
  cases e with
  | classLit i n ms =>
      injection he with _ _ hmethods
      have hbody : mapper.stmts () (constructorBody i ms) = constructorBody i ms := by
        rw [constructorBody, Mapper.stmts, Mapper.stmts_eq_map, List.map_append,
          ← Mapper.stmts_eq_map, mapped_assignMethods, hmethods]
        rfl
      exact congrArg (fun b => Expr.call i (.functionLit i none [] b) []) hbody
  | _ => exact congrArg construction he

end Constructor

/-- An access to a property becomes a call of a hook, which is no access. -/
theorem Property.mapper_idempotent : (mapper : Mapper Unit ι).Idempotent := by
  refine Mapper.idempotent_of_rules (fun _ _ => rfl) mapper_keepsCallees (fun s hs => ?_)
    (fun _ e he => ?_)
  · show assignment (mapper.rebuildStmt () (assignment s)) = assignment s
    cases s with
    | assignMember i object n value =>
        injection hs with _ hobject _ hvalue
        exact congrArg₂ (fun o v => Stmt.expr (Hook.propertySet.call i [o, .name i n, v]))
          hobject hvalue
    | _ => exact congrArg assignment hs
  · show mapper.expr () (access e) = access e
    cases e with
    | member i object n =>
        injection he with _ hobject
        exact congrArg (fun o => Hook.propertyGet.call i [o, .name i n]) hobject
    | _ => exact congrArg access he

/-- A call of a hook is no call of a function value. -/
theorem Application.mapper_idempotent : (mapper : Mapper Unit ι).Idempotent := by
  refine Mapper.idempotent_of_rules (fun _ _ => rfl) mapper_keepsCallees (fun _ hs => hs)
    (fun _ e he => ?_)
  show mapper.expr () (application e) = application e
  cases e with
  | call i callee inputs =>
      rw [mapper_keepsMembers.rebuild_call] at he
      injection he with _ hcallee hinputs
      rw [application]
      split
      · rw [mapper_expr, mapper_keepsMembers.rebuild_call, hcallee, hinputs]
        exact if_pos ‹_›
      · rw [mapper_passesCalls.expr_hook_call, Mapper.exprs_cons, hcallee, hinputs]
  | _ => exact congrArg application he

/-! ## Closure conversion -/

namespace Closure

/-- The free names of a function, as far as they are not bound around it. -/
theorem mem_free_functionLit {n : String} {bound : List String} {i : ι} {name : Option String}
    {params : List (Param ι)} {b : Block ι} :
    n ∈ freeNameCollector.expr bound (.functionLit i name params b) ↔
      n ∈ freeNames params b ∧ n ∉ bound := by
  rw [mem_free_expr, free_functionLit]

/-- Reads of variables are free uses of them. -/
theorem free_variables (i : ι) (names : List String) :
    freeNameCollector.exprs [] (names.map (Expr.variable i ·)) = names := by
  induction names with
  | nil => rfl
  | cons n ns ih => simp [Collector.exprs, Collector.expr, ih]

/-- The free names of a bundled function are those of the function and its captures. -/
theorem mem_free_bundle {n : String} {bound captured : List String} {i : ι} {name : Option String}
    {params : List (Param ι)} {b : Block ι} :
    n ∈ freeNameCollector.expr bound (bundle captured (.functionLit i name params b)) ↔
      (n ∈ freeNames params b ∨ n ∈ captured) ∧ n ∉ bound := by
  rw [mem_free_expr]
  refine and_congr_left fun _ => ?_
  rw [bundle]
  split
  · rename_i hnone
    rw [List.isEmpty_iff] at hnone
    simp [free_functionLit, hnone]
  · rw [free_hook_call, Collector.exprs, free_functionLit, free_variables, List.mem_append,
      mem_freeNames, mem_freeNames, names_captured, List.mem_append]
    tauto

/-- Conversion keeps the free names of all code: what a function captures, it uses. -/
theorem carries_free : (mapper : Mapper (List String) ι).Carries freeNameCollector freeNameCollector
    (fun bound _ bound' => bound' = bound) (fun xs ys => ∀ n, n ∈ ys ↔ n ∈ xs) where
  nil _ := Iff.rfl
  append hfirst hsecond n := by rw [List.mem_append, List.mem_append, hfirst, hsecond]
  ofFunction h _ _ := by rw [h]; rfl
  ofBlock h params b := by
    rw [h, free_ofBlock, free_ofBlock, mapper_heads, List.nil_append, declared_stmts]
  heads _ _ _ _ := Iff.rfl
  onBlock _ _ _ _ := Iff.rfl
  onStmt h s n := by
    rw [h]
    cases s <;> rfl
  afterStmt _ _ _ := Iff.rfl
  onExpr h e n := by
    rw [h]
    cases e <;> rfl
  onMethod _ _ _ := Iff.rfl
  stmt _ s hbelow := by
    rw [Mapper.stmt_eq]
    exact hbelow
  expr {bound available bound'} h e hbelow n := by
    subst h
    cases e with
    | functionLit i name params b =>
        have hbody := hbelow n
        rw [Mapper.rebuild_functionLit, mem_free_functionLit, mem_free_functionLit] at hbody
        rw [expr_functionLit, mem_free_bundle, mem_free_functionLit, mem_captures]
        tauto
    | _ => exact hbelow n

/-- A function captures the same names after its body has been converted. -/
theorem captures_body (available : List String) (params : List (Param ι)) (b : Block ι) :
    captures available params (mapper.body available params b) = captures available params b := by
  have hmem : ∀ n, n ∈ captures available params (mapper.body available params b) ↔
      n ∈ captures available params b := by
    intro n
    have hfree : n ∈ freeNameCollector.stmts [] (mapper.body available params b) ↔
        n ∈ freeNameCollector.stmts [] b := carries_free.stmts rfl b n
    rw [mem_captures, mem_captures, mem_freeNames, mem_freeNames, hfree, mapper_body,
      declared_stmts]
  exact (Names.pairwise_sorted _).eq_of_mem_iff (Names.pairwise_sorted _) hmem

/-- Once its captures are parameters, a function captures nothing. -/
theorem captures_captured (available : List String) (i : ι) (params : List (Param ι))
    (b : Block ι) :
    captures available ((captures available params b).map (⟨i, ·⟩) ++ params) b = [] := by
  refine List.eq_nil_iff_forall_not_mem.mpr fun n hn => ?_
  obtain ⟨hfree, havailable⟩ := mem_captures.mp hn
  rw [mem_freeNames, names_captured, List.mem_append, not_or] at hfree
  obtain ⟨huses, hdeclared, hcaptured, hparams⟩ := hfree
  exact hcaptured (mem_captures.mpr ⟨mem_freeNames.mpr ⟨huses, hdeclared, hparams⟩, havailable⟩)

/-- A bundled function whose body has been converted stays as it is. -/
theorem expr_bundle {available : List String} {params : List (Param ι)} {b : Block ι} (i : ι)
    (n : Option String) (hbody : mapper.body available params b = b) :
    mapper.expr available (bundle (captures available params b) (.functionLit i n params b)) =
      bundle (captures available params b) (.functionLit i n params b) := by
  rw [bundle]
  split
  · rename_i hnone
    rw [expr_functionLit, bundle, if_pos hnone, hbody]
  · -- with the captures as parameters the body is converted in the scope in which it was before
    have hinner : mapper.body available
        ((captures available params b).map (⟨i, ·⟩) ++ params) b = b := by
      rw [mapper_body, captures_captured, names_captured]
      exact hbody
    rw [mapper_passesCalls.expr_hook_call, Mapper.exprs_cons, expr_functionLit, captures_captured,
      hinner, mapper.exprs_variables fun _ => rfl]
    rfl

/-- Converted code has nothing left to convert: a bundled function uses only its parameters. -/
theorem mapper_idempotent : (mapper : Mapper (List String) ι).Idempotent where
  heads _ _ := ⟨rfl, rfl, rfl⟩
  callees := mapper_keepsCallees
  ofFunction := by
    rintro available _ _ ⟨rfl, rfl⟩ params b
    exact ⟨congrArg (· ++ Param.names params) (captures_body _ params b), rfl⟩
  ofBlock := by
    rintro available _ _ ⟨rfl, rfl⟩ b
    exact ⟨congrArg (· ++ _) (declared_stmts _ b), rfl⟩
  stmt _ s _ hbelow := by
    rw [Mapper.stmt_eq, Mapper.stmt_eq, Mapper.stmt_eq]
    exact hbelow
  expr := by
    rintro available _ _ ⟨rfl, rfl⟩ e - hbelow
    cases e with
    | functionLit i n params b =>
        injection hbelow with _ _ _ hbody
        rw [expr_functionLit, ← captures_body]
        exact expr_bundle i n hbody
    | _ => exact hbelow

end Closure

/-! ## All stages -/

/-- Every stage is idempotent on every program: running it a second time changes nothing, whichever
stages have or have not run before. -/
theorem stage_run_idempotent (stage : Stage) (p : Program ι) :
    stage.run (stage.run p) = stage.run p := by
  cases stage with
  | declarators => exact congrArg Program.mk (Declaration.mapper_idempotent.block_block () _)
  | classes => exact congrArg Program.mk (Constructor.mapper_idempotent.block_block () _)
  | memberAccess => exact congrArg Program.mk (Property.mapper_idempotent.block_block () _)
  | globals =>
      exact GlobalName.run_eq_self (GlobalName.not_setsVariable_run p)
        (free_resolved_stmts [] p.statements)
  | boxing =>
      refine BoxedName.run_eq_self fun x hx n hn => ?_
      exact BoxedName.needsBox_of_mem_blocks hx hn
  | closures => exact congrArg Program.mk (Closure.mapper_idempotent.block_block [] _)
  | functionCalls => exact congrArg Program.mk (Application.mapper_idempotent.block_block () _)

end Lowering

import Lowering.Proofs.Simulation.Branch

/-!
# Runs side by side

Code and its conversion run in agreement on machines that call related functions in agreement: one
case for each kind of node, by recursion on the code (`expr_agree`, `stmts_agree`).
-/

namespace Lowering.Simulation

variable {ι : Type}

/-- Machines for the two runs: one whose functions share variables and one whose functions are
isolated. They decide conditions in the same way, and calls agree. -/
structure Paired (M N : Machine ι) : Prop where
  shares : ∀ env, M.closes env = env
  isolates : ∀ env, N.closes env = []
  truth : N.truth = M.truth
  calls : CallsAgree M.call N.call

variable {M N : Machine ι}

mutual

/-- An expression is evaluated in agreement with its conversion. -/
theorem expr_agree (hpair : Paired M N) {s : State ι} {scope : List (String × Bool)}
    {available : List String} {ρ τ : Env} : (e : Expr ι) → Form.closures.HoldsExpr e →
    Ready s scope available ρ τ (freeNameCollector.expr [] e) (Access.collector.expr .here e) [] →
    Agree (After s (.ofExpr available ρ (Access.collector.expr .here e))
        fun s' => Related s'.world)
      (M.expr ρ e s.shared) (N.expr τ (Conversion.expr scope available e) s.isolated)
  | .text _ t, _, hready => .finish hready.ok (.refl _ s) (.text t)
  | .number _ d, _, hready => .finish hready.ok (.refl _ s) (.number d)
  | .variable i n, _, hready =>
      variable_agree M N _ hready.ok hready.context i (hready.bound n (by simp [Collector.expr]))
  | .functionLit i m params b, hform, hready => by
      have hbound := hready.bound
      rw [free_functionLit] at hbound
      exact literal_agree M N hpair.shares hpair.isolates hready.ok hready.context hform.2 hbound
        hready.admits
  | .call i callee inputs, hform, hready => by
      have hmember : callee.isMember = false := hform.1
      obtain ⟨hcallee, hbelow, hinputs⟩ := hform.2
      replace hcallee := hcallee.resolve_left (by simp [hmember])
      have haccesses : Access.collector.expr .here (.call i callee inputs) =
          Access.collector.expr .here callee ++ Access.collector.exprs .here inputs := by
        simp [Collector.expr]
      have hfree : freeNameCollector.expr [] (.call i callee inputs) =
          freeNameCollector.expr [] callee ++ freeNameCollector.exprs [] inputs := by
        simp [Collector.expr]
      rw [haccesses, hfree] at hready
      rw [haccesses, Conversion.expr_call, M.expr_call ρ _ i hmember,
        N.expr_call τ _ i (Conversion.isMember_expr hcallee)]
      refine (expr_agree hpair callee ⟨hcallee, hbelow⟩ hready.left).bind
        fun s₁ u w hok₁ hs₁ huw => ?_
      refine (exprs_agree hpair inputs hinputs (hready.after_expr hok₁ hs₁)).bind
        fun s₂ us ws hok₂ hs₂ hrel => ?_
      refine (hpair.calls s₂ u w us ws hok₂ (huw.mono hs₂.le) hrel).after
        fun s₃ _ _ _ hs₃ hresult => ⟨?_, hresult⟩
      have hs := (hs₁.mono Effect.ofExpr_left).trans (hs₂.mono Effect.ofExpr_right)
      exact hs.trans (hs₃.mono (Effect.none_le _))
  | .unit _, hform, _ | .name _ _, hform, _ | .member _ _ _, hform, _
  | .classLit _ _ _, hform, _ => hform.1.elim

/-- Expressions are evaluated one after the other in agreement. -/
theorem exprs_agree (hpair : Paired M N) {s : State ι} {scope : List (String × Bool)}
    {available : List String} {ρ τ : Env} : (es : List (Expr ι)) → Form.closures.HoldsExprs es →
    Ready s scope available ρ τ (freeNameCollector.exprs [] es) (Access.collector.exprs .here es)
      [] →
    Agree (After s (.ofExpr available ρ (Access.collector.exprs .here es))
        fun s' => List.Forall₂ (Related s'.world))
      (M.exprs ρ es s.shared) (N.exprs τ (Conversion.exprs scope available es) s.isolated)
  | [], _, hready => .finish hready.ok (.refl _ s) .nil
  | e :: es, hform, hready => by
      rw [Collector.exprs, Collector.exprs] at hready
      rw [Collector.exprs, Conversion.exprs_cons, Machine.exprs, Machine.exprs]
      refine (expr_agree hpair e hform.1 hready.left).bind fun s₁ u w hok₁ hs₁ huw => ?_
      refine (exprs_agree hpair es hform.2 (hready.after_expr hok₁ hs₁)).bind
        fun s₂ us ws hok₂ hs₂ hrel => ?_
      refine .finish hok₂ ?_ (.cons (huw.mono hs₂.le) hrel)
      exact (hs₁.mono Effect.ofExpr_left).trans (hs₂.mono Effect.ofExpr_right)

/-- A statement runs in agreement with its conversion. -/
theorem stmt_agree (hpair : Paired M N) {s : State ι} {scope : List (String × Bool)}
    {available : List String} {ρ τ : Env} : (st : Stmt ι) → Form.closures.HoldsStmt st →
    Ready s scope available ρ τ (freeNameCollector.stmt [] st) (Access.collector.stmt .here st)
      st.declared?.toList →
    (∀ n, st.declared? = some n → n ∈ available) →
    Agree (After s (.ofStmt available ρ τ (Access.collector.stmt .here st))
        (Ran scope available ρ τ st.declared?))
      (M.stmt ρ st s.shared) (N.stmt τ (Conversion.stmt scope available st) s.isolated)
  | .declare i n value, hform, hready, hdeclared => by
      have haccesses : Access.collector.stmt .here (.declare i n value) =
          Access.collector.expr .here value ++ [.declare n] := by
        simp [Collector.stmt]
      rw [haccesses] at hready
      rw [haccesses, Conversion.stmt_declare, Machine.stmt]
      have hvalue : Ready s scope available ρ τ (freeNameCollector.expr [] value)
          (Access.collector.expr .here value) [] :=
        hready.start (by simp [Collector.stmt]) (by simp [Stmt.declared?, Access.declares])
      exact set_agree N .define nofun i hready.context (hdeclared n rfl) (by simp [Access.sets])
        hready.admits (expr_agree hpair value hform.2 hvalue) (by rw [Machine.stmt])
  | .assign i n value, hform, hready, _ => by
      have haccesses : Access.collector.stmt .here (.assign i n value) =
          Access.collector.expr .here value ++ [.write n false] := by
        simp [Collector.stmt]
      rw [haccesses] at hready
      rw [haccesses, Conversion.stmt_assign, Machine.stmt]
      have hvalue : Ready s scope available ρ τ (freeNameCollector.expr [] value)
          (Access.collector.expr .here value) [] :=
        hready.start (by simp +contextual [Collector.stmt]) nofun
      have hst : N.stmt τ (.assign i n (Conversion.expr scope available value)) s.isolated =
          (N.expr τ (Conversion.expr scope available value) s.isolated).bind (store τ n) := by
        rw [Machine.stmt]
      have hset := set_agree N .set nofun i hready.context
        (hready.bound n (by simp [Collector.stmt])) (by simp [Access.sets]) hready.admits
        (expr_agree hpair value hform.2 hvalue) hst
      exact hset.after fun s' _ _ _ hs hran => ⟨hs, hran.related, hran.context, nofun⟩
  | .ret i value, hform, hready, _ => by
      have haccesses : Access.collector.stmt .here (.ret i value) =
          Access.collector.expr .here value := by
        simp [Collector.stmt]
      have hfree : freeNameCollector.stmt [] (.ret i value) = freeNameCollector.expr [] value := by
        simp [Collector.stmt]
      rw [haccesses, hfree] at hready
      rw [haccesses, Conversion.stmt_ret, Machine.stmt, Machine.stmt]
      exact (expr_agree hpair value hform.2 hready).use_value hready.context fun huw => .some huw
  | .expr e, hform, hready, _ => by
      have haccesses : Access.collector.stmt .here (.expr e) = Access.collector.expr .here e := by
        simp [Collector.stmt]
      have hfree : freeNameCollector.stmt [] (.expr e) = freeNameCollector.expr [] e := by
        simp [Collector.stmt]
      rw [haccesses, hfree] at hready
      rw [haccesses, Conversion.stmt_expr, Machine.stmt, Machine.stmt]
      exact (expr_agree hpair e hform.2 hready).use_value hready.context fun _ => .none
  | .branch i condition thenBlock elseBlock, hform, hready, _ =>
      branch_agree hpair.truth i hready (expr_agree hpair condition hform.2.1)
        (stmts_agree hpair thenBlock hform.2.2.1) (stmts_agree hpair elseBlock hform.2.2.2)
  | .importPackage _ _ _, hform, _, _ | .assignMember _ _ _ _, hform, _, _ => hform.1.elim

/-- Statements run one after the other in agreement. -/
theorem stmts_agree (hpair : Paired M N) {s : State ι} {scope : List (String × Bool)}
    {available : List String} {ρ τ : Env} : (ss : List (Stmt ι)) → Form.closures.HoldsStmts ss →
    Ready s scope available ρ τ (freeNameCollector.stmts [] ss) (Access.collector.stmts .here ss)
      (Block.declared ss) →
    (∀ n ∈ Block.declared ss, n ∈ available) →
    Agree (After s (.ofStmt available ρ τ (Access.collector.stmts .here ss))
        (Ran scope available ρ τ none))
      (M.stmts ρ ss s.shared) (N.stmts τ (Conversion.stmts scope available ss) s.isolated)
  | [], _, hready, _ => .finish hready.ok (.refl _ s) ⟨.none, hready.context, nofun⟩
  | st :: ss, hform, hready, hdeclared => by
      rw [Collector.stmts, Collector.stmts] at hready
      rw [Collector.stmts, Conversion.stmts_cons, Machine.stmts, Machine.stmts]
      have hfirst : Ready s scope available ρ τ (freeNameCollector.stmt [] st)
          (Access.collector.stmt .here st) st.declared?.toList := by
        refine hready.start (fun _ => List.mem_append_left _) fun n hn => ?_
        rw [Option.mem_toList, Access.declares_stmts]
        exact (Block.mem_declared_cons.mp hn).imp_right fun hn => ⟨hn, List.not_mem_nil⟩
      refine (stmt_agree hpair st hform.1 hfirst fun n hn =>
        hdeclared n (Block.mem_declared_cons.mpr (Or.inl hn))).bind fun s₁ x y hok₁ hs₁ hran => ?_
      obtain ⟨hrelated, hcontext, hdefined⟩ := hran
      cases hrelated with
      | some huw => exact .finish hok₁ (hs₁.mono Effect.ofStmt_left) ⟨.some huw, hcontext, nofun⟩
      | none =>
          -- the name that the statement has declared is defined now
          have hrest : Ready s₁ scope available ρ τ (freeNameCollector.stmts [] ss)
              (Access.collector.stmts .here ss) (Block.declared ss) :=
            hready.rest hok₁ hs₁ hcontext (fun _ => id) fun n hn c hc hundefined =>
              (Block.mem_declared_cons.mp hn).resolve_left fun hn =>
                hdefined n c hn hc hundefined
          refine (stmts_agree hpair ss hform.2 hrest fun n hn =>
            hdeclared n (Block.mem_declared_cons.mpr (Or.inr hn))).after
            fun s₂ _ _ _ hs₂ hran => ⟨?_, hran⟩
          exact (hs₁.mono Effect.ofStmt_left).trans (hs₂.mono Effect.ofStmt_right)

end

end Lowering.Simulation

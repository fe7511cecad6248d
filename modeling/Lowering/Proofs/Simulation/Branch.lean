import Lowering.Proofs.Simulation.Agree

/-!
# Branches

A branch is entered like a body without parameters, and its statements run in agreement if they do
so from every state that is `Ready` for them. What has to be shown is that the names around the
branch can be used again when it is left (`block_agree`).
-/

namespace Lowering.Simulation

variable {ι α β : Type}

/-- Everything that code needs to run in agreement. The code has some free names and accesses, and
declares some names later. -/
structure Ready (s : State ι) (scope : List (String × Bool)) (available : List String) (ρ τ : Env)
    (free : List String) (accesses : List Access) (later : List String) : Prop where
  ok : s.Ok
  context : Context s (BoxedName.isBoxed scope) available ρ τ
  bound : ∀ n ∈ free, n ∈ available
  admits : Admits s scope available ρ accesses later

section Ready

variable {s s' : State ι} {scope : List (String × Bool)} {available : List String} {ρ τ : Env}
  {free free' : List String} {first second : List Access} {later later' : List String}

/-- The first part of code. -/
theorem Ready.start (h : Ready s scope available ρ τ free (first ++ second) later)
    (hfree : ∀ n ∈ free', n ∈ free)
    (hlater : ∀ n ∈ later, n ∈ later' ∨ second.any (Access.declares n) = true) :
    Ready s scope available ρ τ free' first later' :=
  ⟨h.ok, h.context, fun n hn => h.bound n (hfree n hn), h.admits.start hlater⟩

/-- The first part of code that declares nothing. -/
theorem Ready.left (h : Ready s scope available ρ τ (free ++ free') (first ++ second) []) :
    Ready s scope available ρ τ free first [] :=
  h.start (fun _ => List.mem_append_left _) nofun

/-- The rest of code, when the first part has been run. -/
theorem Ready.rest {E : Effect}
    (h : Ready s scope available ρ τ (free ++ free') (first ++ second) later) (hok : s'.Ok)
    (hs : Evolves E s s') (hcontext : Context s' (BoxedName.isBoxed scope) available ρ τ)
    (hE : ∀ c, E.freezes c → Touched Access.readsInside available ρ first c)
    (hlater : ∀ n ∈ later, ∀ c, ρ.lookup n = some c → s'.shared.content c = none → n ∈ later') :
    Ready s' scope available ρ τ free' second later' :=
  ⟨hok, hcontext, fun n hn => h.bound n (List.mem_append_right _ hn),
    h.admits.rest h.context hs hE hlater⟩

/-- The rest of code, when its first part has been an expression. -/
theorem Ready.after_expr (h : Ready s scope available ρ τ (free ++ free') (first ++ second) [])
    (hok : s'.Ok) (hs : Evolves (.ofExpr available ρ first) s s') :
    Ready s' scope available ρ τ free' second [] :=
  h.rest hok hs (h.context.evolves hs (fun _ => id) (fun _ => id)) (fun _ => id) nofun

/-- The second part of code, when the first part is left out. -/
theorem Ready.skip (h : Ready s scope available ρ τ (free ++ free') (first ++ second) []) :
    Ready s scope available ρ τ free' second [] :=
  h.rest h.ok (.refl .none s) h.context (fun _ => False.elim) nofun

end Ready

/-- The statements of a block run in agreement, whatever state they are run from. -/
def StmtsAgree (M N : Machine ι) (b : Block ι) : Prop :=
  ∀ {s : State ι} {scope : List (String × Bool)} {available : List String} {ρ τ : Env},
    Ready s scope available ρ τ (freeNameCollector.stmts [] b) b.accesses b.declared →
    (∀ n ∈ b.declared, n ∈ available) →
    Agree (After s (.ofStmt available ρ τ b.accesses) (Ran scope available ρ τ none))
      (M.stmts ρ b s.shared) (N.stmts τ (Conversion.stmts scope available b) s.isolated)

/-- A step that agrees, taken after another one, and with less to be known of it. -/
theorem Agree.after {s s₁ : State ι} {E E' : Effect} {R R' : State ι → α → β → Prop}
    {x : Outcome (α × Heap ι)} {y : Outcome (β × Heap ι)} (h : Agree (After s₁ E' R') x y)
    (himp : ∀ s' a b, s'.Ok → Evolves E' s₁ s' → R' s' a b → Evolves E s s' ∧ R s' a b) :
    Agree (After s E R) x y := by
  cases h with
  | @done a b h =>
      obtain ⟨W, hok, hs, hR⟩ := h
      obtain ⟨hs, hR⟩ := himp ⟨W, a.2, b.2⟩ a.1 b.1 hok hs hR
      exact .done ⟨W, hok, hs, hR⟩
  | error => exact .error
  | timeout => exact .timeout

/-! ## Leaving a branch -/

section Leave

variable {s s' s'' : State ι} {scope : List (String × Bool)} {available : List String}
  {b : Block ι} {ρ τ ρ' τ' : Env}

/-- Old cells that a branch touches are those of names from around it. -/
theorem touched_outer {kind : String → Access → Bool}
    (hkind : ∀ n a, kind n a = true → a.name = n) {env env' : Env} {size c : Nat}
    (houter : ∀ n ∉ b.declared, env'.lookup n = env.lookup n)
    (hnew : ∀ n ∈ b.declared, ∀ c, env'.lookup n = some c → size ≤ c) (hc : c < size)
    (h : Touched kind (Conversion.inside scope available [] b) env' b.accesses c) :
    Touched kind available env (Access.collector.stmts ⟨b.declared, false⟩ b) c := by
  obtain ⟨n, hn, hlookup, hany⟩ := h
  have hdeclared : n ∉ b.declared := fun hn => absurd hc (Nat.not_lt.mpr (hnew n hn c hlookup))
  rw [Conversion.mem_inside_block] at hn
  refine ⟨n, hn.resolve_left hdeclared, (houter n hdeclared).symm.trans hlookup, ?_⟩
  rw [← Access.any_ofName (hkind n), Access.ofName_block hdeclared, Access.any_ofName (hkind n)]
  exact hany

/-- What a branch does, as it looks from around it. -/
theorem Entered.leave_evolves (h : Entered s s' scope available [] b ρ τ ρ' τ')
    (hs : Evolves (.ofStmt (Conversion.inside scope available [] b) ρ' τ' b.accesses) s' s'') :
    Evolves (.ofStmt available ρ τ (Access.collector.stmts ⟨b.declared, false⟩ b)) s s'' := by
  have houter := fun n => h.outer n List.not_mem_nil
  have hnew := fun n hn => h.new n (Or.inr hn)
  refine (h.evolves.mono (Effect.none_le _)).trans_of hs ?_ ?_ ?_
  · intro c hc _ hfreezes
    exact Or.inl (touched_outer (fun _ _ => Access.name_of_readsInside)
      (fun n hn => (houter n hn).1) (fun n hn => (hnew n hn).1) hc hfreezes)
  · intro c hc _ hchanges
    exact touched_outer (fun _ _ => Access.name_of_sets)
      (fun n hn => (houter n hn).1) (fun n hn => (hnew n hn).1) hc hchanges
  · intro d hd _ hchanges
    exact touched_outer (fun _ _ => Access.name_of_sets)
      (fun n hn => (houter n hn).2) (fun n hn => (hnew n hn).2) hd hchanges

/-- A branch does not touch a variable whose name it declares itself. -/
theorem not_touched_declared {names : List String} {env : Env}
    (hdistinct : ∀ m ∈ names, ∀ n ∈ names, env.lookup m = env.lookup n → m = n) {n : String}
    (hn : n ∈ names) (hdeclared : n ∈ b.declared) {c : Nat} (hc : env.lookup n = some c) :
    ¬Touched Access.sets names env (Access.collector.stmts ⟨b.declared, false⟩ b) c := by
  rintro ⟨m, hm, hmc, hany⟩
  obtain rfl := hdistinct m hm n hn (hmc.trans hc.symm)
  rw [← Access.any_ofName (fun _ => Access.name_of_sets), Access.ofName_stmts, Access.seen,
    if_pos hdeclared] at hany
  cases hany

/-- After a branch the names around it can be used as before. -/
theorem Entered.leave_context (h : Entered s s' scope available [] b ρ τ ρ' τ')
    (hcontext : Context s (BoxedName.isBoxed scope) available ρ τ)
    (hs : Evolves (.ofStmt available ρ τ (Access.collector.stmts ⟨b.declared, false⟩ b)) s s'')
    (hinner : Context s'' (BoxedName.isBoxed (BoxedName.inner scope [] b))
      (Conversion.inside scope available [] b) ρ' τ') :
    Context s'' (BoxedName.isBoxed scope) available ρ τ := by
  refine ⟨fun n hn => ?_, hcontext.distinct, hcontext.distinct_isolated⟩
  obtain ⟨c, d, hρ, hτ, hlinked⟩ := hcontext.linked n hn
  refine ⟨c, d, hρ, hτ, ?_⟩
  -- a name that the branch declares has been hidden in it and is as it was before
  by_cases hdeclared : n ∈ b.declared
  · exact hlinked.evolves hs (not_touched_declared hcontext.distinct hn hdeclared hρ)
      (not_touched_declared hcontext.distinct_isolated hn hdeclared hτ)
  · obtain ⟨hρ', hτ'⟩ := h.outer n List.not_mem_nil hdeclared
    have hinside : n ∈ Conversion.inside scope available [] b :=
      Conversion.mem_inside_block.mpr (Or.inr hn)
    have hlinked' := hinner.linked_of hinside (hρ'.trans hρ) (hτ'.trans hτ)
    rwa [BoxedName.isBoxed_outer scope List.not_mem_nil hdeclared] at hlinked'

end Leave

/-- A branch is a body without parameters. -/
theorem enter_block (N : Machine ι) {s : State ι} {scope : List (String × Bool)}
    {available : List String} {ρ τ : Env} (b : Block ι) (hok : s.Ok)
    (hcontext : Context s (BoxedName.isBoxed scope) available ρ τ) :
    let shared := enter b.declared (ρ, s.shared)
    let isolated := enter (Block.declared (Conversion.body scope available [] b)) (τ, s.isolated)
    ∃ s' : State ι, s'.shared = shared.2 ∧
      Entered s s' scope available [] b ρ τ shared.1 isolated.1 ∧
      ∀ rest, N.stmts isolated.1 (BoxedName.heads [] b ++ rest) isolated.2 =
        N.stmts isolated.1 rest s'.isolated := by
  have hprepared : ∀ (names : List String) (before : Env × Heap ι),
      Prepared (Param.names ([] : List (Param ι))) names before before (enter names before) :=
    fun names before =>
      ⟨.nil _ before, allocated_enter names before, fun _ _ => List.not_mem_nil⟩
  refine enter_body N hok hcontext ?_ (hprepared b.declared _) (hprepared _ _) ?_ ?_ ?_
  · intro n
    exact (or_iff_left List.not_mem_nil).symm
  · intro n
    exact (and_iff_left List.not_mem_nil).symm
  · intro n
    exact Conversion.mem_declared_body List.not_mem_nil
  · intro n hn
    exact absurd hn List.not_mem_nil

/-- A branch runs in agreement if its statements do. -/
theorem block_agree {M N : Machine ι} {s : State ι} {scope : List (String × Bool)}
    {available : List String} {ρ τ : Env} {b : Block ι}
    (hready : Ready s scope available ρ τ (freeNameCollector.block [] b)
      (Access.collector.stmts ⟨b.declared, false⟩ b) [])
    (hstmts : StmtsAgree M N b) :
    Agree (After s (.ofStmt available ρ τ (Access.collector.stmts ⟨b.declared, false⟩ b))
        (Ran scope available ρ τ none))
      (M.stmts (enter b.declared (ρ, s.shared)).1 b (enter b.declared (ρ, s.shared)).2)
      (N.stmts (enter (Block.declared (Conversion.body scope available [] b)) (τ, s.isolated)).1
        (Conversion.body scope available [] b)
        (enter (Block.declared (Conversion.body scope available [] b)) (τ, s.isolated)).2) := by
  obtain ⟨s', hshared, hentered, hheads⟩ := enter_block N b hready.ok hready.context
  have hready' : Ready s' (BoxedName.inner scope [] b) (Conversion.inside scope available [] b)
      (enter b.declared (ρ, s.shared)).1
      (enter (Block.declared (Conversion.body scope available [] b)) (τ, s.isolated)).1
      (freeNameCollector.stmts [] b) b.accesses b.declared := by
    refine ⟨hentered.ok, hentered.context, fun n hn => ?_,
      hentered.admits_block hready.ok hready.context hready.admits⟩
    rw [Conversion.mem_inside_block, ← List.mem_append]
    exact Closure.bound_of_free_block hready.bound n hn
  have hrun := hstmts hready' fun n hn => Conversion.mem_inside_block.mpr (Or.inl hn)
  rw [hshared, ← hheads, ← Conversion.body_eq] at hrun
  refine hrun.after fun s'' u w _ hs hran => ?_
  have hs' := hentered.leave_evolves hs
  exact ⟨hs', hran.related, hentered.leave_context hready.context hs' hran.context, nofun⟩

/-- A conditional runs in agreement if its condition and its branches do. -/
theorem branch_agree {M N : Machine ι} (htruth : N.truth = M.truth) {s : State ι}
    {scope : List (String × Bool)} {available : List String} {ρ τ : Env} (i : ι)
    {condition : Expr ι} {thenBlock elseBlock : Block ι}
    (hready : Ready s scope available ρ τ
      (freeNameCollector.stmt [] (.branch i condition thenBlock elseBlock))
      (Access.collector.stmt .here (.branch i condition thenBlock elseBlock)) [])
    (hcondition : Ready s scope available ρ τ (freeNameCollector.expr [] condition)
        (Access.collector.expr .here condition) [] →
      Agree (After s (.ofExpr available ρ (Access.collector.expr .here condition))
          fun s' => Related s'.world)
        (M.expr ρ condition s.shared)
        (N.expr τ (Conversion.expr scope available condition) s.isolated))
    (hthen : StmtsAgree M N thenBlock) (helse : StmtsAgree M N elseBlock) :
    Agree (After s (.ofStmt available ρ τ
          (Access.collector.stmt .here (.branch i condition thenBlock elseBlock)))
        (Ran scope available ρ τ none))
      (M.stmt ρ (.branch i condition thenBlock elseBlock) s.shared)
      (N.stmt τ (Conversion.stmt scope available (.branch i condition thenBlock elseBlock))
        s.isolated) := by
  have haccesses : Access.collector.stmt .here (.branch i condition thenBlock elseBlock) =
      Access.collector.expr .here condition ++
        (Access.collector.stmts ⟨thenBlock.declared, false⟩ thenBlock ++
          Access.collector.stmts ⟨elseBlock.declared, false⟩ elseBlock) := by
    simp [Collector.stmt]
  have hfree : freeNameCollector.stmt [] (.branch i condition thenBlock elseBlock) =
      freeNameCollector.expr [] condition ++
        (freeNameCollector.block [] thenBlock ++ freeNameCollector.block [] elseBlock) := by
    simp [Collector.stmt, Collector.block]
  rw [haccesses, hfree] at hready
  rw [haccesses, Conversion.stmt_branch, Machine.stmt, Machine.stmt]
  refine (hcondition hready.left).bind fun s₁ u w hok₁ hs₁ huw => ?_
  have hblocks := hready.after_expr hok₁ hs₁
  -- the condition looks the same in both runs, so both take the same branch
  have hsame : N.truth w.observed = M.truth u.observed := by
    rw [htruth, huw.observed_eq]
  simp only [hsame]
  cases M.truth u.observed with
  | none => exact .error
  | some holds =>
      cases holds with
      | true =>
          refine (block_agree hblocks.left hthen).after fun s₂ _ _ _ hs₂ hran =>
            ⟨(hs₁.mono Effect.ofExpr_start).trans ?_, hran⟩
          exact (hs₂.mono Effect.ofStmt_left).mono Effect.ofStmt_right
      | false =>
          refine (block_agree hblocks.skip helse).after fun s₂ _ _ _ hs₂ hran =>
            ⟨(hs₁.mono Effect.ofExpr_start).trans ?_, hran⟩
          exact (hs₂.mono Effect.ofStmt_right).mono Effect.ofStmt_right

end Lowering.Simulation

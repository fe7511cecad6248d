import Lowering.Proofs.Simulation.Run

/-!
# Calls side by side

A function and its conversion are called in agreement. The converted function finds what it captures
among its first inputs, and the functions touch no old variable but through its box. So whole
runs agree, for any fuel (`call_agree`).
-/

namespace Lowering.Simulation

variable {ι : Type}

section Function

variable {s s' s'' : State ι} {scope : List (String × Bool)} {captured : List String}
  {params : List (Param ι)} {b : Block ι} {env ρ' τ' : Env} {cell : String → Nat}
  {kept bundled : String → Value ι} {us ws : List (Value ι)}

/-- The parameters and declarations of a function have got cells. -/
theorem prepared_function {params : List String} {inputs : List (Value ι)}
    (hlength : inputs.length = params.length) (declared : List String)
    (hdeclared : ∀ n ∈ declared, n ∉ params) (before : Env × Heap ι) :
    Prepared params declared before (bindInputs params inputs before)
      (enter declared (bindInputs params inputs before)) := by
  refine ⟨allocated_bindInputs hlength (fun cell hcell => ?_) before, allocated_enter _ _,
    hdeclared⟩
  obtain ⟨v, _, hv⟩ := List.mem_map.mp (List.of_mem_zip hcell).2
  rw [← hv]
  simp

/-- Names that a function declares are not among its captures, so both runs make cells for the same
names. -/
theorem mem_declared_function (hapart : ∀ n ∈ captured, n ∉ b.declared) (n : String) :
    n ∈ (Block.declared (Conversion.body scope (captured ++ Param.names params) params b)).filter
        (· ∉ captured ++ Param.names params) ↔
      n ∈ b.declared.filter (· ∉ Param.names params) := by
  simp only [List.mem_filter, List.mem_append, decide_eq_true_eq, not_or]
  by_cases hn : n ∈ Param.names params
  · simp [hn]
  · rw [Conversion.mem_declared_body hn]
    exact ⟨fun h => ⟨h.1, hn⟩, fun h => ⟨h.1, fun hcaptured => hapart n hcaptured h.1, hn⟩⟩

/-- A function is entered in agreement. -/
theorem enter_function (N : Machine ι) (hok : s.Ok)
    (h : Bundled s.world (BoxedName.isBoxed scope) captured env cell kept bundled)
    (hapart : ∀ n ∈ captured, n ∉ b.declared) (hrel : List.Forall₂ (Related s.world) us ws)
    (hlength : us.length = (Param.names params).length) :
    let available := captured ++ Param.names params
    let bound := bindInputs captured (captured.map bundled) ([], s.isolated)
    let shared := enter (b.declared.filter (· ∉ Param.names params))
      (bindInputs (Param.names params) us (env, s.shared))
    let isolated := enter
      ((Block.declared (Conversion.body scope available params b)).filter (· ∉ available))
      (bindInputs (Param.names params) ws bound)
    ∃ s' : State ι, s'.shared = shared.2 ∧
      Entered ⟨s.world, s.shared, bound.2⟩ s' scope available params b env bound.1 shared.1
        isolated.1 ∧
      ∀ rest, N.stmts isolated.1 (BoxedName.heads params b ++ rest) isolated.2 =
        N.stmts isolated.1 rest s'.isolated := by
  have hlength' : ws.length = (Param.names params).length := hrel.length_eq.symm.trans hlength
  have hgrows := (allocated_captures captured bundled ([], s.isolated)).grows
  refine enter_body N (hok.grow (.refl _) hgrows) (h.context hok) (by simp)
    (prepared_function hlength _ (by simp) _) (prepared_function hlength' _ (by simp +contextual) _)
    (by simp) (mem_declared_function hapart) ?_
  intro n hn c d hc hd
  exact related_bindInputs hrel hlength _ _ hn hc hd

variable {T : Heap ι} {τ : Env}

/-- Names of a function that are neither parameters nor declared are captures. -/
theorem captured_of_inside {n : String}
    (hn : n ∈ Conversion.inside scope (captured ++ Param.names params) params b)
    (hbound : ¬(n ∈ Param.names params ∨ n ∈ b.declared)) : n ∈ captured := by
  rw [Conversion.mem_inside fun m hm => List.mem_append_right _ hm, List.mem_append] at hn
  rw [not_or] at hbound
  exact (hn.resolve_left hbound.2).resolve_right hbound.1

/-- The statements of a function admit its captures: what it has captured by value is frozen, and
the function does not set it. -/
theorem Entered.admits_function
    (hentered : Entered ⟨s.world, s.shared, T⟩ s' scope (captured ++ Param.names params) params b
      env τ ρ' τ') (hok : State.Ok ⟨s.world, s.shared, T⟩)
    (h : Bundled s.world (BoxedName.isBoxed scope) captured env cell kept bundled)
    (hunset : ∀ n ∈ captured, BoxedName.isBoxed scope n = false →
      b.accesses.any (Access.sets n) = false) :
    Admits s' (BoxedName.inner scope params b)
      (Conversion.inside scope (captured ++ Param.names params) params b) ρ' b.accesses
      b.declared := by
  refine hentered.admits hok (fun m hm => List.mem_append_right _ hm) ?_
  intro n hn hparams _ hplain c hc
  have hcaptured := (List.mem_append.mp hn).resolve_right hparams
  obtain rfl := Option.some.inj ((h.cells n hcaptured).symm.trans hc)
  have hunset := hunset n hcaptured hplain
  refine ⟨Access.needsBox_of_not_sets hunset, fun _ _ => hunset, fun hundefined _ => ?_⟩
  have hfrozen : s'.world.frozen (cell n) = some (kept n) :=
    hentered.evolves.le.frozen (h.frozen n hcaptured hplain)
  exact absurd (hundefined.symm.trans (hentered.ok.frozen_eq hfrozen)) nofun

/-- An old variable without a box that a function touches is one that it has captured by value. -/
theorem Entered.captured_of_touched
    (hentered : Entered ⟨s.world, s.shared, T⟩ s' scope (captured ++ Param.names params) params b
      env τ ρ' τ')
    (h : Bundled s.world (BoxedName.isBoxed scope) captured env cell kept bundled)
    {kind : String → Access → Bool} {c : Nat} (hc : c < s.shared.size)
    (hbox : s.world.box c = none)
    (htouched : Touched kind (Conversion.inside scope (captured ++ Param.names params) params b) ρ'
      b.accesses c) :
    ∃ n ∈ captured, BoxedName.isBoxed scope n = false ∧ cell n = c ∧
      b.accesses.any (kind n) = true := by
  obtain ⟨n, hn, hlookup, hany⟩ := htouched
  have hbound : ¬(n ∈ Param.names params ∨ n ∈ b.declared) := fun hbound =>
    absurd hc (Nat.not_lt.mpr ((hentered.new n hbound).1 c hlookup))
  have hcaptured := captured_of_inside hn hbound
  rw [not_or] at hbound
  rw [(hentered.outer n hbound.1 hbound.2).1] at hlookup
  obtain rfl := Option.some.inj ((h.cells n hcaptured).symm.trans hlookup)
  refine ⟨n, hcaptured, Bool.eq_false_iff.mpr fun hboxed => ?_, rfl, hany⟩
  obtain ⟨a, ha, _⟩ := h.boxed n hcaptured hboxed
  exact absurd (hbox.symm.trans ha) nofun

/-- A function call has no effect on old variables, except through their boxes. -/
theorem Entered.leave_function
    (hentered : Entered
      ⟨s.world, s.shared, (bindInputs captured (captured.map bundled) ([], s.isolated)).2⟩ s' scope
      (captured ++ Param.names params) params b env
      (bindInputs captured (captured.map bundled) ([], s.isolated)).1 ρ' τ')
    (h : Bundled s.world (BoxedName.isBoxed scope) captured env cell kept bundled)
    (hunset : ∀ n ∈ captured, BoxedName.isBoxed scope n = false →
      b.accesses.any (Access.sets n) = false)
    (hs : Evolves (.ofStmt (Conversion.inside scope (captured ++ Param.names params) params b) ρ' τ'
      b.accesses) s' s'') : Evolves .none s s'' := by
  have halloc := allocated_captures captured bundled ([], s.isolated)
  have hbegin : Evolves .none s s' :=
    (Evolves.grow .none (.refl _) halloc.grows).trans hentered.evolves
  refine hbegin.trans_of hs ?_ ?_ ?_
  · intro c hc hbox hfreezes
    obtain ⟨n, hn, hplain, rfl, _⟩ := hentered.captured_of_touched h hc hbox hfreezes
    exact Or.inr ⟨kept n, h.frozen n hn hplain⟩
  · intro c hc hbox hchanges
    obtain ⟨n, hn, hplain, _, hsets⟩ := hentered.captured_of_touched h hc hbox hchanges
    exact absurd ((hunset n hn hplain).symm.trans hsets) nofun
  · -- all cells of the converted function are new
    rintro d hd _ ⟨n, hn, hlookup, _⟩
    by_cases hbound : n ∈ Param.names params ∨ n ∈ b.declared
    · have hnew := (hentered.new n hbound).2 d hlookup
      exact absurd hd (Nat.not_lt.mpr (Nat.le_trans halloc.grows.size hnew))
    · have hcaptured := captured_of_inside hn hbound
      rw [not_or] at hbound
      rw [(hentered.outer n hbound.1 hbound.2).2] at hlookup
      exact absurd hd (Nat.not_lt.mpr (halloc.new hcaptured hlookup).1)

end Function

/-- What a function returns is related if it returns in agreement. -/
theorem related_getD {W : World ι} {x y : Option (Value ι)} (h : Option.Rel (Related W) x y) :
    Related W (x.getD .unit) (y.getD .unit) := by
  cases h with
  | none => exact .unit
  | some h => exact h

/-- The bodies of a function and its conversion run in agreement. -/
theorem body_agree {M N : Machine ι} (hpair : Paired M N) {s : State ι}
    {scope : List (String × Bool)} {available : List String} {params : List (Param ι)} {b : Block ι}
    {env : Env} {cell : String → Nat} {kept bundled : String → Value ι} {us ws : List (Value ι)}
    (hok : s.Ok) (hform : Form.closures.HoldsStmts b)
    (hfree : ∀ n ∈ freeNames params b, n ∈ available)
    (h : Bundled s.world (BoxedName.isBoxed scope) (captures available params b) env cell kept
      bundled)
    (hunset : ∀ n ∈ captures available params b, BoxedName.isBoxed scope n = false →
      b.accesses.any (Access.sets n) = false)
    (hrel : List.Forall₂ (Related s.world) us ws) :
    Agree (After s .none fun s' => Related s'.world)
      (M.body env (Param.names params) b us s.shared)
      (N.body [] (captures available params b ++ Param.names params)
        (Conversion.body scope (captures available params b ++ Param.names params) params b)
        ((captures available params b).map bundled ++ ws) s.isolated) := by
  have hbound := Closure.bound_of_free hfree
  have hapart : ∀ n ∈ captures available params b, n ∉ b.declared := fun n hn =>
    (mem_freeNames.mp (mem_captures.mp hn).1).2.1
  generalize captures available params b = captured at *
  -- the number of inputs is right for both functions or for none
  have hlength : (captured.map bundled ++ ws).length = (captured ++ Param.names params).length ↔
      us.length = (Param.names params).length := by
    simp [hrel.length_eq]
  rw [Machine.body, Machine.body]
  by_cases hinputs : us.length = (Param.names params).length
  · rw [if_pos hinputs, if_pos (hlength.mpr hinputs), bindInputs_append (by simp)]
    obtain ⟨s', hshared, hentered, hheads⟩ :=
      enter_function (b := b) N hok h hapart hrel hinputs
    have hok' := hok.grow (.refl _) (allocated_captures captured bundled ([], s.isolated)).grows
    have hinside : ∀ n, n ∈ b.declared ++ (captured ++ Param.names params) →
        n ∈ Conversion.inside scope (captured ++ Param.names params) params b := fun n hn =>
      (Conversion.mem_inside fun m hm => List.mem_append_right _ hm).mpr (List.mem_append.mp hn)
    have hrun := stmts_agree hpair b hform
      ⟨hentered.ok, hentered.context, fun n hn => hinside n (hbound n hn),
        hentered.admits_function hok' h hunset⟩
      fun n hn => hinside n (List.mem_append_left _ hn)
    rw [hshared, ← hheads, ← Conversion.body_eq] at hrun
    refine hrun.bind fun s'' x y hok'' hs hran => ?_
    exact .finish hok'' (hentered.leave_function h hunset hs) (related_getD hran.related)
  · rw [if_neg hinputs, if_neg (mt hlength.mp hinputs)]
    exact .error

/-- Related values are called in agreement, whatever the fuel. -/
theorem call_agree (truth : Observation → Option Bool) (fuel : Nat) :
    @CallsAgree ι ((Semantics.shared truth).call fuel) ((Semantics.isolated truth).call fuel) := by
  induction fuel with
  | zero => exact fun _ _ _ _ _ _ _ _ => .timeout
  | succ fuel ih =>
      have hpair : @Paired ι ⟨.shared truth, (Semantics.shared truth).call fuel⟩
          ⟨.isolated truth, (Semantics.isolated truth).call fuel⟩ :=
        ⟨fun _ => rfl, fun _ => rfl, rfl, ih⟩
      intro s u w us ws hok huw hrel
      -- only functions can be called, and related values are both functions or both data
      cases huw with
      | unit | text | number => exact .error
      | function form free cells distinct boxed frozen related unset =>
          exact body_agree hpair hok form free ⟨cells, distinct, boxed, frozen, related⟩ unset hrel

end Lowering.Simulation

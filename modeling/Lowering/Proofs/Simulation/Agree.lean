import Mathlib.Tactic.Choose
import Lowering.Proofs.Simulation.Admits

/-!
# Computations that agree

Two computations, one of each run, `Agree` if they end in the same way, and with related results in
a state that has evolved from the one before. Here this is shown for the steps in which the two runs
differ: reads of variables, writes to them, and function literals.
-/

namespace Lowering.Simulation

variable {ι α β γ δ : Type}

/-- The two computations end in the same way, and with related results if they are done. -/
inductive Agree (Q : α → β → Prop) : Outcome α → Outcome β → Prop where
  | done {a : α} {b : β} (h : Q a b) : Agree Q (.done a) (.done b)
  | error : Agree Q .error .error
  | timeout : Agree Q .timeout .timeout

/-- The results of a step of both runs, with what is known of them in the new state. -/
def After (s : State ι) (E : Effect) (R : State ι → α → β → Prop) (x : α × Heap ι)
    (y : β × Heap ι) : Prop :=
  ∃ W : World ι, State.Ok ⟨W, x.2, y.2⟩ ∧ Evolves E s ⟨W, x.2, y.2⟩ ∧ R ⟨W, x.2, y.2⟩ x.1 y.1

section Agree

variable {s : State ι} {E : Effect} {R : State ι → α → β → Prop}

/-- A step that is done. -/
theorem Agree.finish {t : State ι} {a : α} {b : β} (hok : t.Ok) (hs : Evolves E s t)
    (hR : R t a b) : Agree (After s E R) (.done (a, t.shared)) (.done (b, t.isolated)) :=
  .done ⟨t.world, hok, hs, hR⟩

/-- Computations that go on in agreement agree. -/
theorem Agree.bind {x : Outcome (α × Heap ι)} {y : Outcome (β × Heap ι)}
    {f : α × Heap ι → Outcome γ} {g : β × Heap ι → Outcome δ} {Q : γ → δ → Prop}
    (h : Agree (After s E R) x y)
    (hnext : ∀ s' a b, State.Ok s' → Evolves E s s' → R s' a b →
      Agree Q (f (a, s'.shared)) (g (b, s'.isolated))) : Agree Q (x.bind f) (y.bind g) := by
  cases h with
  | @done a b h =>
      obtain ⟨W, hok, hs, hR⟩ := h
      exact hnext ⟨W, a.2, b.2⟩ a.1 b.1 hok hs hR
  | error => exact .error
  | timeout => exact .timeout

end Agree

/-- Related values are called in agreement. -/
def CallsAgree (f g : Value ι → List (Value ι) → Heap ι → Outcome (Value ι × Heap ι)) : Prop :=
  ∀ (s : State ι) (u w : Value ι) (us ws : List (Value ι)), s.Ok → Related s.world u w →
    List.Forall₂ (Related s.world) us ws →
    Agree (After s .none fun s' => Related s'.world) (f u us s.shared) (g w ws s.isolated)

/-! ## Variables -/

section Variables

variable {s : State ι} {scope : List (String × Bool)} {available : List String} {ρ τ : Env}

/-- Cells with related contents are read in agreement. -/
theorem read_agree (E : Effect) (hok : s.Ok) {c d : Nat}
    (hrel : Option.Rel (Related s.world) (s.shared.content c) (s.isolated.content d)) :
    Agree (After s E fun s' => Related s'.world) (s.shared.read c) (s.isolated.read d) := by
  unfold Heap.read
  revert hrel
  generalize s.shared.content c = x
  generalize s.isolated.content d = y
  intro hrel
  cases hrel with
  | none => exact .error
  | some h => exact .finish hok (.refl E s) h

/-- A variable is read in agreement, through its box or directly. -/
theorem variable_agree (M N : Machine ι) (E : Effect) (hok : s.Ok)
    (hcontext : Context s (BoxedName.isBoxed scope) available ρ τ) (i : ι) {n : String}
    (hn : n ∈ available) :
    Agree (After s E fun s' => Related s'.world) (M.expr ρ (.variable i n) s.shared)
      (N.expr τ (Conversion.expr scope available (.variable i n)) s.isolated) := by
  obtain ⟨c, d, hρ, hτ, hlinked⟩ := hcontext.linked n hn
  rw [Conversion.expr_variable, Machine.expr, hρ]
  cases hbox : BoxedName.isBoxed scope n with
  | true =>
      obtain ⟨b, hb, hcontent⟩ := hlinked.boxed hbox
      simp only [if_true, Machine.expr_box_call, N.expr_variable τ _ hτ hcontent, Outcome.bind,
        Machine.exprs, Value.invoke_get]
      exact read_agree E hok (hok.box_related hb)
  | false =>
      simp only [Bool.false_eq_true, if_false, Machine.expr, hτ]
      exact read_agree E hok (hlinked.plain hbox).2

/-- Setting a boxed variable by a method of its box. -/
theorem stmt_box_call (N : Machine ι) {op : BoxOp} (hop : op ≠ .get) (i : ι) {n : String}
    (e : Expr ι) (T : Heap ι) {d b : Nat} (hτ : τ.lookup n = some d)
    (hd : T.content d = some (.box b)) :
    N.stmt τ (.expr (op.call i n [e])) T =
      (N.expr τ e T).bind fun v => .done (none, v.2.write b v.1) := by
  have hvariable := N.expr_variable (i := i) τ T hτ hd
  cases op with
  | get => exact absurd rfl hop
  | set | define =>
      simp only [Machine.stmt, Machine.expr_box_call, hvariable, Outcome.bind, Machine.exprs]
      cases N.expr τ e T <;> rfl

/-- What is known when statements have run: what they return, a context for what comes next, and
that a variable is defined that has been declared. -/
structure Ran (scope : List (String × Bool)) (available : List String) (ρ τ : Env)
    (declared : Option String) (s : State ι) (x y : Option (Value ι)) : Prop where
  related : Option.Rel (Related s.world) x y
  context : Context s (BoxedName.isBoxed scope) available ρ τ
  defined : ∀ n c, declared = some n → ρ.lookup n = some c → s.shared.content c ≠ none

/-- A statement that returns the value of an expression, or drops it, runs in agreement. -/
theorem Agree.use_value {x y : Outcome (Value ι × Heap ι)} {accesses : List Access}
    (h : Agree (After s (.ofExpr available ρ accesses) fun s' => Related s'.world) x y)
    (hcontext : Context s (BoxedName.isBoxed scope) available ρ τ)
    {f g : Value ι → Option (Value ι)}
    (hfg : ∀ {W u w}, Related W u w → Option.Rel (Related W) (f u) (g w)) :
    Agree (After s (.ofStmt available ρ τ accesses) (Ran scope available ρ τ none))
      (x.bind fun v => .done (f v.1, v.2)) (y.bind fun v => .done (g v.1, v.2)) := by
  refine h.bind fun s' u w hok hs huw => .finish hok (hs.mono (Effect.ofExpr_le_ofStmt _)) ?_
  exact ⟨hfg huw, hcontext.evolves hs (fun _ => id) (fun _ => id), nofun⟩

/-- A variable is set in agreement, through its box or directly. -/
theorem set_agree (N : Machine ι) (op : BoxOp) (hop : op ≠ .get) (i : ι) {n : String} {e : Expr ι}
    {st : Stmt ι} {x : Outcome (Value ι × Heap ι)} {accesses : List Access} {access : Access}
    {later : List String} (hcontext : Context s (BoxedName.isBoxed scope) available ρ τ)
    (hn : n ∈ available) (hsets : access.sets n = true)
    (hadmits : Admits s scope available ρ (accesses ++ [access]) later)
    (hvalue : Agree (After s (.ofExpr available ρ accesses) fun s' => Related s'.world) x
      (N.expr τ e s.isolated))
    (hst : N.stmt τ st s.isolated = (N.expr τ e s.isolated).bind (store τ n)) :
    Agree (After s (.ofStmt available ρ τ (accesses ++ [access]))
        (Ran scope available ρ τ (some n)))
      (x.bind (store ρ n))
      (N.stmt τ (if BoxedName.isBoxed scope n then .expr (op.call i n [e]) else st)
        s.isolated) := by
  obtain ⟨c, d, hρ, hτ, hlinked⟩ := hcontext.linked n hn
  have hdefined : ∀ (s' : State ι) (b : Nat) (u w : Value ι) (m : String) (c' : Nat),
      some n = some m → ρ.lookup m = some c' → (s'.write c b u w).shared.content c' ≠ none := by
    rintro s' b u w m c' hm hc'
    cases hm
    obtain rfl := Option.some.inj (hρ.symm.trans hc')
    rw [State.write, Heap.content_write_self]
    simp
  cases hbox : BoxedName.isBoxed scope n with
  | true =>
      obtain ⟨b, hb, hcontent⟩ := hlinked.boxed hbox
      simp only [if_true, stmt_box_call N hop i e s.isolated hτ hcontent]
      refine hvalue.bind fun s' u w hok' hs huw => ?_
      rw [store_of_lookup hρ]
      have hb' := hs.le.box hb
      have hwrite : Evolves (.ofStmt available ρ τ (accesses ++ [access])) s' (s'.write c b u w) :=
        .write_box _ hb'
      refine .finish (t := s'.write c b u w) (hok'.write_box hb' huw)
        ((hs.mono Effect.ofExpr_start).trans hwrite) ?_
      have hcontext' := hcontext.evolves hs (fun _ => id) (fun _ => id)
      exact ⟨.none, hcontext'.evolves (.write_box .none hb') (fun _ => id) (fun _ => id),
        hdefined s' b u w⟩
  | false =>
      simp only [Bool.false_eq_true, if_false, hst]
      refine hvalue.bind fun s' u w hok' hs huw => ?_
      rw [store_of_lookup hρ, store_of_lookup hτ]
      have hcontext' := hcontext.evolves hs (fun _ => id) (fun _ => id)
      have hlinked' : Linked s' false c d := hbox ▸ hcontext'.linked_of hn hρ hτ
      -- a variable that is set here cannot have been frozen, also not by its value
      have hunfrozen : s'.world.frozen c = none := by
        have hrest : Admits s' scope available ρ [access] later :=
          hadmits.rest hcontext hs (fun _ => id) (fun _ hm _ _ _ => hm)
        refine Option.eq_none_iff_forall_ne_some.mpr fun v hv => ?_
        have hunset := (hrest n hn hbox c hρ).unset v hv
        simp [hsets] at hunset
      have htouched : ∀ {env : Env} {a : Nat}, env.lookup n = some a →
          Touched Access.sets available env (accesses ++ [access]) a := fun ha =>
        ⟨n, hn, ha, by simp [hsets]⟩
      have hwrite : Evolves (.ofStmt available ρ τ (accesses ++ [access])) s' (s'.write c d u w) :=
        .write_plain (htouched hρ) (htouched hτ)
      refine .finish (t := s'.write c d u w) (hok'.write_plain hlinked' hunfrozen)
        ((hs.mono Effect.ofExpr_start).trans hwrite) ?_
      exact ⟨.none, hcontext'.write_plain hn hbox hρ hτ huw, hdefined s' d u w⟩

end Variables

/-! ## Function literals -/

/-- The inputs of a bundle are the values of the captures. -/
theorem exprs_variables (N : Machine ι) (τ : Env) (T : Heap ι) (i : ι) (bundled : String → Value ι)
    (captured : List String)
    (h : ∀ n ∈ captured, ∃ d, τ.lookup n = some d ∧ T.content d = some (bundled n)) :
    N.exprs τ (captured.map (.variable i ·)) T = .done (captured.map bundled, T) := by
  induction captured with
  | nil => rfl
  | cons n captured ih =>
      obtain ⟨d, hd, hcontent⟩ := h n List.mem_cons_self
      have hcaptured := ih fun m hm => h m (List.mem_cons_of_mem n hm)
      rw [List.map_cons, Machine.exprs, N.expr_variable τ T hd hcontent]
      simp only [Outcome.bind, hcaptured, List.map_cons]

/-- A bundled function literal is a function with the values of its captures. -/
theorem expr_bundle (N : Machine ι) (hN : ∀ env, N.closes env = []) (τ : Env) (T : Heap ι) (i : ι)
    (m : Option String) (params : List (Param ι)) (b : Block ι) (bundled : String → Value ι)
    (captured : List String)
    (h : ∀ n ∈ captured, ∃ d, τ.lookup n = some d ∧ T.content d = some (bundled n)) :
    N.expr τ (Closure.bundle captured (.functionLit i m params b)) T =
      .done (.function [] (captured ++ Param.names params) b (captured.map bundled), T) := by
  by_cases hcaptured : captured.isEmpty
  · rw [List.isEmpty_iff] at hcaptured
    subst hcaptured
    simp [Closure.bundle, Machine.expr, hN]
  · rw [Closure.bundle, if_neg hcaptured, Machine.expr_hook_call, Machine.exprs, Machine.expr,
      Outcome.bind, exprs_variables N τ T i bundled captured h, hN, Closure.names_captured]
    simp [Outcome.bind]

/-- What a function gets of a variable that it captures, with the value `w` that its conversion is
bundled with: the box of the variable, or the value `u` that the variable has for good. -/
structure Captured (s : State ι) (isBoxed : Bool) (c : Nat) (u w : Value ι) : Prop where
  boxed : isBoxed = true → ∃ a, s.world.box c = some a ∧ w = .box a
  plain : isBoxed = false → c < s.shared.size ∧ s.world.box c = none ∧
    s.shared.content c = some u ∧ Related s.world u w

section Literals

variable {s : State ι} {scope : List (String × Bool)} {available : List String} {ρ τ : Env} {i : ι}
  {m : Option String} {params : List (Param ι)} {b : Block ι}

/-- The captures of a function literal can be captured: those that are not boxed are defined. -/
theorem captured_of_admits (hcontext : Context s (BoxedName.isBoxed scope) available ρ τ)
    (hadmits : Admits s scope available ρ (Access.collector.expr .here (.functionLit i m params b))
      []) {n : String} (hn : n ∈ captures available params b) :
    ∃ c d u w, ρ.lookup n = some c ∧ (τ.lookup n = some d ∧ s.isolated.content d = some w) ∧
      Captured s (BoxedName.isBoxed scope n) c u w := by
  obtain ⟨hfree, havailable⟩ := mem_captures.mp hn
  obtain ⟨c, d, hρ, hτ, hlinked⟩ := hcontext.linked n havailable
  cases hbox : BoxedName.isBoxed scope n with
  | true =>
      obtain ⟨a, ha, hcontent⟩ := hlinked.boxed hbox
      exact ⟨c, d, .unit, .box a, hρ, ⟨hτ, hcontent⟩, fun _ => ⟨a, ha, rfl⟩, nofun⟩
  | false =>
      obtain ⟨hplain, hrel⟩ := hlinked.plain hbox
      have hadmissible := hadmits n havailable hbox c hρ
      -- the literal reads the variable, and nothing is left that could declare it later
      have hdefined : s.shared.content c ≠ none := fun hundefined =>
        List.not_mem_nil (hadmissible.defined hundefined
          (Access.readsInside_functionLit hfree hadmissible.plain))
      obtain ⟨u, hu⟩ := Option.ne_none_iff_exists'.mp hdefined
      obtain ⟨w, hw⟩ := Option.ne_none_iff_exists'.mp (mt (related_option_none hrel).mpr hdefined)
      rw [hu, hw] at hrel
      cases hrel with
      | some huw => exact ⟨c, d, u, w, hρ, ⟨hτ, hw⟩, nofun, fun _ => ⟨hlinked.lt, hplain, hu, huw⟩⟩

/-- The cells of the captures that are not boxed. -/
def plainCells (scope : List (String × Bool)) (captured : List String) (cell : String → Nat) :
    List Nat :=
  (captured.filter (BoxedName.isBoxed scope · = false)).map cell

/-- The plain cells are those of captured names without boxes. -/
theorem mem_plainCells {captured : List String} {cell : String → Nat} {c : Nat} :
    c ∈ plainCells scope captured cell ↔
      ∃ n ∈ captured, BoxedName.isBoxed scope n = false ∧ cell n = c := by
  simp [plainCells, and_assoc]

/-- A function is related to its conversion once what it captures by value is frozen. -/
theorem related_literal (hok : s.Ok) {cell : String → Nat} {kept bundled : String → Value ι}
    (hform : Form.closures.HoldsStmts b) (hfree : ∀ n ∈ freeNames params b, n ∈ available)
    (hcells : ∀ n ∈ captures available params b, ρ.lookup n = some (cell n))
    (hdistinct : ∀ m ∈ available, ∀ n ∈ available, ρ.lookup m = ρ.lookup n → m = n)
    (hcaptured : ∀ n ∈ captures available params b,
      Captured s (BoxedName.isBoxed scope n) (cell n) (kept n) (bundled n))
    (hunset : ∀ n ∈ captures available params b, BoxedName.isBoxed scope n = false →
      b.accesses.any (Access.sets n) = false) :
    Related (s.freeze (plainCells scope (captures available params b) cell)).world
      (.function ρ (Param.names params) b [])
      (.function [] (captures available params b ++ Param.names params)
        (Conversion.body scope (captures available params b ++ Param.names params) params b)
        ((captures available params b).map bundled)) := by
  have hkept : ∀ n ∈ captures available params b, BoxedName.isBoxed scope n = false →
      (s.freeze (plainCells scope (captures available params b) cell)).world.frozen (cell n) =
        some (kept n) := by
    intro n hn hbox
    rw [State.frozen_freeze_of_mem (mem_plainCells.mpr ⟨n, hn, hbox, rfl⟩)]
    exact ((hcaptured n hn).plain hbox).2.2.1
  refine .function hform hfree hcells ?_ ?_ hkept ?_ hunset
  · intro k hk n hn heq
    refine hdistinct k (mem_captures.mp hk).2 n (mem_captures.mp hn).2 ?_
    rw [hcells k hk, hcells n hn, heq]
  · intro n hn
    exact (hcaptured n hn).boxed
  · intro n hn hbox
    exact ((hcaptured n hn).plain hbox).2.2.2.mono (hok.le_freeze _)

/-- A function literal is evaluated in agreement. The variables that it captures by value are frozen
from now on. -/
theorem literal_agree (M N : Machine ι) (hM : ∀ env, M.closes env = env)
    (hN : ∀ env, N.closes env = []) (hok : s.Ok)
    (hcontext : Context s (BoxedName.isBoxed scope) available ρ τ)
    (hform : Form.closures.HoldsStmts b) (hfree : ∀ n ∈ freeNames params b, n ∈ available)
    (hadmits : Admits s scope available ρ (Access.collector.expr .here (.functionLit i m params b))
      []) :
    Agree (After s (.ofExpr available ρ (Access.collector.expr .here (.functionLit i m params b)))
        fun s' => Related s'.world)
      (M.expr ρ (.functionLit i m params b) s.shared)
      (N.expr τ (Conversion.expr scope available (.functionLit i m params b)) s.isolated) := by
  have : Nonempty (Value ι) := ⟨.unit⟩
  have hcaptured := fun n (hn : n ∈ captures available params b) =>
    captured_of_admits hcontext hadmits hn
  choose! cell place kept bundled hcells hplaces hcaptured using hcaptured
  -- the analysis of accesses has found no need for a box
  have hplain : ∀ n ∈ captures available params b, BoxedName.isBoxed scope n = false →
      Access.needsBox n (Access.collector.expr .here (.functionLit i m params b)) = false :=
    fun n hn hbox => (hadmits n (mem_captures.mp hn).2 hbox (cell n) (hcells n hn)).plain
  rw [Conversion.expr_functionLit, Machine.expr, hM,
    expr_bundle N hN τ s.isolated i m params _ bundled _ fun n hn => ⟨_, hplaces n hn⟩]
  refine .finish (t := s.freeze (plainCells scope (captures available params b) cell))
    (hok.freeze fun c hc => ?_) (.freeze hok fun c hc => ?_)
    (related_literal hok hform hfree hcells hcontext.distinct hcaptured fun n hn hbox => ?_)
  · obtain ⟨n, hn, hbox, rfl⟩ := mem_plainCells.mp hc
    obtain ⟨hlt, hnone, _⟩ := (hcaptured n hn).plain hbox
    exact ⟨hlt, hnone⟩
  · obtain ⟨n, hn, hbox, rfl⟩ := mem_plainCells.mp hc
    obtain ⟨hfreeName, havailable⟩ := mem_captures.mp hn
    exact ⟨n, havailable, hcells n hn,
      Access.readsInside_functionLit hfreeName (hplain n hn hbox)⟩
  · exact Access.not_sets_body i m (mem_captures.mp hn).1
      (Access.writesInside_of_needsBox (hplain n hn hbox))

end Literals

end Lowering.Simulation

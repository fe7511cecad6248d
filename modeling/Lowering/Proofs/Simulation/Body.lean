import Lowering.Proofs.Simulation.Boxes

/-!
# Entering bodies

A body is entered with inputs for its parameters, then gets cells for what it declares, and then its
boxes. `enter_body` says that its converted statements find what they need after that: a context
for everything that they can capture. A branch is a body without parameters. The converted form of a
function gets its captures as well, before its parameters (`Bundled.context`).
-/

namespace Lowering.Simulation

variable {ι : Type}

/-- The state `s'` in which the statements of a body start, when the body is entered in the state
`s`. -/
structure Entered (s s' : State ι) (scope : List (String × Bool)) (available : List String)
    (params : List (Param ι)) (b : Block ι) (ρ τ ρ' τ' : Env) : Prop where
  ok : s'.Ok
  evolves : Evolves .none s s'
  context : Context s' (BoxedName.isBoxed (BoxedName.inner scope params b))
    (Conversion.inside scope available params b) ρ' τ'
  frozen : s'.world.frozen = s.world.frozen
  outer : ∀ n, n ∉ Param.names params → n ∉ b.declared →
    ρ'.lookup n = ρ.lookup n ∧ τ'.lookup n = τ.lookup n
  new : ∀ n, n ∈ Param.names params ∨ n ∈ b.declared →
    (∀ c, ρ'.lookup n = some c → s.shared.size ≤ c) ∧
      ∀ d, τ'.lookup n = some d → s.isolated.size ≤ d
  defined : ∀ n ∈ Param.names params, ∀ c, ρ'.lookup n = some c → s'.shared.content c ≠ none

/-- The cell that a name has got is new. -/
theorem Allocated.new {P : String → Option (Value ι) → Prop} {names : List String}
    {before after : Env × Heap ι} (h : Allocated P names before after) {n : String} (hn : n ∈ names)
    {a : Nat} (ha : after.1.lookup n = some a) :
    before.2.size ≤ a ∧ a < after.2.size ∧ P n (after.2.content a) := by
  obtain ⟨a', ha', hle, hlt, hP⟩ := h.fresh n hn
  obtain rfl := Option.some.inj (ha'.symm.trans ha)
  exact ⟨hle, hlt, hP⟩

/-- In one run, the parameters of a body have got cells with inputs, and then the names that it
declares besides have got undefined cells. -/
structure Prepared (params declared : List String) (before between after : Env × Heap ι) :
    Prop where
  bind : Allocated (fun _ v => v ≠ none) params before between
  enter : Allocated (fun _ v => v = none) declared between after
  apart : ∀ n ∈ declared, n ∉ params

namespace Prepared

variable {params declared : List String} {before between after : Env × Heap ι}

/-- Preparing a body only adds cells. -/
theorem grows (h : Prepared params declared before between after) : Grows before.2 after.2 :=
  h.bind.grows.trans h.enter.grows

/-- Preparing a body leaves all other names where they were. -/
theorem outer (h : Prepared params declared before between after) {n : String} (hn : n ∉ params)
    (hn' : n ∉ declared) : after.1.lookup n = before.1.lookup n :=
  (h.enter.outer n hn').trans (h.bind.outer n hn)

/-- A parameter has a new cell that is defined. -/
theorem of_param (h : Prepared params declared before between after) {n : String} (hn : n ∈ params)
    {a : Nat} (ha : after.1.lookup n = some a) :
    before.2.size ≤ a ∧ after.2.content a ≠ none := by
  rw [h.enter.outer n fun hn' => h.apart n hn' hn] at ha
  obtain ⟨hle, hlt, hdefined⟩ := h.bind.new hn ha
  exact ⟨hle, (h.enter.grows.old a hlt).symm ▸ hdefined⟩

/-- A name that is only declared has a new cell that is undefined. -/
theorem of_declared (h : Prepared params declared before between after) {n : String}
    (hn : n ∈ declared) {a : Nat} (ha : after.1.lookup n = some a) :
    before.2.size ≤ a ∧ after.2.content a = none := by
  obtain ⟨hle, _, hundefined⟩ := h.enter.new hn ha
  exact ⟨Nat.le_trans h.bind.grows.size hle, hundefined⟩

/-- Every name that is bound has a new cell. -/
theorem new (h : Prepared params declared before between after) {n : String}
    (hn : n ∈ params ∨ n ∈ declared) {a : Nat} (ha : after.1.lookup n = some a) :
    before.2.size ≤ a :=
  hn.elim (fun hn => (h.of_param hn ha).1) (fun hn => (h.of_declared hn ha).1)

end Prepared

section EnterBody

variable {s : State ι} {scope : List (String × Bool)} {names available : List String}
  {params : List (Param ι)} {b : Block ι} {declared declared' : List String} {ρ τ : Env}
  {shared shared' isolated isolated' : Env × Heap ι}

/-- The context of a body whose names have got their cells, before any of them is boxed. -/
theorem Context.prepared {boxed : String → Bool} (hok : s.Ok) (h : Context s boxed names ρ τ)
    (hρ : Prepared (Param.names params) declared (ρ, s.shared) shared shared')
    (hτ : Prepared (Param.names params) declared' (τ, s.isolated) isolated isolated')
    (hdeclared : ∀ n, n ∈ declared' ↔ n ∈ declared)
    (hrel : ∀ n ∈ Param.names params, ∀ c d, shared.1.lookup n = some c →
      isolated.1.lookup n = some d →
      Option.Rel (Related s.world) (shared.2.content c) (isolated.2.content d)) :
    Context ⟨s.world, shared'.2, isolated'.2⟩
      (fun n => if n ∈ declared then false else if n ∈ Param.names params then false else boxed n)
      (declared ++ (Param.names params ++ names)) shared'.1 isolated'.1 := by
  have hparams := h.extend hok hρ.bind hτ.bind (fun _ => Iff.rfl) hrel
  have hok' := hok.grow hρ.bind.grows hτ.bind.grows
  refine Context.extend (s := ⟨s.world, shared.2, isolated.2⟩) hok' hparams hρ.enter hτ.enter
    hdeclared ?_
  intro n hn c d hc hd
  rw [(hρ.of_declared hn hc).2, (hτ.of_declared ((hdeclared n).mpr hn) hd).2]
  exact .none

/-- A name is boxed in a body exactly if it has been boxed at its head, or is boxed around it. -/
theorem isBoxed_entered (hdeclared : ∀ n, n ∈ declared ↔ n ∈ b.declared ∧ n ∉ Param.names params)
    (n : String) :
    (if n ∈ BoxedName.boxedNames params b then true
      else if n ∈ declared then false else if n ∈ Param.names params then false
      else BoxedName.isBoxed scope n) = BoxedName.isBoxed (BoxedName.inner scope params b) n := by
  by_cases hbound : n ∈ Param.names params ∨ n ∈ b.declared
  · rw [BoxedName.isBoxed_inner scope hbound]
    by_cases hbox : Access.needsBox n b.accesses = true
    · rw [if_pos (BoxedName.mem_boxedNames.mpr ⟨hbound, hbox⟩), hbox]
    · rw [if_neg fun hn => hbox (BoxedName.mem_boxedNames.mp hn).2, Bool.eq_false_iff.mpr hbox]
      by_cases hparam : n ∈ Param.names params
      · simp [hparam]
      · rw [if_pos ((hdeclared n).mpr ⟨hbound.resolve_left hparam, hparam⟩)]
  · have hnot : n ∉ BoxedName.boxedNames params b := fun hn =>
      hbound (BoxedName.mem_boxedNames.mp hn).1
    rw [not_or] at hbound
    rw [BoxedName.isBoxed_outer scope hbound.1 hbound.2, if_neg hnot, if_neg hbound.1,
      if_neg fun hn => hbound.2 ((hdeclared n).mp hn).1]

/-- After its boxes have been created, the statements of a body find what they need. -/
theorem enter_body (N : Machine ι) (hok : s.Ok)
    (hcontext : Context s (BoxedName.isBoxed scope) names ρ τ)
    (havailable : ∀ n, n ∈ available ↔ n ∈ names ∨ n ∈ Param.names params)
    (hρ : Prepared (Param.names params) declared (ρ, s.shared) shared shared')
    (hτ : Prepared (Param.names params) declared' (τ, s.isolated) isolated isolated')
    (hdeclared : ∀ n, n ∈ declared ↔ n ∈ b.declared ∧ n ∉ Param.names params)
    (hdeclared' : ∀ n, n ∈ declared' ↔ n ∈ declared)
    (hrel : ∀ n ∈ Param.names params, ∀ c d, shared.1.lookup n = some c →
      isolated.1.lookup n = some d →
      Option.Rel (Related s.world) (shared.2.content c) (isolated.2.content d)) :
    ∃ s' : State ι, s'.shared = shared'.2 ∧
      Entered s s' scope available params b ρ τ shared'.1 isolated'.1 ∧
      ∀ rest, N.stmts isolated'.1 (BoxedName.heads params b ++ rest) isolated'.2 =
        N.stmts isolated'.1 rest s'.isolated := by
  have hbound : ∀ n, n ∈ Param.names params ∨ n ∈ b.declared ↔
      n ∈ Param.names params ∨ n ∈ declared := by
    intro n
    rw [hdeclared]
    by_cases hn : n ∈ Param.names params <;> simp [hn]
  -- what is boxed here has got its cells just before, so it is not boxed or frozen yet
  have hplain : ∀ n ∈ BoxedName.boxedNames params b, n ∈ Param.names params ∨ n ∈ declared :=
    fun n hn => (hbound n).mp (BoxedName.mem_boxedNames.mp hn).1
  have hprepared := hcontext.prepared hok hρ hτ hdeclared' hrel
  have hgrows : Evolves .none s ⟨s.world, shared'.2, isolated'.2⟩ := .grow _ hρ.grows hτ.grows
  obtain ⟨s', hshared, hfrozen, hok', hevolves, hcontext', hrun⟩ :=
    heads_run N params b (BoxedName.boxedNames params b) (Names.nodup_sorted _)
      (hok.grow hρ.grows hτ.grows) hgrows hprepared
      (fun n hn => by rcases hplain n hn with hn | hn <;> simp [hn])
      (fun n hn c d hc hd => by
        have hc' := hρ.new (hplain n hn) hc
        refine ⟨hc', hτ.new ((hplain n hn).imp_right (hdeclared' n).mpr) hd, ?_, ?_⟩
        · exact Option.eq_none_iff_forall_ne_some.mpr fun v hv =>
            absurd (hok.frozen_lt hv) (Nat.not_lt.mpr hc')
        · by_cases hparam : n ∈ Param.names params
          · exact Or.inl ⟨hparam, (hρ.of_param hparam hc).2⟩
          · have hn' := (hplain n hn).resolve_left hparam
            exact Or.inr ⟨hparam, ((hdeclared n).mp hn').1, (hρ.of_declared hn' hc).2⟩)
  refine ⟨s', hshared, ⟨hok', hevolves, ?_, hfrozen, ?_, ?_, ?_⟩, hrun⟩
  · refine hcontext'.restrict (fun n hn => ?_) (fun n _ => ?_)
    · rw [Conversion.mem_inside fun m hm => (havailable m).mpr (Or.inr hm), havailable] at hn
      simp only [List.mem_append]
      rcases hn with hn | hn | hn
      · exact ((hbound n).mp (Or.inr hn)).elim (fun hn => Or.inr (Or.inl hn)) Or.inl
      · exact Or.inr (Or.inr hn)
      · exact Or.inr (Or.inl hn)
    · exact isBoxed_entered hdeclared n
  · intro n hparam hn
    have hnot : n ∉ declared := fun hn' => hn ((hdeclared n).mp hn').1
    exact ⟨hρ.outer hparam hnot, hτ.outer hparam (mt (hdeclared' n).mp hnot)⟩
  · intro n hn
    have hn' := (hbound n).mp hn
    exact ⟨fun c hc => hρ.new hn' hc, fun d hd => hτ.new (hn'.imp_right (hdeclared' n).mpr) hd⟩
  · intro n hn c hc
    rw [hshared]
    exact (hρ.of_param hn hc).2

end EnterBody

/-! ## Captures -/

/-- Captures get cells with the values that a function is bundled with. -/
theorem allocated_captures (captured : List String) (bundled : String → Value ι)
    (before : Env × Heap ι) :
    Allocated (fun n v => v = some (bundled n)) captured before
      (bindInputs captured (captured.map bundled) before) := by
  refine allocated_bindInputs (by simp) ?_ before
  intro cell hcell
  rw [List.map_map] at hcell
  induction captured with
  | nil => cases hcell
  | cons n captured ih =>
      rcases List.mem_cons.mp hcell with rfl | hcell
      · rfl
      · exact ih hcell

/-- What a function captures, in the way of `Related`: the cells of its captures in the shared run,
and what its conversion is bundled with. -/
structure Bundled (W : World ι) (isBoxed : String → Bool) (captured : List String) (env : Env)
    (cell : String → Nat) (kept bundled : String → Value ι) : Prop where
  cells : ∀ n ∈ captured, env.lookup n = some (cell n)
  distinct : ∀ m ∈ captured, ∀ n ∈ captured, cell m = cell n → m = n
  boxed : ∀ n ∈ captured, isBoxed n = true → ∃ a, W.box (cell n) = some a ∧ bundled n = .box a
  frozen : ∀ n ∈ captured, isBoxed n = false → W.frozen (cell n) = some (kept n)
  related : ∀ n ∈ captured, isBoxed n = false → Related W (kept n) (bundled n)

/-- A converted function has a context for its captures, once they are bound. -/
theorem Bundled.context {s : State ι} {isBoxed : String → Bool} {captured : List String}
    {env : Env} {cell : String → Nat} {kept bundled : String → Value ι} (hok : s.Ok)
    (h : Bundled s.world isBoxed captured env cell kept bundled) :
    Context ⟨s.world, s.shared, (bindInputs captured (captured.map bundled) ([], s.isolated)).2⟩
      isBoxed captured env (bindInputs captured (captured.map bundled) ([], s.isolated)).1 := by
  have halloc := allocated_captures captured bundled ([], s.isolated)
  generalize bindInputs captured (captured.map bundled) ([], s.isolated) = after at halloc ⊢
  refine ⟨fun n hn => ?_, fun m hm n hn heq => ?_, halloc.distinct⟩
  · obtain ⟨d, hd, hle, hlt, hcontent⟩ := halloc.fresh n hn
    have hnot : ∀ c, s.world.box c ≠ some d := fun c hb =>
      absurd (hok.box_lt hb).2 (Nat.not_lt.mpr hle)
    refine ⟨cell n, d, h.cells n hn, hd, ?_⟩
    cases hbox : isBoxed n with
    | true =>
        obtain ⟨a, ha, hbundled⟩ := h.boxed n hn hbox
        exact .of_boxed (hok.box_lt ha).1 hlt hnot ha (hbundled ▸ hcontent)
    | false =>
        have hkept := h.frozen n hn hbox
        refine .of_plain (hok.frozen_lt hkept) hlt hnot (hok.frozen_plain hkept) ?_
        rw [hok.frozen_eq hkept, hcontent]
        exact .some (h.related n hn hbox)
  · rw [h.cells m hm, h.cells n hn] at heq
    exact h.distinct m hm n hn (Option.some.inj heq)

end Lowering.Simulation

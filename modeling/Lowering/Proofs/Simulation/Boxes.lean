import Lowering.Proofs.Simulation.Entry

/-!
# Creating boxes

The statements at the head of a converted block run in the isolated run only. Each of them moves the
content of a plain variable into a new box, and so makes the variable a boxed one (`heads_run`).
-/

namespace Lowering

namespace Simulation

variable {ι : Type}

/-- Move the content of the cell `d` of a variable into a new box. -/
def State.addBox (s : State ι) (c d : Nat) : State ι :=
  ⟨⟨fun c' => if c' = c then some s.isolated.size else s.world.box c', s.world.frozen⟩, s.shared,
    (s.isolated.push (s.isolated.content d)).write d (.box s.isolated.size)⟩

section AddBox

variable {s : State ι} {c d : Nat}

/-- The box of the cell is the new one. -/
theorem State.box_addBox_self : (s.addBox c d).world.box c = some s.isolated.size :=
  if_pos rfl

/-- The box of a variable is the new one or an old one. -/
theorem State.box_addBox {c' b : Nat} (hb : (s.addBox c d).world.box c' = some b) :
    c' = c ∧ b = s.isolated.size ∨ c' ≠ c ∧ s.world.box c' = some b := by
  by_cases hc : c' = c
  · subst hc
    exact Or.inl ⟨rfl, Option.some.inj (hb.symm.trans box_addBox_self)⟩
  · exact Or.inr ⟨hc, (if_neg hc).symm.trans hb⟩

/-- Other old cells keep their contents. -/
theorem State.content_addBox {d' : Nat} (hd : d' ≠ d) (hlt : d' < s.isolated.size) :
    (s.addBox c d).isolated.content d' = s.isolated.content d' :=
  (Heap.content_write_of_ne hd _ _).trans (Heap.content_push_of_lt hlt _)

/-- The box holds what the cell held. -/
theorem State.content_addBox_new (hd : d < s.isolated.size) :
    (s.addBox c d).isolated.content s.isolated.size = s.isolated.content d :=
  (Heap.content_write_of_ne (Nat.ne_of_gt hd) _ _).trans (Heap.content_push_self _ _)

/-- Adding a box for a plain cell keeps what the world says of the others. -/
theorem Linked.le_addBox (h : Linked s false c d) : s.world.Le (s.addBox c d).world where
  box {c' b} hb := by
    have hc : c' ≠ c := by
      rintro rfl
      exact absurd ((h.plain rfl).1.symm.trans hb) (by simp)
    exact (if_neg hc).trans hb
  frozen := id

/-- A plain variable that is not frozen can be boxed. -/
theorem State.Ok.addBox (hok : s.Ok) (h : Linked s false c d) (hfrozen : s.world.frozen c = none) :
    (s.addBox c d).Ok where
  box_lt hb := by
    rcases State.box_addBox hb with ⟨rfl, rfl⟩ | ⟨_, hold⟩
    · exact ⟨h.lt, Nat.lt_succ_self _⟩
    · exact ⟨(hok.box_lt hold).1, Nat.lt_succ_of_lt (hok.box_lt hold).2⟩
  box_unique hb hb' := by
    rcases State.box_addBox hb with ⟨rfl, rfl⟩ | ⟨_, hold⟩ <;>
      rcases State.box_addBox hb' with ⟨rfl, heq⟩ | ⟨_, hold'⟩
    · rfl
    · exact absurd (hok.box_lt hold').2 (Nat.lt_irrefl _)
    · exact absurd (hok.box_lt hold).2 (heq ▸ Nat.lt_irrefl _)
    · exact hok.box_unique hold hold'
  box_related {c' b} hb := by
    rcases State.box_addBox hb with ⟨rfl, rfl⟩ | ⟨_, hold⟩
    · rw [State.content_addBox_new h.lt_isolated]
      exact related_option_mono h.le_addBox (h.plain rfl).2
    · have hd : b ≠ d := by
        rintro rfl
        exact h.not_box c' hold
      rw [State.content_addBox hd (hok.box_lt hold).2]
      exact related_option_mono h.le_addBox (hok.box_related hold)
  frozen_lt := hok.frozen_lt
  frozen_eq := hok.frozen_eq
  frozen_plain {c' v} hv := by
    have hc : c' ≠ c := by
      rintro rfl
      exact absurd (hfrozen.symm.trans hv) (by simp)
    exact (if_neg hc).trans (hok.frozen_plain hv)

/-- Boxing a variable that was made since an earlier state has no effect on the cells of that
state. -/
theorem Evolves.addBox {s₀ : State ι} {E : Effect} (hs : Evolves E s₀ s) (h : Linked s false c d)
    (hc : s₀.shared.size ≤ c) (hd : s₀.isolated.size ≤ d) : Evolves E s₀ (s.addBox c d) where
  le := ⟨fun hb => h.le_addBox.box (hs.le.box hb), hs.le.frozen⟩
  size := hs.size
  size_isolated := Nat.le_succ_of_le hs.size_isolated
  new_box hb := by
    rcases State.box_addBox hb with ⟨rfl, rfl⟩ | ⟨_, hold⟩
    · exact Or.inr ⟨hc, hs.size_isolated⟩
    · exact hs.new_box hold
  new_frozen := hs.new_frozen
  keeps := hs.keeps
  keeps_isolated {d'} hd' hbox := by
    have hne : d' ≠ d := by omega
    rw [State.content_addBox hne (Nat.lt_of_lt_of_le hd' hs.size_isolated)]
    exact hs.keeps_isolated hd' hbox
  defined := hs.defined

/-- Boxing a variable leaves the cells of other variables linked. -/
theorem Linked.addBox {isBoxed : Bool} {c' d' : Nat} (h : Linked s isBoxed c' d')
    (hplain : Linked s false c d) (hc : c' ≠ c) (hd : d' ≠ d) :
    Linked (s.addBox c d) isBoxed c' d' where
  lt := h.lt
  lt_isolated := Nat.lt_succ_of_lt h.lt_isolated
  not_box c'' hb := by
    rcases State.box_addBox hb with ⟨_, rfl⟩ | ⟨_, hold⟩
    · exact absurd h.lt_isolated (Nat.lt_irrefl _)
    · exact h.not_box c'' hold
  boxed hboxed := by
    obtain ⟨b, hb, hcontent⟩ := h.boxed hboxed
    exact ⟨b, hplain.le_addBox.box hb, (State.content_addBox hd h.lt_isolated).trans hcontent⟩
  plain hboxed := by
    obtain ⟨hbox, hcontent⟩ := h.plain hboxed
    rw [State.content_addBox hd h.lt_isolated]
    exact ⟨(if_neg hc).trans hbox, related_option_mono hplain.le_addBox hcontent⟩

/-- Boxing a variable keeps the context, with that variable boxed. -/
theorem Context.addBox {boxed : String → Bool} {names : List String} {ρ τ : Env}
    (h : Context s boxed names ρ τ) {n : String} (hn : n ∈ names) (hplain : boxed n = false)
    (hρ : ρ.lookup n = some c) (hτ : τ.lookup n = some d) :
    Context (s.addBox c d) (fun m => if m = n then true else boxed m) names ρ τ where
  linked m hm := by
    have hself : Linked s false c d := hplain ▸ h.linked_of hn hρ hτ
    by_cases hmn : m = n
    · subst hmn
      have hnot : ∀ c', (s.addBox c d).world.box c' ≠ some d := by
        intro c' hb
        rcases State.box_addBox hb with ⟨_, heq⟩ | ⟨_, hold⟩
        · exact absurd hself.lt_isolated (heq ▸ Nat.lt_irrefl _)
        · exact hself.not_box c' hold
      refine ⟨c, d, hρ, hτ, ?_⟩
      rw [if_pos rfl]
      exact .of_boxed hself.lt (Nat.lt_succ_of_lt hself.lt_isolated) hnot State.box_addBox_self
        (Heap.content_write_self _ _ _)
    · obtain ⟨c', d', hρ', hτ', hlinked⟩ := h.linked m hm
      have hc : c' ≠ c := fun heq => hmn (h.distinct m hm n hn (by rw [hρ', hρ, heq]))
      have hd : d' ≠ d := fun heq => hmn (h.distinct_isolated m hm n hn (by rw [hτ', hτ, heq]))
      refine ⟨c', d', hρ', hτ', ?_⟩
      rw [if_neg hmn]
      exact hlinked.addBox hself hc hd
  distinct := h.distinct
  distinct_isolated := h.distinct_isolated

end AddBox

/-! ## Running the heads -/

/-- The cells of a variable that a block is about to box: they are new since the block was entered,
and are defined if the variable is a parameter, and undefined if it is only declared. -/
structure Boxable (s₀ s : State ι) (params : List (Param ι)) (b : Block ι) (n : String)
    (c d : Nat) : Prop where
  new : s₀.shared.size ≤ c
  new_isolated : s₀.isolated.size ≤ d
  not_frozen : s.world.frozen c = none
  origin : n ∈ Param.names params ∧ s.shared.content c ≠ none ∨
    n ∉ Param.names params ∧ n ∈ b.declared ∧ s.shared.content c = none

/-- The statement that creates the box of a variable moves the content of its cell there. -/
theorem head_run (N : Machine ι) {params : List (Param ι)} {b : Block ι} {n : String} {τ : Env}
    {T : Heap ι} {d : Nat} (hτ : τ.lookup n = some d)
    (h : n ∈ Param.names params ∧ T.content d ≠ none ∨
      n ∉ Param.names params ∧ n ∈ b.declared ∧ T.content d = none) :
    ∃ s, BoxedName.head? params b n = some s ∧
      N.stmt τ s T = .done (none, (T.push (T.content d)).write d (.box T.size)) := by
  rcases h with ⟨hparam, hdefined⟩ | ⟨hparam, hdeclared, hundefined⟩
  · obtain ⟨i, hi⟩ := BoxedName.head?_of_mem b hparam
    obtain ⟨w, hw⟩ := Option.ne_none_iff_exists'.mp hdefined
    refine ⟨_, hi, ?_⟩
    simp [Machine.stmt, Machine.exprs, N.expr_variable τ T hτ hw, Outcome.bind,
      store_of_lookup hτ, hw]
  · obtain ⟨i, hi⟩ := BoxedName.head?_of_declared hparam hdeclared
    refine ⟨_, hi, ?_⟩
    simp [Machine.stmt, Machine.exprs, Machine.expr, Outcome.bind, store_of_lookup hτ, hundefined]

/-- The heads of a block box variables one after the other, and change nothing else. -/
theorem heads_run (N : Machine ι) {s₀ s : State ι} (params : List (Param ι)) (b : Block ι)
    {boxed : String → Bool} {names : List String} {ρ τ : Env} (toBox : List String)
    (hnodup : toBox.Nodup) (hok : s.Ok) (hs : Evolves .none s₀ s)
    (hcontext : Context s boxed names ρ τ)
    (hplain : ∀ n ∈ toBox, n ∈ names ∧ boxed n = false)
    (hboxable : ∀ n ∈ toBox, ∀ c d, ρ.lookup n = some c → τ.lookup n = some d →
      Boxable s₀ s params b n c d) :
    ∃ s' : State ι, s'.shared = s.shared ∧ s'.world.frozen = s.world.frozen ∧ s'.Ok ∧
      Evolves .none s₀ s' ∧
      Context s' (fun n => if n ∈ toBox then true else boxed n) names ρ τ ∧
      ∀ rest, N.stmts τ (toBox.filterMap (BoxedName.head? params b) ++ rest) s.isolated =
        N.stmts τ rest s'.isolated := by
  induction toBox generalizing s boxed with
  | nil => exact ⟨s, rfl, rfl, hok, hs, hcontext, fun _ => rfl⟩
  | cons n toBox ih =>
      obtain ⟨hn, hplain_n⟩ := hplain n List.mem_cons_self
      obtain ⟨c, d, hρ, hτ, hlinked⟩ := hcontext.linked n hn
      rw [hplain_n] at hlinked
      have hbox := hboxable n List.mem_cons_self c d hρ hτ
      obtain ⟨hnot, hnodup'⟩ := List.nodup_cons.mp hnodup
      obtain ⟨s', hshared, hfrozen, hok', hs', hcontext', hrun⟩ := ih hnodup'
        (hok.addBox hlinked hbox.not_frozen) (hs.addBox hlinked hbox.new hbox.new_isolated)
        (hcontext.addBox hn hplain_n hρ hτ)
        (fun m hm => by
          have hne : m ≠ n := fun heq => hnot (heq ▸ hm)
          exact ⟨(hplain m (List.mem_cons_of_mem _ hm)).1,
            (if_neg hne).trans (hplain m (List.mem_cons_of_mem _ hm)).2⟩)
        (fun m hm c' d' hc hd => by
          have hm' := hboxable m (List.mem_cons_of_mem _ hm) c' d' hc hd
          exact ⟨hm'.new, hm'.new_isolated, hm'.not_frozen, hm'.origin⟩)
      refine ⟨s', hshared, hfrozen, hok', hs', hcontext'.restrict (fun _ => id) ?_, ?_⟩
      · intro m _
        by_cases hmn : m = n <;> simp [hmn]
      · intro rest
        -- the cells of the variable agree, so its box gets the right content
        have horigin : n ∈ Param.names params ∧ s.isolated.content d ≠ none ∨
            n ∉ Param.names params ∧ n ∈ b.declared ∧ s.isolated.content d = none := by
          rw [ne_eq, ← related_option_none (hlinked.plain rfl).2]
          exact hbox.origin
        obtain ⟨st, hst, hstep⟩ := head_run N hτ horigin
        rw [List.filterMap_cons, hst]
        simp only [List.cons_append, Machine.stmts, hstep, Outcome.bind]
        exact hrun rest

end Simulation

end Lowering

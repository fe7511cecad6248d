import Mathlib.Data.List.Forall2
import Lowering.Proofs.Simulation.Context

/-!
# Entering blocks and functions

Both runs make cells for the names that a block or function binds, and the isolated run then creates
the boxes. After that the code of the block has a context again, in which the names of the block are
boxed as its accesses require.
-/

namespace Lowering.Simulation

variable {ι : Type}

/-! ## New cells -/

/-- All cells are still there with their contents, and maybe there are more. -/
structure Grows (h h' : Heap ι) : Prop where
  size : h.size ≤ h'.size
  old : ∀ a < h.size, h'.content a = h.content a

/-- A heap grows by nothing. -/
theorem Grows.refl (h : Heap ι) : Grows h h := ⟨Nat.le_refl _, fun _ _ => rfl⟩

/-- A heap that grows twice has grown. -/
theorem Grows.trans {h h' h'' : Heap ι} (hh : Grows h h') (hh' : Grows h' h'') : Grows h h'' where
  size := Nat.le_trans hh.size hh'.size
  old a ha := (hh'.old a (Nat.lt_of_lt_of_le ha hh.size)).trans (hh.old a ha)

/-- A new cell makes a heap grow. -/
theorem Grows.push (h : Heap ι) (v : Option (Value ι)) : Grows h (h.push v) where
  size := Nat.le_succ _
  old _ ha := Heap.content_push_of_lt ha v

/-- Names have got new cells, whose contents have some property. -/
structure Allocated (P : String → Option (Value ι) → Prop) (names : List String)
    (before after : Env × Heap ι) : Prop where
  grows : Grows before.2 after.2
  outer : ∀ n ∉ names, after.1.lookup n = before.1.lookup n
  fresh : ∀ n ∈ names, ∃ a, after.1.lookup n = some a ∧ before.2.size ≤ a ∧ a < after.2.size ∧
    P n (after.2.content a)
  distinct : ∀ m ∈ names, ∀ n ∈ names, after.1.lookup m = after.1.lookup n → m = n

/-- A name that is bound in front of an environment. -/
theorem lookup_bound (n : String) (a : Nat) (env : Env) :
    List.lookup n ((n, a) :: env) = some a := by
  simp

/-- Other names keep their cells. -/
theorem lookup_of_ne {m n : String} (h : m ≠ n) (a : Nat) (env : Env) :
    List.lookup m ((n, a) :: env) = env.lookup m := by
  have hne : (m == n) = false := by simpa using h
  rw [List.lookup_cons, hne]

/-- What allocation does, whatever is allocated. -/
theorem allocated {P : String → Option (Value ι) → Prop} (cells : List (String × Option (Value ι)))
    (hP : ∀ cell ∈ cells, P cell.1 cell.2) (s : Env × Heap ι) :
    Allocated P (cells.map Prod.fst) s (allocate cells s) := by
  induction cells generalizing s with
  | nil => exact ⟨.refl _, fun _ _ => rfl, nofun, nofun⟩
  | cons cell cells ih =>
      obtain ⟨n, v⟩ := cell
      obtain ⟨env, h⟩ := s
      have hrest := ih (fun cell hcell => hP cell (List.mem_cons_of_mem _ hcell))
        ((n, h.size) :: env, h.push v)
      rw [allocate, List.map_cons]
      -- unless it is allocated again, the first name keeps the cell that it gets first
      have hfirst : n ∉ cells.map Prod.fst →
          (allocate cells ((n, h.size) :: env, h.push v)).1.lookup n = some h.size :=
        fun hn => (hrest.outer n hn).trans (lookup_bound n h.size env)
      have hlater : ∀ m ∈ cells.map Prod.fst, ∀ a,
          (allocate cells ((n, h.size) :: env, h.push v)).1.lookup m = some a → h.size < a := by
        intro m hm a ha
        obtain ⟨a', ha', hle, _⟩ := hrest.fresh m hm
        obtain rfl := Option.some.inj (ha.symm.trans ha')
        exact hle
      refine ⟨(Grows.push h v).trans hrest.grows, ?_, ?_, ?_⟩
      · intro m hm
        rw [List.mem_cons, not_or] at hm
        rw [hrest.outer m hm.2]
        exact lookup_of_ne hm.1 h.size env
      · intro m hm
        by_cases hagain : m ∈ cells.map Prod.fst
        · obtain ⟨a, ha, hle, hlt, hcontent⟩ := hrest.fresh m hagain
          exact ⟨a, ha, Nat.le_of_succ_le hle, hlt, hcontent⟩
        · obtain rfl : m = n := (List.mem_cons.mp hm).resolve_right hagain
          have hlt : h.size < (h.push v).size := Nat.lt_succ_self _
          refine ⟨h.size, hfirst hagain, Nat.le_refl _, Nat.lt_of_lt_of_le hlt hrest.grows.size, ?_⟩
          rw [hrest.grows.old _ hlt, Heap.content_push_self]
          exact hP (m, v) List.mem_cons_self
      · intro m hm k hk heq
        by_cases hm' : m ∈ cells.map Prod.fst
        · by_cases hk' : k ∈ cells.map Prod.fst
          · exact hrest.distinct m hm' k hk' heq
          · obtain rfl : k = n := (List.mem_cons.mp hk).resolve_right hk'
            have hlt := hlater m hm' _ (heq.trans (hfirst hk'))
            exact absurd hlt (Nat.lt_irrefl _)
        · obtain rfl : m = n := (List.mem_cons.mp hm).resolve_right hm'
          by_cases hk' : k ∈ cells.map Prod.fst
          · have hlt := hlater k hk' _ (heq.symm.trans (hfirst hm'))
            exact absurd hlt (Nat.lt_irrefl _)
          · exact ((List.mem_cons.mp hk).resolve_right hk').symm

/-- With the new names, different names still have different cells. -/
theorem Allocated.distinct_append {P : String → Option (Value ι) → Prop}
    {bound names : List String} {before after : Env × Heap ι}
    (h : Allocated P bound before after)
    (hlt : ∀ n ∈ names, ∃ c, before.1.lookup n = some c ∧ c < before.2.size)
    (hdistinct : ∀ m ∈ names, ∀ n ∈ names, before.1.lookup m = before.1.lookup n → m = n) :
    ∀ m ∈ bound ++ names, ∀ n ∈ bound ++ names, after.1.lookup m = after.1.lookup n → m = n := by
  -- new cells are not among the old ones
  have hapart : ∀ m ∈ bound, ∀ n ∈ names, n ∉ bound → after.1.lookup m ≠ after.1.lookup n := by
    intro m hm n hn hnot heq
    obtain ⟨a, ha, hle, _⟩ := h.fresh m hm
    obtain ⟨c, hc, hclt⟩ := hlt n hn
    rw [ha, h.outer n hnot, hc] at heq
    cases heq
    exact absurd hclt (Nat.not_lt.mpr hle)
  intro m hm n hn heq
  by_cases hm' : m ∈ bound
  · by_cases hn' : n ∈ bound
    · exact h.distinct m hm' n hn' heq
    · exact absurd heq (hapart m hm' n ((List.mem_append.mp hn).resolve_left hn') hn')
  · by_cases hn' : n ∈ bound
    · exact absurd heq.symm (hapart n hn' m ((List.mem_append.mp hm).resolve_left hm') hm')
    · rw [h.outer m hm', h.outer n hn'] at heq
      exact hdistinct m ((List.mem_append.mp hm).resolve_left hm') n
        ((List.mem_append.mp hn).resolve_left hn') heq

/-- Nothing has got a cell. -/
theorem Allocated.nil (P : String → Option (Value ι) → Prop) (s : Env × Heap ι) :
    Allocated P [] s s :=
  ⟨.refl _, fun _ _ => rfl, nofun, nofun⟩

/-- Names that are declared get undefined cells. -/
theorem allocated_enter (names : List String) (s : Env × Heap ι) :
    Allocated (fun _ v => v = none) names s (enter names s) := by
  have h := allocated (P := fun _ v => v = none) (names.map (·, none)) (by simp) s
  rwa [List.map_map, Function.comp_def, List.map_id'] at h

/-- Parameters get cells that hold inputs. -/
theorem allocated_bindInputs {P : String → Option (Value ι) → Prop} {params : List String}
    {inputs : List (Value ι)} (hlength : inputs.length = params.length)
    (hP : ∀ cell ∈ params.zip (inputs.map some), P cell.1 cell.2) (s : Env × Heap ι) :
    Allocated P params s (bindInputs params inputs s) := by
  have h := allocated (params.zip (inputs.map some)) hP s
  rwa [List.map_fst_zip (by simp [hlength])] at h

/-- Cells are made one after the other. -/
theorem allocate_append (first second : List (String × Option (Value ι))) (s : Env × Heap ι) :
    allocate (first ++ second) s = allocate second (allocate first s) := by
  induction first generalizing s with
  | nil => rfl
  | cons cell first ih => exact ih _

/-- Parameters are bound one after the other. -/
theorem bindInputs_append {params params' : List String} {inputs inputs' : List (Value ι)}
    (hlength : inputs.length = params.length) (s : Env × Heap ι) :
    bindInputs (params ++ params') (inputs ++ inputs') s =
      bindInputs params' inputs' (bindInputs params inputs s) := by
  rw [bindInputs, List.map_append, List.zip_append (by simp [hlength]), allocate_append]
  rfl

/-- Parameters hold related values if the inputs are related. -/
theorem related_bindInputs {W : World ι} {params : List String} {us ws : List (Value ι)}
    (hrel : List.Forall₂ (Related W) us ws) (hlength : us.length = params.length)
    (s t : Env × Heap ι) {n : String} (hn : n ∈ params) {c d : Nat}
    (hc : (bindInputs params us s).1.lookup n = some c)
    (hd : (bindInputs params ws t).1.lookup n = some d) :
    Option.Rel (Related W) ((bindInputs params us s).2.content c)
      ((bindInputs params ws t).2.content d) := by
  induction hrel generalizing params s t with
  | nil =>
      cases params with
      | nil => cases hn
      | cons => cases hlength
  | @cons u w us ws huw hrest ih =>
      cases params with
      | nil => cases hlength
      | cons p params =>
          have hlength' : us.length = params.length := Nat.succ.inj hlength
          have hlength'' : ws.length = params.length := hrest.length_eq.symm.trans hlength'
          by_cases hagain : n ∈ params
          · exact ih hlength' _ _ hagain hc hd
          · obtain rfl : n = p := (List.mem_cons.mp hn).resolve_right hagain
            have hs := allocated_bindInputs (P := fun _ _ => True) hlength' (fun _ _ => trivial)
              ((n, s.2.size) :: s.1, s.2.push (some u))
            have ht := allocated_bindInputs (P := fun _ _ => True) hlength'' (fun _ _ => trivial)
              ((n, t.2.size) :: t.1, t.2.push (some w))
            obtain rfl : s.2.size = c := Option.some.inj
              ((lookup_bound n s.2.size s.1).symm.trans ((hs.outer n hagain).symm.trans hc))
            obtain rfl : t.2.size = d := Option.some.inj
              ((lookup_bound n t.2.size t.1).symm.trans ((ht.outer n hagain).symm.trans hd))
            have hu := (hs.grows.old s.2.size (Nat.lt_succ_self _)).trans
              (Heap.content_push_self s.2 (some u))
            have hw := (ht.grows.old t.2.size (Nat.lt_succ_self _)).trans
              (Heap.content_push_self t.2 (some w))
            exact hu ▸ hw ▸ .some huw

/-! ## Contexts with new cells -/

section Grow

variable {s : State ι} {H T : Heap ι}

/-- New cells change nothing that is known about the old ones. -/
theorem State.Ok.grow (h : s.Ok) (hH : Grows s.shared H) (hT : Grows s.isolated T) :
    (State.mk s.world H T).Ok where
  box_lt hb := by
    obtain ⟨hc, hb⟩ := h.box_lt hb
    exact ⟨Nat.lt_of_lt_of_le hc hH.size, Nat.lt_of_lt_of_le hb hT.size⟩
  box_unique := h.box_unique
  box_related hb := by
    rw [hH.old _ (h.box_lt hb).1, hT.old _ (h.box_lt hb).2]
    exact h.box_related hb
  frozen_lt hv := Nat.lt_of_lt_of_le (h.frozen_lt hv) hH.size
  frozen_eq hv := (hH.old _ (h.frozen_lt hv)).trans (h.frozen_eq hv)
  frozen_plain := h.frozen_plain

/-- New cells have no effect on the old ones. -/
theorem Evolves.grow (E : Effect) (hH : Grows s.shared H) (hT : Grows s.isolated T) :
    Evolves E s ⟨s.world, H, T⟩ where
  le := ⟨id, id⟩
  size := hH.size
  size_isolated := hT.size
  new_box := Or.inl
  new_frozen _ _ := Or.inl
  keeps hc _ := Or.inl (hH.old _ hc)
  keeps_isolated hd _ := Or.inl (hT.old _ hd)
  defined hc hv := by rwa [hH.old _ hc]

/-- A context with more variables, which have got new cells in both runs. -/
theorem Context.extend {boxed : String → Bool} {names bound bound' : List String}
    {ρ τ ρ' τ' : Env} {P Q : String → Option (Value ι) → Prop} (hok : s.Ok)
    (h : Context s boxed names ρ τ) (hρ : Allocated P bound (ρ, s.shared) (ρ', H))
    (hτ : Allocated Q bound' (τ, s.isolated) (τ', T)) (hbound : ∀ n, n ∈ bound' ↔ n ∈ bound)
    (hrel : ∀ n ∈ bound, ∀ c d, ρ'.lookup n = some c → τ'.lookup n = some d →
      Option.Rel (Related s.world) (H.content c) (T.content d)) :
    Context ⟨s.world, H, T⟩ (fun n => if n ∈ bound then false else boxed n) (bound ++ names)
      ρ' τ' := by
  have hnew : ∀ n ∈ bound, ∃ c d, ρ'.lookup n = some c ∧ τ'.lookup n = some d ∧
      s.shared.size ≤ c ∧ s.isolated.size ≤ d ∧ Linked ⟨s.world, H, T⟩ false c d := by
    intro n hn
    obtain ⟨c, hc, hcle, hclt, _⟩ := hρ.fresh n hn
    obtain ⟨d, hd, hdle, hdlt, _⟩ := hτ.fresh n ((hbound n).mpr hn)
    have hbox : s.world.box c = none := by
      cases hb : s.world.box c with
      | none => rfl
      | some b => exact absurd (hok.box_lt hb).1 (Nat.not_lt.mpr hcle)
    have hnot : ∀ c', s.world.box c' ≠ some d := fun c' hb =>
      absurd (hok.box_lt hb).2 (Nat.not_lt.mpr hdle)
    exact ⟨c, d, hc, hd, hcle, hdle, .of_plain hclt hdlt hnot hbox (hrel n hn c d hc hd)⟩
  have hold : ∀ n ∈ names, n ∉ bound → ∃ c d, ρ'.lookup n = some c ∧ τ'.lookup n = some d ∧
      c < s.shared.size ∧ d < s.isolated.size ∧ Linked ⟨s.world, H, T⟩ (boxed n) c d := by
    intro n hn hnot
    obtain ⟨c, d, hc, hd, hlinked⟩ := h.linked n hn
    have hs := Evolves.grow .none hρ.grows hτ.grows
    exact ⟨c, d, (hρ.outer n hnot).trans hc, (hτ.outer n (mt (hbound n).mp hnot)).trans hd,
      hlinked.lt, hlinked.lt_isolated, hlinked.evolves hs id id⟩
  refine ⟨?_, ?_, ?_⟩
  · intro n hn
    by_cases hb : n ∈ bound
    · obtain ⟨c, d, hc, hd, _, _, hlinked⟩ := hnew n hb
      exact ⟨c, d, hc, hd, by rwa [if_pos hb]⟩
    · obtain ⟨c, d, hc, hd, _, _, hlinked⟩ := hold n ((List.mem_append.mp hn).resolve_left hb) hb
      exact ⟨c, d, hc, hd, by rwa [if_neg hb]⟩
  · refine hρ.distinct_append (fun n hn => ?_) h.distinct
    obtain ⟨c, _, hc, _, hlinked⟩ := h.linked n hn
    exact ⟨c, hc, hlinked.lt⟩
  · have hdistinct := hτ.distinct_append (fun n hn => ?_) h.distinct_isolated
    · intro m hm n hn
      simp only [List.mem_append, hbound] at hdistinct hm hn
      exact hdistinct m hm n hn
    · obtain ⟨_, d, _, hd, hlinked⟩ := h.linked n hn
      exact ⟨d, hd, hlinked.lt_isolated⟩

end Grow

end Lowering.Simulation

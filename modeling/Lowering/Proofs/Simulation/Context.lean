import Lowering.Proofs.Simulation.World

/-!
# Contexts

The variables that code of the two runs can use at some point. A variable has a cell in each run
(`Linked`). If it is boxed, the cell of the isolated run holds its box, and otherwise the two cells
have related contents. This module says how the two runs may read, write, freeze and box the
variables of a `Context`.
-/

namespace Lowering.Simulation

variable {ι : Type}

/-- A cell of each run in which one variable lives. -/
structure Linked (s : State ι) (isBoxed : Bool) (c d : Nat) : Prop where
  lt : c < s.shared.size
  lt_isolated : d < s.isolated.size
  not_box : ∀ c', s.world.box c' ≠ some d
  boxed : isBoxed = true → ∃ b, s.world.box c = some b ∧ s.isolated.content d = some (.box b)
  plain : isBoxed = false → s.world.box c = none ∧
    Option.Rel (Related s.world) (s.shared.content c) (s.isolated.content d)

/-- The cells of a plain variable. -/
theorem Linked.of_plain {s : State ι} {c d : Nat} (hc : c < s.shared.size)
    (hd : d < s.isolated.size) (hnot : ∀ c', s.world.box c' ≠ some d)
    (hbox : s.world.box c = none)
    (hrel : Option.Rel (Related s.world) (s.shared.content c) (s.isolated.content d)) :
    Linked s false c d :=
  ⟨hc, hd, hnot, nofun, fun _ => ⟨hbox, hrel⟩⟩

/-- The cells of a boxed variable. -/
theorem Linked.of_boxed {s : State ι} {c d b : Nat} (hc : c < s.shared.size)
    (hd : d < s.isolated.size) (hnot : ∀ c', s.world.box c' ≠ some d)
    (hbox : s.world.box c = some b) (hcontent : s.isolated.content d = some (.box b)) :
    Linked s true c d :=
  ⟨hc, hd, hnot, fun _ => ⟨b, hbox, hcontent⟩, nofun⟩

/-- A step that does not touch the cells of a variable leaves them linked. -/
theorem Linked.evolves {E : Effect} {s s' : State ι} {boxed : Bool} {c d : Nat}
    (h : Linked s boxed c d) (hs : Evolves E s s') (hc : ¬E.changes c)
    (hd : ¬E.changesIsolated d) : Linked s' boxed c d where
  lt := Nat.lt_of_lt_of_le h.lt hs.size
  lt_isolated := Nat.lt_of_lt_of_le h.lt_isolated hs.size_isolated
  not_box := hs.not_box h.lt_isolated h.not_box
  boxed hboxed := by
    obtain ⟨b, hb, hcontent⟩ := h.boxed hboxed
    have hkeeps := (hs.keeps_isolated h.lt_isolated h.not_box).resolve_right hd
    exact ⟨b, hs.le.box hb, hkeeps.trans hcontent⟩
  plain hplain := by
    obtain ⟨hbox, hcontent⟩ := h.plain hplain
    rw [(hs.keeps h.lt hbox).resolve_right hc,
      (hs.keeps_isolated h.lt_isolated h.not_box).resolve_right hd]
    exact ⟨hs.box_none h.lt hbox, related_option_mono hs.le hcontent⟩

/-- The variables of some names, with which of them are boxed. -/
structure Context (s : State ι) (boxed : String → Bool) (names : List String) (ρ τ : Env) :
    Prop where
  linked : ∀ n ∈ names, ∃ c d, ρ.lookup n = some c ∧ τ.lookup n = some d ∧ Linked s (boxed n) c d
  distinct : ∀ m ∈ names, ∀ n ∈ names, ρ.lookup m = ρ.lookup n → m = n
  distinct_isolated : ∀ m ∈ names, ∀ n ∈ names, τ.lookup m = τ.lookup n → m = n

namespace Context

variable {s s' : State ι} {boxed boxed' : String → Bool} {names names' : List String} {ρ τ : Env}

/-- A step that changes no variable keeps every context. -/
theorem evolves {E : Effect} (h : Context s boxed names ρ τ) (hs : Evolves E s s')
    (hc : ∀ c, ¬E.changes c) (hd : ∀ d, ¬E.changesIsolated d) : Context s' boxed names ρ τ where
  linked n hn := by
    obtain ⟨c, d, hρ, hτ, hlinked⟩ := h.linked n hn
    exact ⟨c, d, hρ, hτ, hlinked.evolves hs (hc c) (hd d)⟩
  distinct := h.distinct
  distinct_isolated := h.distinct_isolated

/-- A context for some of the names. -/
theorem restrict (h : Context s boxed names ρ τ) (hnames : ∀ n ∈ names', n ∈ names)
    (hboxed : ∀ n ∈ names', boxed n = boxed' n) : Context s boxed' names' ρ τ where
  linked n hn := by
    rw [← hboxed n hn]
    exact h.linked n (hnames n hn)
  distinct m hm n hn := h.distinct m (hnames m hm) n (hnames n hn)
  distinct_isolated m hm n hn := h.distinct_isolated m (hnames m hm) n (hnames n hn)

/-- The cells of a given variable. -/
theorem linked_of (h : Context s boxed names ρ τ) {n : String} (hn : n ∈ names) {c d : Nat}
    (hρ : ρ.lookup n = some c) (hτ : τ.lookup n = some d) : Linked s (boxed n) c d := by
  obtain ⟨c', d', hρ', hτ', hlinked⟩ := h.linked n hn
  obtain rfl : c' = c := Option.some.inj (hρ'.symm.trans hρ)
  obtain rfl : d' = d := Option.some.inj (hτ'.symm.trans hτ)
  exact hlinked

end Context

/-! ## Writing -/

/-- Write to a cell of each run. -/
def State.write (s : State ι) (c d : Nat) (u w : Value ι) : State ι :=
  ⟨s.world, s.shared.write c u, s.isolated.write d w⟩

section Write

variable {s : State ι} {boxed : String → Bool} {names : List String} {ρ τ : Env} {u w : Value ι}

/-- After a write a cell is as it was or defined. -/
theorem defined_write (s : State ι) (c d : Nat) (u w : Value ι) {c' : Nat}
    (h : s.shared.content c' ≠ none) : (s.write c d u w).shared.content c' ≠ none := by
  by_cases hc : c' = c
  · subst hc
    simp [State.write]
  · rwa [State.write, Heap.content_write_of_ne hc]

/-- Writing to a variable and its box. -/
theorem State.Ok.write_box (h : s.Ok) {c b : Nat} (hb : s.world.box c = some b)
    (huw : Related s.world u w) : (s.write c b u w).Ok where
  box_lt := h.box_lt
  box_unique := h.box_unique
  box_related {c' b'} hb' := by
    by_cases hc : c' = c
    · subst hc
      obtain rfl : b' = b := Option.some.inj (hb'.symm.trans hb)
      rw [State.write, Heap.content_write_self, Heap.content_write_self]
      exact .some huw
    · have hne : b' ≠ b := fun heq => hc (h.box_unique hb' (heq ▸ hb))
      rw [State.write, Heap.content_write_of_ne hc, Heap.content_write_of_ne hne]
      exact h.box_related hb'
  frozen_lt := h.frozen_lt
  frozen_eq {c' v} hv := by
    have hc : c' ≠ c := by
      rintro rfl
      exact absurd ((h.frozen_plain hv).symm.trans hb) (by simp)
    rw [State.write, Heap.content_write_of_ne hc]
    exact h.frozen_eq hv
  frozen_plain := h.frozen_plain

/-- Writing to a boxed variable has no effect on others. -/
theorem Evolves.write_box (E : Effect) {c b : Nat} (hb : s.world.box c = some b) :
    Evolves E s (s.write c b u w) where
  le := ⟨id, id⟩
  size := Nat.le_refl _
  size_isolated := Nat.le_refl _
  new_box := Or.inl
  new_frozen _ _ := Or.inl
  keeps {c'} _ hbox := by
    have hc : c' ≠ c := by
      rintro rfl
      exact absurd (hbox.symm.trans hb) (by simp)
    exact Or.inl (Heap.content_write_of_ne hc _ _)
  keeps_isolated {d} _ hbox := by
    have hd : d ≠ b := by
      rintro rfl
      exact hbox c hb
    exact Or.inl (Heap.content_write_of_ne hd _ _)
  defined _ := defined_write s c b u w

/-- Writing to the cells of a plain variable that is not frozen. -/
theorem State.Ok.write_plain (h : s.Ok) {c d : Nat} (hlinked : Linked s false c d)
    (hfrozen : s.world.frozen c = none) : (s.write c d u w).Ok where
  box_lt := h.box_lt
  box_unique := h.box_unique
  box_related {c' b'} hb' := by
    have hc : c' ≠ c := by
      rintro rfl
      exact absurd ((hlinked.plain rfl).1.symm.trans hb') (by simp)
    have hd : b' ≠ d := by
      rintro rfl
      exact hlinked.not_box c' hb'
    rw [State.write, Heap.content_write_of_ne hc, Heap.content_write_of_ne hd]
    exact h.box_related hb'
  frozen_lt := h.frozen_lt
  frozen_eq {c' v} hv := by
    have hc : c' ≠ c := by
      rintro rfl
      exact absurd (hfrozen.symm.trans hv) (by simp)
    rw [State.write, Heap.content_write_of_ne hc]
    exact h.frozen_eq hv
  frozen_plain := h.frozen_plain

/-- Writing to a plain variable changes its cells only. -/
theorem Evolves.write_plain {E : Effect} {c d : Nat} (hc : E.changes c)
    (hd : E.changesIsolated d) : Evolves E s (s.write c d u w) where
  le := ⟨id, id⟩
  size := Nat.le_refl _
  size_isolated := Nat.le_refl _
  new_box := Or.inl
  new_frozen _ _ := Or.inl
  keeps {c'} _ _ := by
    by_cases hne : c' = c
    · exact Or.inr (hne ▸ hc)
    · exact Or.inl (Heap.content_write_of_ne hne _ _)
  keeps_isolated {d'} _ _ := by
    by_cases hne : d' = d
    · exact Or.inr (hne ▸ hd)
    · exact Or.inl (Heap.content_write_of_ne hne _ _)
  defined _ := defined_write s c d u w

/-- Writing related values to a plain variable keeps the context. -/
theorem Context.write_plain (h : Context s boxed names ρ τ) {n : String} (hn : n ∈ names)
    (hplain : boxed n = false) {c d : Nat} (hρ : ρ.lookup n = some c) (hτ : τ.lookup n = some d)
    (huw : Related s.world u w) : Context (s.write c d u w) boxed names ρ τ where
  linked m hm := by
    obtain ⟨c', d', hρ', hτ', hlinked⟩ := h.linked m hm
    refine ⟨c', d', hρ', hτ', ?_⟩
    by_cases hmn : m = n
    · subst hmn
      obtain rfl : c' = c := Option.some.inj (hρ'.symm.trans hρ)
      obtain rfl : d' = d := Option.some.inj (hτ'.symm.trans hτ)
      rw [hplain] at hlinked ⊢
      refine .of_plain hlinked.lt hlinked.lt_isolated hlinked.not_box (hlinked.plain rfl).1 ?_
      rw [State.write, Heap.content_write_self, Heap.content_write_self]
      exact .some huw
    · -- other variables live in other cells
      have hc : c' ≠ c := fun heq => hmn (h.distinct m hm n hn (by rw [hρ', hρ, heq]))
      have hd : d' ≠ d := fun heq => hmn (h.distinct_isolated m hm n hn (by rw [hτ', hτ, heq]))
      let E : Effect := ⟨fun _ => False, (· = c), (· = d)⟩
      have hs : Evolves E s (s.write c d u w) := .write_plain rfl rfl
      exact hlinked.evolves hs hc hd
  distinct := h.distinct
  distinct_isolated := h.distinct_isolated

end Write

/-! ## Freezing -/

/-- Freeze variables with the values that they have. -/
def State.freeze (s : State ι) (cells : List Nat) : State ι :=
  ⟨⟨s.world.box, fun c => if c ∈ cells then s.shared.content c else s.world.frozen c⟩, s.shared,
    s.isolated⟩

section Freeze

variable {s : State ι} {cells : List Nat}

/-- A frozen cell keeps the content that it has. -/
theorem State.frozen_freeze_of_mem {c : Nat} (hc : c ∈ cells) :
    (s.freeze cells).world.frozen c = s.shared.content c :=
  if_pos hc

/-- What is frozen stays so, as it has its value already. -/
theorem State.Ok.le_freeze (h : s.Ok) (cells : List Nat) :
    s.world.Le (s.freeze cells).world where
  box := id
  frozen {c v} hv := by
    by_cases hc : c ∈ cells
    · rw [State.frozen_freeze_of_mem hc]
      exact h.frozen_eq hv
    · exact (if_neg hc).trans hv

/-- Variables that are not boxed can be frozen. -/
theorem State.Ok.freeze (h : s.Ok)
    (hcells : ∀ c ∈ cells, c < s.shared.size ∧ s.world.box c = none) : (s.freeze cells).Ok := by
  have hfrozen : ∀ {c v}, (s.freeze cells).world.frozen c = some v →
      c ∈ cells ∧ s.shared.content c = some v ∨ s.world.frozen c = some v := by
    intro c v hv
    by_cases hc : c ∈ cells
    · exact Or.inl ⟨hc, (State.frozen_freeze_of_mem hc).symm.trans hv⟩
    · exact Or.inr ((if_neg hc).symm.trans hv)
  refine ⟨h.box_lt, h.box_unique, fun hb => ?_, fun hv => ?_, fun hv => ?_, fun hv => ?_⟩
  · exact related_option_mono (h.le_freeze cells) (h.box_related hb)
  · exact (hfrozen hv).elim (fun hc => (hcells _ hc.1).1) h.frozen_lt
  · exact (hfrozen hv).elim And.right h.frozen_eq
  · exact (hfrozen hv).elim (fun hc => (hcells _ hc.1).2) h.frozen_plain

/-- Freezing changes no cell. -/
theorem Evolves.freeze {E : Effect} (h : s.Ok) (hcells : ∀ c ∈ cells, E.freezes c) :
    Evolves E s (s.freeze cells) where
  le := h.le_freeze cells
  size := Nat.le_refl _
  size_isolated := Nat.le_refl _
  new_box := Or.inl
  new_frozen {c v} _ _ hv := by
    by_cases hc : c ∈ cells
    · exact Or.inr (hcells c hc)
    · exact Or.inl ((if_neg hc).symm.trans hv)
  keeps _ _ := Or.inl rfl
  keeps_isolated _ _ := Or.inl rfl
  defined _ := id

end Freeze

end Lowering.Simulation

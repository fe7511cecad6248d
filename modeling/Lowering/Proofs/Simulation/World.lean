import Lowering.Proofs.Accesses
import Lowering.Proofs.Conversion
import Lowering.Proofs.Evaluation

/-!
# Worlds

Two runs side by side: one where functions share the cells of the variables around them, and one of
the converted code, where functions are isolated and variables that need it live in boxes. A
`World` says what the cells of the shared run have become: a boxed variable has a box in the other
heap, and a variable that has been captured by value is frozen: it keeps its value for good. Values
are `Related` if they are the same data, or a function and its conversion with captures that agree
in the world.

A step of both runs is described by `Evolves`, with the `Effect` that it may have on the cells that
were there before.
-/

namespace Lowering.Simulation

variable {ι : Type}

/-- What the cells of the shared run have become. -/
structure World (ι : Type) where
  /-- The box in the other heap in which a variable lives. -/
  box : Nat → Option Nat
  /-- The value that a variable has for good. -/
  frozen : Nat → Option (Value ι)

/-- Nothing that a world says is given up later. -/
structure World.Le (W W' : World ι) : Prop where
  box : ∀ {c b}, W.box c = some b → W'.box c = some b
  frozen : ∀ {c v}, W.frozen c = some v → W'.frozen c = some v

/-- Values of the two runs stand for each other: the same data, or a function and its conversion.
Each capture of the function has its cell in the shared run. The converted function is bundled with
the box of the capture if it is boxed, and otherwise with a value that is related to the one that
the capture has for good. -/
inductive Related (W : World ι) : Value ι → Value ι → Prop where
  | unit : Related W .unit .unit
  | text (t : String) : Related W (.text t) (.text t)
  | number (d : String) : Related W (.number d) (.number d)
  | function {scope : List (String × Bool)} {available : List String} {env : Env}
      {params : List (Param ι)} {b : Block ι} {cell : String → Nat}
      {kept bundled : String → Value ι}
      (form : Form.closures.HoldsStmts b)
      (free : ∀ n ∈ freeNames params b, n ∈ available)
      (cells : ∀ n ∈ captures available params b, env.lookup n = some (cell n))
      (distinct : ∀ m ∈ captures available params b, ∀ n ∈ captures available params b,
        cell m = cell n → m = n)
      (boxed : ∀ n ∈ captures available params b, BoxedName.isBoxed scope n = true →
        ∃ a, W.box (cell n) = some a ∧ bundled n = .box a)
      (frozen : ∀ n ∈ captures available params b, BoxedName.isBoxed scope n = false →
        W.frozen (cell n) = some (kept n))
      (related : ∀ n ∈ captures available params b, BoxedName.isBoxed scope n = false →
        Related W (kept n) (bundled n))
      (unset : ∀ n ∈ captures available params b, BoxedName.isBoxed scope n = false →
        b.accesses.any (Access.sets n) = false) :
      Related W (.function env (Param.names params) b [])
        (.function [] (captures available params b ++ Param.names params)
          (Conversion.body scope (captures available params b ++ Param.names params) params b)
          ((captures available params b).map bundled))

/-- Related values stay related. -/
theorem Related.mono {W W' : World ι} {u w : Value ι} (hle : W.Le W') (h : Related W u w) :
    Related W' u w := by
  induction h with
  | unit => exact .unit
  | text t => exact .text t
  | number d => exact .number d
  | function form free cells distinct boxed frozen _ unset ih =>
      refine .function form free cells distinct ?_ ?_ ih unset
      · intro n hn hbox
        obtain ⟨a, ha, hbundled⟩ := boxed n hn hbox
        exact ⟨a, hle.box ha, hbundled⟩
      · exact fun n hn hbox => hle.frozen (frozen n hn hbox)

/-- Related values look the same. -/
theorem Related.observed_eq {W : World ι} {u w : Value ι} (h : Related W u w) :
    u.observed = w.observed := by
  cases h <;> rfl

/-- Related contents of cells stay related. -/
theorem related_option_mono {W W' : World ι} {x y : Option (Value ι)} (hle : W.Le W')
    (h : Option.Rel (Related W) x y) : Option.Rel (Related W') x y := by
  cases h with
  | none => exact .none
  | some h => exact .some (h.mono hle)

/-- Related contents of cells are both defined or both undefined. -/
theorem related_option_none {W : World ι} {x y : Option (Value ι)}
    (h : Option.Rel (Related W) x y) : x = none ↔ y = none := by
  cases h <;> simp

/-- Two runs side by side. -/
structure State (ι : Type) where
  world : World ι
  shared : Heap ι
  isolated : Heap ι

/-- The heaps agree with the world. -/
structure State.Ok (s : State ι) : Prop where
  box_lt : ∀ {c b}, s.world.box c = some b → c < s.shared.size ∧ b < s.isolated.size
  box_unique : ∀ {c c' b}, s.world.box c = some b → s.world.box c' = some b → c = c'
  box_related : ∀ {c b}, s.world.box c = some b →
    Option.Rel (Related s.world) (s.shared.content c) (s.isolated.content b)
  frozen_lt : ∀ {c v}, s.world.frozen c = some v → c < s.shared.size
  frozen_eq : ∀ {c v}, s.world.frozen c = some v → s.shared.content c = some v
  frozen_plain : ∀ {c v}, s.world.frozen c = some v → s.world.box c = none

/-- What a step may do to cells that were there before. -/
structure Effect where
  /-- Freeze a variable. -/
  freezes : Nat → Prop
  /-- Change the content of a variable. -/
  changes : Nat → Prop
  /-- Change the content of a cell of the isolated run. -/
  changesIsolated : Nat → Prop

/-- No effect. -/
def Effect.none : Effect := ⟨fun _ => False, fun _ => False, fun _ => False⟩

/-- One effect covers another. -/
structure Effect.Le (E E' : Effect) : Prop where
  freezes : ∀ {c}, E.freezes c → E'.freezes c
  changes : ∀ {c}, E.changes c → E'.changes c
  changesIsolated : ∀ {d}, E.changesIsolated d → E'.changesIsolated d

/-- To do nothing is to do no more than anything. -/
theorem Effect.none_le (E : Effect) : Effect.none.Le E :=
  ⟨False.elim, False.elim, False.elim⟩

/-- A step of both runs with some effect. Boxes may change whatever the effect; old cells do not
become boxed, and what is defined stays so. -/
structure Evolves (E : Effect) (s s' : State ι) : Prop where
  le : s.world.Le s'.world
  size : s.shared.size ≤ s'.shared.size
  size_isolated : s.isolated.size ≤ s'.isolated.size
  new_box : ∀ {c b}, s'.world.box c = some b →
    s.world.box c = some b ∨ s.shared.size ≤ c ∧ s.isolated.size ≤ b
  new_frozen : ∀ {c v}, c < s.shared.size → s.world.box c = none → s'.world.frozen c = some v →
    s.world.frozen c = some v ∨ E.freezes c
  keeps : ∀ {c}, c < s.shared.size → s.world.box c = none →
    s'.shared.content c = s.shared.content c ∨ E.changes c
  keeps_isolated : ∀ {d}, d < s.isolated.size → (∀ c, s.world.box c ≠ some d) →
    s'.isolated.content d = s.isolated.content d ∨ E.changesIsolated d
  defined : ∀ {c}, c < s.shared.size → s.shared.content c ≠ none → s'.shared.content c ≠ none

namespace Evolves

variable {E E' : Effect} {s s₁ s₂ : State ι}

/-- Whatever code may do, it may leave the state as it is. -/
theorem refl (E : Effect) (s : State ι) : Evolves E s s where
  le := ⟨id, id⟩
  size := Nat.le_refl _
  size_isolated := Nat.le_refl _
  new_box := Or.inl
  new_frozen _ _ := Or.inl
  keeps _ _ := Or.inl rfl
  keeps_isolated _ _ := Or.inl rfl
  defined _ := id

/-- An old cell without a box gets none. -/
theorem box_none (h : Evolves E s s₁) {c : Nat} (hc : c < s.shared.size)
    (hbox : s.world.box c = none) : s₁.world.box c = none := by
  cases hnew : s₁.world.box c with
  | none => rfl
  | some b =>
      rcases h.new_box hnew with hold | ⟨hle, _⟩
      · exact absurd (hold.symm.trans hbox) (by simp)
      · omega

/-- An old cell that is no box becomes none. -/
theorem not_box (h : Evolves E s s₁) {d : Nat} (hd : d < s.isolated.size)
    (hbox : ∀ c, s.world.box c ≠ some d) (c : Nat) : s₁.world.box c ≠ some d := by
  intro hnew
  rcases h.new_box hnew with hold | ⟨_, hle⟩
  · exact hbox c hold
  · omega

/-- Two steps, the second of which may have any effect on the cells that the first has made, and on
old cells only what the first may have too, or freeze what is frozen. -/
theorem trans_of (h : Evolves E s s₁) (h' : Evolves E' s₁ s₂)
    (hfreezes : ∀ c < s.shared.size, s.world.box c = none → E'.freezes c →
      E.freezes c ∨ ∃ v, s.world.frozen c = some v)
    (hchanges : ∀ c < s.shared.size, s.world.box c = none → E'.changes c → E.changes c)
    (hisolated : ∀ d < s.isolated.size, (∀ c, s.world.box c ≠ some d) → E'.changesIsolated d →
      E.changesIsolated d) : Evolves E s s₂ where
  le := ⟨fun hb => h'.le.box (h.le.box hb), fun hf => h'.le.frozen (h.le.frozen hf)⟩
  size := Nat.le_trans h.size h'.size
  size_isolated := Nat.le_trans h.size_isolated h'.size_isolated
  new_box hb := by
    rcases h'.new_box hb with hb | ⟨hc, hb⟩
    · exact h.new_box hb
    · exact Or.inr ⟨Nat.le_trans h.size hc, Nat.le_trans h.size_isolated hb⟩
  new_frozen {c v} hc hbox hf := by
    rcases h'.new_frozen (Nat.lt_of_lt_of_le hc h.size) (h.box_none hc hbox) hf with hold | hnew
    · exact h.new_frozen hc hbox hold
    · rcases hfreezes c hc hbox hnew with hfreezes | ⟨u, hu⟩
      · exact Or.inr hfreezes
      · -- what was frozen before has kept its value
        have hv := h'.le.frozen (h.le.frozen hu)
        exact Or.inl (hu.trans (hv.symm.trans hf))
  keeps {c} hc hbox := by
    rcases h'.keeps (Nat.lt_of_lt_of_le hc h.size) (h.box_none hc hbox) with hkeeps | hnew
    · exact (h.keeps hc hbox).imp_left hkeeps.trans
    · exact Or.inr (hchanges c hc hbox hnew)
  keeps_isolated {d} hd hbox := by
    rcases h'.keeps_isolated (Nat.lt_of_lt_of_le hd h.size_isolated) (h.not_box hd hbox) with
      hkeeps | hnew
    · exact (h.keeps_isolated hd hbox).imp_left hkeeps.trans
    · exact Or.inr (hisolated d hd hbox hnew)
  defined hc hv := h'.defined (Nat.lt_of_lt_of_le hc h.size) (h.defined hc hv)

/-- Two steps with the same effect. -/
theorem trans (h : Evolves E s s₁) (h' : Evolves E s₁ s₂) : Evolves E s s₂ :=
  h.trans_of h' (fun _ _ _ => Or.inl) (fun _ _ _ => id) (fun _ _ _ => id)

/-- A step has every larger effect. -/
theorem mono (h : Evolves E s s₁) (hle : E.Le E') : Evolves E' s s₁ where
  le := h.le
  size := h.size
  size_isolated := h.size_isolated
  new_box := h.new_box
  new_frozen hc hbox hf := (h.new_frozen hc hbox hf).imp_right hle.freezes
  keeps hc hbox := (h.keeps hc hbox).imp_right hle.changes
  keeps_isolated hd hbox := (h.keeps_isolated hd hbox).imp_right hle.changesIsolated
  defined := h.defined

end Evolves

end Lowering.Simulation

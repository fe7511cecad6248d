import Lowering.Proofs.AccessedNames
import Lowering.Proofs.Simulation.Body

/-!
# What code may do to plain variables

Code that is about to run `Admits` the plain variables of its context as they are: none of them
needs a box for the sake of this code, the code does not set those that are frozen, and it captures
only those that are defined, or that it declares itself later on (which then cannot happen before).
Both the analysis of accesses and the steps that have been run go into this. It is handed on from
code to its parts, in the order in which they run.
-/

namespace Lowering.Simulation

variable {ι : Type}

/-- What code with some accesses may do to a plain variable with a given cell. -/
structure Admissible (s : State ι) (c : Nat) (n : String) (accesses : List Access) (later : Prop) :
    Prop where
  plain : Access.needsBox n accesses = false
  unset : ∀ v, s.world.frozen c = some v → accesses.any (Access.sets n) = false
  defined : s.shared.content c = none → accesses.any (Access.readsInside n) = true → later

/-- Code with some accesses may do what it does to all plain variables of a context. Undefined ones
are captured only if they are among those that it declares later. -/
def Admits (s : State ι) (scope : List (String × Bool)) (names : List String) (ρ : Env)
    (accesses : List Access) (later : List String) : Prop :=
  ∀ n ∈ names, BoxedName.isBoxed scope n = false → ∀ c, ρ.lookup n = some c →
    Admissible s c n accesses (n ∈ later)

/-- The cells of names with some kind of access. -/
def Touched (kind : String → Access → Bool) (names : List String) (env : Env)
    (accesses : List Access) (c : Nat) : Prop :=
  ∃ n ∈ names, env.lookup n = some c ∧ accesses.any (kind n) = true

/-- An expression freezes what its function literals read, and changes no variables. -/
def Effect.ofExpr (names : List String) (ρ : Env) (accesses : List Access) : Effect :=
  ⟨Touched Access.readsInside names ρ accesses, fun _ => False, fun _ => False⟩

/-- A statement changes the variables that it sets besides. -/
def Effect.ofStmt (names : List String) (ρ τ : Env) (accesses : List Access) : Effect :=
  ⟨Touched Access.readsInside names ρ accesses, Touched Access.sets names ρ accesses,
    Touched Access.sets names τ accesses⟩

section Touched

variable {kind : String → Access → Bool} {names : List String} {env ρ τ : Env}
  {first second : List Access}

/-- What the first accesses touch, all touch. -/
theorem Touched.left {c : Nat} (h : Touched kind names env first c) :
    Touched kind names env (first ++ second) c := by
  obtain ⟨n, hn, hc, hkind⟩ := h
  exact ⟨n, hn, hc, by rw [List.any_append, hkind, Bool.true_or]⟩

/-- What the second accesses touch, all touch. -/
theorem Touched.right {c : Nat} (h : Touched kind names env second c) :
    Touched kind names env (first ++ second) c := by
  obtain ⟨n, hn, hc, hkind⟩ := h
  exact ⟨n, hn, hc, by rw [List.any_append, hkind, Bool.or_true]⟩

/-- The effect of an expression is covered by that of code that it is the first part of. -/
theorem Effect.ofExpr_left :
    (Effect.ofExpr names ρ first).Le (Effect.ofExpr names ρ (first ++ second)) :=
  ⟨Touched.left, id, id⟩

/-- The second part of an expression does no more than the whole. -/
theorem Effect.ofExpr_right :
    (Effect.ofExpr names ρ second).Le (Effect.ofExpr names ρ (first ++ second)) :=
  ⟨Touched.right, id, id⟩

/-- The first part of a statement does no more than the whole. -/
theorem Effect.ofStmt_left :
    (Effect.ofStmt names ρ τ first).Le (Effect.ofStmt names ρ τ (first ++ second)) :=
  ⟨Touched.left, Touched.left, Touched.left⟩

/-- The second part of a statement does no more than the whole. -/
theorem Effect.ofStmt_right :
    (Effect.ofStmt names ρ τ second).Le (Effect.ofStmt names ρ τ (first ++ second)) :=
  ⟨Touched.right, Touched.right, Touched.right⟩

/-- A statement may do what an expression may. -/
theorem Effect.ofExpr_le_ofStmt (accesses : List Access) :
    (Effect.ofExpr names ρ accesses).Le (Effect.ofStmt names ρ τ accesses) :=
  ⟨id, False.elim, False.elim⟩

/-- The effect of an expression is covered by that of a statement that evaluates it first. -/
theorem Effect.ofExpr_start :
    (Effect.ofExpr names ρ first).Le (Effect.ofStmt names ρ τ (first ++ second)) :=
  ⟨Touched.left, False.elim, False.elim⟩

end Touched

/-! ## Handing on -/

section Admissible

variable {s s' : State ι} {c : Nat} {n : String} {first second : List Access} {later : Prop}

/-- What is admissible depends on the accesses to the name only. -/
theorem Admissible.congr {accesses accesses' : List Access}
    (h : Admissible s c n accesses later)
    (hof : Access.ofName n accesses' = Access.ofName n accesses) :
    Admissible s c n accesses' later where
  plain := by
    rw [← Access.needsBox_ofName, hof, Access.needsBox_ofName]
    exact h.plain
  unset v hv := by
    rw [← Access.any_ofName (fun _ => Access.name_of_sets), hof,
      Access.any_ofName (fun _ => Access.name_of_sets)]
    exact h.unset v hv
  defined hc hread := by
    rw [← Access.any_ofName (fun _ => Access.name_of_readsInside), hof,
      Access.any_ofName (fun _ => Access.name_of_readsInside)] at hread
    exact h.defined hc hread

/-- The first part of code. What the rest declares, the first part has not captured before. -/
theorem Admissible.start {later' : Prop} (h : Admissible s c n (first ++ second) later)
    (hlater : later → later' ∨ second.any (Access.declares n) = true) :
    Admissible s c n first later' where
  plain := Access.needsBox_append_left h.plain
  unset v hv := by
    have hunset := h.unset v hv
    rw [List.any_append, Bool.or_eq_false_iff] at hunset
    exact hunset.1
  defined hc hread := by
    have hread' : (first ++ second).any (Access.readsInside n) = true := by
      rw [List.any_append, hread, Bool.true_or]
    refine (hlater (h.defined hc hread')).resolve_right fun hdeclares => ?_
    have hunset := Access.sets_of_readsInside h.plain hread
    obtain ⟨a, ha, hdeclare⟩ := List.any_eq_true.mp hdeclares
    exact List.any_eq_false.mp hunset a ha (by rw [Access.sets_eq, hdeclare, Bool.or_true])

/-- The rest of code, when the first part has been run. -/
theorem Admissible.rest {E : Effect} {later' : Prop} (h : Admissible s c n (first ++ second) later)
    (hs : Evolves E s s') (hc : c < s.shared.size) (hbox : s.world.box c = none)
    (hfreezes : E.freezes c → first.any (Access.readsInside n) = true)
    (hlater : later → s'.shared.content c = none → later') :
    Admissible s' c n second later' where
  plain := Access.needsBox_append_right h.plain
  unset v hv := by
    rcases hs.new_frozen hc hbox hv with hold | hnew
    · have hunset := h.unset v hold
      rw [List.any_append, Bool.or_eq_false_iff] at hunset
      exact hunset.2
    · exact Access.sets_of_readsInside h.plain (hfreezes hnew)
  defined hc' hread := by
    have hundefined : s.shared.content c = none := Decidable.by_contra fun hdefined =>
      hs.defined hc hdefined hc'
    have hread' : (first ++ second).any (Access.readsInside n) = true := by
      rw [List.any_append, hread, Bool.or_true]
    exact hlater (h.defined hundefined hread') hc'

end Admissible

section Admits

variable {s s' : State ι} {scope : List (String × Bool)} {names available : List String}
  {ρ τ : Env} {first second : List Access} {later later' : List String}

/-- The first part of code. -/
theorem Admits.start (h : Admits s scope names ρ (first ++ second) later)
    (hlater : ∀ n ∈ later, n ∈ later' ∨ second.any (Access.declares n) = true) :
    Admits s scope names ρ first later' :=
  fun n hn hplain c hc => (h n hn hplain c hc).start (hlater n)

/-- The rest of code, when the first part has been run in the context of both. -/
theorem Admits.rest {E : Effect} (h : Admits s scope names ρ (first ++ second) later)
    (hcontext : Context s (BoxedName.isBoxed scope) names ρ τ) (hs : Evolves E s s')
    (hE : ∀ c, E.freezes c → Touched Access.readsInside names ρ first c)
    (hlater : ∀ n ∈ later, ∀ c, ρ.lookup n = some c → s'.shared.content c = none → n ∈ later') :
    Admits s' scope names ρ second later' := by
  intro n hn hplain c hc
  obtain ⟨c', d, hc', _, hlinked⟩ := hcontext.linked n hn
  obtain rfl : c' = c := Option.some.inj (hc'.symm.trans hc)
  refine (h n hn hplain c' hc).rest hs hlinked.lt (hlinked.plain hplain).1 (fun hfreezes => ?_)
    (fun hn' => hlater n hn' c' hc)
  -- the variable that the first part has frozen is this one, as no other has its cell
  obtain ⟨m, hm, hmc, hread⟩ := hE c' hfreezes
  obtain rfl : m = n := hcontext.distinct m hm n hn (hmc.trans hc.symm)
  exact hread

variable {params : List (Param ι)} {b : Block ι} {ρ' τ' : Env}

/-- The statements of a body admit the names of the body, as these have been boxed where their
accesses require it. -/
theorem Entered.admits (h : Entered s s' scope available params b ρ τ ρ' τ') (hok : s.Ok)
    (hparams : ∀ m ∈ Param.names params, m ∈ available)
    (houter : ∀ n ∈ available, n ∉ Param.names params → n ∉ b.declared →
      BoxedName.isBoxed scope n = false → ∀ c, ρ.lookup n = some c →
      Admissible s' c n b.accesses (n ∈ b.declared)) :
    Admits s' (BoxedName.inner scope params b) (Conversion.inside scope available params b) ρ'
      b.accesses b.declared := by
  intro n hn hplain c hc
  by_cases hbound : n ∈ Param.names params ∨ n ∈ b.declared
  · have hnew := (h.new n hbound).1 c hc
    refine ⟨(BoxedName.isBoxed_inner scope hbound).symm.trans hplain, fun v hv => ?_,
      fun hundefined _ => ?_⟩
    · rw [h.frozen] at hv
      exact absurd (hok.frozen_lt hv) (Nat.not_lt.mpr hnew)
    · exact hbound.resolve_left fun hparam => h.defined n hparam c hc hundefined
  · rw [not_or] at hbound
    rw [BoxedName.isBoxed_outer scope hbound.1 hbound.2] at hplain
    rw [Conversion.mem_inside hparams] at hn
    rw [(h.outer n hbound.1 hbound.2).1] at hc
    exact houter n (hn.resolve_left hbound.2) hbound.1 hbound.2 hplain c hc

/-- A branch admits what the statement admits that it is part of. -/
theorem Entered.admits_block (h : Entered s s' scope available [] b ρ τ ρ' τ') (hok : s.Ok)
    (hcontext : Context s (BoxedName.isBoxed scope) available ρ τ)
    (hadmits : Admits s scope available ρ (Access.collector.stmts ⟨b.declared, false⟩ b) []) :
    Admits s' (BoxedName.inner scope [] b) (Conversion.inside scope available [] b) ρ'
      b.accesses b.declared := by
  refine h.admits hok nofun fun n hn _ hdeclared hplain c hc => ?_
  obtain ⟨c', d, hc', _, hlinked⟩ := hcontext.linked n hn
  obtain rfl : c' = c := Option.some.inj (hc'.symm.trans hc)
  have hadmissible : Admissible s c' n ([] ++ b.accesses) (n ∈ []) :=
    (hadmits n hn hplain c' hc).congr (Access.ofName_block hdeclared).symm
  exact hadmissible.rest h.evolves hlinked.lt (hlinked.plain hplain).1 False.elim
    (fun hn => absurd hn List.not_mem_nil)

end Admits

end Lowering.Simulation

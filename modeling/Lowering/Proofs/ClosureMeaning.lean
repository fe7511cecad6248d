import Lowering.Pipeline
import Lowering.Proofs.Simulation.Call

/-!
# The meaning of closures

Boxing followed by closure conversion keeps what a closed function does, for a client that calls it
and whatever it returns, with any data or with values that it got before. The main statement is
`converted_function_observed`: at any fuel the client sees the same. Before the conversion functions
share the variables around them, and after it every function is isolated.
-/

namespace Lowering

variable {ι : Type}

namespace Simulation

/-- Related lists of values have related members, also where there are none. -/
theorem related_getD_list {W : World ι} {us ws : List (Value ι)}
    (h : List.Forall₂ (Related W) us ws) (k : Nat) :
    Related W (us.getD k .unit) (ws.getD k .unit) := by
  induction h generalizing k with
  | nil => exact .unit
  | cons huw _ ih =>
      cases k with
      | zero => exact huw
      | succ k => exact ih k

/-- Inputs of a client that has got related values are related. -/
theorem related_inputs {W : World ι} {us ws : List (Value ι)}
    (h : List.Forall₂ (Related W) us ws) (inputs : List Input) :
    List.Forall₂ (Related W) (inputs.map (Input.value us)) (inputs.map (Input.value ws)) := by
  induction inputs with
  | nil => exact .nil
  | cons input inputs ih =>
      refine .cons ?_ ih
      cases input with
      | text t => exact .text t
      | number d => exact .number d
      | earlier k => exact related_getD_list h k

/-- A client sees the same of computations that agree. -/
theorem Agree.report_eq {s : State ι} {E : Effect} {x y : Outcome (Value ι × Heap ι)}
    {next next' : Value ι → Heap ι → List (Outcome Observation)}
    (h : Agree (After s E fun s' => Related s'.world) x y)
    (hnext : ∀ s' u w, State.Ok s' → Evolves E s s' → Related s'.world u w →
      next' w s'.isolated = next u s'.shared) : y.report next' = x.report next := by
  cases h with
  | @done a b hafter =>
      obtain ⟨W, hok, hs, hresult⟩ := hafter
      rw [Outcome.report, Outcome.report, hresult.observed_eq, hnext _ a.1 b.1 hok hs hresult]
  | error | timeout => rfl

/-- A client that has got related values sees the same from now on. -/
theorem session_eq (truth : Observation → Option Bool) (fuel : Nat) (requests : List Request)
    {s : State ι} {us ws : List (Value ι)} (hok : s.Ok) (h : List.Forall₂ (Related s.world) us ws) :
    (Semantics.isolated truth).session fuel requests ws s.isolated =
      (Semantics.shared truth).session fuel requests us s.shared := by
  induction requests generalizing s us ws with
  | nil => rfl
  | cons q qs ih =>
      have hcall := call_agree truth fuel s _ _ _ _ hok (related_getD_list h q.callee)
        (related_inputs h q.inputs)
      rw [Semantics.session, Semantics.session]
      refine hcall.report_eq fun s' u w hok' hs huw => ih hok' ?_
      exact List.rel_append (h.imp fun _ _ hold => hold.mono hs.le) (.cons huw .nil)

/-- Nothing has been run. -/
def State.initial : State ι := ⟨⟨fun _ => none, fun _ => none⟩, .empty, .empty⟩

/-- At the start there is no cell that a condition could fail for. -/
theorem State.ok_initial : (State.initial : State ι).Ok where
  box_lt := nofun
  box_unique := nofun
  box_related := nofun
  frozen_lt := nofun
  frozen_eq := nofun
  frozen_plain := nofun

/-- A client sees the same of a closed expression and of its conversion. -/
theorem observe_eq (truth : Observation → Option Bool) (fuel : Nat) (requests : List Request)
    {e : Expr ι} (hform : Form.closures.HoldsExpr e) (hclosed : freeNameCollector.expr [] e = []) :
    (Semantics.isolated truth).observe fuel (Conversion.expr [] [] e) requests =
      (Semantics.shared truth).observe fuel e requests := by
  have hpair : @Paired ι ((Semantics.shared truth).machine fuel)
      ((Semantics.isolated truth).machine fuel) :=
    ⟨fun _ => rfl, fun _ => rfl, rfl, call_agree truth fuel⟩
  have hready : Ready (State.initial : State ι) [] [] [] [] (freeNameCollector.expr [] e)
      (Access.collector.expr .here e) [] :=
    ⟨State.ok_initial, ⟨nofun, nofun, nofun⟩, by simp [hclosed], nofun⟩
  exact (expr_agree hpair e hform hready).report_eq fun s' u w hok _ huw =>
    session_eq truth fuel requests hok (.cons huw .nil)

end Simulation

/-- Boxing and closure conversion keep the meaning of every closed function that consists of data,
variables, functions and calls of functions. -/
theorem converted_function_observed (i : ι) (name : Option String) (params : List (Param ι))
    (body : Block ι) (hform : Form.closures.HoldsStmts body)
    (hclosed : freeNames params body = []) :
    ∃ f, Stage.closures.run (Stage.boxing.run ⟨[.expr (.functionLit i name params body)]⟩) =
        ⟨[.expr f]⟩ ∧
      ∀ truth fuel requests, (Semantics.isolated truth).observe fuel f requests =
        (Semantics.shared truth).observe fuel (.functionLit i name params body) requests := by
  refine ⟨Conversion.expr [] [] (.functionLit i name params body), rfl, ?_⟩
  intro truth fuel requests
  exact Simulation.observe_eq truth fuel requests ⟨trivial, hform⟩
    ((free_functionLit i name params body).trans hclosed)

/-- The body of a function with one parameter `first`. It returns a function that replaces what is
kept in a variable and returns it, or returns `first` if its input is not accepted. So one variable
of the outer function is captured in a box, and the other one by value. -/
def register : Block Unit :=
  [.declare () "kept" (.variable () "first"),
    .ret () (.functionLit () none [⟨(), "next"⟩]
      [.branch () (.variable () "next") [.assign () "kept" (.variable () "next")]
          [.ret () (.variable () "first")],
        .ret () (.variable () "kept")])]

/-- A register means the same after the conversion. -/
theorem converted_register_observed :
    Form.closures.HoldsStmts register ∧ freeNames [⟨(), "first"⟩] register = [] ∧
      ∃ f, Stage.closures.run
            (Stage.boxing.run ⟨[.expr (.functionLit () none [⟨(), "first"⟩] register)]⟩) =
          ⟨[.expr f]⟩ ∧
        ∀ truth fuel requests, (Semantics.isolated truth).observe fuel f requests =
          (Semantics.shared truth).observe fuel (.functionLit () none [⟨(), "first"⟩] register)
            requests := by
  have hform : Form.closures.HoldsStmts register := by
    simp [register, Form.closures, Form.HoldsStmts, Form.BelowStmt, Form.BelowExpr]
  have hclosed : freeNames [⟨(), "first"⟩] register = [] := by decide
  exact ⟨hform, hclosed, converted_function_observed () none _ register hform hclosed⟩

/-- A register keeps what it has accepted last. -/
example :
    (Semantics.shared fun o => some (o ≠ .number "0")).observe 2
        (.functionLit () none [⟨(), "first"⟩] register)
        [⟨0, [.text "a"]⟩, ⟨1, [.text "b"]⟩, ⟨1, [.number "0"]⟩, ⟨1, [.earlier 2]⟩] =
      [.done .function, .done .function, .done (.text "b"), .done (.text "a"),
        .done (.text "b")] := by
  cbv

end Lowering

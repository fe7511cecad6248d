import Lowering.Proofs.CoreForm
import Lowering.Proofs.Fixing
import Lowering.Proofs.StageOrder

/-!
# Calls of hooks

`Expr.hook?` finds the hook that an expression calls, whoever wrote the call. A stage makes calls of
its own hooks only (`Stage.calls_run`), so that the hooks called in a lowered program tell which
stage made a call, provided that the program calls no hooks itself (`Program.HookFree`).
-/

namespace Lowering

variable {σ ι : Type}

/-- The expression is the unit value. -/
def Expr.isUnit : Expr ι → Bool
  | .unit _ => true
  | _ => false

/-- The hook that an expression calls: one whose name is that of the called method of the unit
value. -/
def Expr.hook? : Expr ι → Option Hook
  | .call _ (.member _ (.unit _) m) _ => Hook.ofName? m
  | _ => none

/-- Each hook is found by its name, so no two hooks share one. -/
theorem Hook.ofName?_name (hook : Hook) : ofName? hook.name = some hook := by
  cases hook <;> decide

/-- The call of a hook is recognised as such. -/
@[simp] theorem Hook.hook?_call (hook : Hook) (i : ι) (inputs : List (Expr ι)) :
    (hook.call i inputs).hook? = some hook :=
  hook.ofName?_name

/-- A call of anything but a method calls no hook. -/
theorem Expr.hook?_call_of_not_member (i : ι) {callee : Expr ι} (h : callee.isMember = false)
    (inputs : List (Expr ι)) : (Expr.call i callee inputs).hook? = none := by
  cases callee with
  | member => cases h
  | _ => rfl

/-- A call of a method of anything but the unit value calls no hook. -/
theorem Expr.hook?_call_of_not_unit (i j : ι) {object : Expr ι} (h : object.isUnit = false)
    (m : String) (inputs : List (Expr ι)) :
    (Expr.call i (.member j object m) inputs).hook? = none := by
  cases object with
  | unit => cases h
  | _ => rfl

/-- The mapper does not make method calls of other calls, and turns nothing into the unit value nor
the unit value into anything else. -/
structure Mapper.KeepsCallees (M : Mapper σ ι) : Prop where
  unit : ∀ scope e, (M.expr scope e).isUnit = e.isUnit
  member : ∀ scope e, e.isMember = false → (M.expr scope e).isMember = false

/-- It is so if every expression but the unit value either has its children mapped only, or becomes
a call. -/
theorem Mapper.KeepsCallees.of_calls {M : Mapper σ ι}
    (h : ∀ scope e, M.expr scope e = M.rebuild scope e ∨
      e.isUnit = false ∧ ∃ i callee inputs, M.expr scope e = .call i callee inputs) :
    M.KeepsCallees where
  unit scope e := by
    rcases h scope e with heq | ⟨hunit, i, callee, inputs, heq⟩
    · rw [heq]
      cases e <;> rfl
    · rw [heq, hunit]
      rfl
  member scope e hmember := by
    rcases h scope e with heq | ⟨_, i, callee, inputs, heq⟩
    · rw [heq]
      cases e with
      | member => cases hmember
      | _ => rfl
    · rw [heq]
      rfl

/-- Mapping the children of an expression keeps which hook it calls. -/
theorem Mapper.KeepsCallees.hook?_rebuild {M : Mapper σ ι} (h : M.KeepsCallees) (scope : σ)
    (e : Expr ι) : (M.rebuild scope e).hook? = e.hook? := by
  cases e with
  | call i callee inputs =>
      cases callee with
      | member j object m =>
          show (Expr.call i (.member j (M.expr scope object) m) (M.exprs scope inputs)).hook? = _
          have hunit := h.unit scope object
          cases hobject : object.isUnit with
          | false =>
              rw [hobject] at hunit
              rw [Expr.hook?_call_of_not_unit _ _ hunit, Expr.hook?_call_of_not_unit _ _ hobject]
          | true =>
              rw [hobject] at hunit
              revert hunit
              generalize M.expr scope object = mapped
              intro hunit
              cases mapped with
              | unit =>
                  cases object with
                  | unit => rfl
                  | _ => cases hobject
              | _ => cases hunit
      | _ =>
          exact Expr.hook?_call_of_not_member i (h.member scope _ rfl) _
  | _ => rfl

/-- Only hooks that are allowed are called. -/
def Form.calls (allowed : Hook → Prop) : Form ι where
  expr e := ∀ hook, e.hook? = some hook → allowed hook

/-- The program calls no hook. -/
def Program.HookFree (p : Program ι) : Prop :=
  (Form.calls fun _ => False).HoldsStmts p.statements

namespace Form

variable {allowed : Hook → Prop}

/-- An expression that calls no hook is fine. -/
theorem calls_of_hook?_eq_none {e : Expr ι} (h : e.hook? = none) : (calls allowed).expr e := by
  intro hook hhook
  rw [h] at hhook
  cases hhook

/-- A call of an allowed hook is fine if its inputs are. -/
theorem holdsExpr_allowed {hook : Hook} (h : allowed hook) (i : ι) {inputs : List (Expr ι)}
    (hinputs : (calls allowed).HoldsExprs inputs) :
    (calls allowed).HoldsExpr (hook.call i inputs) := by
  refine holdsExpr_hook_call (fun other hother => ?_) (calls_of_hook?_eq_none rfl) hinputs
  rw [Hook.hook?_call, Option.some.injEq] at hother
  rwa [← hother]

end Form

/-- A mapper establishes that only allowed hooks are called if its rules do. -/
theorem Mapper.KeepsCallees.establishes {M : Mapper σ ι} (h : M.KeepsCallees)
    {allowed : Hook → Prop}
    (hheads : ∀ params b, (Form.calls allowed).HoldsStmts (M.heads params b))
    (hstmt : ∀ scope s, (Form.calls allowed).BelowStmt s →
      (Form.calls allowed).BelowStmt (M.onStmt scope s))
    (hexpr : ∀ scope e, (Form.calls allowed).HoldsExpr (M.rebuild scope e) →
      (Form.calls allowed).HoldsExpr (M.expr scope e)) :
    M.Establishes (.calls allowed) (.calls allowed) where
  heads := hheads
  stmt scope s _ hbelow := by
    rw [Mapper.stmt_eq]
    exact ⟨trivial, hstmt scope _ hbelow⟩
  expr scope e he hbelow := by
    refine hexpr scope e ⟨fun hook hhook => he hook ?_, hbelow⟩
    rwa [← h.hook?_rebuild scope e]

/-! ## The hooks of each stage -/

/-- The hooks whose calls a stage makes. -/
def Stage.emits : Stage → List Hook
  | declarators => [.importPackage]
  | classes => [.createClass, .createMethod]
  | memberAccess => [.propertyGet, .propertySet]
  | globals => [.globalGet, .globalSet, .globalDefine]
  | boxing => [.createBox, .createUndefinedBox]
  | closures => [.createClosure]
  | functionCalls => [.callFunction]

section

variable {allowed : Hook → Prop}

/-- The stage of declarators leaves expressions alone, so callees too. -/
theorem Declaration.mapper_keepsCallees : (mapper : Mapper Unit ι).KeepsCallees :=
  .of_calls fun _ _ => Or.inl rfl

/-- The stage of declarators adds no calls but those of the hooks that it is listed with. -/
theorem Declaration.establishes_calls (h : ∀ hook ∈ Stage.declarators.emits, allowed hook) :
    (mapper : Mapper Unit ι).Establishes (.calls allowed) (.calls allowed) := by
  refine mapper_keepsCallees.establishes (fun _ _ => trivial) (fun _ s hbelow => ?_)
    (fun _ _ hholds => hholds)
  show (Form.calls allowed).BelowStmt (declaration s)
  cases s with
  | importPackage i n path =>
      exact Form.holdsExpr_allowed (h _ List.mem_cons_self) i
        ⟨⟨Form.calls_of_hook?_eq_none rfl, trivial⟩, trivial⟩
  | expr e =>
      cases e with
      | functionLit i n params body =>
          cases n with
          | none => exact hbelow
          | some n => exact ⟨Form.calls_of_hook?_eq_none rfl, hbelow.2⟩
      | classLit i n ms =>
          cases n with
          | none => exact hbelow
          | some n => exact ⟨Form.calls_of_hook?_eq_none rfl, hbelow.2⟩
      | _ => exact hbelow
  | _ => exact hbelow

/-- The stage of classes turns class literals into calls, and no other expression into anything
else. -/
theorem Constructor.mapper_keepsCallees : (mapper : Mapper Unit ι).KeepsCallees := by
  refine .of_calls fun _ e => ?_
  cases e with
  | classLit => exact Or.inr ⟨rfl, _, _, _, rfl⟩
  | _ => exact Or.inl rfl

/-- Assignments of methods call hooks of the stage only. -/
theorem Constructor.calls_assignMethods (h : allowed .createMethod) (i : ι) :
    (ms : List (Method ι)) → (Form.calls allowed).HoldsMethods ms →
      (Form.calls allowed).HoldsStmts (ms.map (assignMethod i))
  | [], _ => trivial
  | .mk j n params body :: ms, hms => by
      rw [Form.HoldsMethods, Form.HoldsMethod] at hms
      have hfunction : (Form.calls allowed).HoldsExprs [methodFunction (.mk j n params body)] :=
        ⟨⟨Form.calls_of_hook?_eq_none rfl, hms.1⟩, trivial⟩
      exact ⟨⟨trivial, ⟨Form.calls_of_hook?_eq_none rfl, trivial⟩,
        Form.holdsExpr_allowed h j hfunction⟩, calls_assignMethods h i ms hms.2⟩

/-- The stage of classes adds no calls but those of the hooks that it is listed with. -/
theorem Constructor.establishes_calls (h : ∀ hook ∈ Stage.classes.emits, allowed hook) :
    (mapper : Mapper Unit ι).Establishes (.calls allowed) (.calls allowed) := by
  refine mapper_keepsCallees.establishes (fun _ _ => trivial) (fun _ _ hbelow => hbelow)
    (fun scope e hholds => ?_)
  show (Form.calls allowed).HoldsExpr (construction (mapper.rebuild scope e))
  cases e with
  | classLit i n ms =>
      have hreturn : (Form.calls allowed).HoldsStmts [.ret i (.variable i constructedName)] :=
        ⟨⟨trivial, Form.calls_of_hook?_eq_none rfl, trivial⟩, trivial⟩
      have hmethods := calls_assignMethods (h .createMethod (by decide)) i _ hholds.2
      have hcreate : (Form.calls allowed).HoldsExpr (Hook.createClass.call i []) :=
        Form.holdsExpr_allowed (h _ List.mem_cons_self) i trivial
      exact ⟨Form.calls_of_hook?_eq_none rfl, Or.inr (Form.calls_of_hook?_eq_none rfl),
        ⟨⟨trivial, hcreate⟩, hmethods.append hreturn⟩, trivial⟩
  | _ => exact hholds

/-- The stage of member access turns member accesses into calls, and no other expression into
anything else. -/
theorem Property.mapper_keepsCallees : (mapper : Mapper Unit ι).KeepsCallees := by
  refine .of_calls fun _ e => ?_
  cases e with
  | member => exact Or.inr ⟨rfl, _, _, _, rfl⟩
  | _ => exact Or.inl rfl

/-- The stage of member access adds no calls but those of the hooks that it is listed with. -/
theorem Property.establishes_calls (h : ∀ hook ∈ Stage.memberAccess.emits, allowed hook) :
    (mapper : Mapper Unit ι).Establishes (.calls allowed) (.calls allowed) := by
  refine mapper_keepsCallees.establishes (fun _ _ => trivial) (fun _ s hbelow => ?_)
    (fun scope e hholds => ?_)
  · show (Form.calls allowed).BelowStmt (assignment s)
    cases s with
    | assignMember i object n value =>
        exact Form.holdsExpr_allowed (h .propertySet (by decide)) i
          ⟨hbelow.1, ⟨Form.calls_of_hook?_eq_none rfl, trivial⟩, hbelow.2, trivial⟩
    | _ => exact hbelow
  · show (Form.calls allowed).HoldsExpr (access (mapper.rebuild scope e))
    cases e with
    | member i object n =>
        exact Form.holdsExpr_allowed (h .propertyGet (by decide)) i
          ⟨hholds.2, ⟨Form.calls_of_hook?_eq_none rfl, trivial⟩, trivial⟩
    | _ => exact hholds

/-- The stage of global names turns variables into calls, and no other expression into anything
else. -/
theorem GlobalName.mapper_keepsCallees : (mapper : Mapper (List String) ι).KeepsCallees := by
  refine .of_calls fun scope e => ?_
  cases e with
  | «variable» i n =>
      rw [mapper_expr, Mapper.rebuild, read]
      split
      · exact Or.inl rfl
      · exact Or.inr ⟨rfl, _, _, _, rfl⟩
  | _ => exact Or.inl rfl

/-- The stage of global names adds no calls but those of the hooks that it is listed with. -/
theorem GlobalName.establishes_calls (h : ∀ hook ∈ Stage.globals.emits, allowed hook) :
    (mapper : Mapper (List String) ι).Establishes (.calls allowed) (.calls allowed) := by
  refine mapper_keepsCallees.establishes (fun _ _ => trivial) (fun scope s hbelow => ?_)
    (fun scope e hholds => ?_)
  · rw [mapper_onStmt]
    cases s with
    | declare i n value =>
        rw [access]
        split
        · exact hbelow
        · exact Form.holdsExpr_allowed (h .globalDefine (by decide)) i
            ⟨⟨Form.calls_of_hook?_eq_none rfl, trivial⟩, hbelow, trivial⟩
    | assign i n value =>
        rw [access]
        split
        · exact hbelow
        · exact Form.holdsExpr_allowed (h .globalSet (by decide)) i
            ⟨⟨Form.calls_of_hook?_eq_none rfl, trivial⟩, hbelow, trivial⟩
    | _ => exact hbelow
  · rw [mapper_expr]
    cases e with
    | «variable» i n =>
        rw [Mapper.rebuild, read]
        split
        · exact hholds
        · exact Form.holdsExpr_allowed (h .globalGet (by decide)) i
            ⟨⟨Form.calls_of_hook?_eq_none rfl, trivial⟩, trivial⟩
    | _ => exact hholds

/-- Boxing turns variables into calls, and no other expression into anything else. -/
theorem BoxedName.mapper_keepsCallees :
    (mapper : Mapper (List (String × Bool)) ι).KeepsCallees := by
  refine .of_calls fun scope e => ?_
  cases e with
  | «variable» i n =>
      rw [mapper_expr, Mapper.rebuild, read]
      split
      · exact Or.inr ⟨rfl, _, _, _, rfl⟩
      · exact Or.inl rfl
  | _ => exact Or.inl rfl

/-- Boxing adds no calls but those of the hooks that it is listed with. -/
theorem BoxedName.establishes_calls (h : ∀ hook ∈ Stage.boxing.emits, allowed hook) :
    (mapper : Mapper (List (String × Bool)) ι).Establishes (.calls allowed) (.calls allowed) := by
  have hvariable (i : ι) (n : String) : (Form.calls allowed).HoldsExpr (.variable i n) :=
    ⟨Form.calls_of_hook?_eq_none rfl, trivial⟩
  refine mapper_keepsCallees.establishes (fun params b => ?_) (fun scope s hbelow => ?_)
    (fun scope e hholds => ?_)
  · rw [Form.holdsStmts_iff]
    intro s hs
    obtain ⟨i, n, _, ⟨_, rfl⟩ | ⟨_, _, rfl⟩⟩ := mem_heads hs
    · exact ⟨trivial, Form.holdsExpr_allowed (h .createBox (by decide)) i ⟨hvariable i n, trivial⟩⟩
    · exact ⟨trivial, Form.holdsExpr_allowed (h .createUndefinedBox (by decide)) i
        ⟨⟨Form.calls_of_hook?_eq_none rfl, trivial⟩, trivial⟩⟩
  · rw [mapper_onStmt]
    cases s with
    | declare i n value | assign i n value =>
        rw [access]
        split
        · exact Form.holdsExpr_box_call (Form.calls_of_hook?_eq_none rfl) (hvariable i n).1
            ⟨hbelow, trivial⟩
        · exact hbelow
    | _ => exact hbelow
  · rw [mapper_expr]
    cases e with
    | «variable» i n =>
        rw [Mapper.rebuild, read]
        split
        · exact Form.holdsExpr_box_call (Form.calls_of_hook?_eq_none rfl) (hvariable i n).1 trivial
        · exact hholds
    | _ => exact hholds

/-- Closure conversion turns function literals into calls, and no other expression into anything
else. -/
theorem Closure.mapper_keepsCallees : (mapper : Mapper (List String) ι).KeepsCallees := by
  refine .of_calls fun available e => ?_
  cases e with
  | functionLit i n params b =>
      rw [expr_functionLit, bundle]
      split
      · exact Or.inl rfl
      · exact Or.inr ⟨rfl, _, _, _, rfl⟩
  | _ => exact Or.inl rfl

/-- Closure conversion adds no calls but those of the hooks that it is listed with. -/
theorem Closure.establishes_calls (h : ∀ hook ∈ Stage.closures.emits, allowed hook) :
    (mapper : Mapper (List String) ι).Establishes (.calls allowed) (.calls allowed) := by
  refine mapper_keepsCallees.establishes (fun _ _ => trivial) (fun _ _ hbelow => hbelow)
    (fun available e hholds => ?_)
  cases e with
  | functionLit i n params b =>
      rw [expr_functionLit, bundle]
      split
      · exact hholds
      · have hreads : (Form.calls allowed).HoldsExprs
            ((captures available params b).map (Expr.variable i ·)) := by
          rw [Form.holdsExprs_iff]
          intro e he
          obtain ⟨m, _, rfl⟩ := List.mem_map.mp he
          exact ⟨Form.calls_of_hook?_eq_none rfl, trivial⟩
        exact Form.holdsExpr_allowed (h .createClosure (by decide)) i
          ⟨⟨Form.calls_of_hook?_eq_none rfl, hholds.2⟩, hreads⟩
  | _ => exact hholds

/-- The stage of function calls turns calls of values into calls of a method, and no other
expression into anything else. -/
theorem Application.mapper_keepsCallees : (mapper : Mapper Unit ι).KeepsCallees := by
  refine .of_calls fun _ e => ?_
  cases e with
  | call i callee inputs =>
      rw [mapper_expr, mapper_keepsMembers.rebuild_call, application]
      split
      · exact Or.inl rfl
      · exact Or.inr ⟨rfl, _, _, _, rfl⟩
  | _ => exact Or.inl rfl

/-- The stage of function calls adds no calls but those of the hooks that it is listed with. -/
theorem Application.establishes_calls (h : ∀ hook ∈ Stage.functionCalls.emits, allowed hook) :
    (mapper : Mapper Unit ι).Establishes (.calls allowed) (.calls allowed) := by
  refine mapper_keepsCallees.establishes (fun _ _ => trivial) (fun _ _ hbelow => hbelow)
    (fun _ e hholds => ?_)
  rw [mapper_expr]
  cases e with
  | call i callee inputs =>
      rw [mapper_keepsMembers.rebuild_call] at hholds ⊢
      rw [application]
      split
      · exact hholds
      · rename_i hmember
        obtain ⟨hcallee, hbelow, hinputs⟩ := hholds.2
        exact Form.holdsExpr_allowed (h _ List.mem_cons_self) i
          ⟨⟨hcallee.resolve_left hmember, hbelow⟩, hinputs⟩
  | _ => exact hholds

/-- A stage adds calls of its own hooks only. -/
theorem Stage.calls_run (stage : Stage) (h : ∀ hook ∈ stage.emits, allowed hook) {p : Program ι}
    (hp : (Form.calls allowed).HoldsStmts p.statements) :
    (Form.calls allowed).HoldsStmts (stage.run p).statements := by
  cases stage with
  | declarators => exact (Declaration.establishes_calls h).block () _ hp
  | classes => exact (Constructor.establishes_calls h).block () _ hp
  | memberAccess => exact (Property.establishes_calls h).block () _ hp
  | globals => exact (GlobalName.establishes_calls h).stmts [] _ hp
  | boxing => exact (BoxedName.establishes_calls h).block [] _ hp
  | closures => exact (Closure.establishes_calls h).block [] _ hp
  | functionCalls => exact (Application.establishes_calls h).block () _ hp

/-- A run of stages adds calls of their hooks only. -/
theorem Program.calls_runStages {stages : List Stage}
    (h : ∀ stage ∈ stages, ∀ hook ∈ stage.emits, allowed hook) {p : Program ι}
    (hp : (Form.calls allowed).HoldsStmts p.statements) :
    (Form.calls allowed).HoldsStmts (p.runStages stages).statements := by
  induction stages generalizing p with
  | nil => exact hp
  | cons stage rest ih =>
      have hstage := stage.calls_run (h stage List.mem_cons_self) hp
      exact ih (fun t ht => h t (List.mem_cons_of_mem _ ht)) hstage

/-- A program that calls no hooks itself calls, once lowered, only hooks of the stages that have
run. -/
theorem Program.HookFree.calls_lowerUpTo {p : Program ι} (hp : p.HookFree) {last : Stage}
    (h : ∀ stage ∈ last.upTo, ∀ hook ∈ stage.emits, allowed hook) :
    (Form.calls allowed).HoldsStmts (p.lowerUpTo last).statements := by
  refine calls_runStages h (hp.mono (fun _ hs => hs) fun e he hook hhook => ?_)
  exact (he hook hhook).elim

end

end Lowering

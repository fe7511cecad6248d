import Lowering.Proofs.Accesses

/-!
# Events of a block

What the code of a block does to names, put together from the events of its parts: a nested block or
function hands on the events of its own code without those of the names that it binds, and a
function marks what it hands on as being inside of it. `Block.accesses_eq_nameEvents` shows that the
accesses that a traversal collects, which carries the names bound again on its way down, are these
events. `Access.needsBox_iff` gives the rule for boxes by the positions of events.
-/

namespace Lowering

variable {ι : Type}

/-- The events of a nested block that binds some names, seen from around it. -/
def Access.unbound (bound : List String) (events : List Access) : List Access :=
  events.filter fun a => a.name ∉ bound

mutual

/-- The events of an expression, in the order of its evaluation. -/
def Expr.nameEvents : Expr ι → List Access
  | .unit _ | .name _ _ | .text _ _ | .number _ _ => []
  | .variable _ n => [.read n false]
  | .member _ object _ => Expr.nameEvents object
  | .call _ callee inputs => Expr.nameEvents callee ++ Expr.nameEventsAll inputs
  | .functionLit _ _ params body =>
      (Access.unbound (Param.names params)
        (Access.unbound (Block.declared body) (Stmt.nameEventsAll body))).map Access.moveInside
  | .classLit _ _ methods => Method.nameEventsAll methods

/-- The events of a list of expressions. -/
def Expr.nameEventsAll : List (Expr ι) → List Access
  | [] => []
  | e :: es => Expr.nameEvents e ++ Expr.nameEventsAll es

/-- The events of a statement. A variable is written or declared after its value is known. -/
def Stmt.nameEvents : Stmt ι → List Access
  | .importPackage _ _ _ => []
  | .declare _ n value => Expr.nameEvents value ++ [.declare n]
  | .assign _ n value => Expr.nameEvents value ++ [.write n false]
  | .assignMember _ object _ value => Expr.nameEvents object ++ Expr.nameEvents value
  | .ret _ value => Expr.nameEvents value
  | .branch _ condition thenBlock elseBlock =>
      Expr.nameEvents condition ++
        Access.unbound (Block.declared thenBlock) (Stmt.nameEventsAll thenBlock) ++
        Access.unbound (Block.declared elseBlock) (Stmt.nameEventsAll elseBlock)
  | .expr e => Expr.nameEvents e

/-- The events of a list of statements. -/
def Stmt.nameEventsAll : List (Stmt ι) → List Access
  | [] => []
  | s :: ss => Stmt.nameEvents s ++ Stmt.nameEventsAll ss

/-- The events of a method, whose body is a block like a branch. -/
def Method.nameEvents : Method ι → List Access
  | .mk _ _ _ body => Access.unbound (Block.declared body) (Stmt.nameEventsAll body)

/-- The events of a list of methods. -/
def Method.nameEventsAll : List (Method ι) → List Access
  | [] => []
  | m :: ms => Method.nameEvents m ++ Method.nameEventsAll ms

end

/-- The events of a block. -/
def Block.nameEvents (b : Block ι) : List Access :=
  Stmt.nameEventsAll b

/-! ## Events and accesses -/

namespace Viewpoint

/-- Events as they look from a place around the node. -/
def events (v : Viewpoint) (events : List Access) : List Access :=
  (Access.unbound v.rebound events).map v.mark

variable (v : Viewpoint)

/-- Where there are no events, none is seen. -/
@[simp] theorem events_nil : v.events [] = [] := rfl

/-- The events of two pieces of code in a row are seen one after the other. -/
@[simp] theorem events_append (first second : List Access) :
    v.events (first ++ second) = v.events first ++ v.events second := by
  rw [events, Access.unbound, List.filter_append, List.map_append]
  rfl

/-- Names bound by a nested block are bound again on the way to a place around it. -/
theorem events_unbound (bound : List String) (events : List Access) :
    v.events (Access.unbound bound events) =
      Viewpoint.events ⟨bound ++ v.rebound, v.inside⟩ events := by
  have hmark : Viewpoint.mark ⟨bound ++ v.rebound, v.inside⟩ = v.mark := rfl
  simp only [Viewpoint.events, hmark, Access.unbound, List.filter_filter, List.mem_append, not_or,
    Bool.decide_and, Bool.and_comm]

/-- An access that is inside already looks the same from everywhere. -/
theorem mark_moveInside (a : Access) : v.mark a.moveInside = a.moveInside := by
  rw [mark]
  split
  · exact a.moveInside_moveInside
  · rfl

/-- What a function marks as inside is inside for every place around it. -/
theorem events_moveInside (events : List Access) :
    v.events (events.map Access.moveInside) = Viewpoint.events ⟨v.rebound, true⟩ events := by
  have hmark : Viewpoint.mark ⟨v.rebound, true⟩ = Access.moveInside := rfl
  simp only [Viewpoint.events, hmark, Access.unbound, List.filter_map, List.map_map,
    Function.comp_def, Access.name_moveInside, mark_moveInside]

/-- Seen from the block itself, its events are what they are. -/
theorem events_here (events : List Access) : here.events events = events := by
  have hmark : here.mark = id := rfl
  simp [Viewpoint.events, hmark, Access.unbound]

end Viewpoint

namespace Access

mutual

/-- The accesses of an expression are its events, seen from the place that is carried along. -/
theorem collector_expr_eq (v : Viewpoint) : (e : Expr ι) →
    collector.expr v e = v.events e.nameEvents
  | .unit _ | .name _ _ | .text _ _ | .number _ _ => by simp [Collector.expr, Expr.nameEvents]
  | .variable _ n => by
      by_cases h : n ∈ v.rebound <;>
        simp [Collector.expr, Expr.nameEvents, Viewpoint.events, unbound, Access.name, h]
  | .member _ object _ => by simp [Collector.expr, Expr.nameEvents, collector_expr_eq v object]
  | .call _ callee inputs => by
      simp [Collector.expr, Expr.nameEvents, collector_expr_eq v callee,
        collector_exprs_eq v inputs]
  | .functionLit _ _ params body => by
      rw [Expr.nameEvents, Viewpoint.events_moveInside, Viewpoint.events_unbound,
        Viewpoint.events_unbound, ← collector_stmts_eq _ body]
      simp [Collector.expr]
  | .classLit _ _ ms => by simp [Collector.expr, Expr.nameEvents, collector_methods_eq v ms]

/-- The same for a list of expressions. -/
theorem collector_exprs_eq (v : Viewpoint) : (es : List (Expr ι)) →
    collector.exprs v es = v.events (Expr.nameEventsAll es)
  | [] => by simp [Collector.exprs, Expr.nameEventsAll]
  | e :: es => by
      simp [Collector.exprs, Expr.nameEventsAll, collector_expr_eq v e, collector_exprs_eq v es]

/-- The same for a statement. -/
theorem collector_stmt_eq (v : Viewpoint) : (s : Stmt ι) →
    collector.stmt v s = v.events s.nameEvents
  | .importPackage _ _ _ => by simp [Collector.stmt, Stmt.nameEvents]
  | .declare _ n value => by
      by_cases h : n ∈ v.rebound <;>
        simp [Collector.stmt, Stmt.nameEvents, collector_expr_eq v value, Viewpoint.events, unbound,
          Access.name, h]
  | .assign _ n value => by
      by_cases h : n ∈ v.rebound <;>
        simp [Collector.stmt, Stmt.nameEvents, collector_expr_eq v value, Viewpoint.events, unbound,
          Access.name, h]
  | .assignMember _ object _ value => by
      simp [Collector.stmt, Stmt.nameEvents, collector_expr_eq v object, collector_expr_eq v value]
  | .ret _ value | .expr value => by
      simp [Collector.stmt, Stmt.nameEvents, collector_expr_eq v value]
  | .branch _ condition thenBlock elseBlock => by
      rw [Stmt.nameEvents, Viewpoint.events_append, Viewpoint.events_append,
        Viewpoint.events_unbound, Viewpoint.events_unbound, ← collector_stmts_eq _ thenBlock,
        ← collector_stmts_eq _ elseBlock, ← collector_expr_eq v condition]
      simp [Collector.stmt]

/-- The same for a list of statements in its own scope. -/
theorem collector_stmts_eq (v : Viewpoint) : (ss : List (Stmt ι)) →
    collector.stmts v ss = v.events (Stmt.nameEventsAll ss)
  | [] => by simp [Collector.stmts, Stmt.nameEventsAll]
  | s :: ss => by
      simp [Collector.stmts, Stmt.nameEventsAll, collector_stmt_eq v s, collector_stmts_eq v ss]

/-- The same for a method. -/
theorem collector_method_eq (v : Viewpoint) : (m : Method ι) →
    collector.method v m = v.events m.nameEvents
  | .mk _ _ _ body => by
      rw [Method.nameEvents, Viewpoint.events_unbound, ← collector_stmts_eq _ body]
      simp [Collector.method]

/-- The same for a list of methods. -/
theorem collector_methods_eq (v : Viewpoint) : (ms : List (Method ι)) →
    collector.methods v ms = v.events (Method.nameEventsAll ms)
  | [] => by simp [Collector.methods, Method.nameEventsAll]
  | m :: ms => by
      simp [Collector.methods, Method.nameEventsAll, collector_method_eq v m,
        collector_methods_eq v ms]

end

end Access

/-- The accesses of a block are its events. -/
theorem Block.accesses_eq_nameEvents (b : Block ι) : b.accesses = b.nameEvents :=
  (Access.collector_stmts_eq .here b).trans (Viewpoint.events_here _)

/-! ## Positions -/

/-- Why a block has to keep a name in a box. -/
inductive BoxReason (n : String) (events : List Access) : Prop
  /-- The name is declared after it has been read. -/
  | declaredAfterRead {i j : Nat} {inside : Bool} (hij : i < j)
      (hread : events[i]? = some (.read n inside)) (hdeclare : events[j]? = some (.declare n))
  /-- A nested function assigns to the name. -/
  | assignedInside (hwrite : .write n true ∈ events)
  /-- The name is assigned after a nested function has read it. -/
  | assignedAfterCapture {i j : Nat} {inside : Bool} (hij : i < j)
      (hread : events[i]? = some (.read n true))
      (hwrite : events[j]? = some (.write n inside))

namespace Access

/-- One event comes before another if it stands at an earlier position. -/
theorem comesBefore_iff_getElem? {first second : Access → Bool} {events : List Access} :
    comesBefore first second events = true ↔
      ∃ (i j : Nat) (a b : Access), i < j ∧ events[i]? = some a ∧ events[j]? = some b ∧
        first a = true ∧ second b = true := by
  rw [comesBefore_iff]
  constructor
  · rintro ⟨before, a, after, rfl, hfirst, hafter⟩
    obtain ⟨b, hb, hsecond⟩ := List.any_eq_true.mp hafter
    obtain ⟨k, hk⟩ := List.mem_iff_getElem?.mp hb
    refine ⟨before.length, before.length + (k + 1), a, b, by omega, by simp, ?_, hfirst, hsecond⟩
    rw [List.getElem?_append_right (by omega), Nat.add_sub_cancel_left, List.getElem?_cons_succ]
    exact hk
  · rintro ⟨i, j, a, b, hij, ha, hb, hfirst, hsecond⟩
    obtain ⟨hi, rfl⟩ := List.getElem?_eq_some_iff.mp ha
    refine ⟨events.take i, events[i], events.drop (i + 1), ?_, hfirst, ?_⟩
    · rw [← List.drop_eq_getElem_cons hi, List.take_append_drop]
    · refine List.any_eq_true.mpr ⟨b, List.mem_iff_getElem?.mpr ⟨j - (i + 1), ?_⟩, hsecond⟩
      rw [List.getElem?_drop, Nat.add_sub_cancel' hij]
      exact hb

/-- The accesses that read a name. -/
theorem reads_iff {n : String} {a : Access} : a.reads n = true ↔ ∃ inside, a = .read n inside := by
  cases a <;> simp [reads]

/-- The access that reads a name in a nested function. -/
theorem readsInside_iff {n : String} {a : Access} : a.readsInside n = true ↔ a = .read n true := by
  cases a <;> simp [readsInside]

/-- The accesses that assign to a name. -/
theorem writes_iff {n : String} {a : Access} :
    a.writes n = true ↔ ∃ inside, a = .write n inside := by
  cases a <;> simp [writes]

/-- The access that assigns to a name in a nested function. -/
theorem writesInside_iff {n : String} {a : Access} :
    a.writesInside n = true ↔ a = .write n true := by
  cases a <;> simp [writesInside]

/-- The access that declares a name. -/
theorem declares_iff {n : String} {a : Access} : a.declares n = true ↔ a = .declare n := by
  cases a <;> simp [declares]

/-- A name needs a box exactly if there is a reason for it among the events. -/
theorem needsBox_iff {n : String} {events : List Access} :
    needsBox n events = true ↔ BoxReason n events := by
  rw [needsBox, Bool.or_eq_true, Bool.or_eq_true, comesBefore_iff_getElem?,
    comesBefore_iff_getElem?, List.any_eq_true]
  simp only [reads_iff, readsInside_iff, writes_iff, writesInside_iff, declares_iff]
  constructor
  · rintro ((⟨i, j, _, _, hij, hi, hj, ⟨inside, rfl⟩, rfl⟩ | ⟨_, hwrite, rfl⟩) |
      ⟨i, j, _, _, hij, hi, hj, rfl, ⟨inside, rfl⟩⟩)
    · exact .declaredAfterRead hij hi hj
    · exact .assignedInside hwrite
    · exact .assignedAfterCapture hij hi hj
  · rintro (⟨hij, hi, hj⟩ | hwrite | ⟨hij, hi, hj⟩)
    · exact .inl (.inl ⟨_, _, _, _, hij, hi, hj, ⟨_, rfl⟩, rfl⟩)
    · exact .inl (.inr ⟨_, hwrite, rfl⟩)
    · exact .inr ⟨_, _, _, _, hij, hi, hj, rfl, ⟨_, rfl⟩⟩

end Access

end Lowering

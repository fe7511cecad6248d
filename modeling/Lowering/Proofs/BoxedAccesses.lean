import Lowering.Proofs.AccessedNames
import Lowering.Proofs.BoxedScope

/-!
# Accesses after boxing

How boxed code accesses the names around it. The heads of a block access only what the block boxes
(`BoxedName.mem_accesses_heads`). Below them, a name that is not boxed is accessed as before
(`ofName_boxed_stmts`), and a boxed name is only read (`boxed_not_set_stmts`). So in a boxed block
no name that it binds needs a box any more (`BoxedName.needsBox_body`).
-/

namespace Lowering

variable {ι : Type}

/-! ## Single nodes -/

namespace Access

variable {n : String}

/-- A call of a hook accesses what its inputs access. -/
@[simp] theorem collector_hook_call (v : Viewpoint) (hook : Hook) (i : ι)
    (inputs : List (Expr ι)) :
    collector.expr v (hook.call i inputs) = collector.exprs v inputs := by
  simp [Hook.call, Expr.callMethod, Collector.expr]

/-- A call of a box method reads the variable that holds the box. -/
@[simp] theorem collector_box_call (v : Viewpoint) (op : BoxOp) (i : ι) (m : String)
    (inputs : List (Expr ι)) :
    collector.expr v (op.call i m inputs) =
      (if m ∈ v.rebound then [] else [.read m v.inside]) ++ collector.exprs v inputs := by
  simp [BoxOp.call, Expr.callMethod, Collector.expr]

/-- A statement that calls a box method with a value reads the variable that holds the box. -/
theorem collector_box_stmt (v : Viewpoint) (op : BoxOp) (i : ι) (m : String) (value : Expr ι) :
    collector.stmt v (.expr (op.call i m [value])) =
      (if m ∈ v.rebound then [] else [.read m v.inside]) ++ collector.expr v value := by
  simp [Collector.stmt, Collector.exprs]

/-- A read through a box sets nothing. -/
theorem not_sets_read (m : String) (v : Viewpoint) :
    (if m ∈ v.rebound then [] else [Access.read m v.inside]).any (sets n) = false := by
  split <;> rfl

/-- A single access is no access to another name, or to one that is bound again. -/
theorem ofName_unbound {m : String} {rebound : List String} {a : Access} (ha : a.name = m)
    (h : m = n → m ∈ rebound) : ofName n (if m ∈ rebound then [] else [a]) = [] := by
  split
  · rfl
  · rename_i hm
    have hne : a.name ≠ n := fun hn => hm (h (ha.symm.trans hn))
    exact ofName_cons_of_ne hne []

section Unbound

variable {m : String} {v : Viewpoint} (h : m = n → m ∈ v.rebound) (i : ι) (value : Expr ι)
include h

/-- A statement that calls a method of another box accesses a name in its value only. -/
theorem ofName_box_stmt (op : BoxOp) :
    ofName n (collector.stmt v (.expr (op.call i m [value]))) =
      ofName n (collector.expr v value) := by
  rw [collector_box_stmt, ofName_append, ofName_unbound (m := m) (a := .read m v.inside) rfl h,
    List.nil_append]

/-- A declaration of another name accesses a name in its value only. -/
theorem ofName_declare_stmt :
    ofName n (collector.stmt v (.declare i m value)) = ofName n (collector.expr v value) := by
  have hstmt : collector.stmt v (.declare i m value) =
      collector.expr v value ++ if m ∈ v.rebound then [] else [.declare m] := by
    simp [Collector.stmt]
  rw [hstmt, ofName_append, ofName_unbound (m := m) (a := .declare m) rfl h, List.append_nil]

/-- An assignment to another name accesses a name in its value only. -/
theorem ofName_assign_stmt :
    ofName n (collector.stmt v (.assign i m value)) = ofName n (collector.expr v value) := by
  have hstmt : collector.stmt v (.assign i m value) =
      collector.expr v value ++ if m ∈ v.rebound then [] else [.write m v.inside] := by
    simp [Collector.stmt]
  rw [hstmt, ofName_append, ofName_unbound (m := m) (a := .write m v.inside) rfl h, List.append_nil]

end Unbound

end Access

namespace BoxedName

variable {n : String}

/-- A head of a block reads and sets the name it boxes, outside all functions. -/
theorem mem_accesses_heads {params : List (Param ι)} {b : Block ι} {a : Access}
    (h : a ∈ Access.collector.stmts .here (heads params b)) :
    ∃ m ∈ boxedNames params b, a = .read m false ∨ a = .write m false ∨ a = .declare m := by
  rw [Collector.stmts_eq_flatMap, List.mem_flatMap] at h
  obtain ⟨s, hs, ha⟩ := h
  obtain ⟨i, m, hm, ⟨_, rfl⟩ | ⟨_, _, rfl⟩⟩ := mem_heads hs
  · simp [Collector.stmt, Collector.exprs, Collector.expr] at ha
    exact ⟨m, hm, ha.imp_right Or.inl⟩
  · simp [Collector.stmt, Collector.exprs, Collector.expr] at ha
    exact ⟨m, hm, Or.inr (Or.inr ha)⟩

/-- The heads of a block access only the names that the block boxes. -/
theorem ofName_heads {params : List (Param ι)} {b : Block ι} (h : n ∉ boxedNames params b) :
    Access.ofName n (Access.collector.stmts .here (heads params b)) = [] := by
  rw [Access.ofName, List.filter_eq_nil_iff]
  intro a ha
  obtain ⟨m, hm, hcases⟩ := mem_accesses_heads ha
  have hname : a.name = m := by
    rcases hcases with rfl | rfl | rfl <;> rfl
  rw [hname, decide_eq_true_eq]
  rintro rfl
  exact h hm

/-- No head of a block stands in a function. -/
theorem not_inside_heads (params : List (Param ι)) (b : Block ι) (n : String) :
    (Access.collector.stmts .here (heads params b)).any (Access.usesInside n) = false := by
  rw [List.any_eq_false]
  intro a ha
  obtain ⟨m, _, rfl | rfl | rfl⟩ := mem_accesses_heads ha <;> simp [Access.usesInside]

/-- Seen from around a block, its heads access nothing: the block binds all names that they do. -/
theorem accesses_heads {params : List (Param ι)} {b : Block ι} {v : Viewpoint}
    (h : ∀ m, m ∈ b.declared ∨ m ∈ Param.names params → m ∈ v.rebound) :
    Access.collector.stmts v (heads params b) = [] := by
  rw [Collector.stmts_eq_flatMap, List.flatMap_eq_nil_iff]
  intro s hs
  obtain ⟨i, m, hm, hcases⟩ := mem_heads hs
  have hbound : m ∈ v.rebound := h m (mem_boxedNames.mp hm).1.symm
  rcases hcases with ⟨_, rfl⟩ | ⟨_, _, rfl⟩
  · simp [Collector.stmt, Collector.exprs, Collector.expr, hbound]
  · simp [Collector.stmt, Collector.exprs, Collector.expr, hbound]

/-- Seen from around it, a boxed body accesses what its statements access: the heads add nothing. -/
theorem accesses_body (scope : List (String × Bool)) (params : List (Param ι)) (b : Block ι)
    (rebound : List String) (inside : Bool) :
    Access.collector.stmts
        ⟨Block.declared (mapper.body scope params b) ++ (Param.names params ++ rebound), inside⟩
        (mapper.body scope params b) =
      Access.collector.stmts
        ⟨Block.declared (mapper.body scope params b) ++ (Param.names params ++ rebound), inside⟩
        (mapper.stmts (inner scope params b) b) := by
  conv_lhs => rw [body_eq, Collector.stmts_append]
  rw [← body_eq, accesses_heads (mem_bound_of_binds scope params b rebound), List.nil_append]

/-- So does a boxed function literal, whose statements stand inside. -/
theorem accesses_functionLit (v : Viewpoint) (scope : List (String × Bool)) (i : ι)
    (name : Option String) (params : List (Param ι)) (b : Block ι) :
    Access.collector.expr v (mapper.expr scope (.functionLit i name params b)) =
      Access.collector.stmts
        ⟨Block.declared (mapper.body scope params b) ++ (Param.names params ++ v.rebound), true⟩
        (mapper.stmts (inner scope params b) b) := by
  rw [mapper_expr, Mapper.rebuild_functionLit]
  simp only [read, Collector.expr, Access.collector_onExpr, Access.collector_onBlock,
    Access.collector_ofFunction, Access.collector_ofBlock, List.nil_append, accesses_body]

/-- So does a boxed block. -/
theorem accesses_block (v : Viewpoint) (scope : List (String × Bool)) (b : Block ι) :
    Access.collector.body v [] (mapper.block scope b) =
      Access.collector.stmts ⟨Block.declared (mapper.block scope b) ++ v.rebound, v.inside⟩
        (mapper.stmts (inner scope [] b) b) := by
  simp only [Collector.body, Access.collector_onBlock, Access.collector_ofBlock, List.nil_append]
  exact accesses_body scope [] b v.rebound v.inside

/-- A name that is bound neither in a body nor around it is boxed in the body if it is boxed around
it. -/
theorem isBoxed_of_not_bound (params : List (Param ι)) (b : Block ι) {bound : List String}
    {boxed : Bool} {scope : List (String × Bool)} (hscope : n ∉ bound → isBoxed scope n = boxed)
    (h : n ∉ b.declared ++ (Param.names params ++ bound)) :
    isBoxed (inner scope params b) n = boxed := by
  simp only [List.mem_append, not_or] at h
  exact (isBoxed_outer scope h.2.1 h.1).trans (hscope h.2.2)

/-- If it is known whether a name is boxed unless it is bound again, then a name of which this fails
is another one or is bound again. -/
theorem bound_of_isBoxed_ne {m : String} {bound : List String} {boxed : Bool}
    {scope : List (String × Bool)} (hscope : n ∉ bound → isBoxed scope n = boxed)
    (hm : isBoxed scope m ≠ boxed) : m = n → m ∈ bound := by
  rintro rfl
  exact by_contra fun hbound => hm (hscope hbound)

end BoxedName

/-! ## Whole trees -/

namespace BoxedName

variable (n : String)

/-- Boxing keeps the accesses to a name as long as it is not boxed, or bound again where it is. -/
theorem relates_accesses : (mapper : Mapper (List (String × Bool)) ι).Relates Access.collector
    Access.collector
    (fun v scope v' _ => (∀ m, m ∈ v'.rebound ↔ m ∈ v.rebound) ∧ v'.inside = v.inside ∧
      (n ∉ v.rebound → isBoxed scope n = false))
    (fun before after => Access.ofName n after = Access.ofName n before) where
  nil := rfl
  append hfirst hsecond := by rw [Access.ofName_append, Access.ofName_append, hfirst, hsecond]
  child h _ _ _ := h
  function := by
    rintro v scope v' i name params b ⟨hrebound, -, hboxed⟩ hstmts
    have hbody := hstmts ⟨_, true⟩ fun st hst => ⟨mem_bound_inside scope params b hrebound, rfl,
      isBoxed_of_not_bound params b hboxed⟩
    rw [accesses_functionLit]
    simp only [Collector.expr, Access.collector_onExpr, Access.collector_onBlock,
      Access.collector_ofFunction, Access.collector_ofBlock, List.nil_append]
    exact hbody
  block := by
    rintro v scope v' b ⟨hrebound, hinside, hboxed⟩ hstmts
    have hblock := hstmts ⟨_, v'.inside⟩ fun st hst =>
      ⟨mem_bound_inside_block scope b hrebound, hinside, isBoxed_of_not_bound [] b hboxed⟩
    rw [accesses_block]
    simp only [Collector.body, Access.collector_onBlock, Access.collector_ofBlock, List.nil_append]
    exact hblock
  expr := by
    rintro v scope v' e ⟨hrebound, hinside, hboxed⟩ hkind hbelow
    cases e with
    | «variable» i m =>
        rw [mapper_expr, Mapper.rebuild, read]
        split <;> simp [Collector.expr, Collector.exprs, hrebound, hinside]
    | functionLit => exact absurd rfl hkind
    | _ =>
        rw [Collector.expr_eq_below, Collector.expr_eq_below]
        exact hbelow
  callee _ := rfl
  stmt := by
    rintro v scope v' st ⟨hrebound, hinside, hboxed⟩ hbelow
    cases st with
    | declare i m value =>
        rw [Mapper.rebuildStmt, Collector.below_declare, Collector.below_declare] at hbelow
        rw [Mapper.stmt_declare, mapper_onStmt, access]
        split
        · rename_i hm
          have hbound : m = n → m ∈ v.rebound := bound_of_isBoxed_ne hboxed (by simp [hm])
          have hbound' : m = n → m ∈ v'.rebound := fun h => (hrebound m).mpr (hbound h)
          rw [Access.ofName_box_stmt hbound', Access.ofName_declare_stmt hbound]
          exact hbelow
        · simp [Collector.stmt, hbelow, hrebound]
    | assign i m value =>
        rw [Mapper.rebuildStmt, Collector.below_assign, Collector.below_assign] at hbelow
        rw [Mapper.stmt_assign, mapper_onStmt, access]
        split
        · rename_i hm
          have hbound : m = n → m ∈ v.rebound := bound_of_isBoxed_ne hboxed (by simp [hm])
          have hbound' : m = n → m ∈ v'.rebound := fun h => (hrebound m).mpr (hbound h)
          rw [Access.ofName_box_stmt hbound', Access.ofName_assign_stmt hbound]
          exact hbelow
        · simp [Collector.stmt, hbelow, hrebound, hinside]
    | _ =>
        rw [Collector.stmt_eq_below, Collector.stmt_eq_below]
        show Access.ofName n (_ ++ []) = Access.ofName n (_ ++ [])
        rw [List.append_nil, List.append_nil]
        exact hbelow
  method _ := rfl

/-- After boxing, code does not set a name where it is boxed and not bound again. -/
theorem relates_sets : (mapper : Mapper (List (String × Bool)) ι).Relates .nothing
    Access.collector (fun _ scope v _ => n ∉ v.rebound → isBoxed scope n = true)
    (fun _ accesses => accesses.any (Access.sets n) = false) where
  nil := rfl
  append hfirst hsecond := by rw [List.any_append, hfirst, hsecond, Bool.or_false]
  child h _ _ _ := h
  function := by
    rintro _ scope v i name params b hboxed hstmts
    have hbody := hstmts ⟨_, true⟩ fun st hst hn => isBoxed_of_not_bound params b hboxed
      fun hn' => hn ((mem_bound_inside scope params b (fun _ => Iff.rfl) n).mpr hn')
    rw [accesses_functionLit]
    exact hbody
  block := by
    rintro _ scope v b hboxed hstmts
    have hblock := hstmts ⟨_, v.inside⟩ fun st hst hn => isBoxed_of_not_bound [] b hboxed
      fun hn' => hn ((mem_bound_inside_block scope b (fun _ => Iff.rfl) n).mpr hn')
    rw [accesses_block]
    exact hblock
  expr := by
    rintro _ scope v e hboxed hkind hbelow
    cases e with
    | «variable» i m =>
        rw [mapper_expr, Mapper.rebuild, read]
        split
        · rw [Access.collector_box_call, Collector.exprs, List.append_nil]
          exact Access.not_sets_read m v
        · exact Access.not_sets_read m v
    | functionLit => exact absurd rfl hkind
    | _ =>
        rw [Collector.expr_eq_below]
        exact hbelow
  callee _ := rfl
  stmt := by
    rintro _ scope v st hboxed hbelow
    cases st with
    | declare i m value =>
        rw [Mapper.rebuildStmt, Collector.below_declare] at hbelow
        rw [Mapper.stmt_declare, mapper_onStmt, access]
        split
        · rw [Access.collector_box_stmt, List.any_append, Access.not_sets_read, hbelow,
            Bool.or_false]
        · rename_i hm
          have hbound : m = n → m ∈ v.rebound := bound_of_isBoxed_ne hboxed hm
          rwa [← Access.any_ofName (fun _ => Access.name_of_sets),
            Access.ofName_declare_stmt hbound, Access.any_ofName (fun _ => Access.name_of_sets)]
    | assign i m value =>
        rw [Mapper.rebuildStmt, Collector.below_assign] at hbelow
        rw [Mapper.stmt_assign, mapper_onStmt, access]
        split
        · rw [Access.collector_box_stmt, List.any_append, Access.not_sets_read, hbelow,
            Bool.or_false]
        · rename_i hm
          have hbound : m = n → m ∈ v.rebound := bound_of_isBoxed_ne hboxed hm
          rwa [← Access.any_ofName (fun _ => Access.name_of_sets),
            Access.ofName_assign_stmt hbound, Access.any_ofName (fun _ => Access.name_of_sets)]
    | _ =>
        rw [Collector.stmt_eq_below]
        show (_ ++ []).any (Access.sets n) = false
        rw [List.append_nil]
        exact hbelow
  method _ := rfl

end BoxedName

/-- Boxing keeps the accesses of statements to a name that is not boxed. -/
theorem ofName_boxed_stmts {n : String} (scope : List (String × Bool))
    (h : BoxedName.isBoxed scope n = false) (ss : List (Stmt ι)) :
    Access.ofName n (Access.collector.stmts .here (BoxedName.mapper.stmts scope ss)) =
      Access.ofName n (Access.collector.stmts .here ss) :=
  (BoxedName.relates_accesses n).stmts_of_fits ss fun _ _ => ⟨fun _ => Iff.rfl, rfl, fun _ => h⟩

/-- After boxing, statements set no boxed name. -/
theorem boxed_not_set_stmts {n : String} (scope : List (String × Bool))
    (h : BoxedName.isBoxed scope n = true) (ss : List (Stmt ι)) :
    (Access.collector.stmts .here (BoxedName.mapper.stmts scope ss)).any (Access.sets n) = false :=
  (BoxedName.relates_sets n).stmts_of_fits (s := ()) ss fun _ _ _ => h

/-! ## Whole blocks -/

/-- A name that nested functions do not use needs a box only if it is read before it is declared. -/
theorem Access.needsBox_of_not_inside {n : String} {accesses : List Access}
    (h : accesses.any (usesInside n) = false) :
    needsBox n accesses = comesBefore (reads n) (declares n) accesses := by
  rw [List.any_eq_false] at h
  have hwrites : accesses.any (writesInside n) = false :=
    List.any_eq_false.mpr fun a ha hw => h a ha (by
      cases a <;> simp_all [writesInside, usesInside])
  have hreads : accesses.any (readsInside n) = false :=
    List.any_eq_false.mpr fun a ha hr => h a ha (by
      cases a <;> simp_all [readsInside, usesInside])
  rw [needsBox, hwrites, comesBefore_of_any_first _ hreads, Bool.or_false, Bool.or_false]

/-- Code that does not set a name keeps it without need of a box. -/
theorem Access.needsBox_append {n : String} {first second : List Access}
    (hfirst : needsBox n first = false) (hsecond : second.any (sets n) = false) :
    needsBox n (first ++ second) = false := by
  have hneeds := needsBox_of_not_sets hsecond
  have hkinds : second.any (declares n) = false ∧ second.any (writes n) = false := by
    simp only [List.any_eq_false] at hsecond ⊢
    exact ⟨fun a ha hd => hsecond a ha (by rw [sets_eq, hd, Bool.or_true]),
      fun a ha hw => hsecond a ha (by rw [sets_eq, hw, Bool.true_or])⟩
  simp only [needsBox, comesBefore_append, List.any_append, Bool.or_eq_false_iff] at hfirst hneeds ⊢
  rw [hkinds.1, hkinds.2, Bool.and_false, Bool.and_false]
  exact ⟨⟨⟨⟨hfirst.1.1, rfl⟩, hneeds.1.1⟩, hfirst.1.2, hneeds.1.2⟩, ⟨hfirst.2, rfl⟩, hneeds.2⟩

namespace BoxedName

variable {n : String}

/-- The heads of a block read only parameters. -/
theorem reads_heads {params : List (Param ι)} {b : Block ι}
    (h : (Access.collector.stmts .here (heads params b)).any (Access.reads n) = true) :
    n ∈ Param.names params := by
  obtain ⟨a, ha, hread⟩ := List.any_eq_true.mp h
  rw [Collector.stmts_eq_flatMap, List.mem_flatMap] at ha
  obtain ⟨s, hs, ha⟩ := ha
  obtain ⟨i, m, _, ⟨hm, rfl⟩ | ⟨_, _, rfl⟩⟩ := mem_heads hs
  · have hname : a.name = m := by
      simp [Collector.stmt, Collector.exprs, Collector.expr] at ha
      rcases ha with rfl | rfl <;> rfl
    rwa [← Access.name_of_reads hread, hname]
  · obtain rfl : a = .declare m := by
      simpa [Collector.stmt, Collector.exprs, Collector.expr] using ha
    cases hread

/-- The heads of a block declare no parameters. -/
theorem declares_heads {params : List (Param ι)} {b : Block ι}
    (h : (Access.collector.stmts .here (heads params b)).any (Access.declares n) = true) :
    n ∉ Param.names params :=
  (mem_declared_heads.mp ((Access.declares_stmts n .here _).mp h).1).2

/-- The heads of a block make no further boxes necessary. -/
theorem needsBox_heads (params : List (Param ι)) (b : Block ι) (n : String) :
    Access.needsBox n (Access.collector.stmts .here (heads params b)) = false := by
  rw [Access.needsBox_of_not_inside (not_inside_heads params b n)]
  -- a head that reads belongs to a parameter, and one that declares does not
  by_cases hn : n ∈ Param.names params
  · exact Access.comesBefore_of_any_second _
      (Bool.eq_false_iff.mpr fun hdeclares => declares_heads hdeclares hn)
  · exact Access.comesBefore_of_any_first _
      (Bool.eq_false_iff.mpr fun hread => hn (reads_heads hread))

/-- In a boxed body with its parameters, no name that they bind needs a box any more. -/
theorem needsBox_body (scope : List (String × Bool)) (params : List (Param ι)) (b : Block ι)
    (hn : n ∈ Param.names params ++ Block.declared (mapper.body scope params b)) :
    Access.needsBox n (Block.accesses (mapper.body scope params b)) = false := by
  have hbound : n ∈ Param.names params ∨ n ∈ b.declared := by
    rw [List.mem_append, or_comm, mem_bound_body] at hn
    exact hn.symm
  have hboxed := isBoxed_inner scope hbound
  have haccesses : Block.accesses (mapper.body scope params b) =
      Access.collector.stmts .here (heads params b) ++
        Access.collector.stmts .here (mapper.stmts (inner scope params b) b) :=
    Collector.stmts_append ..
  cases hneeds : Access.needsBox n b.accesses with
  | true =>
      -- below the heads the name is only read
      have hset := boxed_not_set_stmts (inner scope params b) (hboxed.trans hneeds) b
      rw [haccesses]
      exact Access.needsBox_append (needsBox_heads params b n) hset
  | false =>
      -- the heads leave the name alone, and the statements access it as before boxing
      have hheads : n ∉ boxedNames params b := fun h =>
        Bool.false_ne_true (hneeds.symm.trans (mem_boxedNames.mp h).2)
      rw [← Access.needsBox_ofName, haccesses, Access.ofName_append, ofName_heads hheads,
        List.nil_append, ofName_boxed_stmts _ (hboxed.trans hneeds), Access.needsBox_ofName]
      exact hneeds

end BoxedName

end Lowering

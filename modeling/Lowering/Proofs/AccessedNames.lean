import Lowering.Proofs.Accesses
import Lowering.Proofs.FreeNames

/-!
# Which names are accessed

The names that code reads or assigns are its free names (`uses_stmts`), and the names that it
declares, seen from the block itself, are those that the block declares (`declares_stmts`). A
function literal accesses each of its free names from inside (`usesInside_functionLit`).
-/

namespace Lowering.Access

variable {ι : Type}

/-- The access reads `n` or assigns to it. -/
def uses (n : String) : Access → Bool
  | .read m _ | .write m _ => m = n
  | .declare _ => false

/-- The access reads `n` or assigns to it in a nested function. -/
def usesInside (n : String) : Access → Bool
  | .read m inside | .write m inside => m = n && inside
  | .declare _ => false

variable {n : String}

/-- A use of a name is an access to it. -/
theorem name_of_uses {a : Access} (h : a.uses n = true) : a.name = n := by
  cases a <;> simp_all [uses, name]

/-- A use of a name in a nested function is an access to it. -/
theorem name_of_usesInside {a : Access} (h : a.usesInside n = true) : a.name = n := by
  cases a <;> simp_all [usesInside, name]

/-- What sets a name is an access to it. -/
theorem name_of_sets {a : Access} (h : a.sets n = true) : a.name = n := by
  cases a <;> simp_all [sets, name]

/-- A use in a nested function that assigns nothing is a read. -/
theorem readsInside_of_usesInside {a : Access} (huse : a.usesInside n = true)
    (hwrite : a.writesInside n = false) : a.readsInside n = true := by
  cases a <;> simp_all [usesInside, writesInside, readsInside]

/-- A use that is moved into a nested function is a use inside. -/
theorem usesInside_moveInside (a : Access) : a.moveInside.usesInside n = a.uses n := by
  cases a <;> simp [moveInside, uses, usesInside]

/-! ## Uses -/

/-- A single use is one of a name that is not bound again. -/
theorem uses_unbound {m : String} {bound : List String} {a : Access} (h : m = n → m ∈ bound)
    (ha : a.name = m) : ∀ x ∈ (if m ∈ bound then [] else [a]), x.uses n = false := by
  intro x hx
  split at hx
  · cases hx
  · rename_i hm
    obtain rfl := List.mem_singleton.mp hx
    exact Bool.eq_false_iff.mpr fun huse => hm (h (ha.symm.trans (name_of_uses huse)))

/-- Code that does not use a name freely does not access it but in declarations. -/
theorem free_entails_uses (n : String) :
    freeNameCollector.Entails (· ≠ n) (collector : Collector _ ι _) (fun a => a.uses n = false)
      (fun bound v => v.rebound = bound) where
  ofFunction h _ _ _ := by simp [h]
  ofBlock h _ _ _ := by simp [h]
  onBlock _ _ _ _ := List.forall_mem_nil _
  onStmt := by
    rintro _ v rfl st hfree
    refine ⟨List.forall_mem_nil _, ?_⟩
    cases st with
    | declare i m value =>
        rw [collector_afterStmt]
        dsimp only
        split <;> simp [uses]
    | assign i m value =>
        refine uses_unbound ?_ rfl
        rintro rfl
        exact by_contra fun hbound => hfree m (by simp [Collector.stmt, hbound]) rfl
    | _ => simp
  onExpr := by
    rintro _ v rfl e hfree
    cases e with
    | «variable» i m =>
        refine uses_unbound ?_ rfl
        rintro rfl
        exact by_contra fun hbound => hfree m (by simp [Collector.expr, hbound]) rfl
    | _ => simp
  onMethod _ _ _ := List.forall_mem_nil _

/-- Code that does not access a name but in declarations does not use it freely. -/
theorem uses_entail_free (n : String) :
    (collector : Collector _ ι _).Entails (fun a => a.uses n = false) freeNameCollector (· ≠ n)
      (fun v bound => v.rebound = bound) where
  ofFunction h _ _ _ := by simp [h]
  ofBlock h _ _ _ := by simp [h]
  onBlock _ _ _ _ := List.forall_mem_nil _
  onStmt := by
    rintro v _ rfl st huses
    refine ⟨?_, List.forall_mem_nil _⟩
    cases st with
    | assign i m value =>
        refine unbound_use_ne ?_
        rintro rfl
        by_contra hbound
        have huse := huses (.write m v.inside) (by simp [Collector.stmt, hbound])
        simp [uses] at huse
    | _ => simp
  onExpr := by
    rintro v _ rfl e huses
    cases e with
    | «variable» i m =>
        refine unbound_use_ne ?_
        rintro rfl
        by_contra hbound
        have huse := huses (.read m v.inside) (by simp [Collector.expr, hbound])
        simp [uses] at huse
    | _ => simp
  onMethod _ _ _ := List.forall_mem_nil _

/-- The names that a node reads or assigns are its free names. -/
theorem uses_node (n : String) (v : Viewpoint) (m : Node ι) :
    (collector.node v m).any (uses n) = true ↔ n ∈ freeNameCollector.node v.rebound m := by
  rw [← not_iff_not, Bool.not_eq_true, List.any_eq_false]
  constructor
  · intro huses hn
    exact (uses_entail_free n).node rfl (fun a ha => Bool.eq_false_iff.mpr (huses a ha)) n hn rfl
  · intro hfree a ha
    exact Bool.eq_false_iff.mp
      ((free_entails_uses n).node rfl (fun x hx hxn => hfree (hxn ▸ hx)) a ha)

/-- The names that an expression reads or assigns are its free names. -/
theorem uses_expr (n : String) (v : Viewpoint) (e : Expr ι) :
    (collector.expr v e).any (uses n) = true ↔ n ∈ freeNameCollector.expr v.rebound e :=
  uses_node n v (.expr e)

/-- The same for a list of statements in its own scope. -/
theorem uses_stmts (n : String) (v : Viewpoint) (ss : List (Stmt ι)) :
    (collector.stmts v ss).any (uses n) = true ↔ n ∈ freeNameCollector.stmts v.rebound ss := by
  have hstmt (s : Stmt ι) : (collector.stmt v s).any (uses n) = true ↔
      n ∈ freeNameCollector.stmt v.rebound s := uses_node n v (.stmt s)
  simp only [Collector.stmts_eq_flatMap, List.any_flatMap, List.any_eq_true, List.mem_flatMap,
    ← hstmt]

/-! ## Declarations -/

/-- A name is declared only by the statements of a block that does not bind it again. -/
theorem ensures_not_declares (n : String) :
    (collector : Collector _ ι _).Ensures (fun v m => m.declared? = some n → n ∈ v.rebound)
      (fun a => a.declares n = false) where
  child _ hblock _ hc := by simp [Node.declared?_child hblock hc]
  inFunction _ st hst hn := List.mem_append_left _ (Block.mem_declared.mpr ⟨st, hst, hn⟩)
  inBlock _ st hst hn := List.mem_append_left _ (Block.mem_declared.mpr ⟨st, hst, hn⟩)
  onFunction _ := List.forall_mem_nil _
  onBlock _ := List.forall_mem_nil _
  onStmt {v st} h := by
    refine ⟨List.forall_mem_nil _, ?_⟩
    cases st with
    | declare i m value =>
        intro a ha
        rw [collector_afterStmt] at ha
        dsimp only at ha
        split at ha
        · cases ha
        · rename_i hm
          obtain rfl := List.mem_singleton.mp ha
          have hmn : m ≠ n := fun hmn => hm (hmn ▸ h (congrArg some hmn))
          simpa [declares] using hmn
    | assign i m value =>
        rw [collector_afterStmt]
        dsimp only
        split <;> simp [declares]
    | _ => simp
  onExpr {v e} _ := by
    cases e with
    | «variable» i m =>
        rw [collector_onExpr]
        dsimp only
        split <;> simp [declares]
    | _ => simp
  onMethod _ := List.forall_mem_nil _

/-- An expression declares nothing: what a block inside it declares is bound there. -/
theorem declares_expr (n : String) (v : Viewpoint) (e : Expr ι) :
    (collector.expr v e).any (declares n) = false :=
  List.any_eq_false.mpr fun a ha => Bool.eq_false_iff.mp
    ((ensures_not_declares n).node (n := .expr e) (by simp [Node.declared?]) a ha)

/-- A list of statements declares what it declares as a block. -/
theorem declares_stmts (n : String) (v : Viewpoint) (ss : List (Stmt ι)) :
    (collector.stmts v ss).any (declares n) = true ↔ n ∈ Block.declared ss ∧ n ∉ v.rebound := by
  constructor
  · intro hdeclares
    obtain ⟨a, ha, hn⟩ := List.any_eq_true.mp hdeclares
    by_contra hnot
    have hnone : ∀ a ∈ collector.stmts v ss, a.declares n = false :=
      (ensures_not_declares n).stmts fun st hst hst' =>
        by_contra fun hv => hnot ⟨Block.mem_declared.mpr ⟨st, hst, hst'⟩, hv⟩
    exact Bool.false_ne_true ((hnone a ha).symm.trans hn)
  · rintro ⟨hn, hv⟩
    obtain ⟨st, hst, hdeclared⟩ := Block.mem_declared.mp hn
    cases st with
    | declare i m value =>
        obtain rfl := Option.some.inj hdeclared
        have hmem : .declare m ∈ collector.stmt v (.declare i m value) := by
          simp [Collector.stmt, hv]
        exact List.any_eq_true.mpr
          ⟨.declare m, collector.stmt_subset_stmts v hst hmem, by simp [declares]⟩
    | _ => cases hdeclared

/-! ## Function literals -/

/-- An access of a block, seen from around it. -/
theorem mark_mem_stmts {v : Viewpoint} {b : Block ι} {a : Access} (ha : a ∈ b.accesses)
    (hv : a.name ∉ v.rebound) : v.mark a ∈ collector.stmts v b := by
  have hseen : v.mark a ∈ seen a.name v (collector.stmts .here b) := by
    rw [seen, if_neg hv]
    exact List.mem_map_of_mem (List.mem_filter.mpr ⟨ha, by simp⟩)
  rw [← ofName_stmts] at hseen
  exact (List.mem_filter.mp hseen).1

/-- The accesses of a function literal are those of its body, seen from around it. -/
theorem collector_functionLit (i : ι) (m : Option String) (params : List (Param ι))
    (b : Block ι) :
    collector.expr .here (.functionLit i m params b) =
      collector.stmts ⟨b.declared ++ Param.names params, true⟩ b := by
  simp [Collector.expr]

/-- A function literal uses its free names from inside. -/
theorem usesInside_functionLit (i : ι) (m : Option String) {params : List (Param ι)} {b : Block ι}
    (hn : n ∈ freeNames params b) :
    (collector.expr .here (.functionLit i m params b)).any (usesInside n) = true := by
  obtain ⟨hfree, hdeclared, hparams⟩ := mem_freeNames.mp hn
  obtain ⟨a, ha, huse⟩ := List.any_eq_true.mp ((uses_stmts n .here b).mpr hfree)
  have hname := name_of_uses huse
  rw [collector_functionLit]
  refine List.any_eq_true.mpr ⟨_, mark_mem_stmts ha ?_, ?_⟩
  · simp [hname, hdeclared, hparams]
  · exact (usesInside_moveInside a).trans huse

/-- A free name that needs no box for the sake of a function literal is read by it. -/
theorem readsInside_functionLit {i : ι} {m : Option String} {params : List (Param ι)} {b : Block ι}
    (hn : n ∈ freeNames params b)
    (h : needsBox n (collector.expr .here (.functionLit i m params b)) = false) :
    (collector.expr .here (.functionLit i m params b)).any (readsInside n) = true := by
  obtain ⟨a, ha, huse⟩ := List.any_eq_true.mp (usesInside_functionLit i m hn)
  have hwrites := List.any_eq_false.mp (writesInside_of_needsBox h) a ha
  exact List.any_eq_true.mpr ⟨a, ha, readsInside_of_usesInside huse (Bool.eq_false_iff.mpr hwrites)⟩

/-- If a function literal does not assign a free name, its body does not set it. -/
theorem not_sets_body (i : ι) (m : Option String) {params : List (Param ι)} {b : Block ι}
    (hn : n ∈ freeNames params b)
    (h : (collector.expr .here (.functionLit i m params b)).any (writesInside n) = false) :
    b.accesses.any (sets n) = false := by
  obtain ⟨_, hdeclared, hparams⟩ := mem_freeNames.mp hn
  rw [List.any_eq_false]
  intro a ha hsets
  have hname := name_of_sets hsets
  cases a with
  | read => cases hsets
  | write k inside =>
      obtain rfl : k = n := hname
      have hmark := mark_mem_stmts (v := ⟨b.declared ++ Param.names params, true⟩) ha
        (by simp [name, hdeclared, hparams])
      rw [← collector_functionLit i m] at hmark
      exact List.any_eq_false.mp h _ hmark (by simp [Viewpoint.mark, moveInside, writesInside])
  | declare k =>
      obtain rfl : k = n := hname
      have hdeclares := List.any_eq_true.mpr ⟨_, ha, (by simp [declares] : declares k _ = true)⟩
      exact hdeclared ((declares_stmts k .here b).mp hdeclares).1

end Lowering.Access

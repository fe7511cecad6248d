import Lowering.Proofs.Mapping

/-!
# Accesses seen from different places

Laws of `Access.comesBefore` and `Access.needsBox`, and of the place from which accesses are seen.
Seen from around a node, the accesses of the node to one name are all left out if the name is bound
again in between, and are the same up to their mark otherwise (`ofName_expr`). So what has been
found out about the accesses of a block holds for the code nested in it, and a name that needs no
box in the whole needs none in any part (`needsBox_append_left`, `needsBox_append_right`).
-/

namespace Lowering

variable {ι : Type}

namespace Access

/-- The name that is accessed. -/
def name : Access → String
  | .read n _ | .write n _ | .declare n => n

/-- The access gives `n` a value. -/
def sets (n : String) : Access → Bool
  | .read _ _ => false
  | .write m _ | .declare m => m = n

/-- The access, as one that stands in a nested function. -/
def moveInside : Access → Access
  | .read n _ => .read n true
  | .write n _ => .write n true
  | .declare n => .declare n

/-- The accesses to one name. -/
def ofName (n : String) (accesses : List Access) : List Access :=
  accesses.filter fun a => a.name = n

/-- Among no accesses there are none to a name. -/
@[simp] theorem ofName_nil (n : String) : ofName n [] = [] := rfl

/-- The accesses to a name among two lists in a row. -/
@[simp] theorem ofName_append (n : String) (first second : List Access) :
    ofName n (first ++ second) = ofName n first ++ ofName n second :=
  List.filter_append ..

/-- An access to another name is left out. -/
theorem ofName_cons_of_ne {n : String} {a : Access} (h : a.name ≠ n) (as : List Access) :
    ofName n (a :: as) = ofName n as :=
  List.filter_cons_of_neg (by simpa using h)

/-- Moving an access into a function keeps its name. -/
@[simp] theorem name_moveInside (a : Access) : a.moveInside.name = a.name := by
  cases a <;> rfl

/-- What is inside of one function is no different inside of another. -/
@[simp] theorem moveInside_moveInside (a : Access) : a.moveInside.moveInside = a.moveInside := by
  cases a <;> rfl

/-! ## One access before another -/

/-- The definition of `comesBefore`, read as a split of the list. -/
theorem comesBefore_iff {first second : Access → Bool} {accesses : List Access} :
    comesBefore first second accesses = true ↔
      ∃ before a after, accesses = before ++ a :: after ∧ first a = true ∧
        after.any second = true := by
  induction accesses with
  | nil => simp [comesBefore]
  | cons a as ih =>
      rw [comesBefore, Bool.or_eq_true, Bool.and_eq_true, ih]
      constructor
      · rintro (⟨hfirst, hsecond⟩ | ⟨before, b, after, rfl, hfirst, hsecond⟩)
        · exact ⟨[], a, as, rfl, hfirst, hsecond⟩
        · exact ⟨a :: before, b, after, rfl, hfirst, hsecond⟩
      · rintro ⟨before, b, after, heq, hfirst, hsecond⟩
        cases before with
        | nil =>
            cases heq
            exact Or.inl ⟨hfirst, hsecond⟩
        | cons c before =>
            cases heq
            exact Or.inr ⟨before, b, after, rfl, hfirst, hsecond⟩

/-- Two accesses in order stand both in the first part, both in the second, or one in each. -/
theorem comesBefore_append (first second : Access → Bool) (left right : List Access) :
    comesBefore first second (left ++ right) =
      (comesBefore first second left || left.any first && right.any second ||
        comesBefore first second right) := by
  induction left with
  | nil => simp [comesBefore]
  | cons a as ih =>
      rw [List.cons_append, comesBefore, ih, comesBefore, List.any_append, List.any_cons]
      cases first a <;> cases as.any second <;> cases right.any second <;>
        cases comesBefore first second as <;> simp

/-- Nothing comes after an access that does not occur. -/
theorem comesBefore_of_any_first {first : Access → Bool} (second : Access → Bool)
    {accesses : List Access} (h : accesses.any first = false) :
    comesBefore first second accesses = false := by
  induction accesses with
  | nil => rfl
  | cons a as ih =>
      rw [List.any_cons, Bool.or_eq_false_iff] at h
      rw [comesBefore, h.1, ih h.2]
      rfl

/-- Nothing comes before an access that does not occur. -/
theorem comesBefore_of_any_second (first : Access → Bool) {second : Access → Bool}
    {accesses : List Access} (h : accesses.any second = false) :
    comesBefore first second accesses = false := by
  induction accesses with
  | nil => rfl
  | cons a as ih =>
      rw [List.any_cons, Bool.or_eq_false_iff] at h
      rw [comesBefore, h.2, ih h.2, Bool.and_false]
      rfl

/-- A kind of accesses to `n` occurs exactly if it occurs among the accesses to `n`. -/
theorem any_ofName {n : String} {kind : Access → Bool}
    (h : ∀ a, kind a = true → a.name = n) (accesses : List Access) :
    (ofName n accesses).any kind = accesses.any kind := by
  rw [ofName, List.any_filter]
  congr 1
  funext a
  cases hkind : kind a with
  | true => simp [h a hkind]
  | false => rw [Bool.and_false]

/-- Two kinds of accesses to `n` occur in order exactly if they do among the accesses to `n`. -/
theorem comesBefore_ofName {n : String} {first second : Access → Bool}
    (hfirst : ∀ a, first a = true → a.name = n) (hsecond : ∀ a, second a = true → a.name = n)
    (accesses : List Access) :
    comesBefore first second (ofName n accesses) = comesBefore first second accesses := by
  induction accesses with
  | nil => rfl
  | cons a as ih =>
      have htail := any_ofName hsecond as
      rw [comesBefore]
      by_cases hname : a.name = n
      · rw [ofName, List.filter_cons_of_pos (by simpa using hname), comesBefore]
        exact congrArg₂ _ (congrArg _ htail) ih
      · have hnot : first a = false := by
          cases hf : first a with
          | false => rfl
          | true => exact absurd (hfirst a hf) hname
        rw [ofName, List.filter_cons_of_neg (by simpa using hname), hnot, Bool.false_and,
          Bool.false_or]
        exact ih

/-! ## Names that need no box -/

variable {n : String}

/-- A read of a name is an access to it. -/
theorem name_of_reads {a : Access} (h : a.reads n = true) : a.name = n := by
  cases a <;> simp_all [reads, name]

/-- A read in a nested function is an access to the name read. -/
theorem name_of_readsInside {a : Access} (h : a.readsInside n = true) : a.name = n := by
  cases a <;> simp_all [readsInside, name]

/-- An assignment to a name is an access to it. -/
theorem name_of_writes {a : Access} (h : a.writes n = true) : a.name = n := by
  cases a <;> simp_all [writes, name]

/-- An assignment in a nested function is an access to the name assigned. -/
theorem name_of_writesInside {a : Access} (h : a.writesInside n = true) : a.name = n := by
  cases a <;> simp_all [writesInside, name]

/-- A declaration of a name is an access to it. -/
theorem name_of_declares {a : Access} (h : a.declares n = true) : a.name = n := by
  cases a <;> simp_all [declares, name]

/-- Whether a name needs a box depends on the accesses to it only. -/
theorem needsBox_ofName (accesses : List Access) :
    needsBox n (ofName n accesses) = needsBox n accesses := by
  rw [needsBox, needsBox, comesBefore_ofName (fun _ => name_of_reads) (fun _ => name_of_declares),
    any_ofName (fun _ => name_of_writesInside),
    comesBefore_ofName (fun _ => name_of_readsInside) (fun _ => name_of_writes)]

/-- A name that needs no box in the whole needs none in the first part. -/
theorem needsBox_append_left {first second : List Access}
    (h : needsBox n (first ++ second) = false) : needsBox n first = false := by
  simp only [needsBox, comesBefore_append, List.any_append, Bool.or_eq_false_iff] at h ⊢
  exact ⟨⟨h.1.1.1.1, h.1.2.1⟩, h.2.1.1⟩

/-- A name that needs no box in the whole needs none in the second part. -/
theorem needsBox_append_right {first second : List Access}
    (h : needsBox n (first ++ second) = false) : needsBox n second = false := by
  simp only [needsBox, comesBefore_append, List.any_append, Bool.or_eq_false_iff] at h ⊢
  exact ⟨⟨h.1.1.2, h.1.2.2⟩, h.2.2⟩

/-- If the first part reads a name that needs no box, the second does not declare it. -/
theorem declares_of_reads {first second : List Access}
    (h : needsBox n (first ++ second) = false) (hread : first.any (reads n) = true) :
    second.any (declares n) = false := by
  simp only [needsBox, comesBefore_append, Bool.or_eq_false_iff] at h
  simpa [hread] using h.1.1.1.2

/-- A read in a nested function is a read. -/
theorem reads_of_readsInside {a : Access} (h : a.readsInside n = true) : a.reads n = true := by
  cases a <;> simp_all [reads, readsInside]

/-- A name is set by its assignments and its declarations. -/
theorem sets_eq (a : Access) : a.sets n = (a.writes n || a.declares n) := by
  cases a <;> simp [sets, writes, declares]

/-- If a function in the first part reads a name that needs no box, the second part does not set
it. -/
theorem sets_of_readsInside {first second : List Access}
    (h : needsBox n (first ++ second) = false) (hread : first.any (readsInside n) = true) :
    second.any (sets n) = false := by
  have hreads : first.any (reads n) = true := by
    obtain ⟨a, ha, hr⟩ := List.any_eq_true.mp hread
    exact List.any_eq_true.mpr ⟨a, ha, reads_of_readsInside hr⟩
  have hdeclares := declares_of_reads h hreads
  have hwrites : second.any (writes n) = false := by
    simp only [needsBox, comesBefore_append, Bool.or_eq_false_iff] at h
    simpa [hread] using h.2.1.2
  rw [List.any_eq_false] at hdeclares hwrites ⊢
  intro a ha
  rw [sets_eq]
  simp [hdeclares a ha, hwrites a ha]

/-- A name that is not set needs no box. -/
theorem needsBox_of_not_sets {accesses : List Access} (h : accesses.any (sets n) = false) :
    needsBox n accesses = false := by
  have hdeclares : accesses.any (declares n) = false := by
    rw [List.any_eq_false] at h ⊢
    exact fun a ha hd => h a ha (by rw [sets_eq, hd, Bool.or_true])
  have hwrites : accesses.any (writes n) = false := by
    rw [List.any_eq_false] at h ⊢
    exact fun a ha hw => h a ha (by rw [sets_eq, hw, Bool.true_or])
  have hinside : accesses.any (writesInside n) = false := by
    rw [List.any_eq_false] at hwrites ⊢
    exact fun a ha hw => hwrites a ha (by cases a <;> simp_all [writesInside, writes])
  rw [needsBox, comesBefore_of_any_second _ hdeclares, comesBefore_of_any_second _ hwrites, hinside]
  rfl

/-- A name that needs no box is assigned in no nested function. -/
theorem writesInside_of_needsBox {accesses : List Access} (h : needsBox n accesses = false) :
    accesses.any (writesInside n) = false := by
  simp only [needsBox, Bool.or_eq_false_iff] at h
  exact h.1.2

end Access

/-! ## Viewpoints -/

/-- Seen from the block itself: nothing is bound again and no function is entered. -/
def Viewpoint.here : Viewpoint := ⟨[], false⟩

/-- An access of a node as it looks from around it. -/
def Viewpoint.mark (v : Viewpoint) (a : Access) : Access :=
  if v.inside then a.moveInside else a

namespace Viewpoint

/-- In the block itself no name is bound again. -/
@[simp] theorem here_rebound : here.rebound = [] := rfl

/-- The block itself is in no nested function. -/
@[simp] theorem here_inside : here.inside = false := rfl

variable (v : Viewpoint)

/-- An access has the same name from everywhere. -/
@[simp] theorem name_mark (a : Access) : (v.mark a).name = a.name := by
  unfold mark
  split
  · exact a.name_moveInside
  · rfl

/-- A read is inside if the place is. -/
@[simp] theorem mark_read (n : String) : v.mark (.read n false) = .read n v.inside := by
  cases h : v.inside <;> simp [mark, h, Access.moveInside]

/-- An assignment is inside if the place is. -/
@[simp] theorem mark_write (n : String) : v.mark (.write n false) = .write n v.inside := by
  cases h : v.inside <;> simp [mark, h, Access.moveInside]

/-- Declarations look the same from everywhere. -/
@[simp] theorem mark_declare (n : String) : v.mark (.declare n) = .declare n := by
  cases h : v.inside <;> simp [mark, h, Access.moveInside]

end Viewpoint

namespace Access

section Rules

variable (v : Viewpoint)

/-- Inside a function its parameters are bound again, and all accesses are inside. -/
@[simp] theorem collector_ofFunction (params : List (Param ι)) (b : Block ι) :
    collector.ofFunction v params b = ⟨Param.names params ++ v.rebound, true⟩ := rfl

/-- Inside a block the names that it declares are bound again. -/
@[simp] theorem collector_ofBlock (b : Block ι) :
    collector.ofBlock v b = ⟨b.declared ++ v.rebound, v.inside⟩ := rfl

/-- Blocks access nothing by themselves. -/
@[simp] theorem collector_onBlock (params : List (Param ι)) (b : Block ι) :
    collector.onBlock v params b = [] := rfl

/-- Statements access nothing before their parts do. -/
@[simp] theorem collector_onStmt (s : Stmt ι) : collector.onStmt v s = [] := rfl

/-- Declarations and assignments access their name after their value, unless it is bound again. -/
@[simp] theorem collector_afterStmt (s : Stmt ι) :
    collector.afterStmt v s =
      match s with
      | .declare _ n _ => if n ∈ v.rebound then [] else [.declare n]
      | .assign _ n _ => if n ∈ v.rebound then [] else [.write n v.inside]
      | _ => [] := by
  cases s <;> rfl

/-- Variables read their name, unless it is bound again. -/
@[simp] theorem collector_onExpr (e : Expr ι) :
    collector.onExpr v e =
      match e with
      | .variable _ n => if n ∈ v.rebound then [] else [.read n v.inside]
      | _ => [] := by
  cases e <;> rfl

/-- Methods access nothing by themselves. -/
@[simp] theorem collector_onMethod (m : Method ι) : collector.onMethod v m = [] := rfl

end Rules

/-- What remains of the accesses to `n` when they are seen from around the node. -/
def seen (n : String) (v : Viewpoint) (accesses : List Access) : List Access :=
  if n ∈ v.rebound then [] else (ofName n accesses).map v.mark

section Seen

variable {n : String} {v : Viewpoint}

/-- Where there are no accesses, none is seen. -/
@[simp] theorem seen_nil : seen n v [] = [] := by simp [seen]

/-- The accesses of two pieces of code in a row are seen one after the other. -/
@[simp] theorem seen_append (first second : List Access) :
    seen n v (first ++ second) = seen n v first ++ seen n v second := by
  unfold seen
  split
  · rfl
  · rw [ofName_append, List.map_append]

/-- A single access, unless its name is bound again. -/
theorem seen_singleton (n : String) (v : Viewpoint) (a : Access) :
    ofName n (if a.name ∈ v.rebound then [] else [v.mark a]) = seen n v [a] := by
  unfold seen
  by_cases hn : a.name = n
  · subst hn
    split
    · rfl
    · simp [ofName]
  · have hleft : ofName n (if a.name ∈ v.rebound then [] else [v.mark a]) = [] := by
      split
      · rfl
      · simp [ofName, hn]
    rw [hleft]
    split
    · rfl
    · simp [ofName, hn]

/-- Seeing through two places is seeing from the outer one. -/
theorem seen_nested (names : List String) (inside : Bool) (accesses : List Access)
    {code : List Access} (hcode : ofName n code = seen n ⟨names, inside⟩ accesses) :
    seen n ⟨names ++ v.rebound, inside || v.inside⟩ accesses = seen n v code := by
  unfold seen at hcode ⊢
  rw [hcode]
  by_cases hv : n ∈ v.rebound
  · simp [hv]
  · by_cases hnames : n ∈ names
    · simp [hnames]
    · cases hinside : inside <;> cases hvinside : v.inside <;>
        simp [hv, hnames, Viewpoint.mark, hvinside]

end Seen

/-- Reads, writes and declarations as they are seen. -/
@[simp] theorem ofName_read (n : String) (v : Viewpoint) (m : String) :
    ofName n (if m ∈ v.rebound then [] else [.read m v.inside]) = seen n v [.read m false] := by
  rw [← seen_singleton, Viewpoint.mark_read]
  rfl

/-- Assignments as they are seen. -/
@[simp] theorem ofName_write (n : String) (v : Viewpoint) (m : String) :
    ofName n (if m ∈ v.rebound then [] else [.write m v.inside]) = seen n v [.write m false] := by
  rw [← seen_singleton, Viewpoint.mark_write]
  rfl

/-- Declarations as they are seen. -/
@[simp] theorem ofName_declare (n : String) (v : Viewpoint) (m : String) :
    ofName n (if m ∈ v.rebound then [] else [.declare m]) = seen n v [.declare m] := by
  rw [← seen_singleton, Viewpoint.mark_declare]
  rfl

mutual

/-- The accesses of an expression to a name as they are seen from around the expression. -/
theorem ofName_expr (n : String) (v : Viewpoint) : (e : Expr ι) →
    ofName n (collector.expr v e) = seen n v (collector.expr .here e)
  | .unit _ | .name _ _ | .text _ _ | .number _ _ => by simp [Collector.expr]
  | .variable _ m => by simp [Collector.expr]
  | .member _ object _ => by simp [Collector.expr, ofName_expr n v object]
  | .call _ callee inputs => by
      simp [Collector.expr, ofName_expr n v callee, ofName_exprs n v inputs]
  | .functionLit _ _ params body => by
      have hbody := seen_nested (v := v) _ true _
        (ofName_stmts n ⟨Block.declared body ++ Param.names params, true⟩ body)
      simpa [Collector.expr, ofName_stmts n ⟨_ ++ (_ ++ v.rebound), true⟩ body] using hbody
  | .classLit _ _ ms => by simp [Collector.expr, ofName_methods n v ms]

/-- The same for a list of expressions. -/
theorem ofName_exprs (n : String) (v : Viewpoint) : (es : List (Expr ι)) →
    ofName n (collector.exprs v es) = seen n v (collector.exprs .here es)
  | [] => by simp [Collector.exprs]
  | e :: es => by simp [Collector.exprs, ofName_expr n v e, ofName_exprs n v es]

/-- The same for a statement. -/
theorem ofName_stmt (n : String) (v : Viewpoint) : (s : Stmt ι) →
    ofName n (collector.stmt v s) = seen n v (collector.stmt .here s)
  | .importPackage _ _ _ => by simp [Collector.stmt]
  | .declare _ m value | .assign _ m value => by
      simp [Collector.stmt, ofName_expr n v value]
  | .assignMember _ object _ value => by
      simp [Collector.stmt, ofName_expr n v object, ofName_expr n v value]
  | .ret _ value | .expr value => by simp [Collector.stmt, ofName_expr n v value]
  | .branch _ condition thenBlock elseBlock => by
      have hthen := seen_nested (v := v) _ false _
        (ofName_stmts n ⟨Block.declared thenBlock, false⟩ thenBlock)
      have helse := seen_nested (v := v) _ false _
        (ofName_stmts n ⟨Block.declared elseBlock, false⟩ elseBlock)
      rw [Bool.false_or] at hthen helse
      simp [Collector.stmt, ofName_expr n v condition, ofName_stmts n ⟨_ ++ v.rebound, _⟩ thenBlock,
        ofName_stmts n ⟨_ ++ v.rebound, _⟩ elseBlock, hthen, helse]

/-- The same for a list of statements in its own scope. -/
theorem ofName_stmts (n : String) (v : Viewpoint) : (ss : List (Stmt ι)) →
    ofName n (collector.stmts v ss) = seen n v (collector.stmts .here ss)
  | [] => by simp [Collector.stmts]
  | s :: ss => by simp [Collector.stmts, ofName_stmt n v s, ofName_stmts n v ss]

/-- The same for a method. -/
theorem ofName_method (n : String) (v : Viewpoint) : (m : Method ι) →
    ofName n (collector.method v m) = seen n v (collector.method .here m)
  | .mk _ _ _ body => by
      have hbody := seen_nested (v := v) _ false _
        (ofName_stmts n ⟨Block.declared body, false⟩ body)
      rw [Bool.false_or] at hbody
      simp [Collector.method, ofName_stmts n ⟨_ ++ v.rebound, _⟩ body, hbody]

/-- The same for a list of methods. -/
theorem ofName_methods (n : String) (v : Viewpoint) : (ms : List (Method ι)) →
    ofName n (collector.methods v ms) = seen n v (collector.methods .here ms)
  | [] => by simp [Collector.methods]
  | m :: ms => by simp [Collector.methods, ofName_method n v m, ofName_methods n v ms]

end

/-- Seen from around it, a block accesses a name that it does not bind as it does itself. -/
theorem ofName_block {n : String} {b : Block ι} (h : n ∉ b.declared) :
    ofName n (collector.stmts ⟨b.declared, false⟩ b) = ofName n b.accesses := by
  rw [ofName_stmts, seen, if_neg h]
  exact List.map_id _

end Access

end Lowering

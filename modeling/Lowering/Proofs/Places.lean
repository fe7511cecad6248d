import Lowering.Proofs.BoxedAccesses
import Lowering.Proofs.CallShaping

/-!
# Names that are used only where they are declared

`Place.collector` lists the places where a program reads or assigns a name: directly in the body of
a function, or elsewhere. If all of these are places in function bodies that start with their only
declaration of the name (`Place.Owns`), then the name is free in no code, no nested function uses
it, and so it is neither captured (`Program.not_mem_captured`) nor boxed (`Program.not_mem_boxes`).
-/

namespace Lowering

variable {ι : Type}

/-- Where a node stands, seen from the functions around it. -/
inductive Place (ι : Type) where
  /-- At a function with the given parameters, before its body. -/
  | entering (params : List (Param ι))
  /-- In the body of a function, outside all functions and blocks nested in the body. -/
  | directly (params : List (Param ι)) (body : Block ι)
  /-- In a nested block, or outside all functions. -/
  | elsewhere

namespace Place

/-- Each read of the name and each assignment to it contributes the place where it stands. -/
def collector (n : String) : Collector (Place ι) ι (Place ι) where
  ofFunction _ params _ := .entering params
  ofBlock
    | .entering params, b => .directly params b
    | _, _ => .elsewhere
  onStmt
    | place, .assign _ m _ => if m = n then [place] else []
    | _, _ => []
  onExpr
    | place, .variable _ m => if m = n then [place] else []
    | _, _ => []

section Rules

variable (n : String) (place : Place ι)

/-- The way into a function leads to the body behind its parameters. -/
@[simp] theorem collector_ofFunction (params : List (Param ι)) (b : Block ι) :
    (collector n).ofFunction place params b = .entering params := rfl

/-- Blocks use no names by themselves. -/
@[simp] theorem collector_onBlock (params : List (Param ι)) (b : Block ι) :
    (collector n).onBlock place params b = [] := rfl

/-- An assignment to the name counts where it stands. -/
@[simp] theorem collector_onStmt (s : Stmt ι) :
    (collector n).onStmt place s =
      match s with
      | .assign _ m _ => if m = n then [place] else []
      | _ => [] := by
  cases s <;> rfl

/-- Statements use nothing after their parts do. -/
@[simp] theorem collector_afterStmt (s : Stmt ι) : (collector n).afterStmt place s = [] := rfl

/-- A read of the name counts where it stands. -/
@[simp] theorem collector_onExpr (e : Expr ι) :
    (collector n).onExpr place e =
      match e with
      | .variable _ m => if m = n then [place] else []
      | _ => [] := by
  cases e <;> rfl

/-- Methods use no names by themselves. -/
@[simp] theorem collector_onMethod (m : Method ι) : (collector n).onMethod place m = [] := rfl

/-- Calls use no names by themselves. -/
theorem collector_skipsCalls : (collector n : Collector (Place ι) ι (Place ι)).SkipsCalls where
  unit _ _ := rfl
  name _ _ _ := rfl
  member _ _ _ _ := rfl
  call _ _ _ _ := rfl
  exprStmt _ _ := ⟨rfl, rfl⟩
  assignMember _ _ _ _ _ := ⟨rfl, rfl⟩

/-- A function contributes the same wherever it stands. -/
theorem collector_functionLit (i : ι) (name : Option String) (params : List (Param ι))
    (b : Block ι) :
    (collector n).expr place (.functionLit i name params b) =
      (collector n).stmts (.directly params b) b := by
  rw [Collector.expr_functionLit]
  rfl

end Rules

/-- What a statement contributes at one place has a property if its contribution at another place
has one that implies it. -/
theorem forall_onStmt {n : String} {G H : Place ι → Prop} {s t : Place ι} (hG : G s → H t)
    {st : Stmt ι} (hst : ∀ x ∈ (collector n).stmt s st, G x) :
    ∀ x ∈ (collector n).onStmt t st, H x := by
  intro x hx
  cases st with
  | assign i m value =>
      by_cases hm : m = n
      · have hs : G s := hst s (by simp [Collector.stmt, hm])
        simp only [collector_onStmt, if_pos hm, List.mem_singleton] at hx
        exact hx ▸ hG hs
      · simp [hm] at hx
  | _ => exact absurd hx List.not_mem_nil

/-- The same for an expression. -/
theorem forall_onExpr {n : String} {G H : Place ι → Prop} {s t : Place ι} (hG : G s → H t)
    {e : Expr ι} (he : ∀ x ∈ (collector n).expr s e, G x) :
    ∀ x ∈ (collector n).onExpr t e, H x := by
  intro x hx
  cases e with
  | «variable» i m =>
      by_cases hm : m = n
      · have hs : G s := he s (by simp [Collector.expr, hm])
        simp only [collector_onExpr, if_pos hm, List.mem_singleton] at hx
        exact hx ▸ hG hs
      · simp [hm] at hx
  | _ => exact absurd hx List.not_mem_nil

/-- A use at one place counts like one at another, with all that stands below. -/
theorem entails_moved (n : String) (G : Place ι → Prop) : (collector n).Entails G (collector n) G
    (fun s t => (∀ b, (collector n).ofBlock s b = (collector n).ofBlock t b) ∧ (G s → G t)) where
  ofFunction _ _ _ _ := ⟨fun _ => rfl, id⟩
  ofBlock h params b _ := by
    rw [h.1 b]
    exact ⟨fun _ => rfl, id⟩
  onBlock _ _ _ _ _ hx := absurd hx List.not_mem_nil
  onStmt h _ hst := ⟨forall_onStmt h.2 hst, fun _ hx => absurd hx List.not_mem_nil⟩
  onExpr h _ he := forall_onExpr h.2 he
  onMethod _ _ _ _ hx := absurd hx List.not_mem_nil

/-- A read of the name counts where it stands. -/
theorem forall_variable {n : String} {G : Place ι → Prop} {place : Place ι} (h : G place)
    (i : ι) : ∀ x ∈ (collector n).expr place (.variable i n), G x := by
  intro x hx
  have hread : (collector n).expr place (.variable i n) = [place] := if_pos rfl
  rw [hread, List.mem_singleton] at hx
  exact hx ▸ h

/-- A place inside of a block. -/
def IsInner : Place ι → Prop
  | .entering _ => False
  | _ => True

/-- The body of a function is a block. -/
theorem isInner_directly (params : List (Param ι)) (b : Block ι) : (directly params b).IsInner :=
  trivial

/-- All other places are inside of blocks, too. -/
theorem isInner_elsewhere : (elsewhere : Place ι).IsInner :=
  trivial

/-- A block in a block is no body of a function. -/
theorem ofBlock_of_isInner {place : Place ι} (h : place.IsInner) (n : String) (b : Block ι) :
    (collector n).ofBlock place b = .elsewhere := by
  cases place with
  | entering => exact h.elim
  | _ => rfl

/-- Code that moves from one place inside of a block to another one keeps its uses. -/
theorem forall_moved {n : String} {G : Place ι → Prop} {s t : Place ι} (hs : s.IsInner)
    (ht : t.IsInner) (hG : G s → G t) {b : Block ι} (h : ∀ x ∈ (collector n).stmts s b, G x) :
    ∀ x ∈ (collector n).stmts t b, G x :=
  (entails_moved n G).stmts
    ⟨fun c => (ofBlock_of_isInner hs n c).trans (ofBlock_of_isInner ht n c).symm, hG⟩ b h

end Place

/-! ## Uses after the only declaration -/

/-- The block starts with its only declaration of the name, of a value that does not use it. -/
def Block.StartsWith (n : String) : Block ι → Prop
  | .declare _ m value :: rest =>
      m = n ∧ n ∉ freeNameCollector.expr [] value ∧ n ∉ Block.declared rest
  | _ => False

namespace Block.StartsWith

variable {n : String} {b : Block ι}

/-- Such a block is the declaration and the statements after it. -/
theorem exists_eq (h : Block.StartsWith n b) : ∃ i value rest, b = .declare i n value :: rest ∧
    n ∉ freeNameCollector.expr [] value ∧ n ∉ Block.declared rest := by
  unfold Block.StartsWith at h
  split at h
  · obtain ⟨rfl, hvalue, hrest⟩ := h
    exact ⟨_, _, _, rfl, hvalue, hrest⟩
  · cases h

/-- The block declares the name. -/
theorem mem_declared (h : Block.StartsWith n b) : n ∈ b.declared := by
  obtain ⟨i, value, rest, rfl, -, -⟩ := h.exists_eq
  exact Block.mem_declared_cons.mpr (.inl rfl)

/-- In such a block the name is not read before it is declared. -/
theorem comesBefore_eq_false (h : Block.StartsWith n b) :
    Access.comesBefore (Access.reads n) (Access.declares n) b.accesses = false := by
  obtain ⟨i, value, rest, rfl, hvalue, hrest⟩ := h.exists_eq
  have hreads : (Access.collector.expr .here value).any (Access.reads n) = false := by
    rw [List.any_eq_false]
    intro a ha hread
    refine hvalue ((Access.uses_expr n .here value).mp (List.any_eq_true.mpr ⟨a, ha, ?_⟩))
    cases a with
    | read => exact hread
    | _ => cases hread
  have hdeclares : (Access.collector.stmts .here rest).any (Access.declares n) = false :=
    Bool.eq_false_iff.mpr fun hd => hrest ((Access.declares_stmts n .here rest).mp hd).1
  have haccesses : Block.accesses (.declare i n value :: rest) =
      Access.collector.expr .here value ++ (.declare n :: Access.collector.stmts .here rest) := by
    simp [Block.accesses, Collector.stmts, Collector.stmt, Viewpoint.here]
  rw [haccesses, Access.comesBefore_append, hreads, Access.comesBefore_of_any_first _ hreads,
    Access.comesBefore, Access.comesBefore_of_any_second _ hdeclares, hdeclares]
  rfl

end Block.StartsWith

namespace Place

/-- A use of the name at the place is one of the variable that the body around it starts with. -/
def Owns (n : String) : Place ι → Prop
  | .directly _ body => Block.StartsWith n body
  | _ => False

variable {n : String}

/-- A name that is used where it is declared is not free. -/
theorem entails_free : (collector n).Entails (Owns n) (freeNameCollector : Collector _ ι _) (· ≠ n)
    (fun place bound => place.Owns n → n ∈ bound) where
  ofFunction _ _ _ _ h := h.elim
  ofBlock {place bound} _ params b _ h := by
    cases place with
    | entering => exact List.mem_append_left _ h.mem_declared
    | _ => exact h.elim
  onBlock _ _ _ _ _ hm := absurd hm List.not_mem_nil
  onStmt := by
    intro place bound hplace s hs
    refine ⟨fun m hm => ?_, fun _ hm => absurd hm List.not_mem_nil⟩
    rintro rfl
    cases s with
    | assign i k value =>
        by_cases hk : k ∈ bound
        · simp [hk] at hm
        · have hkm : m = k := by simpa [hk] using hm
          exact hk (hkm ▸ hplace (hs place (by simp [Collector.stmt, hkm])))
    | _ => exact absurd hm List.not_mem_nil
  onExpr := by
    intro place bound hplace e he m hm
    rintro rfl
    cases e with
    | «variable» i k =>
        by_cases hk : k ∈ bound
        · simp [hk] at hm
        · have hkm : m = k := by simpa [hk] using hm
          exact hk (hkm ▸ hplace (he place (by simp [Collector.expr, hkm])))
    | _ => exact absurd hm List.not_mem_nil
  onMethod _ _ _ _ hm := absurd hm List.not_mem_nil

/-- Nor is it used in nested functions, seen from any block. -/
theorem entails_accesses : (collector n).Entails (Owns n) (Access.collector : Collector _ ι _)
    (fun a => a.usesInside n = false)
    (fun place v => v.inside = true → place.Owns n → n ∈ v.rebound) where
  ofFunction _ _ _ _ _ h := h.elim
  ofBlock {place v} _ params b _ _ h := by
    cases place with
    | entering => exact List.mem_append_left _ h.mem_declared
    | _ => exact h.elim
  onBlock _ _ _ _ _ ha := absurd ha List.not_mem_nil
  onStmt := by
    intro place v hplace s hs
    refine ⟨fun a ha => absurd ha List.not_mem_nil, fun a ha => ?_⟩
    cases s with
    | declare i m value =>
        have ha : m ∉ v.rebound ∧ a = .declare m := by simpa using ha
        rw [ha.2, Access.usesInside]
    | assign i m value =>
        have ha : m ∉ v.rebound ∧ a = .write m v.inside := by simpa using ha
        by_cases hm : m = n
        · have howns : place.Owns n := hs place (by simp [Collector.stmt, hm])
          have hinside : v.inside = false :=
            Bool.eq_false_iff.mpr fun hv => ha.1 (hm ▸ hplace hv howns)
          rw [ha.2, hinside, Access.usesInside, Bool.and_false]
        · simp [ha.2, Access.usesInside, hm]
    | _ => simp at ha
  onExpr := by
    intro place v hplace e he a ha
    cases e with
    | «variable» i m =>
        have ha : m ∉ v.rebound ∧ a = .read m v.inside := by simpa using ha
        by_cases hm : m = n
        · have howns : place.Owns n := he place (by simp [Collector.expr, hm])
          have hinside : v.inside = false :=
            Bool.eq_false_iff.mpr fun hv => ha.1 (hm ▸ hplace hv howns)
          rw [ha.2, hinside, Access.usesInside, Bool.and_false]
        · simp [ha.2, Access.usesInside, hm]
    | _ => simp at ha
  onMethod _ _ _ _ ha := absurd ha List.not_mem_nil

/-- A function whose code uses the name only where it is declared does not use it freely. -/
theorem not_mem_freeNames {place : Place ι} {i : ι} {name : Option String}
    {params : List (Param ι)} {b : Block ι}
    (h : ∀ x ∈ (collector n).expr place (.functionLit i name params b), x.Owns n) :
    n ∉ freeNames params b := by
  have houter : (elsewhere : Place ι).Owns n → n ∈ [] := False.elim
  rw [collector_functionLit, ← collector_functionLit n .elsewhere i name] at h
  rw [← free_functionLit i name]
  exact fun hn => entails_free.node houter (n := .expr (.functionLit i name params b)) h n hn rfl

/-- In a block whose code uses the name only where it is declared, the name needs no box. -/
theorem needsBox_eq_false {place : Place ι} {params : List (Param ι)} {b : Block ι}
    (h : ∀ x ∈ (collector n).body place params b, x.Owns n) :
    Access.needsBox n b.accesses = false := by
  have hinside : b.accesses.any (Access.usesInside n) = false := by
    rw [List.any_eq_false]
    intro a ha
    rw [Bool.not_eq_true]
    exact entails_accesses.stmts (fun hv => absurd hv Bool.false_ne_true) b h a ha
  rw [Access.needsBox_of_not_inside hinside]
  by_cases hstarts : Block.StartsWith n b
  · exact hstarts.comesBefore_eq_false
  · -- the code of any other block does not read the name at all
    have houter : ((collector n).ofBlock place b).Owns n → n ∈ [] := by
      cases place with
      | entering => exact fun h => absurd h hstarts
      | _ => exact False.elim
    have hfree : n ∉ freeNameCollector.stmts [] b := fun hn =>
      entails_free.stmts houter b h n hn rfl
    refine Access.comesBefore_of_any_first _ (List.any_eq_false.mpr fun a ha hread => ?_)
    refine hfree ((Access.uses_stmts n .here b).mp (List.any_eq_true.mpr ⟨a, ha, ?_⟩))
    cases a with
    | read => exact hread
    | _ => cases hread

/-- A name that is used only after the declaration that its body starts with is not boxed. -/
theorem not_mem_boxedNames {place : Place ι} {params : List (Param ι)} {b : Block ι}
    (h : ∀ x ∈ (collector n).body place params b, x.Owns n) :
    n ∉ BoxedName.boxedNames params b := fun hn =>
  Bool.false_ne_true ((needsBox_eq_false h).symm.trans (BoxedName.mem_boxedNames.mp hn).2)

end Place

namespace Program

/-- The places where a program reads a name or assigns to it. -/
def usePlaces (p : Program ι) (n : String) : List (Place ι) :=
  (Place.collector n).block .elsewhere p.statements

variable {p : Program ι} {n : String}

/-- A name that is used only where it is declared is not boxed. -/
theorem not_mem_boxes (h : ∀ place ∈ p.usePlaces n, place.Owns n) : n ∉ BoxedName.boxes p := by
  have hboxes : (Place.collector n).Entails (·.Owns n)
      (BoxedName.boxCollector : Collector Unit ι String) (· ≠ n) (fun _ _ => True) :=
    { ofFunction := fun _ _ _ _ => trivial
      ofBlock := fun _ _ _ _ => trivial
      onBlock := fun _ _ _ hbody m hm hmn => Place.not_mem_boxedNames hbody (hmn ▸ hm)
      onStmt := fun _ _ _ =>
        ⟨fun _ hm => absurd hm List.not_mem_nil, fun _ hm => absurd hm List.not_mem_nil⟩
      onExpr := fun _ _ _ _ hm => absurd hm List.not_mem_nil
      onMethod := fun _ _ _ _ hm => absurd hm List.not_mem_nil }
  exact fun hn => hboxes.block trivial p.statements h n hn rfl

/-- Nor is it captured. -/
theorem not_mem_captured (h : ∀ place ∈ p.usePlaces n, place.Owns n) :
    ∀ captured ∈ Closure.captured p, n ∉ captured := by
  have hcaptured : (Place.collector n).Entails (·.Owns n)
      (Closure.captureCollector : Collector (List String) ι (List String)) (n ∉ ·)
      (fun _ _ => True) :=
    { ofFunction := fun _ _ _ _ => trivial
      ofBlock := fun _ _ _ _ => trivial
      onBlock := fun _ _ _ _ _ hm => absurd hm List.not_mem_nil
      onStmt := fun _ _ _ =>
        ⟨fun _ hm => absurd hm List.not_mem_nil, fun _ hm => absurd hm List.not_mem_nil⟩
      onExpr := by
        intro place available _ e he captured hcaptured hn
        obtain ⟨i, name, params, b, rfl, rfl⟩ := Closure.eq_captures_of_mem hcaptured
        exact Place.not_mem_freeNames he (mem_captures.mp hn).1
      onMethod := fun _ _ _ _ hm => absurd hm List.not_mem_nil }
  exact hcaptured.block trivial p.statements h

end Program

end Lowering

import Lowering.Tree.Basic

/-!
# Equality of trees

Two trees are equal when they have the same nodes with the same infos; `Expr.beq` and its companions
decide it node by node.
-/

namespace Lowering

variable {ι : Type} [DecidableEq ι]

mutual

/-- Compare two expressions. -/
def Expr.beq : Expr ι → Expr ι → Bool
  | .unit i, other =>
      match other with
      | .unit j => i = j
      | _ => false
  | .name i n, other =>
      match other with
      | .name j m => i = j && n = m
      | _ => false
  | .text i t, other =>
      match other with
      | .text j u => i = j && t = u
      | _ => false
  | .number i d, other =>
      match other with
      | .number j e => i = j && d = e
      | _ => false
  | .variable i n, other =>
      match other with
      | .variable j m => i = j && n = m
      | _ => false
  | .member i o n, other =>
      match other with
      | .member j p m => i = j && Expr.beq o p && n = m
      | _ => false
  | .call i f xs, other =>
      match other with
      | .call j g ys => i = j && Expr.beq f g && Expr.beqList xs ys
      | _ => false
  | .functionLit i n ps b, other =>
      match other with
      | .functionLit j m qs c => i = j && n = m && ps = qs && Stmt.beqList b c
      | _ => false
  | .classLit i n ms, other =>
      match other with
      | .classLit j m ns => i = j && n = m && Method.beqList ms ns
      | _ => false
termination_by structural tree => tree

/-- Compare two lists of expressions. -/
def Expr.beqList : List (Expr ι) → List (Expr ι) → Bool
  | [], others => others.isEmpty
  | e :: es, others =>
      match others with
      | f :: fs => Expr.beq e f && Expr.beqList es fs
      | [] => false
termination_by structural tree => tree

/-- Compare two statements. -/
def Stmt.beq : Stmt ι → Stmt ι → Bool
  | .importPackage i n p, other =>
      match other with
      | .importPackage j m q => i = j && n = m && p = q
      | _ => false
  | .declare i n e, other =>
      match other with
      | .declare j m f => i = j && n = m && Expr.beq e f
      | _ => false
  | .assign i n e, other =>
      match other with
      | .assign j m f => i = j && n = m && Expr.beq e f
      | _ => false
  | .assignMember i o n e, other =>
      match other with
      | .assignMember j p m f => i = j && Expr.beq o p && n = m && Expr.beq e f
      | _ => false
  | .ret i e, other =>
      match other with
      | .ret j f => i = j && Expr.beq e f
      | _ => false
  | .branch i c s t, other =>
      match other with
      | .branch j d u v => i = j && Expr.beq c d && Stmt.beqList s u && Stmt.beqList t v
      | _ => false
  | .expr e, other =>
      match other with
      | .expr f => Expr.beq e f
      | _ => false
termination_by structural tree => tree

/-- Compare two lists of statements. -/
def Stmt.beqList : List (Stmt ι) → List (Stmt ι) → Bool
  | [], others => others.isEmpty
  | s :: ss, others =>
      match others with
      | t :: ts => Stmt.beq s t && Stmt.beqList ss ts
      | [] => false
termination_by structural tree => tree

/-- Compare two methods. -/
def Method.beq : Method ι → Method ι → Bool
  | .mk i n ps b, .mk j m qs c => i = j && n = m && ps = qs && Stmt.beqList b c
termination_by structural tree => tree

/-- Compare two lists of methods. -/
def Method.beqList : List (Method ι) → List (Method ι) → Bool
  | [], others => others.isEmpty
  | m :: ms, others =>
      match others with
      | n :: ns => Method.beq m n && Method.beqList ms ns
      | [] => false
termination_by structural tree => tree

end

mutual

/-- The comparison of expressions accepts exactly equal ones. -/
theorem Expr.beq_iff : (e f : Expr ι) → (Expr.beq e f = true ↔ e = f)
  | .unit i, f => by cases f <;> simp [Expr.beq]
  | .name i n, f => by cases f <;> simp [Expr.beq]
  | .text i t, f => by cases f <;> simp [Expr.beq]
  | .number i d, f => by cases f <;> simp [Expr.beq]
  | .variable i n, f => by cases f <;> simp [Expr.beq]
  | .member i o n, f => by cases f <;> simp [Expr.beq, Expr.beq_iff o, and_assoc]
  | .call i g xs, f => by
      cases f <;> simp [Expr.beq, Expr.beq_iff g, Expr.beqList_iff xs, and_assoc]
  | .functionLit i n ps b, f => by cases f <;> simp [Expr.beq, Stmt.beqList_iff b, and_assoc]
  | .classLit i n ms, f => by cases f <;> simp [Expr.beq, Method.beqList_iff ms, and_assoc]

/-- The comparison of lists of expressions accepts exactly equal ones. -/
theorem Expr.beqList_iff : (es fs : List (Expr ι)) → (Expr.beqList es fs = true ↔ es = fs)
  | [], fs => by cases fs <;> simp [Expr.beqList]
  | e :: es, fs => by cases fs <;> simp [Expr.beqList, Expr.beq_iff e, Expr.beqList_iff es]

/-- The comparison of statements accepts exactly equal ones. -/
theorem Stmt.beq_iff : (s t : Stmt ι) → (Stmt.beq s t = true ↔ s = t)
  | .importPackage i n p, t => by cases t <;> simp [Stmt.beq, and_assoc]
  | .declare i n e, t => by cases t <;> simp [Stmt.beq, Expr.beq_iff e, and_assoc]
  | .assign i n e, t => by cases t <;> simp [Stmt.beq, Expr.beq_iff e, and_assoc]
  | .assignMember i o n e, t => by
      cases t <;> simp [Stmt.beq, Expr.beq_iff o, Expr.beq_iff e, and_assoc]
  | .ret i e, t => by cases t <;> simp [Stmt.beq, Expr.beq_iff e]
  | .branch i c a b, t => by
      cases t <;> simp [Stmt.beq, Expr.beq_iff c, Stmt.beqList_iff a, Stmt.beqList_iff b, and_assoc]
  | .expr e, t => by cases t <;> simp [Stmt.beq, Expr.beq_iff e]

/-- The comparison of lists of statements accepts exactly equal ones. -/
theorem Stmt.beqList_iff : (ss ts : List (Stmt ι)) → (Stmt.beqList ss ts = true ↔ ss = ts)
  | [], ts => by cases ts <;> simp [Stmt.beqList]
  | s :: ss, ts => by cases ts <;> simp [Stmt.beqList, Stmt.beq_iff s, Stmt.beqList_iff ss]

/-- The comparison of methods accepts exactly equal ones. -/
theorem Method.beq_iff : (m n : Method ι) → (Method.beq m n = true ↔ m = n)
  | .mk i n ps b, m => by cases m; simp [Method.beq, Stmt.beqList_iff b, and_assoc]

/-- The comparison of lists of methods accepts exactly equal ones. -/
theorem Method.beqList_iff : (ms ns : List (Method ι)) → (Method.beqList ms ns = true ↔ ms = ns)
  | [], ns => by cases ns <;> simp [Method.beqList]
  | m :: ms, ns => by cases ns <;> simp [Method.beqList, Method.beq_iff m, Method.beqList_iff ms]

end

instance : DecidableEq (Expr ι) := fun e f => decidable_of_iff _ (Expr.beq_iff e f)

instance : DecidableEq (Stmt ι) := fun s t => decidable_of_iff _ (Stmt.beq_iff s t)

instance : DecidableEq (Method ι) := fun m n => decidable_of_iff _ (Method.beq_iff m n)

/-- Programs are compared statement by statement. -/
instance : DecidableEq (Program ι) := fun p q =>
  decidable_of_iff (Stmt.beqList p.statements q.statements = true) (by
    rw [Stmt.beqList_iff]; cases p; cases q; simp)

end Lowering

import Lowering.Json.Decode
import Lowering.Json.Encode

/-!
# Data are read as the trees they are written for

A datum that stands for a tree is the datum of that tree, so that no two data stand for one. Main
statement: `Program.toDatum_of_ofDatum?`.
-/

namespace Lowering

open Json

variable {ι : Type} [InfoFormat ι]

/-- A datum that stands for an info of a type is the datum of that info. -/
def InfosTold (ι : Type) [InfoFormat ι] : Prop :=
  ∀ (d : Datum) (i : ι), InfoFormat.ofDatum? d = some i → InfoFormat.toDatum i = d

/-- What is taken as an offset is the datum of it. -/
theorem infosTold_offset : InfosTold UInt32 := by
  intro d n h
  cases d with
  | number m =>
      cases h
      rfl
  | _ => cases h

/-- What is taken as an optional text is the datum of it. -/
theorem Json.optionalText_of_optionalText? {d : Datum} {n : Option String}
    (h : optionalText? d = some n) : optionalText n = d := by
  unfold optionalText? at h
  split at h
  · cases h
    rfl
  · cases h
    rfl
  · cases h

/-- What is taken as parameters is the data of them. -/
theorem Param.toData_of_ofData? (hinfos : InfosTold ι) {ds : List Datum} {params : List (Param ι)}
    (h : Param.ofData? ds = some params) : Param.toData params = ds := by
  induction ds generalizing params with
  | nil =>
      cases h
      rfl
  | cons d ds ih =>
      unfold Param.ofData? at h
      split at h
      · contradiction
      · rename_i info n rest heq
        cases heq
        obtain ⟨i, hi, hrest⟩ := Option.bind_eq_some_iff.mp h
        obtain ⟨ps, hps, hparams⟩ := Option.bind_eq_some_iff.mp hrest
        cases hparams
        show nodeDatum .name i (.text n) :: Param.toData ps = _
        rw [nodeDatum, hinfos info i hi, ih hps]
      · cases h

mutual

/-- An item that stands for an expression, given its info, is its item. -/
theorem Expr.item_of_ofItem? (hinfos : InfosTold ι) (d : Datum) {build : ι → Expr ι}
    (h : Expr.ofItem? d = some build) (i : ι) : Expr.item (build i) = d ∧ (build i).info = i := by
  unfold Expr.ofItem? at h
  split at h
  iterate 5
    · cases h
      exact ⟨rfl, rfl⟩
  · rename_i object m
    obtain ⟨object', hobject, hbuild⟩ := Option.bind_eq_some_iff.mp h
    cases hbuild
    rw [Expr.item, Expr.nodeDatum_of_ofDatum? hinfos object hobject]
    exact ⟨rfl, rfl⟩
  · rename_i callee inputs
    obtain ⟨callee', hcallee, hrest⟩ := Option.bind_eq_some_iff.mp h
    obtain ⟨inputs', hinputs, hbuild⟩ := Option.bind_eq_some_iff.mp hrest
    cases hbuild
    rw [Expr.item, Expr.nodeDatum_of_ofDatum? hinfos callee hcallee,
      Expr.toData_of_ofData? hinfos inputs hinputs]
    exact ⟨rfl, rfl⟩
  · rename_i n params body
    obtain ⟨n', hn, hrest⟩ := Option.bind_eq_some_iff.mp h
    obtain ⟨params', hparams, hrest⟩ := Option.bind_eq_some_iff.mp hrest
    obtain ⟨body', hbody, hbuild⟩ := Option.bind_eq_some_iff.mp hrest
    cases hbuild
    rw [Expr.item, optionalText_of_optionalText? hn, Param.toData_of_ofData? hinfos hparams,
      Stmt.toData_of_ofData? hinfos body hbody]
    exact ⟨rfl, rfl⟩
  · rename_i n methods
    obtain ⟨n', hn, hrest⟩ := Option.bind_eq_some_iff.mp h
    obtain ⟨methods', hmethods, hbuild⟩ := Option.bind_eq_some_iff.mp hrest
    cases hbuild
    rw [Expr.item, optionalText_of_optionalText? hn,
      Method.toData_of_ofData? hinfos methods hmethods]
    exact ⟨rfl, rfl⟩
  · cases h
termination_by sizeOf d
decreasing_by all_goals (subst_vars; simp +arith)

/-- The same for the node of an expression. -/
theorem Expr.nodeDatum_of_ofDatum? (hinfos : InfosTold ι) (d : Datum) {e : Expr ι}
    (h : Expr.ofDatum? d = some e) : nodeDatum (.choice .expr) e.info (Expr.item e) = d := by
  unfold Expr.ofDatum? at h
  split at h
  · rename_i info item
    obtain ⟨i, hi, hrest⟩ := Option.bind_eq_some_iff.mp h
    obtain ⟨build, hbuild, he⟩ := Option.bind_eq_some_iff.mp hrest
    cases he
    obtain ⟨hitem, hinfo⟩ := Expr.item_of_ofItem? hinfos item hbuild i
    rw [hitem, hinfo, nodeDatum, hinfos info i hi]
  · cases h
termination_by sizeOf d
decreasing_by all_goals (subst_vars; simp +arith)

/-- The same for a list of expressions. -/
theorem Expr.toData_of_ofData? (hinfos : InfosTold ι) (ds : List Datum) {es : List (Expr ι)}
    (h : Expr.ofData? ds = some es) : Expr.toData es = ds := by
  unfold Expr.ofData? at h
  split at h
  · cases h
    rfl
  · rename_i d rest
    obtain ⟨e, he, hrest⟩ := Option.bind_eq_some_iff.mp h
    obtain ⟨es', hes, hcons⟩ := Option.bind_eq_some_iff.mp hrest
    cases hcons
    rw [Expr.toData, Expr.nodeDatum_of_ofDatum? hinfos d he, Expr.toData_of_ofData? hinfos rest hes]
termination_by sizeOf ds
decreasing_by all_goals (subst_vars; simp +arith)

/-- An item that stands for a statement, given its info, is its item. -/
theorem Stmt.item_of_ofItem? (hinfos : InfosTold ι) (d : Datum) {build : ι → Stmt ι}
    (h : Stmt.ofItem? d = some build) (i : ι) : Stmt.item (build i) = d ∧ (build i).info = i := by
  unfold Stmt.ofItem? at h
  split at h
  · rename_i n path
    obtain ⟨n', hn, hbuild⟩ := Option.bind_eq_some_iff.mp h
    cases hbuild
    rw [Stmt.item, optionalText_of_optionalText? hn]
    exact ⟨rfl, rfl⟩
  · rename_i n value
    obtain ⟨value', hvalue, hbuild⟩ := Option.bind_eq_some_iff.mp h
    cases hbuild
    rw [Stmt.item, Expr.nodeDatum_of_ofDatum? hinfos value hvalue]
    exact ⟨rfl, rfl⟩
  · rename_i n value
    obtain ⟨value', hvalue, hbuild⟩ := Option.bind_eq_some_iff.mp h
    cases hbuild
    rw [Stmt.item, Expr.nodeDatum_of_ofDatum? hinfos value hvalue]
    exact ⟨rfl, rfl⟩
  · rename_i object n value _
    obtain ⟨object', hobject, hrest⟩ := Option.bind_eq_some_iff.mp h
    obtain ⟨value', hvalue, hbuild⟩ := Option.bind_eq_some_iff.mp hrest
    cases hbuild
    rw [Stmt.item, Expr.nodeDatum_of_ofDatum? hinfos object hobject,
      Expr.nodeDatum_of_ofDatum? hinfos value hvalue]
    exact ⟨rfl, rfl⟩
  · rename_i value
    obtain ⟨value', hvalue, hbuild⟩ := Option.bind_eq_some_iff.mp h
    cases hbuild
    rw [Stmt.item, Expr.nodeDatum_of_ofDatum? hinfos value hvalue]
    exact ⟨rfl, rfl⟩
  · rename_i condition thenBlock elseBlock
    obtain ⟨condition', hcondition, hrest⟩ := Option.bind_eq_some_iff.mp h
    obtain ⟨then', hthen, hrest⟩ := Option.bind_eq_some_iff.mp hrest
    obtain ⟨else', helse, hbuild⟩ := Option.bind_eq_some_iff.mp hrest
    cases hbuild
    rw [Stmt.item, Expr.nodeDatum_of_ofDatum? hinfos condition hcondition,
      Stmt.toData_of_ofData? hinfos thenBlock hthen, Stmt.toData_of_ofData? hinfos elseBlock helse]
    exact ⟨rfl, rfl⟩
  · rename_i item
    obtain ⟨e, he, hbuild⟩ := Option.bind_eq_some_iff.mp h
    cases hbuild
    obtain ⟨hitem, hinfo⟩ := Expr.item_of_ofItem? hinfos item he i
    rw [Stmt.item, hitem]
    exact ⟨rfl, hinfo⟩
  · cases h
termination_by sizeOf d
decreasing_by all_goals (subst_vars; simp +arith)

/-- The same for a list of statements. -/
theorem Stmt.toData_of_ofData? (hinfos : InfosTold ι) (ds : List Datum) {ss : List (Stmt ι)}
    (h : Stmt.ofData? ds = some ss) : Stmt.toData ss = ds := by
  unfold Stmt.ofData? at h
  split at h
  · cases h
    rfl
  · rename_i d rest
    obtain ⟨s, hs, hrest⟩ := Option.bind_eq_some_iff.mp h
    obtain ⟨ss', hss, hcons⟩ := Option.bind_eq_some_iff.mp hrest
    cases hcons
    unfold Stmt.ofDatum? at hs
    split at hs
    · rename_i info item
      obtain ⟨i, hi, hitem⟩ := Option.bind_eq_some_iff.mp hs
      obtain ⟨build, hbuild, hsome⟩ := Option.bind_eq_some_iff.mp hitem
      cases hsome
      obtain ⟨hitem, hinfo⟩ := Stmt.item_of_ofItem? hinfos item hbuild i
      rw [Stmt.toData, hitem, hinfo, nodeDatum, hinfos info i hi,
        Stmt.toData_of_ofData? hinfos rest hss]
    · cases hs
termination_by sizeOf ds
decreasing_by all_goals (subst_vars; simp +arith)

/-- An item that stands for a method, given its info, is its item. -/
theorem Method.item_of_ofItem? (hinfos : InfosTold ι) (d : Datum) {build : ι → Method ι}
    (h : Method.ofItem? d = some build) (i : ι) :
    Method.item (build i) = d ∧ (build i).info = i := by
  unfold Method.ofItem? at h
  split at h
  · rename_i n params body
    obtain ⟨params', hparams, hrest⟩ := Option.bind_eq_some_iff.mp h
    obtain ⟨body', hbody, hbuild⟩ := Option.bind_eq_some_iff.mp hrest
    cases hbuild
    rw [Method.item, Param.toData_of_ofData? hinfos hparams,
      Stmt.toData_of_ofData? hinfos body hbody]
    exact ⟨rfl, rfl⟩
  · cases h
termination_by sizeOf d
decreasing_by all_goals (subst_vars; simp +arith)

/-- The same for a list of methods. -/
theorem Method.toData_of_ofData? (hinfos : InfosTold ι) (ds : List Datum) {ms : List (Method ι)}
    (h : Method.ofData? ds = some ms) : Method.toData ms = ds := by
  unfold Method.ofData? at h
  split at h
  · cases h
    rfl
  · rename_i d rest
    obtain ⟨m, hm, hrest⟩ := Option.bind_eq_some_iff.mp h
    obtain ⟨ms', hms, hcons⟩ := Option.bind_eq_some_iff.mp hrest
    cases hcons
    unfold Method.ofDatum? at hm
    split at hm
    · rename_i info item
      obtain ⟨i, hi, hitem⟩ := Option.bind_eq_some_iff.mp hm
      obtain ⟨build, hbuild, hsome⟩ := Option.bind_eq_some_iff.mp hitem
      cases hsome
      obtain ⟨hitem, hinfo⟩ := Method.item_of_ofItem? hinfos item hbuild i
      rw [Method.toData, hitem, hinfo, nodeDatum, hinfos info i hi,
        Method.toData_of_ofData? hinfos rest hms]
    · cases hm
termination_by sizeOf ds
decreasing_by all_goals (subst_vars; simp +arith)

end

/-- A datum that stands for a program is the datum of that program. -/
theorem Program.toDatum_of_ofDatum? (hinfos : InfosTold ι) {d : Datum} {p : Program ι}
    (h : Program.ofDatum? d = some p) : p.toDatum = d := by
  unfold Program.ofDatum? at h
  split at h
  · rename_i statements
    obtain ⟨ss, hss, hp⟩ := Option.bind_eq_some_iff.mp h
    cases hp
    rw [Program.toDatum, Stmt.toData_of_ofData? hinfos statements hss]
  · cases h

end Lowering

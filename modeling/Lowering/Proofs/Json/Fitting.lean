import Mathlib.Data.List.Basic
import Lowering.Json.Encode

/-!
# Data of a shape

`Datum.Fits` says which data are of a shape, and `Datum.nesting` how deep a datum nests. Main
statement: the datum of a program has the shape of programs (`Program.toDatum_fits`).
-/

namespace Lowering

open Json

namespace Json

/-- The data of a shape, where infos are of a given kind. An optional field may be null instead. -/
inductive Datum.Fits : InfoKind → Shape → Datum → Prop
  | unitInfo : Fits .unit .info .null
  | offsetInfo (n : UInt32) : Fits .offset .info (.number n)
  | textInfo (t : String) : Fits .text .info (.text t)
  | text {kind : InfoKind} (t : String) : Fits kind .text (.text t)
  | list {kind : InfoKind} {item : Item} {items : List Datum}
      (hitems : ∀ d ∈ items, Fits kind (.node item) d) : Fits kind (.nodes item) (.list items)
  | record {kind : InfoKind} {r : Record} {fields : List Datum}
      (hlength : fields.length = r.fields.length)
      (hfields : ∀ entry ∈ r.fields.zip fields,
        ¬ (entry.1.optional = true ∧ entry.2 = .null) → Fits kind entry.1.shape entry.2) :
      Fits kind (.record r) (.record r fields)
  | bare {kind : InfoKind} {c : Choice} {tag : Tag} (htag : tag ∈ c.tags)
      (hpayload : tag.payload? = none) : Fits kind (.choice c) (.bare tag)
  | variant {kind : InfoKind} {c : Choice} {tag : Tag} {shape : Shape} {payload : Datum}
      (htag : tag ∈ c.tags) (hshape : tag.payload? = some shape)
      (hpayload : Fits kind shape payload) : Fits kind (.choice c) (.variant tag payload)

mutual

/-- How many arrays and objects are around the innermost part of a datum. -/
def Datum.nesting : Datum → Nat
  | .list items => Datum.nestingAll items + 1
  | .record _ fields => Datum.nestingAll fields + 1
  | .variant _ payload => Datum.nesting payload + 1
  | .null | .number _ | .text _ | .bare _ => 0

/-- The nesting of the deepest of some data. -/
def Datum.nestingAll : List Datum → Nat
  | [] => 0
  | d :: ds => max (Datum.nesting d) (Datum.nestingAll ds)

end

end Json

variable {ι : Type} [InfoFormat ι]

/-- The infos of a type are written as infos of its kind. -/
def InfosFit (ι : Type) [InfoFormat ι] : Prop :=
  ∀ i : ι, (InfoFormat.toDatum i).Fits (InfoFormat.kind ι) .info

/-- Offsets have data of their kind of infos. -/
theorem infosFit_offset : InfosFit UInt32 := Datum.Fits.offsetInfo

/-- Texts have data of their kind of infos. -/
theorem infosFit_text : InfosFit String := Datum.Fits.textInfo

/-- The trivial info has data of its kind of infos. -/
theorem infosFit_unit : InfosFit Unit := fun _ => .unitInfo

/-- The fields of a record fit when the first does and the others do. -/
theorem Json.fits_cons {kind : InfoKind} {field : Field} {d : Datum} {fields : List Field}
    {data : List Datum} (h : ¬ (field.optional = true ∧ d = .null) → d.Fits kind field.shape)
    (hs : ∀ entry ∈ fields.zip data,
      ¬ (entry.1.optional = true ∧ entry.2 = .null) → entry.2.Fits kind entry.1.shape) :
    ∀ entry ∈ (field :: fields).zip (d :: data),
      ¬ (entry.1.optional = true ∧ entry.2 = .null) → entry.2.Fits kind entry.1.shape := by
  rw [List.zip_cons_cons]
  exact List.forall_mem_cons.mpr ⟨h, hs⟩

/-- An optional text fits an optional field for texts, in which a null is allowed. -/
theorem Json.optionalText_fits {kind : InfoKind} (n : Option String) {field : Field}
    (hshape : field.shape = .text) (hoptional : field.optional = true) :
    ¬ (field.optional = true ∧ optionalText n = .null) →
      (optionalText n).Fits kind field.shape := by
  intro hpresent
  cases n with
  | none => exact absurd ⟨hoptional, rfl⟩ hpresent
  | some t => exact hshape ▸ .text t

/-- A node fits the shape of nodes if its item fits. -/
theorem Json.nodeDatum_fits (hinfos : InfosFit ι) (item : Item) (i : ι) {d : Datum}
    (h : d.Fits (InfoFormat.kind ι) item.shape) :
    (nodeDatum item i d).Fits (InfoFormat.kind ι) (.node item) :=
  .record rfl (fits_cons (fun _ => hinfos i) (fits_cons (fun _ => h) (by nofun)))

/-- The same for the node of an expression as a field of another one. -/
theorem Expr.node_fits (hinfos : InfosFit ι) {e : Expr ι}
    (h : (Expr.item e).Fits (InfoFormat.kind ι) (.choice .expr)) :
    (nodeDatum (.choice .expr) e.info (Expr.item e)).Fits (InfoFormat.kind ι) .exprNode :=
  nodeDatum_fits hinfos (.choice .expr) e.info h

/-- The data of parameters are nodes of names. -/
theorem Param.toData_fit (hinfos : InfosFit ι) (params : List (Param ι)) :
    ∀ d ∈ Param.toData params, d.Fits (InfoFormat.kind ι) (.node .name) := by
  intro d hd
  obtain ⟨p, _, rfl⟩ := List.mem_map.mp hd
  exact nodeDatum_fits hinfos .name p.info (.text p.name)

mutual

/-- The item of an expression is one of the variants of expressions, with what belongs to it. -/
theorem Expr.item_fits (hinfos : InfosFit ι) (e : Expr ι) :
    (Expr.item e).Fits (InfoFormat.kind ι) (.choice .expr) := by
  cases e with
  | unit i => exact .bare (by decide) rfl
  | name i n => exact .variant (by decide) rfl (.text n)
  | text i t => exact .variant (by decide) rfl (.text t)
  | number i d => exact .variant (by decide) rfl (.text d)
  | «variable» i n => exact .variant (by decide) rfl (.text n)
  | member i object m =>
      have hobject := Expr.node_fits hinfos (Expr.item_fits hinfos object)
      exact .variant (by decide) rfl
        (.record rfl (fits_cons (fun _ => hobject) (fits_cons (fun _ => .text m) (by nofun))))
  | call i callee inputs =>
      have hcallee := Expr.node_fits hinfos (Expr.item_fits hinfos callee)
      have hinputs := Datum.Fits.list (Expr.toData_fit hinfos inputs)
      exact .variant (by decide) rfl
        (.record rfl (fits_cons (fun _ => hcallee) (fits_cons (fun _ => hinputs) (by nofun))))
  | functionLit i n params body =>
      have hparams := Datum.Fits.list (Param.toData_fit hinfos params)
      have hbody := Datum.Fits.list (Stmt.toData_fit hinfos body)
      exact .variant (by decide) rfl
        (.record rfl (fits_cons (optionalText_fits n rfl rfl)
          (fits_cons (fun _ => hparams) (fits_cons (fun _ => hbody) (by nofun)))))
  | classLit i n methods =>
      have hmethods := Datum.Fits.list (Method.toData_fit hinfos methods)
      exact .variant (by decide) rfl
        (.record rfl (fits_cons (optionalText_fits n rfl rfl)
          (fits_cons (fun _ => hmethods) (by nofun))))

/-- The same for the nodes of a list of expressions. -/
theorem Expr.toData_fit (hinfos : InfosFit ι) (es : List (Expr ι)) :
    ∀ d ∈ Expr.toData es, d.Fits (InfoFormat.kind ι) (.node (.choice .expr)) := by
  cases es with
  | nil => nofun
  | cons e es =>
      have he := Expr.node_fits hinfos (Expr.item_fits hinfos e)
      exact List.forall_mem_cons.mpr ⟨he, Expr.toData_fit hinfos es⟩

/-- The item of a statement is one of the variants of statements, with what belongs to it. -/
theorem Stmt.item_fits (hinfos : InfosFit ι) (s : Stmt ι) :
    (Stmt.item s).Fits (InfoFormat.kind ι) (.choice .stmt) := by
  cases s with
  | importPackage i n path =>
      exact .variant (by decide) rfl
        (.record rfl (fits_cons (optionalText_fits n rfl rfl)
          (fits_cons (fun _ => .text path) (by nofun))))
  | declare i n value =>
      have hvalue := Expr.node_fits hinfos (Expr.item_fits hinfos value)
      exact .variant (by decide) rfl
        (.record rfl (fits_cons (fun _ => .text n) (fits_cons (fun _ => hvalue) (by nofun))))
  | assign i n value =>
      have hvalue := Expr.node_fits hinfos (Expr.item_fits hinfos value)
      exact .variant (by decide) rfl
        (.record rfl (fits_cons (fun hpresent => absurd ⟨rfl, rfl⟩ hpresent)
          (fits_cons (fun _ => .text n) (fits_cons (fun _ => hvalue) (by nofun)))))
  | assignMember i object n value =>
      have hobject := Expr.node_fits hinfos (Expr.item_fits hinfos object)
      have hvalue := Expr.node_fits hinfos (Expr.item_fits hinfos value)
      exact .variant (by decide) rfl
        (.record rfl (fits_cons (fun _ => hobject)
          (fits_cons (fun _ => .text n) (fits_cons (fun _ => hvalue) (by nofun)))))
  | ret i value =>
      have hvalue := Expr.node_fits hinfos (Expr.item_fits hinfos value)
      exact .variant (by decide) rfl hvalue
  | branch i condition thenBlock elseBlock =>
      have hcondition := Expr.node_fits hinfos (Expr.item_fits hinfos condition)
      have hthen := Datum.Fits.list (Stmt.toData_fit hinfos thenBlock)
      have helse := Datum.Fits.list (Stmt.toData_fit hinfos elseBlock)
      exact .variant (by decide) rfl
        (.record rfl (fits_cons (fun _ => hcondition)
          (fits_cons (fun _ => hthen) (fits_cons (fun _ => helse) (by nofun)))))
  | expr e => exact .variant (by decide) rfl (Expr.item_fits hinfos e)

/-- The same for the nodes of a list of statements. -/
theorem Stmt.toData_fit (hinfos : InfosFit ι) (ss : List (Stmt ι)) :
    ∀ d ∈ Stmt.toData ss, d.Fits (InfoFormat.kind ι) (.node (.choice .stmt)) := by
  cases ss with
  | nil => nofun
  | cons s ss =>
      have hs := nodeDatum_fits hinfos (.choice .stmt) s.info (Stmt.item_fits hinfos s)
      exact List.forall_mem_cons.mpr ⟨hs, Stmt.toData_fit hinfos ss⟩

/-- The item of a method is one of the variants of methods, with what belongs to it. -/
theorem Method.item_fits (hinfos : InfosFit ι) (m : Method ι) :
    (Method.item m).Fits (InfoFormat.kind ι) (.choice .method) := by
  cases m with
  | mk i n params body =>
      have hparams := Datum.Fits.list (Param.toData_fit hinfos params)
      have hbody := Datum.Fits.list (Stmt.toData_fit hinfos body)
      exact .variant (by decide) rfl
        (.record rfl (fits_cons (fun _ => .text n)
          (fits_cons (fun _ => hparams) (fits_cons (fun _ => hbody) (by nofun)))))

/-- The same for the nodes of a list of methods. -/
theorem Method.toData_fit (hinfos : InfosFit ι) (ms : List (Method ι)) :
    ∀ d ∈ Method.toData ms, d.Fits (InfoFormat.kind ι) (.node (.choice .method)) := by
  cases ms with
  | nil => nofun
  | cons m ms =>
      have hm := nodeDatum_fits hinfos (.choice .method) m.info (Method.item_fits hinfos m)
      exact List.forall_mem_cons.mpr ⟨hm, Method.toData_fit hinfos ms⟩

end

/-- The datum of a program has the shape of programs. -/
theorem Program.toDatum_fits (hinfos : InfosFit ι) (p : Program ι) :
    p.toDatum.Fits (InfoFormat.kind ι) (.record .program) :=
  .record rfl (fits_cons (fun _ => .list (Stmt.toData_fit hinfos p.statements)) (by nofun))

end Lowering

import Lowering.Json.Decode
import Lowering.Proofs.Json.Reading

/-!
# Programs are read as they were written

Main statement: the text of a program, in either layout, is read back as that program if it never
has more than 127 brackets open at once, and is refused as malformed otherwise (`decode_encode`). A
datum stands for the tree that it was made of, and its text is read back as that datum.
-/

namespace Lowering

open Json

variable {ι : Type} [InfoFormat ι]

/-- An optional text is got back from its datum. -/
theorem Json.optionalText?_optionalText (n : Option String) :
    optionalText? (optionalText n) = some n := by
  cases n with
  | none => rfl
  | some t => rfl

/-- Parameters are got back from their data. -/
theorem Param.ofData?_toData (params : List (Param ι)) :
    Param.ofData? (Param.toData params) = some params := by
  induction params with
  | nil => rfl
  | cons p params ih =>
      show Param.ofData? (nodeDatum .name p.info (.text p.name) :: Param.toData params) = _
      simp [nodeDatum, Param.ofData?, InfoFormat.ofDatum?_toDatum, ih]

/-- An expression is got back from its node if it is from its item. -/
theorem Expr.ofDatum?_node {e : Expr ι}
    (h : ∃ build, Expr.ofItem? (Expr.item e) = some build ∧ build e.info = e) :
    Expr.ofDatum? (nodeDatum (.choice .expr) e.info (Expr.item e)) = some e := by
  obtain ⟨build, hitem, hbuild⟩ := h
  simp [nodeDatum, Expr.ofDatum?, InfoFormat.ofDatum?_toDatum, hitem, hbuild]

mutual

/-- The item of an expression stands for it, given its info. -/
theorem Expr.ofItem?_item (e : Expr ι) :
    ∃ build, Expr.ofItem? (Expr.item e) = some build ∧ build e.info = e := by
  cases e with
  | unit i => exact ⟨_, rfl, rfl⟩
  | name i n => exact ⟨_, rfl, rfl⟩
  | text i t => exact ⟨_, rfl, rfl⟩
  | number i d => exact ⟨_, rfl, rfl⟩
  | «variable» i n => exact ⟨_, rfl, rfl⟩
  | member i object m =>
      have hobject := Expr.ofDatum?_node (Expr.ofItem?_item object)
      refine ⟨fun i => .member i object m, ?_, rfl⟩
      simp [Expr.item, Expr.ofItem?, hobject]
  | call i callee inputs =>
      have hcallee := Expr.ofDatum?_node (Expr.ofItem?_item callee)
      refine ⟨fun i => .call i callee inputs, ?_, rfl⟩
      simp [Expr.item, Expr.ofItem?, hcallee, Expr.ofData?_toData inputs]
  | functionLit i n params body =>
      refine ⟨fun i => .functionLit i n params body, ?_, rfl⟩
      simp [Expr.item, Expr.ofItem?, optionalText?_optionalText, Param.ofData?_toData,
        Stmt.ofData?_toData body]
  | classLit i n methods =>
      refine ⟨fun i => .classLit i n methods, ?_, rfl⟩
      simp [Expr.item, Expr.ofItem?, optionalText?_optionalText, Method.ofData?_toData methods]

/-- The same for a list of expressions. -/
theorem Expr.ofData?_toData (es : List (Expr ι)) : Expr.ofData? (Expr.toData es) = some es := by
  cases es with
  | nil => rfl
  | cons e es =>
      have he := Expr.ofDatum?_node (Expr.ofItem?_item e)
      simp [Expr.toData, Expr.ofData?, he, Expr.ofData?_toData es]

/-- The item of a statement stands for it, given its info. -/
theorem Stmt.ofItem?_item (s : Stmt ι) :
    ∃ build, Stmt.ofItem? (Stmt.item s) = some build ∧ build s.info = s := by
  cases s with
  | importPackage i n path =>
      refine ⟨fun i => .importPackage i n path, ?_, rfl⟩
      simp [Stmt.item, Stmt.ofItem?, optionalText?_optionalText]
  | declare i n value =>
      have hvalue := Expr.ofDatum?_node (Expr.ofItem?_item value)
      refine ⟨fun i => .declare i n value, ?_, rfl⟩
      simp [Stmt.item, Stmt.ofItem?, hvalue]
  | assign i n value =>
      have hvalue := Expr.ofDatum?_node (Expr.ofItem?_item value)
      refine ⟨fun i => .assign i n value, ?_, rfl⟩
      simp [Stmt.item, Stmt.ofItem?, hvalue]
  | assignMember i object n value =>
      have hobject := Expr.ofDatum?_node (Expr.ofItem?_item object)
      have hvalue := Expr.ofDatum?_node (Expr.ofItem?_item value)
      refine ⟨fun i => .assignMember i object n value, ?_, rfl⟩
      -- the datum of an object is a record, so that it is not taken for a missing one
      show (Expr.ofDatum? _).bind _ = _
      rw [hobject]
      show (Expr.ofDatum? _).bind _ = _
      rw [hvalue]
      rfl
  | ret i value =>
      have hvalue := Expr.ofDatum?_node (Expr.ofItem?_item value)
      refine ⟨fun i => .ret i value, ?_, rfl⟩
      simp [Stmt.item, Stmt.ofItem?, hvalue]
  | branch i condition thenBlock elseBlock =>
      have hcondition := Expr.ofDatum?_node (Expr.ofItem?_item condition)
      refine ⟨fun i => .branch i condition thenBlock elseBlock, ?_, rfl⟩
      simp [Stmt.item, Stmt.ofItem?, hcondition, Stmt.ofData?_toData thenBlock,
        Stmt.ofData?_toData elseBlock]
  | expr e =>
      obtain ⟨build, hitem, hbuild⟩ := Expr.ofItem?_item e
      refine ⟨fun i => .expr (build i), ?_, congrArg Stmt.expr hbuild⟩
      simp [Stmt.item, Stmt.ofItem?, hitem]

/-- The same for a list of statements. -/
theorem Stmt.ofData?_toData (ss : List (Stmt ι)) : Stmt.ofData? (Stmt.toData ss) = some ss := by
  cases ss with
  | nil => rfl
  | cons s ss =>
      obtain ⟨build, hitem, hbuild⟩ := Stmt.ofItem?_item s
      simp [Stmt.toData, nodeDatum, Stmt.ofData?, Stmt.ofDatum?, InfoFormat.ofDatum?_toDatum, hitem,
        hbuild, Stmt.ofData?_toData ss]

/-- The same for a list of methods. -/
theorem Method.ofData?_toData (ms : List (Method ι)) :
    Method.ofData? (Method.toData ms) = some ms := by
  cases ms with
  | nil => rfl
  | cons m ms =>
      cases m with
      | mk i n params body =>
          simp [Method.toData, Method.item, Method.info, nodeDatum, Method.ofData?,
            Method.ofDatum?, Method.ofItem?, InfoFormat.ofDatum?_toDatum, Param.ofData?_toData,
            Stmt.ofData?_toData body, Method.ofData?_toData ms]

end

/-- The datum of a program stands for it. -/
theorem Program.ofDatum?_toDatum (p : Program ι) : Program.ofDatum? p.toDatum = some p := by
  simp [Program.toDatum, Program.ofDatum?, Stmt.ofData?_toData]

/-- The text of a datum of a shape is read as that datum, within the nesting limit, also if blanks
follow it. -/
theorem Json.readText_toText_append {kind : InfoKind} {shape : Shape} {d : Datum}
    (h : d.Fits kind shape) (layout : Layout) {blanks : List Char}
    (hblanks : ∀ c ∈ blanks, isBlank c = true) :
    readText kind shape ((d.toText layout).toList ++ blanks) =
      ifWithin nestingLimit d.nesting d := by
  have hends : NumeralEnds blanks := by
    rw [← List.append_nil blanks]
    exact numeralEnds_blanks hblanks (by nofun)
  have hnone : skipBlanks blanks = [] := by
    rw [← List.append_nil blanks, skipBlanks_append hblanks]
    rfl
  have hsteps : (d.write layout 0).length ≤ (d.write layout 0 ++ blanks).length + 1 := by
    rw [List.length_append]
    omega
  have hread := h.readsBack nestingLimit hsteps (d.write layout 0 ++ blanks) blanks
    (fun _ _ => hends) (d.skipBlanks_write layout 0 blanks)
  rw [Datum.toText, String.toList_ofList, readText, hread]
  apply ifWithin_bind_ok
  dsimp only
  rw [hnone]
  rfl

/-- A program is read back from its text, with blanks after it, exactly if it is within the nesting
limit. -/
theorem Program.decode_encode_append (hinfos : InfosFit ι) (layout : Layout) (p : Program ι)
    {blanks : String} (hblanks : ∀ c ∈ blanks.toList, isBlank c = true) :
    Program.decode (p.encode layout ++ blanks) =
      if openBrackets (p.encode layout) ≤ nestingLimit then .ok p else .error .malformed := by
  have hfits := p.toDatum_fits hinfos
  rw [Program.encode, openBrackets_toText hfits, Program.decode, decodeAs, String.toList_append,
    readText_toText_append hfits layout hblanks]
  apply ifWithin_bind_ok
  rw [p.ofDatum?_toDatum]

/-- The same without blanks. -/
theorem Program.decode_encode_of_infosFit (hinfos : InfosFit ι) (layout : Layout)
    (p : Program ι) :
    Program.decode (p.encode layout) =
      if openBrackets (p.encode layout) ≤ nestingLimit then .ok p else .error .malformed := by
  have hnone : ∀ c ∈ "".toList, isBlank c = true := by nofun
  have hdecode := p.decode_encode_append hinfos layout hnone
  rwa [String.append_empty] at hdecode

/-- The text of a program is read back as that program, whether its infos are offsets, texts or
nothing, if at most 127 of its brackets are open at once; otherwise it is refused as malformed. -/
theorem decode_encode (layout : Layout) :
    (∀ p : Program UInt32, Program.decode (p.encode layout) =
      if openBrackets (p.encode layout) ≤ 127 then .ok p else .error .malformed) ∧
    (∀ p : Program String, Program.decode (p.encode layout) =
      if openBrackets (p.encode layout) ≤ 127 then .ok p else .error .malformed) ∧
    (∀ p : Program Unit, Program.decode (p.encode layout) =
      if openBrackets (p.encode layout) ≤ 127 then .ok p else .error .malformed) :=
  ⟨Program.decode_encode_of_infosFit infosFit_offset layout,
    Program.decode_encode_of_infosFit infosFit_text layout,
    Program.decode_encode_of_infosFit infosFit_unit layout⟩

end Lowering

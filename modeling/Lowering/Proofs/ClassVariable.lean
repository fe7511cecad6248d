import Lowering.Proofs.IdleStages
import Lowering.Proofs.Places

/-!
# The class variable

A constructor keeps the class that it makes in a variable whose name is no name of the language. If
the source does not use that name, then every use of it in the lowered program stands directly in
the body of a constructor and refers to the variable that the constructor declares first; it is not
boxed and no function captures it, however classes are nested. `Constructor.Look.Constructs` says
what the constructor of a class looks like between two stages, and `Constructor.Keeps` what a stage
has to do with the variable so that constructors stay such. Main statement:
`class_variable_hygienic`.
-/

namespace Lowering

variable {σ ι : Type}

/-! ## What the source mentions -/

/-- The info of a method and its name. -/
def Method.label : Method ι → ι × String
  | .mk i n _ _ => (i, n)

/-- A class literal without the code of its methods. -/
structure ClassOutline (ι : Type) where
  info : ι
  methods : List (ι × String)
deriving DecidableEq

/-- A variable that is read or assigned, or a class literal. -/
inductive Mention (ι : Type) where
  | variable (name : String)
  | classLit (outline : ClassOutline ι)
deriving DecidableEq

/-- Each read of and assignment to a variable and each class literal contributes itself. -/
def Mention.collector : Collector Unit ι (Mention ι) where
  onStmt
    | _, .assign _ n _ => [.variable n]
    | _, _ => []
  onExpr
    | _, .variable _ n => [.variable n]
    | _, .classLit i _ methods => [.classLit ⟨i, methods.map Method.label⟩]
    | _, _ => []

/-- The variables that a program uses and the classes that it defines. -/
def Program.mentions (p : Program ι) : List (Mention ι) :=
  Mention.collector.block () p.statements

namespace Constructor

/-! ## Constructors between stages -/

/-- How constructors look after their stage, after member access, and after closure conversion. -/
inductive Look where
  | constructed | accessed | converted

namespace Look

/-- How an assignment to a member is written. -/
def written : Look → Stmt ι → Stmt ι
  | constructed => id
  | accessed | converted => Property.assignment

/-- What a function may capture: nothing before closure conversion, and never the class variable. -/
def Captures : Look → List String → Prop
  | constructed, captured | accessed, captured => captured = []
  | converted, captured => constructedName ∉ captured

/-- The function of a method, with its captures. -/
def IsMethod (look : Look) (i : ι) (e : Expr ι) : Prop :=
  ∃ captured params body, look.Captures captured ∧
    e = Closure.bundle captured (.functionLit i none (⟨i, receiverName⟩ :: params) body)

/-- The statement assigns a method to the class variable, read with the info of the class. -/
def Assigns (look : Look) (classInfo : ι) (method : ι × String) (s : Stmt ι) : Prop :=
  ∃ e, look.IsMethod method.1 e ∧ s = look.written (.assignMember method.1
    (.variable classInfo constructedName) method.2 (Hook.createMethod.call method.1 [e]))

/-- The constructor of a class declares the class variable, assigns the methods of the class to it
one by one and returns it. -/
structure Constructs (look : Look) (c : ClassOutline ι) (params : List (Param ι))
    (body : Block ι) : Prop where
  captures : look.Captures (Param.names params)
  body : ∃ assignments,
    body = .declare c.info constructedName (Hook.createClass.call c.info []) ::
      (assignments ++ [.ret c.info (.variable c.info constructedName)]) ∧
    List.Forall₂ (look.Assigns c.info) c.methods assignments

/-- The place is directly in the constructor of a known class. -/
def Holds (look : Look) (known : ClassOutline ι → Prop) : Place ι → Prop
  | .directly params body => ∃ c, known c ∧ look.Constructs c params body
  | _ => False

variable {look : Look} {known : ClassOutline ι → Prop} {c : ClassOutline ι}
  {params : List (Param ι)} {b : Block ι}

/-- An assignment to a member declares nothing, however it is written. -/
theorem declared?_written (look : Look) (i : ι) (object : Expr ι) (n : String) (value : Expr ι) :
    (look.written (.assignMember i object n value)).declared? = none := by
  cases look <;> rfl

/-- However an assignment is written, it has the parts that it has. -/
theorem collect_written {τ α : Type} {C : Collector τ ι α} (hC : C.SkipsCalls) (look : Look)
    (scope : τ) (s : Stmt ι) : C.stmt scope (look.written s) = C.stmt scope s := by
  cases look with
  | constructed => rfl
  | accessed | converted => exact Property.mapper_shapesCalls.collectStmt hC scope s

/-- Assignments of methods declare nothing. -/
theorem declared_assignments {methods : List (ι × String)} {assignments : List (Stmt ι)}
    {i : ι} (h : List.Forall₂ (look.Assigns i) methods assignments) :
    Block.declared assignments = [] := by
  induction h with
  | nil => rfl
  | cons hhead _ ih =>
      obtain ⟨e, _, rfl⟩ := hhead
      rw [Block.declared, List.filterMap_cons, declared?_written]
      exact ih

/-- The body of a constructor declares the class variable and nothing else. -/
theorem Constructs.declared_eq (h : look.Constructs c params b) :
    b.declared = [constructedName] := by
  obtain ⟨assignments, rfl, hassignments⟩ := h.body
  show constructedName :: Block.declared (assignments ++ [_]) = _
  rw [Block.declared_append, declared_assignments hassignments]
  rfl

/-- It declares it first, and without using it. -/
theorem Constructs.startsWith (h : look.Constructs c params b) :
    Block.StartsWith constructedName b := by
  have hdeclared := h.declared_eq
  obtain ⟨assignments, rfl, -⟩ := h.body
  injection hdeclared with _ hrest
  refine ⟨rfl, ?_, ?_⟩
  · rw [free_hook_call]
    exact List.not_mem_nil
  · show constructedName ∉ Block.declared _
    rw [Block.declared, hrest]
    exact List.not_mem_nil

/-- Where a constructor holds, the class variable is that of the constructor. -/
theorem Holds.owns {place : Place ι} (h : look.Holds known place) :
    place.Owns constructedName := by
  cases place with
  | directly =>
      obtain ⟨c, _, hc⟩ := h
      exact hc.startsWith
  | _ => exact h.elim

end Look

/-- In the scope, which is that of the body of a constructor, the mapper leaves the class variable
alone and turns methods and their assignments into such of the next look. -/
structure Keeps (M : Mapper σ ι) (before after : Look) (scope : σ) : Prop where
  reads : ∀ i, M.expr scope (.variable i constructedName) = .variable i constructedName
  declares : ∀ i value,
    M.onStmt scope (.declare i constructedName value) = .declare i constructedName value
  returns : ∀ i value, M.onStmt scope (.ret i value) = .ret i value
  assigns : ∀ i j n value,
    M.stmt scope (before.written (.assignMember j (.variable i constructedName) n value)) =
      after.written (.assignMember j (.variable i constructedName) n (M.expr scope value))
  method : ∀ {i e place}, before.IsMethod i e →
    (∀ x ∈ (Place.collector constructedName).expr place e, x.Owns constructedName) →
    after.IsMethod i (M.expr scope e)

section

variable {M : Mapper σ ι} {before after : Look} {scope : σ} {place : Place ι}

/-- Assignments of methods stay such, each of the same method. -/
theorem Keeps.assignments (h : Keeps M before after scope) (hM : M.PassesCalls) {i : ι}
    {methods : List (ι × String)} {assignments : List (Stmt ι)}
    (hassignments : List.Forall₂ (before.Assigns i) methods assignments)
    (howns : ∀ x ∈ (Place.collector constructedName).stmts place assignments,
      x.Owns constructedName) :
    List.Forall₂ (after.Assigns i) methods (M.stmts scope assignments) := by
  induction hassignments with
  | nil => exact .nil
  | cons hhead _ ih =>
      rw [Collector.stmts, List.forall_mem_append] at howns
      obtain ⟨e, he, rfl⟩ := hhead
      have hvalue : ∀ x ∈ (Place.collector constructedName).expr place e,
          x.Owns constructedName := by
        rw [Look.collect_written (Place.collector_skipsCalls _)] at howns
        simp only [Collector.stmt, (Place.collector_skipsCalls _).expr_hook_call, Collector.exprs,
          List.forall_mem_append] at howns
        exact howns.1.1.2.1
      rw [Mapper.stmts, h.assigns, hM.expr_hook_call]
      exact .cons ⟨_, h.method he hvalue, rfl⟩ (ih howns.2)

/-- Constructors stay constructors. -/
theorem Keeps.constructs (h : Keeps M before after scope) (hM : M.PassesCalls)
    {c : ClassOutline ι} {params : List (Param ι)} {b : Block ι}
    (hb : before.Constructs c params b) (hcaptures : after.Captures (Param.names params))
    (howns : ∀ x ∈ (Place.collector constructedName).stmts place b, x.Owns constructedName) :
    after.Constructs c params (M.stmts scope b) := by
  obtain ⟨assignments, rfl, hassignments⟩ := hb.body
  rw [Collector.stmts, List.forall_mem_append, Collector.stmts_append,
    List.forall_mem_append] at howns
  refine ⟨hcaptures, M.stmts scope assignments, ?_, h.assignments hM hassignments howns.2.1⟩
  rw [Mapper.stmts, Mapper.stmt_declare, hM.expr_hook_call, h.declares, Mapper.stmts_eq_map,
    List.map_append, ← Mapper.stmts_eq_map, List.map_singleton, Mapper.stmt_ret, h.reads, h.returns]
  rfl

end

/-! ## Stages between constructors and lowered programs -/

/-- All uses of the class variable in a block are such of the variable that the body around them
starts with. -/
def Owned (place : Place ι) (params : List (Param ι)) (b : Block ι) : Prop :=
  ∀ x ∈ (Place.collector constructedName).body place params b, x.Owns constructedName

/-- Places before and after mapping, and the scope of the mapper there: a use that stood directly in
the constructor of a known class still does. -/
structure Follows (before after : Look) (known : ClassOutline ι → Prop) (J : σ → Prop)
    (s : Place ι) (scope : σ) (t : Place ι) : Prop where
  source : s.IsInner
  target : t.IsInner
  holds : before.Holds known s → after.Holds known t
  inScope : J scope

/-- Outside of functions nothing stands in a constructor. -/
theorem Follows.elsewhere {before after : Look} (known : ClassOutline ι → Prop) {J : σ → Prop}
    {scope : σ} (hscope : J scope) : Follows before after known J .elsewhere scope .elsewhere :=
  ⟨trivial, trivial, False.elim, hscope⟩

/-- The mapper turns constructors of one look into such of the next one, and moves uses of the class
variable nowhere else, in scopes that satisfy `J` all the way down. -/
structure KeepsConstructors (M : Mapper σ ι) (before after : Look) (J : σ → Prop) : Prop where
  passes : M.PassesCalls
  captures : ∀ names, before.Captures names → after.Captures names
  inFunction : ∀ {scope}, J scope → ∀ {place params b}, Owned place params b →
    J (M.ofBlock (M.ofFunction scope params b) b)
  inBlock : ∀ {scope}, J scope → ∀ {place b}, Owned place [] b → J (M.ofBlock scope b)
  heads : ∀ {place params b}, Owned place params b → ∀ inner,
    (Place.collector constructedName).stmts inner (M.heads params b) = []
  noHeads : ∀ {place c params b}, before.Constructs c params b → Owned place params b →
    M.heads params b = []
  keeps : ∀ {scope}, J scope → ∀ {place c params b}, before.Constructs c params b →
    Owned place params b → Keeps M before after (M.ofBlock (M.ofFunction scope params b) b)
  stmt : ∀ {scope}, J scope → ∀ place s, (Place.collector constructedName).stmt place
    (M.onStmt scope s) ⊆ (Place.collector constructedName).stmt place s
  expr : ∀ {scope}, J scope → ∀ {known : ClassOutline ι → Prop} {s t : Place ι} {e},
    (∀ x ∈ (Place.collector constructedName).expr s e, x.Owns constructedName) →
    (∀ x ∈ (Place.collector constructedName).expr t (M.rebuild scope e), after.Holds known x) →
    ∀ x ∈ (Place.collector constructedName).expr t (M.expr scope e), after.Holds known x

end Constructor

namespace Constructor.KeepsConstructors

variable {M : Mapper σ ι} {before after : Look} {J : σ → Prop}

/-- A constructor is mapped to a constructor of the same class. -/
theorem constructs (h : KeepsConstructors M before after J) {scope : σ} (hscope : J scope)
    {place : Place ι} {c : ClassOutline ι} {params : List (Param ι)} {b : Block ι}
    (hb : before.Constructs c params b) (howned : Owned place params b) :
    after.Constructs c params (M.body scope params b) := by
  rw [Mapper.body, h.noHeads hb howned, List.nil_append]
  exact (h.keeps hscope hb howned).constructs h.passes hb (h.captures _ hb.captures) howned

/-- So all uses stay in constructors of known classes. -/
theorem transfers (h : KeepsConstructors M before after J) (known : ClassOutline ι → Prop) :
    M.Transfers (Place.collector constructedName) (before.Holds known)
      (Place.collector constructedName) (Follows before after known J)
      (fun _ ys => ∀ y ∈ ys, after.Holds known y) where
  nil _ hy := absurd hy List.not_mem_nil
  append hfirst hsecond := List.forall_mem_append.mpr ⟨hfirst, hsecond⟩
  inFunction hR params b hC := by
    have howned : Owned _ params b := fun x hx => (hC x hx).owns
    -- a body is mapped as a whole, so that a constructor has to become one, heads included
    refine ⟨trivial, trivial, ?_, h.inFunction hR.inScope howned⟩
    rintro ⟨c, hknown, hc⟩
    exact ⟨c, hknown, h.constructs hR.inScope hc howned⟩
  inBlock hR b hC := by
    have howned : Owned _ [] b := fun x hx => (hC x hx).owns
    rw [Place.ofBlock_of_isInner hR.source, Place.ofBlock_of_isInner hR.target]
    exact ⟨trivial, trivial, False.elim, h.inBlock hR.inScope howned⟩
  onFunction _ params b hC := by
    rw [h.heads fun x hx => (hC x hx).owns]
    exact fun _ hy => absurd hy List.not_mem_nil
  onBlock _ b hC := by
    rw [h.heads fun x hx => (hC x hx).owns]
    exact fun _ hy => absurd hy List.not_mem_nil
  onStmt {_ scope t} hR s hC := by
    have hsame : (Place.collector constructedName).onStmt t (M.rebuildStmt scope s) =
        (Place.collector constructedName).onStmt t s := by cases s <;> rfl
    rw [hsame]
    exact Place.forall_onStmt hR.holds hC
  afterStmt _ _ _ _ hy := absurd hy List.not_mem_nil
  onExpr {_ scope t} hR e hC := by
    have hsame : (Place.collector constructedName).onExpr t (M.rebuild scope e) =
        (Place.collector constructedName).onExpr t e := by cases e <;> rfl
    rw [hsame]
    exact Place.forall_onExpr hR.holds hC
  onMethod _ _ _ _ hy := absurd hy List.not_mem_nil
  stmt hR st _ hbelow y hy := by
    rw [Mapper.stmt_eq] at hy
    exact hbelow y (h.stmt hR.inScope _ _ hy)
  expr hR e hC hbelow := h.expr hR.inScope (fun x hx => (hC x hx).owns) hbelow

/-- Statements outside of functions keep all uses of the class variable in constructors. -/
theorem stmts (h : KeepsConstructors M before after J) {known : ClassOutline ι → Prop} {scope : σ}
    (hscope : J scope) {b : Block ι}
    (hb : ∀ x ∈ (Place.collector constructedName).stmts .elsewhere b, before.Holds known x) :
    ∀ x ∈ (Place.collector constructedName).stmts .elsewhere (M.stmts scope b),
      after.Holds known x :=
  (h.transfers known).stmts (.elsewhere known hscope) b hb

/-- The same for a block that opens a scope of its own. -/
theorem block (h : KeepsConstructors M before after J) {known : ClassOutline ι → Prop} {scope : σ}
    (hscope : J scope) {b : Block ι}
    (hb : ∀ x ∈ (Place.collector constructedName).block .elsewhere b, before.Holds known x) :
    ∀ x ∈ (Place.collector constructedName).block .elsewhere (M.block scope b),
      after.Holds known x :=
  (h.transfers known).block (.elsewhere known hscope) b hb

end Constructor.KeepsConstructors

/-! ### Stages that shape calls -/

/-- Where a mapper passes calls and keeps the class variable, it keeps assignments to members of it
that are written as calls. -/
theorem Mapper.PassesCalls.stmt_assignment {M : Mapper σ ι} (h : M.PassesCalls) {scope : σ} {i : ι}
    {name : String} (hreads : M.expr scope (.variable i name) = .variable i name) (j : ι)
    (n : String) (value : Expr ι) :
    M.stmt scope (Property.assignment (.assignMember j (.variable i name) n value)) =
      Property.assignment (.assignMember j (.variable i name) n (M.expr scope value)) := by
  show M.stmt scope (.expr (Hook.propertySet.call j [.variable i name, .name j n, value])) = _
  rw [h.stmt_expr, h.expr_hook_call, Mapper.exprs_cons, Mapper.exprs_cons, Mapper.exprs_cons,
    hreads, h.name]
  rfl

open Constructor (constructedName KeepsConstructors)

/-- The function of a method is shaped in its body only. -/
theorem Mapper.ShapesCalls.isMethod {M : Mapper Unit ι} (h : M.ShapesCalls)
    {before after : Constructor.Look}
    (hcaptures : ∀ names, before.Captures names → after.Captures names) {i : ι} {e : Expr ι}
    (he : before.IsMethod i e) : after.IsMethod i (M.expr () e) := by
  obtain ⟨captured, params, body, hcaptured, rfl⟩ := he
  exact ⟨captured, params, M.stmts () body, hcaptures captured hcaptured,
    Closure.shaped_bundle h captured i none _ body⟩

/-- A mapper that shapes calls keeps constructors if it keeps how they assign methods and return. -/
theorem Mapper.ShapesCalls.keepsConstructors {M : Mapper Unit ι} (h : M.ShapesCalls)
    {before after : Constructor.Look}
    (hcaptures : ∀ names, before.Captures names → after.Captures names)
    (hreturns : ∀ i value, M.onStmt () (.ret i value) = .ret i value)
    (hassigns : ∀ i j n value,
      M.stmt () (before.written (.assignMember j (.variable i constructedName) n value)) =
        after.written (.assignMember j (.variable i constructedName) n (M.expr () value))) :
    KeepsConstructors M before after (fun _ => True) where
  passes := h.toPassesCalls
  captures := hcaptures
  inFunction _ _ _ _ _ := trivial
  inBlock _ _ _ _ := trivial
  heads {_ params b} _ inner := by
    rw [h.noHeads]
    rfl
  noHeads _ _ := h.noHeads _ _
  keeps _ _ _ _ _ _ _ :=
    { reads := fun i => h.expr_variable i constructedName
      declares := fun _ _ => h.onStmt _ rfl
      returns := hreturns
      assigns := hassigns
      method := fun he _ => h.isMethod hcaptures he }
  stmt _ place s := by
    rw [h.collectStmt (Place.collector_skipsCalls _)]
    exact List.Subset.refl _
  expr _ _ _ _ _ _ hbelow := by
    rw [h.collectExpr (Place.collector_skipsCalls _)]
    exact hbelow

/-- Lowering member access rewrites the assignments of methods and keeps constructors. -/
theorem Property.keepsConstructors :
    KeepsConstructors (mapper : Mapper Unit ι) .constructed .accessed (fun _ => True) :=
  mapper_shapesCalls.keepsConstructors (fun _ h => h) (fun _ _ => rfl) (fun _ _ _ _ => rfl)

/-- Lowering function calls keeps constructors as they look. -/
theorem Application.keepsConstructors :
    KeepsConstructors (mapper : Mapper Unit ι) .converted .converted (fun _ => True) :=
  mapper_shapesCalls.keepsConstructors (fun _ h => h) (fun _ _ => rfl)
    (fun _ _ _ _ => mapper_passesCalls.stmt_assignment rfl _ _ _)

/-! ### Stages that resolve names -/

/-- Before closure conversion the function of a method stands for itself. -/
theorem Constructor.Look.IsMethod.eq_functionLit {i : ι} {e : Expr ι}
    (h : Look.accessed.IsMethod i e) :
    ∃ params body, e = .functionLit i none (⟨i, receiverName⟩ :: params) body := by
  obtain ⟨captured, params, body, rfl, rfl⟩ := h
  exact ⟨params, body, rfl⟩

/-- A mapper that passes calls and leaves functions alone keeps a constructor if it keeps the class
variable in its body. -/
theorem Constructor.Keeps.of_passes {M : Mapper σ ι} (hM : M.PassesCalls) {scope : σ}
    (hreads : ∀ i : ι, M.expr scope (.variable i constructedName) = .variable i constructedName)
    (hdeclares : ∀ i value,
      M.onStmt scope (.declare i constructedName value) = .declare i constructedName value)
    (hreturns : ∀ i value, M.onStmt scope (.ret i value) = .ret i value)
    (hfunctions : M.Leaves .functionLit) : Keeps M .accessed .accessed scope where
  reads := hreads
  declares := hdeclares
  returns := hreturns
  assigns i j n value := hM.stmt_assignment (hreads i) j n value
  method he _ := by
    obtain ⟨params, body, rfl⟩ := he.eq_functionLit
    rw [hfunctions scope _ rfl]
    exact ⟨[], params, _, rfl, rfl⟩

/-- A constructor binds its class variable, so that it is not global. -/
theorem GlobalName.keepsConstructors :
    KeepsConstructors (mapper : Mapper (List String) ι) .accessed .accessed (fun _ => True) where
  passes := mapper_passesCalls
  captures _ h := h
  inFunction _ _ _ _ _ := trivial
  inBlock _ _ _ _ := trivial
  heads _ _ := rfl
  noHeads _ _ := rfl
  keeps {bound} _ {_ c params b} hb _ := by
    have hbound : constructedName ∈ mapper.ofBlock (mapper.ofFunction bound params b) b :=
      List.mem_append_left _ hb.startsWith.mem_declared
    refine .of_passes mapper_passesCalls (fun _ => if_pos hbound) (fun _ _ => if_pos hbound)
      (fun _ _ => rfl) fun _ e he => ?_
    cases e with
    | functionLit => rfl
    | _ => cases he
  stmt _ place s := by
    rw [mapper_onStmt]
    cases s with
    | declare i n value | assign i n value =>
        rw [access]
        split
        · exact List.Subset.refl _
        · simp [Collector.stmt, (Place.collector_skipsCalls _).expr_hook_call, Collector.exprs,
            Collector.expr]
    | _ => exact List.Subset.refl _
  expr _ _ _ t e _ hbelow := by
    rw [mapper_expr]
    cases e with
    | «variable» i n =>
        rw [Mapper.rebuild, read] at *
        split
        · exact hbelow
        · simp [(Place.collector_skipsCalls _).expr_hook_call, Collector.exprs, Collector.expr]
    | _ => exact hbelow

/-- A call of a box method uses the variable that holds the box. -/
theorem Place.collector_box_call (n : String) (place : Place ι) (op : BoxOp) (i : ι) (m : String)
    (inputs : List (Expr ι)) :
    (collector n).expr place (op.call i m inputs) =
      (collector n).expr place (.variable i m) ++ (collector n).exprs place inputs := by
  simp [BoxOp.call, Expr.callMethod, Collector.expr]

namespace BoxedName

/-- A name that is not boxed around a block and needs no box in it is not boxed inside. -/
theorem isBoxed_inBlock {scope : List (String × Bool)} {n : String}
    (h : isBoxed scope n = false) {names : List String} {b : Block ι}
    (hneeds : Access.needsBox n b.accesses = false) : isBoxed (extend names b scope) n = false := by
  rw [isBoxed_extend]
  split
  · exact hneeds
  · exact h

/-- The statements that create boxes use boxed names only. -/
theorem places_heads {n : String} {params : List (Param ι)} {b : Block ι}
    (h : n ∉ boxedNames params b) (place : Place ι) :
    (Place.collector n).stmts place (heads params b) = [] := by
  rw [Collector.stmts_eq_flatMap, List.flatMap_eq_nil_iff]
  intro s hs
  obtain ⟨i, m, hm, ⟨-, rfl⟩ | ⟨-, -, rfl⟩⟩ := mem_heads hs
  all_goals
    have hne : m ≠ n := fun hmn => h (hmn ▸ hm)
    simp [Collector.stmt, (Place.collector_skipsCalls n).expr_hook_call, Collector.exprs,
      Collector.expr, hne]

/-- The class variable needs no box, in its constructor or anywhere else. -/
theorem keepsConstructors : KeepsConstructors (mapper : Mapper (List (String × Bool)) ι)
    .accessed .accessed (isBoxed · constructedName = false) where
  passes := mapper_passesCalls
  captures _ h := h
  inFunction h _ _ _ howned :=
    isBoxed_inBlock (isBoxed_inBlock h (Place.needsBox_eq_false howned))
      (Place.needsBox_eq_false howned)
  inBlock h _ _ howned := isBoxed_inBlock h (Place.needsBox_eq_false howned)
  heads howned place := places_heads (Place.not_mem_boxedNames howned) place
  noHeads {_ c params b} hb howned := by
    have hnone : NeedsNoBox (params, b) := by
      intro n hn
      rw [hb.declared_eq, hb.captures] at hn
      obtain rfl := List.mem_singleton.mp hn
      exact Place.needsBox_eq_false howned
    exact hnone.heads_eq
  keeps {scope} h {_ c params b} hb howned := by
    have hinner : isBoxed (mapper.ofBlock (mapper.ofFunction scope params b) b) constructedName =
        false := isBoxed_inBlock (isBoxed_inBlock h (Place.needsBox_eq_false howned))
      (Place.needsBox_eq_false howned)
    rw [Bool.eq_false_iff] at hinner
    refine .of_passes mapper_passesCalls (fun _ => if_neg hinner) (fun _ _ => if_neg hinner)
      (fun _ _ => rfl) fun _ e he => ?_
    cases e with
    | functionLit => rfl
    | _ => cases he
  stmt {scope} h place s := by
    rw [mapper_onStmt]
    cases s with
    | declare i n value =>
        rw [access]
        split
        · rename_i hn
          have hne : n ≠ constructedName := by
            rintro rfl
            exact Bool.false_ne_true (h.symm.trans hn)
          simp [Collector.stmt, Place.collector_box_call, Collector.exprs, Collector.expr, hne]
        · exact List.Subset.refl _
    | assign i n value =>
        rw [access]
        split
        · simp [Collector.stmt, Place.collector_box_call, Collector.exprs, Collector.expr]
        · exact List.Subset.refl _
    | _ => exact List.Subset.refl _
  expr _ _ _ t e _ hbelow := by
    rw [mapper_expr]
    cases e with
    | «variable» i n =>
        rw [Mapper.rebuild, read] at *
        split
        · rw [Place.collector_box_call, Collector.exprs, List.append_nil]
          exact hbelow
        · exact hbelow
    | _ => exact hbelow

end BoxedName

namespace Closure

/-- Reads of captures use no other name. -/
theorem places_variables {n : String} {names : List String} (h : n ∉ names) (place : Place ι)
    (i : ι) : (Place.collector n).exprs place (names.map (Expr.variable i ·)) = [] := by
  induction names with
  | nil => rfl
  | cons m ms ih =>
      rw [List.mem_cons, not_or] at h
      simp [Collector.exprs, Collector.expr, Ne.symm h.1, ih h.2]

/-- A constructor may capture all names but that of its class variable. -/
theorem places_bundle {known : ClassOutline ι → Prop} {captured : List String}
    (hcaptured : constructedName ∉ captured) {place : Place ι} {i : ι} {n : Option String}
    {params : List (Param ι)} {b : Block ι}
    (h : ∀ x ∈ (Place.collector constructedName).expr place (.functionLit i n params b),
      Constructor.Look.converted.Holds known x) :
    ∀ x ∈ (Place.collector constructedName).expr place
      (bundle captured (.functionLit i n params b)), Constructor.Look.converted.Holds known x := by
  rw [bundle]
  split
  · exact h
  · have hmoved : Constructor.Look.converted.Holds known (.directly params b) →
        Constructor.Look.converted.Holds known
          (.directly (captured.map (⟨i, ·⟩) ++ params) b) := by
      rintro ⟨c, hknown, hc⟩
      refine ⟨c, hknown, ?_, hc.body⟩
      show constructedName ∉ Param.names _
      rw [names_captured, List.mem_append, not_or]
      exact ⟨hcaptured, hc.captures⟩
    rw [Place.collector_functionLit] at h
    rw [(Place.collector_skipsCalls _).expr_hook_call, Collector.exprs,
      places_variables hcaptured, List.append_nil, Place.collector_functionLit]
    exact Place.forall_moved (Place.isInner_directly _ _) (Place.isInner_directly _ _) hmoved h

/-- No function captures the class variable. -/
theorem keepsConstructors : KeepsConstructors (mapper : Mapper (List String) ι)
    .accessed .converted (fun _ => True) where
  passes := mapper_passesCalls
  captures names hnames := by
    rw [show names = [] from hnames]
    exact List.not_mem_nil
  inFunction _ _ _ _ _ := trivial
  inBlock _ _ _ _ := trivial
  heads _ _ := rfl
  noHeads _ _ := rfl
  keeps _ _ _ _ _ _ _ :=
    { reads := fun _ => rfl
      declares := fun _ _ => rfl
      returns := fun _ _ => rfl
      assigns := fun _ _ _ _ => mapper_passesCalls.stmt_assignment rfl _ _ _
      method := fun he howns => by
        obtain ⟨params, body, rfl⟩ := he.eq_functionLit
        refine ⟨_, params, _, fun hn => ?_, expr_functionLit _ _ _ _ body⟩
        exact Place.not_mem_freeNames howns (mem_captures.mp hn).1 }
  stmt _ _ _ := List.Subset.refl _
  expr _ _ _ _ e howns hbelow := by
    cases e with
    | functionLit i n params b =>
        exact places_bundle (fun hn => Place.not_mem_freeNames howns (mem_captures.mp hn).1) hbelow
    | _ => exact hbelow

end Closure

/-! ## The construction of classes -/

namespace Constructor

/-- Mapping methods keeps their infos and names. -/
theorem map_label_methods (M : Mapper σ ι) (scope : σ) (ms : List (Method ι)) :
    (M.methods scope ms).map Method.label = ms.map Method.label := by
  induction ms with
  | nil => rfl
  | cons m ms ih =>
      cases m with
      | mk i n params b => rw [Mapper.methods, List.map_cons, ih]; rfl

/-- The assignments of methods have the look of their stage. -/
theorem assigns_assignMethods (i : ι) (ms : List (Method ι)) :
    List.Forall₂ (Look.constructed.Assigns i) (ms.map Method.label) (ms.map (assignMethod i)) := by
  rw [List.forall₂_map_left_iff, List.forall₂_map_right_iff]
  refine List.forall₂_same.mpr fun m _ => ?_
  cases m with
  | mk j n params b => exact ⟨_, ⟨[], params, b, rfl, rfl⟩, rfl⟩

/-- What the stage of constructors writes is a constructor of the class. -/
theorem constructs_constructorBody (i : ι) (ms : List (Method ι)) :
    Look.constructed.Constructs ⟨i, ms.map Method.label⟩ [] (constructorBody i ms) :=
  ⟨rfl, _, rfl, assigns_assignMethods i ms⟩

/-- The assignments of methods use the class variable where they stand; the methods themselves use
it in constructors only. -/
theorem places_assignMethods {known : ClassOutline ι → Prop} {place outer : Place ι}
    (hplace : Look.constructed.Holds known place) (houter : outer.IsInner) (i : ι) :
    (ms : List (Method ι)) →
    (∀ x ∈ (Place.collector constructedName).methods outer ms, Look.constructed.Holds known x) →
    ∀ x ∈ (Place.collector constructedName).stmts place (ms.map (assignMethod i)),
      Look.constructed.Holds known x
  | [], _ => fun _ hx => absurd hx List.not_mem_nil
  | .mk j n params b :: ms, hms => by
      simp only [Collector.methods, Collector.method, Place.collector_onMethod,
        Place.collector_onBlock, Place.ofBlock_of_isInner houter, List.nil_append,
        List.forall_mem_append] at hms
      have hfunction : ∀ x ∈ (Place.collector constructedName).expr place
          (methodFunction (.mk j n params b)), Look.constructed.Holds known x := by
        -- the code of a method moves from a class literal, where it may not use the class variable
        -- of its own, to a function that is no constructor
        rw [methodFunction, Place.collector_functionLit]
        exact Place.forall_moved Place.isInner_elsewhere (Place.isInner_directly _ _) False.elim
          hms.1
      rw [List.map_cons, Collector.stmts, List.forall_mem_append]
      refine ⟨?_, places_assignMethods hplace houter i ms hms.2⟩
      simp only [assignMethod, Collector.stmt, (Place.collector_skipsCalls _).expr_hook_call,
        Collector.exprs, Place.collector_onStmt, Place.collector_afterStmt, List.nil_append,
        List.append_nil, List.forall_mem_append]
      exact ⟨Place.forall_variable hplace i, hfunction⟩

/-- So does the rest of a constructor. -/
theorem places_constructorBody {known : ClassOutline ι → Prop} {place outer : Place ι}
    (hplace : Look.constructed.Holds known place) (houter : outer.IsInner) (i : ι)
    (ms : List (Method ι))
    (hms : ∀ x ∈ (Place.collector constructedName).methods outer ms,
      Look.constructed.Holds known x) :
    ∀ x ∈ (Place.collector constructedName).stmts place (constructorBody i ms),
      Look.constructed.Holds known x := by
  have hassign := places_assignMethods hplace houter i ms hms
  simp only [constructorBody, Collector.stmts, Collector.stmts_append, Collector.stmt,
    (Place.collector_skipsCalls _).expr_hook_call, Collector.exprs, Place.collector_onStmt,
    Place.collector_afterStmt, List.nil_append, List.append_nil, List.forall_mem_append]
  exact ⟨hassign, Place.forall_variable hplace i⟩

/-- Every use of the class variable that the stage makes stands in the constructor of a class of the
source. -/
theorem transfers_mentions (mentioned : List (Mention ι)) : (mapper : Mapper Unit ι).Transfers
    Mention.collector (fun m => m ∈ mentioned ∧ m ≠ .variable constructedName)
    (Place.collector constructedName) (fun _ _ place => place.IsInner)
    (fun _ ys => ∀ y ∈ ys, Look.constructed.Holds (.classLit · ∈ mentioned) y) where
  nil _ hy := absurd hy List.not_mem_nil
  append hfirst hsecond := List.forall_mem_append.mpr ⟨hfirst, hsecond⟩
  inFunction _ _ _ _ := trivial
  inBlock h b _ := by
    rw [Place.ofBlock_of_isInner h]
    trivial
  onFunction _ _ _ _ _ hy := absurd hy List.not_mem_nil
  onBlock _ _ _ _ hy := absurd hy List.not_mem_nil
  onStmt _ s hC y hy := by
    cases s with
    | assign i n value =>
        have hn : n ≠ constructedName := by
          rintro rfl
          exact (hC _ List.mem_cons_self).2 rfl
        simp [Mapper.rebuildStmt, hn] at hy
    | _ => exact absurd hy List.not_mem_nil
  afterStmt _ _ _ _ hy := absurd hy List.not_mem_nil
  onExpr _ e hC y hy := by
    cases e with
    | «variable» i n =>
        have hn : n ≠ constructedName := by
          rintro rfl
          exact (hC _ List.mem_cons_self).2 rfl
        simp [Mapper.rebuild, hn] at hy
    | _ => exact absurd hy List.not_mem_nil
  onMethod _ _ _ _ hy := absurd hy List.not_mem_nil
  stmt _ s _ hbelow := by
    rw [Mapper.stmt_eq]
    exact hbelow
  expr {_ _ place} h e hC hbelow := by
    cases e with
    | classLit i n ms =>
        have hconstructs := constructs_constructorBody i (mapper.methods () ms)
        rw [map_label_methods] at hconstructs
        have hplace : Look.constructed.Holds (.classLit · ∈ mentioned)
            (.directly [] (constructorBody i (mapper.methods () ms))) :=
          ⟨_, (hC _ List.mem_cons_self).1, hconstructs⟩
        show ∀ x ∈ (Place.collector constructedName).expr place
          (.call i (.functionLit i none [] (constructorBody i (mapper.methods () ms))) []), _
        simp only [Collector.expr, Place.collector_onExpr, Collector.exprs, List.nil_append,
          List.append_nil]
        exact places_constructorBody hplace h i _ hbelow
    | _ => exact hbelow

end Constructor

/-- Declarations mention what the statements that they are written for mention. -/
theorem Declaration.carries_mentions : (mapper : Mapper Unit ι).Carries Mention.collector
    Mention.collector (fun _ _ _ => True) (fun before after => after = before) := by
  refine Mapper.carries_of_rules (fun _ _ => rfl) (fun _ => rfl) (fun _ => rfl) (fun _ _ => rfl)
    (fun _ s => ?_) (fun _ e => ?_) (fun _ s => ?_) (fun _ _ => rfl)
  · cases s <;> rfl
  · cases e with
    | classLit i n ms =>
        show [Mention.classLit ⟨i, (mapper.methods () ms).map Method.label⟩] = _
        rw [Constructor.map_label_methods]
        rfl
    | _ => rfl
  · show Mention.collector.stmt () (declaration s) = Mention.collector.stmt () s
    cases s with
    | expr e =>
        cases e with
        | functionLit i n params b => cases n <;> rfl
        | classLit i n ms => cases n <;> rfl
        | _ => rfl
    | _ => rfl

/-! ## Lowered programs -/

/-- The class variable is hygienic. If the source neither reads nor assigns it, it gets no box and
no function captures it. In the lowered program all its uses stand directly in the constructor of
some class of the source, which declares it first and only once. -/
theorem class_variable_hygienic (p : Program ι) (hp : .variable constructedName ∉ p.mentions) :
    constructedName ∉ BoxedName.boxes (p.lowerUpTo .globals) ∧
    (∀ captured ∈ Closure.captured (p.lowerUpTo .boxing), constructedName ∉ captured) ∧
    ∀ place ∈ p.lower.usePlaces constructedName, ∃ c params body,
      .classLit c ∈ p.mentions ∧ place = .directly params body ∧
      Constructor.Look.converted.Constructs c params body := by
  let Known : ClassOutline ι → Prop := (.classLit · ∈ p.mentions)
  have hmentions : ∀ m ∈ (p.lowerUpTo .declarators).mentions,
      m ∈ p.mentions ∧ m ≠ .variable constructedName := by
    have hkept : (p.lowerUpTo .declarators).mentions = p.mentions :=
      Declaration.carries_mentions.block trivial p.statements
    rw [hkept]
    exact fun m hm => ⟨hm, fun heq => hp (heq ▸ hm)⟩
  have hclasses : ∀ x ∈ (p.lowerUpTo .classes).usePlaces constructedName,
      Constructor.Look.constructed.Holds Known x :=
    (Constructor.transfers_mentions p.mentions).block Place.isInner_elsewhere _ hmentions
  have hmembers : ∀ x ∈ (p.lowerUpTo .memberAccess).usePlaces constructedName,
      Constructor.Look.accessed.Holds Known x := Property.keepsConstructors.block trivial hclasses
  have hglobals : ∀ x ∈ (p.lowerUpTo .globals).usePlaces constructedName,
      Constructor.Look.accessed.Holds Known x := GlobalName.keepsConstructors.stmts trivial hmembers
  have hboxing : ∀ x ∈ (p.lowerUpTo .boxing).usePlaces constructedName,
      Constructor.Look.accessed.Holds Known x := BoxedName.keepsConstructors.block rfl hglobals
  have hclosures : ∀ x ∈ (p.lowerUpTo .closures).usePlaces constructedName,
      Constructor.Look.converted.Holds Known x := Closure.keepsConstructors.block trivial hboxing
  -- boxes and captures are decided on the programs that boxing and closure conversion run on
  refine ⟨Program.not_mem_boxes fun x hx => (hglobals x hx).owns,
    Program.not_mem_captured fun x hx => (hboxing x hx).owns, fun place hplace => ?_⟩
  have hlower : Constructor.Look.converted.Holds Known place :=
    Application.keepsConstructors.block trivial hclosures place hplace
  cases place with
  | directly params body =>
      obtain ⟨c, hc, hconstructs⟩ := hlower
      exact ⟨c, params, body, hc, rfl, hconstructs⟩
  | _ => exact hlower.elim

/-- A class in a method of another one, next to declarations of the name of the class variable: by
the path of an import, and in the method. -/
def nestedClasses : Program ℕ :=
  ⟨[.importPackage 1 none "lib/@",
    .expr (.classLit 2 (some "Outer")
      [.mk 3 "make" [⟨4, "seed"⟩]
        [.declare 5 "@" (.number 6 "0"),
          .expr (.classLit 7 (some "Inner") [.mk 8 "get" [] [.ret 9 (.variable 10 "seed")]]),
          .ret 11 (.variable 12 "Inner")]])]⟩

/-- In nested classes the name `@` is neither boxed nor captured, though the code around declares
it. -/
theorem hygienic_nestedClasses :
    .variable constructedName ∉ nestedClasses.mentions ∧
    BoxedName.boxes (nestedClasses.lowerUpTo .globals) = [] ∧
    Closure.captured (nestedClasses.lowerUpTo .boxing) = [["seed"], ["seed"]] ∧
    (nestedClasses.lower.usePlaces constructedName).length = 4 ∧
    ∀ place ∈ nestedClasses.lower.usePlaces constructedName, ∃ c params body,
      .classLit c ∈ nestedClasses.mentions ∧ place = .directly params body ∧
      Constructor.Look.converted.Constructs c params body := by
  have hsource : .variable constructedName ∉ nestedClasses.mentions := by decide
  exact ⟨hsource, by decide +kernel, by decide +kernel, by decide +kernel,
    (class_variable_hygienic nestedClasses hsource).2.2⟩

end Lowering

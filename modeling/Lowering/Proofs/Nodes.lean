import Lowering.Proofs.Mapping

/-!
# Nodes

Expressions, statements, methods and blocks as the nodes of a tree, each with its children in the
order in which they are evaluated. `Node.preorder` lists a node with everything below it. A
collector that carries no scope lists what each of these nodes contributes, in this order
(`Collector.node_eq_preorder`).
-/

namespace Lowering

variable {σ ι α : Type}

/-- A node of a tree. -/
inductive Node (ι : Type) where
  | expr (e : Expr ι)
  | stmt (s : Stmt ι)
  | method (m : Method ι)
  /-- The body of a function literal, with its parameters. -/
  | function (params : List (Param ι)) (b : Block ι)
  /-- A block that no parameters belong to: a program, a branch, or the body of a method. -/
  | block (b : Block ι)

namespace Node

/-- The nodes directly below a node, in the order of their evaluation. -/
def children : Node ι → List (Node ι)
  | .expr (.member _ object _) => [.expr object]
  | .expr (.call _ callee inputs) => .expr callee :: inputs.map .expr
  | .expr (.functionLit _ _ params b) => [.function params b]
  | .expr (.classLit _ _ ms) => ms.map .method
  | .expr _ => []
  | .stmt (.importPackage _ _ _) => []
  | .stmt (.declare _ _ value) | .stmt (.assign _ _ value) | .stmt (.ret _ value)
  | .stmt (.expr value) => [.expr value]
  | .stmt (.assignMember _ object _ value) => [.expr object, .expr value]
  | .stmt (.branch _ condition thenBlock elseBlock) =>
      [.expr condition, .block thenBlock, .block elseBlock]
  | .method (.mk _ _ _ b) => [.block b]
  | .function _ b | .block b => b.map .stmt

/-- The node opens a scope for its children. -/
def isBlock : Node ι → Bool
  | .function _ _ | .block _ => true
  | _ => false

/-- The name that the node declares in the block it stands in. -/
def declared? : Node ι → Option String
  | .stmt s => s.declared?
  | _ => none

/-- Only the statements of a block declare names in it. -/
theorem declared?_child {n c : Node ι} (hblock : n.isBlock = false) (h : c ∈ n.children) :
    c.declared? = none := by
  cases n with
  | expr e =>
      cases e with
      | call i callee inputs =>
          rcases List.mem_cons.mp h with rfl | h
          · rfl
          · obtain ⟨e, _, rfl⟩ := List.mem_map.mp h
            rfl
      | classLit i n ms =>
          obtain ⟨m, _, rfl⟩ := List.mem_map.mp h
          rfl
      | member | functionLit =>
          obtain rfl := List.mem_singleton.mp h
          rfl
      | _ => cases h
  | stmt s =>
      cases s with
      | importPackage => cases h
      | assignMember | branch =>
          simp only [children, List.mem_cons, List.not_mem_nil, or_false] at h
          rcases h with rfl | rfl | rfl <;> rfl
      | _ =>
          obtain rfl := List.mem_singleton.mp h
          rfl
  | method m =>
      obtain ⟨i, n, params, b⟩ := m
      obtain rfl := List.mem_singleton.mp h
      rfl
  | function | block => cases hblock

/-- A child is smaller than its parent. -/
theorem sizeOf_lt_of_mem_children {n c : Node ι} (h : c ∈ n.children) : sizeOf c < sizeOf n := by
  cases n with
  | expr e =>
      cases e with
      | member | functionLit =>
          obtain rfl := List.mem_singleton.mp h
          simp only [expr.sizeOf_spec, Expr.member.sizeOf_spec, function.sizeOf_spec,
            Expr.functionLit.sizeOf_spec]
          omega
      | call i callee inputs =>
          simp only [expr.sizeOf_spec, Expr.call.sizeOf_spec]
          rcases List.mem_cons.mp h with rfl | h
          · simp only [expr.sizeOf_spec]
            omega
          · obtain ⟨e, he, rfl⟩ := List.mem_map.mp h
            have hlt := List.sizeOf_lt_of_mem he
            simp only [expr.sizeOf_spec]
            omega
      | classLit i n ms =>
          obtain ⟨m, hm, rfl⟩ := List.mem_map.mp h
          have hlt := List.sizeOf_lt_of_mem hm
          simp only [expr.sizeOf_spec, Expr.classLit.sizeOf_spec, method.sizeOf_spec]
          omega
      | _ => cases h
  | stmt s =>
      cases s with
      | importPackage => cases h
      | assignMember | branch =>
          simp only [children, List.mem_cons, List.not_mem_nil, or_false] at h
          simp only [stmt.sizeOf_spec, Stmt.assignMember.sizeOf_spec, Stmt.branch.sizeOf_spec]
          rcases h with rfl | rfl | rfl <;> simp only [expr.sizeOf_spec, block.sizeOf_spec] <;>
            omega
      | _ =>
          obtain rfl := List.mem_singleton.mp h
          simp only [stmt.sizeOf_spec, expr.sizeOf_spec, Stmt.declare.sizeOf_spec,
            Stmt.assign.sizeOf_spec, Stmt.ret.sizeOf_spec, Stmt.expr.sizeOf_spec]
          omega
  | method m =>
      obtain ⟨i, n, params, b⟩ := m
      obtain rfl := List.mem_singleton.mp h
      simp only [method.sizeOf_spec, Method.mk.sizeOf_spec, block.sizeOf_spec]
      omega
  | function _ b | block b =>
      obtain ⟨s, hs, rfl⟩ := List.mem_map.mp h
      have hlt := List.sizeOf_lt_of_mem hs
      simp only [function.sizeOf_spec, block.sizeOf_spec, stmt.sizeOf_spec]
      omega

/-- A node and all nodes below it, each before its children. -/
def preorder (n : Node ι) : List (Node ι) :=
  n :: n.children.attach.flatMap fun c => c.val.preorder
termination_by sizeOf n
decreasing_by exact sizeOf_lt_of_mem_children c.property

/-- A node is listed before what is listed for its children. -/
theorem preorder_eq (n : Node ι) : n.preorder = n :: n.children.flatMap preorder := by
  rw [preorder, List.flatMap_def, List.flatMap_def, List.attach_map_val]

end Node

/-! ## What a collector finds at a node -/

namespace Collector

variable (C : Collector σ ι α) (scope : σ)

/-- The contributions of a block with the parameters that it belongs to. -/
def body (params : List (Param ι)) (b : Block ι) : List α :=
  C.onBlock scope params b ++ C.stmts (C.ofBlock scope b) b

/-- The contributions of a function literal are its own and those of its body. -/
theorem expr_functionLit (i : ι) (n : Option String) (params : List (Param ι)) (b : Block ι) :
    C.expr scope (.functionLit i n params b) =
      C.onExpr scope (.functionLit i n params b) ++
        C.body (C.ofFunction scope params b) params b := by
  rw [expr, body, List.append_assoc]

/-- The contributions of a conditional are its own and those of its condition and its branches. -/
theorem stmt_branch (i : ι) (condition : Expr ι) (thenBlock elseBlock : Block ι) :
    C.stmt scope (.branch i condition thenBlock elseBlock) =
      C.onStmt scope (.branch i condition thenBlock elseBlock) ++ C.expr scope condition ++
        C.body scope [] thenBlock ++ C.body scope [] elseBlock ++
        C.afterStmt scope (.branch i condition thenBlock elseBlock) := by
  simp only [stmt, body, List.append_assoc]

/-- The contributions of a method are its own and those of its body. -/
theorem method_mk (i : ι) (n : String) (params : List (Param ι)) (b : Block ι) :
    C.method scope (.mk i n params b) =
      C.onMethod scope (.mk i n params b) ++ C.body scope [] b := by
  rw [method, body, List.append_assoc]

/-- A list of expressions contributes what each of them contributes. -/
theorem exprs_eq_flatMap (es : List (Expr ι)) : C.exprs scope es = es.flatMap (C.expr scope) := by
  induction es with
  | nil => rw [exprs, List.flatMap_nil]
  | cons e es ih => rw [exprs, ih, List.flatMap_cons]

/-- A list of methods contributes what each of them contributes. -/
theorem methods_eq_flatMap (ms : List (Method ι)) :
    C.methods scope ms = ms.flatMap (C.method scope) := by
  induction ms with
  | nil => rw [methods, List.flatMap_nil]
  | cons m ms ih => rw [methods, ih, List.flatMap_cons]

/-- The contributions of a node and of all nodes below it, in the scope of the node. -/
def node : Node ι → List α
  | .expr e => C.expr scope e
  | .stmt s => C.stmt scope s
  | .method m => C.method scope m
  | .function params b => C.body (C.ofFunction scope params b) params b
  | .block b => C.body scope [] b

/-- The contributions of the children of a node that opens no scope. -/
def below (n : Node ι) : List α :=
  n.children.flatMap (C.node scope)

/-- Below a member access is its object. -/
@[simp] theorem below_member (i : ι) (object : Expr ι) (m : String) :
    C.below scope (.expr (.member i object m)) = C.expr scope object :=
  List.flatMap_singleton ..

/-- Below a call are its callee and its inputs. -/
@[simp] theorem below_call (i : ι) (callee : Expr ι) (inputs : List (Expr ι)) :
    C.below scope (.expr (.call i callee inputs)) =
      C.expr scope callee ++ C.exprs scope inputs := by
  rw [below, Node.children, List.flatMap_cons, List.flatMap_map, exprs_eq_flatMap]
  rfl

/-- Below a function literal is its body. -/
@[simp] theorem below_functionLit (i : ι) (n : Option String) (params : List (Param ι))
    (b : Block ι) :
    C.below scope (.expr (.functionLit i n params b)) =
      C.body (C.ofFunction scope params b) params b :=
  List.flatMap_singleton ..

/-- Below a class literal are its methods. -/
@[simp] theorem below_classLit (i : ι) (n : Option String) (ms : List (Method ι)) :
    C.below scope (.expr (.classLit i n ms)) = C.methods scope ms := by
  rw [below, Node.children, List.flatMap_map, methods_eq_flatMap]
  rfl

/-- Below a declaration is its value. -/
@[simp] theorem below_declare (i : ι) (n : String) (value : Expr ι) :
    C.below scope (.stmt (.declare i n value)) = C.expr scope value :=
  List.flatMap_singleton ..

/-- Below an assignment to a variable is its value. -/
@[simp] theorem below_assign (i : ι) (n : String) (value : Expr ι) :
    C.below scope (.stmt (.assign i n value)) = C.expr scope value :=
  List.flatMap_singleton ..

/-- Below an assignment to a property are the object and the value. -/
@[simp] theorem below_assignMember (i : ι) (object : Expr ι) (m : String) (value : Expr ι) :
    C.below scope (.stmt (.assignMember i object m value)) =
      C.expr scope object ++ C.expr scope value := by
  simp [below, Node.children, node]

/-- Below a conditional are its condition and its branches. -/
@[simp] theorem below_branch (i : ι) (condition : Expr ι) (thenBlock elseBlock : Block ι) :
    C.below scope (.stmt (.branch i condition thenBlock elseBlock)) =
      C.expr scope condition ++ C.body scope [] thenBlock ++ C.body scope [] elseBlock := by
  simp [below, Node.children, node]

/-- The contributions of an expression are its own and those below it. -/
theorem expr_eq_below (e : Expr ι) :
    C.expr scope e = C.onExpr scope e ++ C.below scope (.expr e) := by
  cases e with
  | member _ _ _ => rw [expr, below_member]
  | call _ _ _ => rw [expr, below_call, List.append_assoc]
  | functionLit _ _ _ _ => rw [expr_functionLit, below_functionLit]
  | classLit _ _ _ => rw [expr, below_classLit]
  | _ => exact (List.append_nil _).symm

/-- The contributions of a statement are its own, before and after those below it. -/
theorem stmt_eq_below (s : Stmt ι) :
    C.stmt scope s =
      C.onStmt scope s ++ C.below scope (.stmt s) ++ C.afterStmt scope s := by
  cases s with
  | branch _ _ _ _ => simp only [stmt_branch, below_branch, List.append_assoc]
  | assignMember _ _ _ _ => simp only [stmt, below_assignMember, List.append_assoc]
  | _ => simp [stmt, below, Node.children, node]

/-- The contributions of a method are its own and those below it. -/
theorem method_eq_below (m : Method ι) :
    C.method scope m = C.onMethod scope m ++ C.below scope (.method m) := by
  obtain ⟨i, n, params, b⟩ := m
  rw [method_mk]
  exact congrArg _ (List.flatMap_singleton ..).symm

/-- What a child contributes is found at its parent. -/
theorem node_subset_of_child {n c : Node ι} (hblock : n.isBlock = false) (h : c ∈ n.children) :
    C.node scope c ⊆ C.node scope n := by
  intro x hx
  have hbelow : x ∈ C.below scope n := List.mem_flatMap.mpr ⟨c, h, hx⟩
  cases n with
  | expr e =>
      rw [node, expr_eq_below]
      exact List.mem_append_right _ hbelow
  | stmt s =>
      rw [node, stmt_eq_below]
      exact List.mem_append_left _ (List.mem_append_right _ hbelow)
  | method m =>
      rw [node, method_eq_below]
      exact List.mem_append_right _ hbelow
  | function | block => cases hblock

/-- What a statement contributes is found in every list that it stands in. -/
theorem stmt_subset_stmts {s : Stmt ι} {ss : List (Stmt ι)} (h : s ∈ ss) :
    C.stmt scope s ⊆ C.stmts scope ss := by
  intro x hx
  rw [stmts_eq_flatMap]
  exact List.mem_flatMap.mpr ⟨s, h, hx⟩

end Collector

/-! ## Collectors without scopes -/

namespace Collector

variable (C : Collector Unit ι α)

/-- What a node itself contributes. -/
def own : Node ι → List α
  | .expr e => C.onExpr () e
  | .stmt s => C.onStmt () s
  | .method m => C.onMethod () m
  | .function params b => C.onBlock () params b
  | .block b => C.onBlock () [] b

/-- Without scopes and contributions after the children, a node contributes its own before what its
children contribute. -/
theorem node_eq_own (hafter : ∀ s, C.afterStmt () s = []) (n : Node ι) :
    C.node () n = C.own n ++ n.children.flatMap (C.node ()) := by
  cases n with
  | expr e => exact C.expr_eq_below () e
  | stmt s =>
      rw [node, stmt_eq_below, hafter, List.append_nil]
      rfl
  | method m => exact C.method_eq_below () m
  | function _ b | block b =>
      rw [node, body, stmts_eq_flatMap, Node.children, List.flatMap_map]
      rfl

/-- Such a collector lists what the nodes contribute, each before its children. -/
theorem node_eq_preorder (hafter : ∀ s, C.afterStmt () s = []) (n : Node ι) :
    C.node () n = n.preorder.flatMap C.own := by
  induction n using Node.preorder.induct with
  | case1 n ih =>
      rw [node_eq_own C hafter, Node.preorder_eq, List.flatMap_cons, List.flatMap_assoc]
      exact congrArg _ (List.flatMap_congr fun c hc => ih ⟨c, hc⟩)

end Collector

end Lowering

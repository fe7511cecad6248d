import Lowering.Tree.Kind

/-!
# The form of exchanged trees

A tree is exchanged as records with named fields, lists, and choices between labelled variants. This
module says which records and choices there are: it is the form that the reader follows and that the
writer writes.
-/

namespace Lowering.Json

/-- What kind of info the nodes of a tree carry. -/
inductive InfoKind where
  /-- An unsigned number of 32 bits. -/
  | offset
  /-- A text. -/
  | text
  /-- Nothing. -/
  | unit
deriving DecidableEq, Repr

/-- The choices between variants. -/
inductive Choice where
  | stmt
  | expr
  | method
deriving DecidableEq, Repr

/-- The variants of the choices. -/
inductive Tag where
  | stmt (kind : StmtKind)
  | expr (kind : ExprKind)
  | method
deriving DecidableEq, Repr

/-- What a node is made of besides its info. -/
inductive Item where
  /-- One of the variants of a choice. -/
  | choice (choice : Choice)
  /-- A name, for parameters. -/
  | name
deriving DecidableEq, Repr

/-- The records. A node pairs an item with its info; the other records hold what belongs to a
variant. -/
inductive Record where
  | program
  | node (item : Item)
  | importPackage
  | declare
  | assign
  | branch
  | member
  | call
  | functionLit
  | classLit
  | method
deriving DecidableEq, Repr

/-- The form of a value. -/
inductive Shape where
  /-- An info. -/
  | info
  /-- A text. -/
  | text
  /-- A list of nodes. -/
  | nodes (item : Item)
  /-- A record. -/
  | record (record : Record)
  /-- A choice between variants. -/
  | choice (choice : Choice)
deriving DecidableEq, Repr

/-- A field of a record. One that is optional may be null, and may be missing from an object. -/
structure Field where
  name : String
  shape : Shape
  optional : Bool := false
deriving DecidableEq, Repr

/-- The shape of a node of an item. -/
def Shape.node (item : Item) : Shape := .record (.node item)

/-- The shape of an item. -/
def Item.shape : Item → Shape
  | .choice c => .choice c
  | .name => .text

/-- The shape of a node of an expression. -/
def Shape.exprNode : Shape := .node (.choice .expr)

/-- The shape of a block. -/
def Shape.block : Shape := .nodes (.choice .stmt)

/-- The fields of a record, in the order in which they are written. -/
def Record.fields : Record → List Field
  | .program => [⟨"statements", .block, false⟩]
  | .node item => [⟨"info", .info, false⟩, ⟨"item", item.shape, false⟩]
  | .importPackage => [⟨"name", .text, true⟩, ⟨"path", .text, false⟩]
  | .declare => [⟨"name", .text, false⟩, ⟨"value", .exprNode, false⟩]
  | .assign =>
      [⟨"object", .exprNode, true⟩, ⟨"name", .text, false⟩, ⟨"value", .exprNode, false⟩]
  | .branch =>
      [⟨"condition", .exprNode, false⟩, ⟨"then", .block, false⟩, ⟨"else", .block, false⟩]
  | .member => [⟨"object", .exprNode, false⟩, ⟨"member", .text, false⟩]
  | .call => [⟨"function", .exprNode, false⟩, ⟨"inputs", .nodes (.choice .expr), false⟩]
  | .functionLit =>
      [⟨"name", .text, true⟩, ⟨"parameters", .nodes .name, false⟩, ⟨"body", .block, false⟩]
  | .classLit => [⟨"name", .text, true⟩, ⟨"members", .nodes (.choice .method), false⟩]
  | .method =>
      [⟨"name", .text, false⟩, ⟨"parameters", .nodes .name, false⟩, ⟨"body", .block, false⟩]

/-- The label of a variant. -/
def Tag.label : Tag → String
  | .stmt kind => kind.label
  | .expr kind => kind.label
  | .method => "method"

/-- The shape of what belongs to a variant; only the unit expression has nothing to it. -/
def Tag.payload? : Tag → Option Shape
  | .stmt .importPackage => some (.record .importPackage)
  | .stmt .declare => some (.record .declare)
  | .stmt .assign => some (.record .assign)
  | .stmt .ret => some .exprNode
  | .stmt .branch => some (.record .branch)
  | .stmt .expr => some (.choice .expr)
  | .expr .unit => none
  | .expr .name | .expr .text | .expr .number | .expr .variable => some .text
  | .expr .member => some (.record .member)
  | .expr .call => some (.record .call)
  | .expr .functionLit => some (.record .functionLit)
  | .expr .classLit => some (.record .classLit)
  | .method => some (.record .method)

/-- The variants of a choice, in the order in which they are listed. -/
def Choice.tags : Choice → List Tag
  | .stmt =>
      [.stmt .importPackage, .stmt .declare, .stmt .assign, .stmt .ret, .stmt .branch, .stmt .expr]
  | .expr =>
      [.expr .unit, .expr .name, .expr .text, .expr .number, .expr .variable, .expr .member,
        .expr .call, .expr .functionLit, .expr .classLit]
  | .method => [.method]

end Lowering.Json

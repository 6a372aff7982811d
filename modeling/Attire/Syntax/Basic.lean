import Attire.Class.Member
import Attire.ModuleId
import Attire.Ty.Collection

namespace Attire

/-! Syntax trees of modules.  Checking leaves what it finds out in the notes of the tree; a tree
that has not been checked has none. -/

abbrev Path := List String

def Path.text (path : Path) : String := ".".intercalate path

inductive TypeExpr
  | num
  | text
  | bool
  | void
  | array (element : TypeExpr)
  | tuple (elements : List TypeExpr)
  | map (key value : TypeExpr)
  | set (element : TypeExpr)
  | suggestion
  | named (path : Path)
deriving Inhabited, Repr

inductive BinaryOp
  | add
  | sub
  | mul
  | div
  | rem
  | eq
  | ne
  | lt
  | le
  | gt
  | ge
  | and
  | or
deriving DecidableEq, Repr

def BinaryOp.symbol : BinaryOp → String
  | add => "+"
  | sub => "-"
  | mul => "*"
  | div => "/"
  | rem => "%"
  | eq => "=="
  | ne => "!="
  | lt => "<"
  | le => "<="
  | gt => ">"
  | ge => ">="
  | and => "&&"
  | or => "||"

inductive UnaryOp
  | neg
  | not
deriving DecidableEq, Repr

def UnaryOp.symbol : UnaryOp → String
  | neg => "-"
  | not => "!"

inductive CompoundOp
  | add
  | sub
  | mul
  | div
deriving DecidableEq, Repr

def CompoundOp.symbol : CompoundOp → String
  | add => "+="
  | sub => "-="
  | mul => "*="
  | div => "/="

/-- What a name, member or class in an expression turned out to be. -/
inductive Meaning
  | fabric (id : FabricId)
  | field (info : FieldInfo)
  | method (sig : MethodSig)
  | superMethod (parent : ClassId) (sig : MethodSig)
  | tupleIndex (position : Nat)
  | cls (id : ClassId)
deriving Repr

/-- What checking found out about an expression. -/
structure Note where
  ty : Ty
  meaning : Option Meaning := none
deriving Repr

mutual

inductive Expr
  | mk (note : Option Note) (form : Form)

inductive Form
  | num (value : Float)
  | text (value : String)
  | bool (value : Bool)
  | null
  | this
  | caller
  | name (path : Path)
  | field (object : Expr) (name : String)
  | index (object index : Expr)
  | call (object : Expr) (method : String) (args : List Expr)
  | superCall (method : String) (args : List Expr)
  | new (ty : TypeExpr)
  | binary (op : BinaryOp) (left right : Expr)
  | unary (op : UnaryOp) (operand : Expr)
  | array (elements : List Expr)
  | tuple (elements : List Expr)
  | cast (value : Expr) (ty : TypeExpr)
  | clone (value : Expr)
  | len (value : Expr)
  | has (collection key : Expr)
  | is (value : Expr) (cls : Path)
  | random
  | suggest (steps : List SuggestStep)

inductive SuggestStep
  | extend (note : Option ClassId) (target : Expr) (cls : Path)
  | retract (note : Option ClassId) (target : Expr) (cls : Path)
  | call (note : Option MethodSig) (target : Expr) (method : String) (args : List Expr)

end

instance : Inhabited Expr := ⟨.mk none .null⟩

namespace Expr

def note : Expr → Option Note
  | mk note _ => note

def form : Expr → Form
  | mk _ form => form

def ty? (expr : Expr) : Option Ty := expr.note.map Note.ty

def meaning? (expr : Expr) : Option Meaning := expr.note.bind Note.meaning

end Expr

/-- How a loop walks its collection, and the types of its variables. -/
structure LoopPlan where
  kind : IterKind
  first : Ty
  second : Option Ty
deriving Repr

inductive Stmt
  | «let» (note : Option Ty) (name : String) (ty : Option TypeExpr) (init : Option Expr)
      (span : Span)
  | assign (target value : Expr) (span : Span)
  | compound (op : CompoundOp) (target value : Expr) (span : Span)
  | expr (expr : Expr) (span : Span)
  | «if» (cond : Expr) (yes no : List Stmt) (span : Span)
  | «while» (cond : Expr) (body : List Stmt) (span : Span)
  | «for» (note : Option LoopPlan) (key : String) (value : Option String)
      (keyTy valueTy : Option TypeExpr) (iter : Expr) (body : List Stmt) (span : Span)
  | «return» (value : Option Expr) (span : Span)
  | «break» (span : Span)
  | «continue» (span : Span)
  | extend (note : Option ClassId) (target : Expr) (cls : Path) (span : Span)
  | retract (note : Option ClassId) (target : Expr) (cls : Path) (span : Span)
  | enforce (suggestion : Expr) (span : Span)
deriving Inhabited

namespace Stmt

def span : Stmt → Span
  | «let» _ _ _ _ span | assign _ _ span | compound _ _ _ span | expr _ span | «if» _ _ _ span
  | «while» _ _ span | «for» _ _ _ _ _ _ _ span | «return» _ span | «break» span
  | «continue» span | extend _ _ _ span | retract _ _ _ span | enforce _ span => span

end Stmt

structure Param where
  name : String
  ty : TypeExpr
deriving Inhabited, Repr

structure FieldDecl where
  name : String
  ty : TypeExpr
  init : Option Expr := none
  span : Span := {}
deriving Inhabited

structure MethodDecl where
  name : String
  params : List Param := []
  ret : TypeExpr := .void
  mutating : Bool := false
  mutatingThis : Bool := false
  isOverride : Bool := false
  body : List Stmt := []
  span : Span := {}
deriving Inhabited

inductive Member
  | field (decl : FieldDecl)
  | method (decl : MethodDecl)
deriving Inhabited

structure ClassDecl where
  name : String
  parents : List Path := []
  exported : Bool := false
  members : List Member := []
  span : Span := {}
deriving Inhabited

structure FabricDecl where
  name : String
  lines : List String
  exported : Bool := false
  span : Span := {}
deriving Inhabited

inductive Decl
  | copyright (text : String) (span : Span)
  | license (text : String) (span : Span)
  | «import» (url name : String) (span : Span)
  | «alias» (name : String) (path : Path) (exported : Bool) (span : Span)
  | wildcard (path : Path) (span : Span)
  | cls (decl : ClassDecl)
  | fabric (decl : FabricDecl)
  | main (path : Path) (span : Span)
deriving Inhabited

namespace Decl

def span : Decl → Span
  | copyright _ span | license _ span | «import» _ _ span | «alias» _ _ _ span | wildcard _ span
  | main _ span => span
  | cls decl => decl.span
  | fabric decl => decl.span

end Decl

structure ModuleTree where
  declarations : List Decl := []
deriving Inhabited

end Attire

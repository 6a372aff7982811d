import Attire.Class.Basic
import Attire.Typing.Error

namespace Attire

/-! What the parts of a body are checked against. -/

structure CheckContext where
  classes : ClassRegistry
  names : NameScope
  rootClass : Option ClassId
  clonableClass : Option ClassId
  /-- The class that declares the body. -/
  cls : ClassId := ⟨0⟩
  effects : Effects := {}
  ret : Ty := .void
  /-- The variables of the blocks around the present place, innermost first. -/
  scopes : List (Table String Ty) := []
  inLoop : Bool := false

namespace CheckContext

def describe (ctx : CheckContext) (ty : Ty) : String := ctx.classes.describe ty

def findLocal (name : String) : List (Table String Ty) → Option Ty
  | [] => none
  | scope :: outer =>
    match scope.get? name with
    | some ty => some ty
    | none => findLocal name outer

def local? (ctx : CheckContext) (name : String) : Option Ty := findLocal name ctx.scopes

/-- The variable that a path of one step names. -/
def localOfPath? (ctx : CheckContext) : Path → Option Ty
  | [name] => ctx.local? name
  | _ => none

def enter (ctx : CheckContext) (locals : Table String Ty) : CheckContext :=
  { ctx with scopes := locals :: ctx.scopes }

/-- Adds a variable to the innermost block, which has none of that name. -/
def declare (ctx : CheckContext) (name : String) (ty : Ty) : Except CheckCause CheckContext :=
  match ctx.scopes with
  | [] => .ok (ctx.enter ((∅ : Table String Ty).insert name ty))
  | scope :: outer =>
    if scope.contains name then .error (.duplicateLocal name)
    else .ok { ctx with scopes := scope.insert name ty :: outer }

def mismatch (ctx : CheckContext) (expected actual : Ty) : CheckCause :=
  .typeMismatch (ctx.describe expected) (ctx.describe actual)

def accepts (ctx : CheckContext) (expected actual : Ty) : Bool :=
  expected.accepts actual ctx.classes.hierarchy

def castable (ctx : CheckContext) (source target : Ty) : Bool :=
  source.relates .castable ctx.classes.hierarchy target

def nameOf (ctx : CheckContext) (cls : ClassId) : String :=
  ((ctx.classes.get? cls).map ClassDef.name).getD ""

def resolve {α : Type} (result : Except ResolveCause α) : Except CheckCause α :=
  result.mapError .resolve

def resolveClass (ctx : CheckContext) (path : Path) : Except CheckCause ClassId :=
  resolve (ctx.names.resolveClass path)

def resolveType (ctx : CheckContext) (ty : TypeExpr) : Except CheckCause Ty :=
  resolve (ctx.names.resolveType ty)

def objectClass (ctx : CheckContext) (ty : Ty) (member : String) : Except CheckCause ClassId :=
  match ty with
  | .object cls => .ok cls
  | _ => .error (.notAnObject member (ctx.describe ty))

def lookupMethod (ctx : CheckContext) (cls : ClassId) (name : String) :
    Except CheckCause MethodSig :=
  match (ctx.classes.get? cls).bind fun cls => cls.methods.get? name with
  | some (.member sig) => .ok sig
  | some .conflict => .error (.inheritanceConflict (ctx.nameOf cls) name)
  | none => .error (.undefinedMember (ctx.nameOf cls) name)

def lookupField (ctx : CheckContext) (cls : ClassId) (name : String) :
    Except CheckCause FieldInfo :=
  match (ctx.classes.get? cls).bind fun cls => cls.fields.get? name with
  | some (.member info) => .ok info
  | some .conflict => .error (.inheritanceConflict (ctx.nameOf cls) name)
  | none =>
    if ((ctx.classes.get? cls).bind fun cls => cls.method? name).isSome then
      .error (.methodAsValue name)
    else
      .error (.undefinedMember (ctx.nameOf cls) name)

/-- The first parent that has a name, with the method that it has under it. -/
def lookupSuper (ctx : CheckContext) (name : String) :
    List ClassId → Except CheckCause (ClassId × MethodSig)
  | [] => .error (.noSuperMethod (ctx.nameOf ctx.cls) name)
  | parent :: rest =>
    match (ctx.classes.get? parent).bind fun cls => cls.methods.get? name with
    | some (.member sig) => .ok (parent, sig)
    | some .conflict => .error (.inheritanceConflict (ctx.nameOf parent) name)
    | none => lookupSuper ctx name rest

def isClonable (ctx : CheckContext) : Ty → Bool
  | .array _ | .map _ _ | .set _ => true
  | .object cls => ctx.clonableClass.any fun clonable => ctx.classes.isSubclass cls clonable
  | _ => false

def require (ctx : CheckContext) (requirement : Requirement) (action : String) :
    Except CheckCause Unit :=
  if ctx.effects.allows requirement then .ok ()
  else .error (.mutationDenied action requirement)

end CheckContext

/-- Whether an expression starts a chain of members. -/
def Expr.isChainRoot : Expr → Bool
  | .mk _ .this | .mk _ (.name _) => true
  | _ => false

/-- The location that a checked expression denotes. -/
def CheckContext.placeOf (ctx : CheckContext) : Expr → Place
  | .mk _ .this => ⟨.this, false⟩
  | .mk note (.name path) =>
    if (ctx.localOfPath? path).isSome then ⟨.local, false⟩
    else
      match note.bind Note.meaning with
      | some (.fabric _) => ⟨.fabric path.text, false⟩
      | _ => ⟨.other, false⟩
  | .mk _ (.field object _) =>
    let inner := placeOf ctx object
    ⟨inner.root, inner.crossesObject || !object.isChainRoot⟩
  | .mk _ (.index object _) => placeOf ctx object
  | _ => ⟨.other, false⟩

/-- The location that a call changes if it changes its receiver. -/
def CheckContext.receiverPlace (ctx : CheckContext) (receiver : Expr) : Place :=
  let place := ctx.placeOf receiver
  ⟨place.root, place.crossesObject || !receiver.isChainRoot⟩

end Attire

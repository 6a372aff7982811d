import Attire.Class.Basic
import Attire.Lowering.Stmt
import Attire.Typing.Stmt

namespace Attire

/-! The bodies that the classes of a module declare: from their syntax to installed routines. -/

/-- A method or an initializer, with the contract that it is checked against. -/
inductive Body
  | method (cls : ClassId) (sig : MethodSig) (decl : MethodDecl)
  | initializer (cls : ClassId) (ty : Ty) (decl : FieldDecl)

namespace Body

/-- The body of a member of a composed class. -/
def ofMember (cls : ClassDef) : Member → Option Body
  | .method decl =>
    (cls.ownMethods.find? fun sig => sig.name = decl.name).map fun sig =>
      .method cls.id sig decl
  | .field decl =>
    (cls.ownFields.find? fun own => own.name = decl.name).map fun own =>
      .initializer cls.id own.ty decl

def ofClass (classes : ClassRegistry) (id : ClassId) (decl : ClassDecl) : List Body :=
  match classes.get? id with
  | some cls => decl.members.filterMap (ofMember cls)
  | none => []

def check (ctx : CheckContext) : Body → Except CheckError Body
  | .method cls sig decl => return .method cls sig (← ctx.checkMethod cls sig decl)
  | .initializer cls ty decl => return .initializer cls ty (← ctx.checkInitializer cls ty decl)

end Body

/-- A routine and the place in its class where it belongs. -/
inductive Installation
  | body (cls : ClassId) (slot : MethodSlot) (routine : Routine)
  | initializer (cls : ClassId) (field : String) (routine : Routine)

def Installation.apply (classes : ClassRegistry) : Installation → ClassRegistry
  | .body cls slot routine =>
    classes.modify cls fun cls => { cls with bodies := cls.bodies.insert slot routine }
  | .initializer cls field routine =>
    classes.modify cls fun cls =>
      { cls with initializers := cls.initializers.insert field routine }

/-- The routine of a checked body.  A field without an initializer has none. -/
def Body.lower (classes : ClassRegistry) (fabrics : Fabrics) :
    Body → Except LoweringError (Option Installation)
  | .method cls sig decl => do
    let name := ((classes.get? cls).map ClassDef.name).getD ""
    return some (.body cls sig.slot (← lowerMethod fabrics name sig decl))
  | .initializer cls ty decl => do
    if decl.init.isNone then
      return none
    let name := ((classes.get? cls).map ClassDef.name).getD ""
    return some (.initializer cls decl.name (← lowerInitializer fabrics name decl ty))

end Attire

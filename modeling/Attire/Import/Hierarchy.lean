import Attire.Class.Compose
import Attire.Typing.Resolve

namespace Attire

/-! The classes of one module, composed with parents before children. -/

/-- What a class of the module is composed from. -/
structure ClassSpec where
  parents : List ClassId
  members : List MemberSpec
  span : Span
deriving Inhabited

abbrev ClassSpecs := Table ClassId ClassSpec

def memberSpec (names : NameScope) : Member → Except ResolveError MemberSpec
  | .field field => do
    let ty ← (names.resolveType field.ty).mapError fun cause => ⟨cause, some field.span⟩
    return .field { name := field.name, ty, span := field.span }
  | .method method => do
    let charge {α : Type} (result : Except ResolveCause α) : Except ResolveError α :=
      result.mapError fun cause => ⟨cause, some method.span⟩
    let params ← charge (names.resolveTypes (method.params.map Param.ty))
    let ret ← charge (names.resolveType method.ret)
    return .method {
      name := method.name
      params
      ret
      mutating := method.mutating
      mutatingThis := method.mutatingThis
      isOverride := method.isOverride
      span := method.span }

/-- A class without parents of its own has the root class for one, unless the module may do
without or the class is the root. -/
def classSpec (names : NameScope) (privileged : Bool) (root : Option ClassId) (id : ClassId)
    (decl : ClassDecl) : Except ResolveError ClassSpec := do
  let parents ← (decl.parents.mapM names.resolveClass).mapError fun cause =>
    ⟨cause, some decl.span⟩
  let parents :=
    if parents.isEmpty && !privileged then (root.filter (· ≠ id)).toList else parents
  return { parents, members := ← decl.members.mapM (memberSpec names), span := decl.span }

structure Hierarchies where
  classes : ClassRegistry
  /-- Classes of the module that are still to be composed. -/
  waiting : ClassSpecs

/-- Composes a class after its parents.  `below` are the classes whose parents are being composed;
classes of other modules are composed already. -/
def composeAfterParents : Nat → List ClassId → Hierarchies → ClassId →
    Except ComposeError Hierarchies
  | 0, _, state, _ => .ok state
  | steps + 1, below, state, id =>
    if id ∈ below then
      .error {
        cause := .inheritanceCycle
        cls := ((state.classes.get? id).map ClassDef.name).getD ""
        span := ((state.waiting.get? id).map ClassSpec.span).getD {} }
    else
      match state.waiting.get? id with
      | none => .ok state
      | some spec => do
        let state ← spec.parents.foldlM (composeAfterParents steps (id :: below)) state
        let classes ← state.classes.compose id spec.parents spec.members
        return { classes, waiting := state.waiting.erase id }

/-- Composes all classes of a module. -/
def composeAll (classes : ClassRegistry) (specs : List (ClassId × ClassSpec)) :
    Except ComposeError ClassRegistry := do
  let waiting := specs.foldl (fun table entry => table.insert entry.1 entry.2) (∅ : ClassSpecs)
  let state ← specs.foldlM
    (fun state entry => composeAfterParents (specs.length + 1) [] state entry.1)
    (⟨classes, waiting⟩ : Hierarchies)
  return state.classes

end Attire

import Attire.Class.Basic

namespace Attire

/-! Composition of a class from its parents and its own members. -/

inductive ComposeCause
  | memberCollision
  | duplicateMember
  | missingOverride
  | overrideMismatch
  | nothingToOverride
  | conflictedOverride
  | inheritanceCycle
deriving DecidableEq, Repr

structure ComposeError where
  cause : ComposeCause
  cls : String
  member : String := ""
  span : Span
deriving DecidableEq, Repr

def ComposeError.message (error : ComposeError) : String :=
  let cls := error.cls
  let name := error.member
  match error.cause with
  | .memberCollision => s!"Field '{name}' of class '{cls}' collides with an existing member"
  | .duplicateMember => s!"Duplicate member '{name}' in class '{cls}'"
  | .missingOverride =>
    s!"Method '{name}' of class '{cls}' overrides an inherited method and must be marked override"
  | .overrideMismatch =>
    s!"Method '{name}' of class '{cls}' must have the same signature as the method it overrides"
  | .nothingToOverride =>
    s!"Method '{name}' of class '{cls}' is marked override but overrides nothing"
  | .conflictedOverride =>
    s!"Method '{name}' of class '{cls}' overrides a conflicting inherited member"
  | .inheritanceCycle => s!"Class '{cls}' inherits from itself"

/-- The members of a class under composition. -/
structure Composition where
  methods : Table String (Entry MethodSig) := ∅
  fields : Table String (Entry FieldInfo) := ∅
  ownFields : List OwnField := []
  ownMethods : List MethodSig := []

namespace Composition

def mergeEntry {α : Type} (agree : α → α → Bool) (table : Table String (Entry α))
    (incoming : String × Entry α) : Table String (Entry α) :=
  match table.get? incoming.1 with
  | none => table.insert incoming.1 incoming.2
  | some existing => table.insert incoming.1 (existing.meet agree incoming.2)

def mergeTable {α : Type} (agree : α → α → Bool) (table incoming : Table String (Entry α)) :
    Table String (Entry α) :=
  incoming.entries.foldl (mergeEntry agree) table

def inheritFrom (composition : Composition) (parent : ClassDef) : Composition :=
  { composition with
    methods := mergeTable MethodSig.sameContract composition.methods parent.methods
    fields := mergeTable FieldInfo.same composition.fields parent.fields }

/-- A name that is a method of one parent and a field of another one is a conflict as both. -/
def clash (composition : Composition) : Composition :=
  let names := composition.methods.keys.filter composition.fields.contains
  { composition with
    methods := names.foldl (fun table name => table.insert name .conflict) composition.methods
    fields := names.foldl (fun table name => table.insert name .conflict) composition.fields }

/-- What the parents bring.  Parents that are not registered bring nothing. -/
def ofParents (registry : ClassRegistry) (parents : List ClassId) : Composition :=
  ((parents.filterMap registry.get?).foldl inheritFrom {}).clash

def addField (composition : Composition) (id : ClassId) (field : OwnField) :
    Except ComposeCause Composition :=
  if composition.ownFields.any fun own => own.name = field.name then
    .error .duplicateMember
  else if composition.methods.contains field.name || composition.fields.contains field.name then
    .error .memberCollision
  else
    let info : FieldInfo := ⟨⟨id, composition.ownFields.length⟩, field.name, field.ty⟩
    .ok { composition with
      fields := composition.fields.insert field.name (.member info)
      ownFields := composition.ownFields ++ [field] }

/-- The signature under which a method enters the class: its own, or that of an override, which
keeps the dispatch slot of what it overrides. -/
def resolveMethod (composition : Composition) (id : ClassId) (spec : MethodSpec) :
    Except ComposeCause MethodSig :=
  let sig := spec.signature id
  match composition.methods.get? spec.name with
  | none =>
    if composition.fields.contains spec.name then .error .memberCollision
    else if spec.isOverride then .error .nothingToOverride
    else .ok sig
  | some .conflict => .error .conflictedOverride
  | some (.member inherited) =>
    if !spec.isOverride then .error .missingOverride
    else if inherited.sameContract sig then .ok { sig with owner := inherited.owner }
    else .error .overrideMismatch

def addMethod (composition : Composition) (id : ClassId) (spec : MethodSpec) :
    Except ComposeCause Composition :=
  if composition.ownMethods.any fun own => own.name = spec.name then
    .error .duplicateMember
  else do
    let sig ← composition.resolveMethod id spec
    return { composition with
      methods := composition.methods.insert spec.name (.member sig)
      ownMethods := composition.ownMethods ++ [sig] }

def add (cls : ClassDef) (composition : Composition) (member : MemberSpec) :
    Except ComposeError Composition :=
  match member with
  | .field field =>
    (composition.addField cls.id field).mapError fun cause =>
      { cause, cls := cls.name, member := field.name, span := field.span }
  | .method spec =>
    (composition.addMethod cls.id spec).mapError fun cause =>
      { cause, cls := cls.name, member := spec.name, span := spec.span }

end Composition

namespace ClassRegistry

/-- Gives a registered class its parents, which are composed already, and its own members. -/
def compose (registry : ClassRegistry) (id : ClassId) (parents : List ClassId)
    (members : List MemberSpec) : Except ComposeError ClassRegistry :=
  match registry.get? id with
  | none => .ok registry
  | some cls => do
    let composition ← members.foldlM (Composition.add cls) (Composition.ofParents registry parents)
    return registry.modify id fun cls =>
      { cls with
        parents
        methods := composition.methods
        fields := composition.fields
        ownFields := composition.ownFields
        ownMethods := composition.ownMethods }

end ClassRegistry

end Attire

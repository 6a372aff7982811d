import Attire.Import.Build
import Attire.Proofs.Lowering.Permits
import Attire.Proofs.Lowering.Success
import Attire.Proofs.Machine.Ordinary
import Attire.Proofs.Typing.Checker

namespace Attire

/-! Where installed routines come from, and what they may do. -/

/-- The source of the module declares the class. -/
def Sources.DeclaresAt (sources : Sources) (url : String) (decl : ClassDecl) : Prop :=
  ∃ text tree, sources.fetch url = .ok text ∧ ModuleTree.ofText? text = some tree ∧
    Decl.cls decl ∈ tree.declarations

/-- Qualified names tell the declared classes apart. -/
def Sources.Unambiguous (sources : Sources) : Prop :=
  ∀ url url' decl decl', sources.DeclaresAt url decl → sources.DeclaresAt url' decl' →
    ClassRegistry.qualifiedName url decl.name = ClassRegistry.qualifiedName url' decl'.name →
    url = url' ∧ decl.name = decl'.name

/-- What routines are compiled from, and what there is for them. -/
structure Supply where
  options : Options
  sources : Sources
  fabrics : Fabrics
  outline : Outline

/-- The second supply has more to offer. -/
structure Supply.Grows (supply next : Supply) : Prop where
  options : next.options = supply.options
  sources : next.sources = supply.sources
  fabrics {id : FabricId} {value : Value} : supply.fabrics id = some value →
    next.fabrics id = some value
  outline : supply.outline ≤ next.outline

/-- The names of a context stand for what is registered, and its fabrics are arrays. -/
structure CheckContext.Grounded (ctx : CheckContext) (fabrics : Fabrics) (outline : Outline) :
    Prop where
  composed : ctx.classes.Composed
  provides : ctx.Provides fabrics
  cls {path : Path} {cls : ClassId} : ctx.names.resolve path = .ok (.cls cls) →
    ctx.classes.contains cls
  root {cls : ClassId} : ctx.rootClass = some cls → ctx.classes.contains cls
  fabric {id : FabricId} {value : Value} : fabrics id = some value →
    ∃ ref, value = .array ref ∧ outline.Names value

/-- A class declaration and what its bodies were checked and compiled against. -/
structure Provenance where
  url : String
  decl : ClassDecl
  ctx : CheckContext
  fabrics : Fabrics

namespace Provenance

/-- The source is there, and what the bodies were checked against still is.  Only privileged modules
do without a root class. -/
structure Valid (source : Provenance) (supply : Supply) (classes : ClassRegistry) : Prop where
  declared : supply.sources.DeclaresAt source.url source.decl
  rooted : source.ctx.rootClass = none → supply.options.isPrivileged source.url
  known {id : FabricId} {value : Value} : source.fabrics id = some value →
    supply.fabrics id = some value
  grounded : source.ctx.Grounded source.fabrics supply.outline
  outlines : source.ctx.classes.Outlines classes

/-- The routine is what became of a method of the class. -/
structure Method (source : Provenance) (cls : ClassId) (sig : MethodSig) (routine : Routine) :
    Prop where
  declares : source.ctx.classes.Declares cls sig
  compiled : ∃ method checked name, Member.method method ∈ source.decl.members ∧
    method.name = sig.name ∧ method.params.length = sig.params.length ∧
    source.ctx.checkMethod cls sig method = .ok checked ∧
    lowerMethod source.fabrics name sig checked = .ok routine

/-- The routine is what became of a field's initializer. -/
structure Initializer (source : Provenance) (cls : ClassId) (own : OwnField) (routine : Routine) :
    Prop where
  stores : ∃ found, source.ctx.classes.get? cls = some found ∧ own ∈ found.ownFields
  compiled : ∃ field checked name, Member.field field ∈ source.decl.members ∧
    field.name = own.name ∧ field.init.isSome ∧
    source.ctx.checkInitializer cls own.ty field = .ok checked ∧
    lowerInitializer source.fabrics name checked own.ty = .ok routine

theorem Valid.mono {source : Provenance} {supply supply' : Supply} {classes next : ClassRegistry}
    (h : source.Valid supply classes) (hsupply : supply.Grows supply')
    (hclasses : classes.Outlines next) : source.Valid supply' next where
  declared := hsupply.sources ▸ h.declared
  rooted := hsupply.options ▸ h.rooted
  known hfabric := hsupply.fabrics (h.known hfabric)
  grounded := { h.grounded with
    fabric := fun hfabric => by
      obtain ⟨ref, hvalue, hnames⟩ := h.grounded.fabric hfabric
      exact ⟨ref, hvalue, hnames.mono hsupply.outline⟩ }
  outlines := h.outlines.trans hclasses

end Provenance

/-- Every installed routine was compiled from a source, and every method that a class declares has
one. -/
structure ClassRegistry.Compiled (classes : ClassRegistry) (supply : Supply) : Prop where
  body {cls : ClassId} {found : ClassDef} {slot : MethodSlot} {routine : Routine} :
    classes.get? cls = some found → (slot, routine) ∈ found.bodies.entries →
    ∃ (source : Provenance) (sig : MethodSig), source.Valid supply classes ∧ sig.slot = slot ∧
      source.Method cls sig routine
  initializer {cls : ClassId} {found : ClassDef} {name : String} {routine : Routine} :
    classes.get? cls = some found → (name, routine) ∈ found.initializers.entries →
    ∃ (source : Provenance) (own : OwnField), source.Valid supply classes ∧ own.name = name ∧
      source.Initializer cls own routine
  complete {cls : ClassId} {found : ClassDef} {sig : MethodSig} :
    classes.get? cls = some found → sig ∈ found.ownMethods → found.bodies.contains sig.slot
  distinct {cls : ClassId} {found : ClassDef} :
    classes.get? cls = some found → found.bodies.keys.Nodup
  written {cls : ClassId} {sig : MethodSig} : classes.Declares cls sig → sig.Written
  stored {cls : ClassId} {found : ClassDef} {own : OwnField} :
    classes.get? cls = some found → own ∈ found.ownFields → own.ty.Written

namespace ClassRegistry

/-- Methods for the slot are neither `mutating` nor `mutating this`. -/
def PlainSlot (classes : ClassRegistry) (slot : MethodSlot) : Prop :=
  ∃ cls sig, classes.Declares cls sig ∧ sig.slot = slot ∧ sig.mutating = false ∧
    sig.mutatingThis = false

/-- Everything that is there. -/
def full (classes : ClassRegistry) (outline : Outline) : Permit where
  new cls := classes.contains cls
  call _ := True
  superCall cls slot := classes.contains cls ∧ classes.Answers cls slot
  wear cls := classes.contains cls
  const value := value.Known classes outline
  store key := classes.HasField key
  write := True

/-- Everything that changes nothing. -/
def plain (classes : ClassRegistry) (outline : Outline) : Permit :=
  { classes.full outline with
    call := classes.PlainSlot
    superCall := fun cls slot =>
      classes.PlainSlot slot ∧ classes.contains cls ∧ classes.Answers cls slot
    write := False }

end ClassRegistry

namespace Provenance.Valid

variable {source : Provenance} {supply : Supply} {classes : ClassRegistry}
variable {cls : ClassId} {sig : MethodSig}

theorem contains_of_resolveClass (h : source.Valid supply classes) {path : Path}
    (hpath : source.ctx.resolveClass path = .ok cls) : classes.contains cls := by
  obtain ⟨target, htarget, hcls⟩ := bind_eq_ok.mp (mapError_eq_ok.mp hpath)
  cases target with
  | cls id =>
    cases hcls
    exact h.outlines.contains (h.grounded.cls htarget)
  | _ => cases hcls

theorem contains_of_resolveType (h : source.Valid supply classes) {written : TypeExpr}
    (hwritten : source.ctx.resolveType written = .ok (.object cls)) : classes.contains cls := by
  replace hwritten := mapError_eq_ok.mp hwritten
  cases written with
  | named path =>
    obtain ⟨id, hid, heq⟩ := bind_eq_ok.mp hwritten
    cases heq
    exact h.contains_of_resolveClass (mapError_eq_ok.mpr hid)
  | num | text | bool | void | suggestion => cases hwritten
  | array | set | tuple =>
    obtain ⟨_, -, heq⟩ := bind_eq_ok.mp hwritten
    cases heq
  | map =>
    obtain ⟨_, -, hwritten⟩ := bind_eq_ok.mp hwritten
    obtain ⟨_, -, heq⟩ := bind_eq_ok.mp hwritten
    cases heq

theorem declares_of_lookup (h : source.Valid supply classes) {name : String}
    (hlookup : source.ctx.lookupMethod cls name = .ok sig) :
    ∃ owner, classes.Inherits cls owner ∧ classes.Declares owner sig := by
  obtain ⟨found, hfound, hget⟩ := CheckContext.lookupMethod_eq_ok.mp hlookup
  obtain ⟨-, owner, hpath, hown⟩ :=
    h.grounded.composed.method hfound (Table.mem_of_get? hget)
  exact ⟨owner, hpath.mono h.outlines.parents, h.outlines.declares hown⟩

theorem hasField_of_lookup (h : source.Valid supply classes) {name : String}
    {info : FieldInfo} (hlookup : source.ctx.lookupField cls name = .ok info) :
    classes.HasField info.key := by
  obtain ⟨found, hfound, hget⟩ := CheckContext.lookupField_eq_ok.mp hlookup
  obtain ⟨-, -, hstores⟩ := h.grounded.composed.field hfound (Table.mem_of_get? hget)
  obtain ⟨owner, own, howner, hown, -⟩ := h.outlines.stores hstores
  exact ⟨owner, howner, (List.getElem?_eq_some_iff.mp hown).1⟩

/-- A method that is reached through `super` has a body above the parent. -/
theorem answers_of_lookup (h : source.Valid supply classes)
    (hcompiled : classes.Compiled supply) {name : String}
    (hlookup : source.ctx.lookupMethod cls name = .ok sig) :
    classes.contains cls ∧ classes.Answers cls sig.slot := by
  obtain ⟨found, hfound, -⟩ := CheckContext.lookupMethod_eq_ok.mp hlookup
  obtain ⟨owner, hpath, ⟨above, habove, hmem⟩⟩ := h.declares_of_lookup hlookup
  exact ⟨h.outlines.contains (ClassRegistry.contains_iff.mpr ⟨found, hfound⟩),
    owner, above, hpath, habove, hcompiled.complete habove hmem⟩

theorem known_of_fabric (h : source.Valid supply classes) {id : FabricId} {value : Value}
    (hfabric : source.fabrics id = some value) : value.Known classes supply.outline := by
  obtain ⟨ref, rfl, hnames⟩ := h.grounded.fabric hfabric
  exact hnames

variable {effects : Effects} {ret : Ty} {scopes : List (Table String Ty)} {inLoop : Bool}

theorem grants_full (h : source.Valid supply classes)
    (hcompiled : classes.Compiled supply) :
    CheckContext.Grants { source.ctx with cls, effects, ret, scopes, inLoop } source.fabrics
      (classes.full supply.outline) where
  new := h.contains_of_resolveType
  call _ _ := trivial
  superCall hlookup _ := h.answers_of_lookup hcompiled (CheckContext.lookupSuper_eq_ok hlookup).2
  wear := h.contains_of_resolveClass
  const _ := h.known_of_fabric
  store := h.hasField_of_lookup
  write _ := trivial

/-- What a body without effects may call has no effects either. -/
theorem plainSlot_of_lookup (h : source.Valid supply classes) {name : String}
    {place : Place} (hlookup : source.ctx.lookupMethod cls name = .ok sig)
    (hallows : ({} : Effects).allows (callRequirement sig place)) :
    classes.PlainSlot sig.slot := by
  have hplain : sig.mutating = false ∧ sig.mutatingThis = false := by
    unfold callRequirement at hallows
    split at hallows
    case isTrue => cases hallows
    case isFalse hmutating =>
      split at hallows
      case isTrue hthis => simp_all
      case isFalse => split at hallows <;> cases hallows
  obtain ⟨owner, -, hown⟩ := h.declares_of_lookup hlookup
  exact ⟨owner, sig, hown, rfl, hplain.1, hplain.2⟩

theorem grants_plain (h : source.Valid supply classes)
    (hcompiled : classes.Compiled supply) :
    CheckContext.Grants { source.ctx with cls, effects := {}, ret, scopes, inLoop } source.fabrics
      (classes.plain supply.outline) where
  new := h.contains_of_resolveType
  call hlookup hallows := h.plainSlot_of_lookup hlookup hallows
  superCall hlookup hallows :=
    have hmethod := (CheckContext.lookupSuper_eq_ok hlookup).2
    ⟨h.plainSlot_of_lookup hmethod hallows, h.answers_of_lookup hcompiled hmethod⟩
  wear := h.contains_of_resolveClass
  const _ := h.known_of_fabric
  store := h.hasField_of_lookup
  write hmutates := by rcases hmutates with hmutates | hmutates <;> cases hmutates

end Provenance.Valid

namespace ClassRegistry

variable {classes : ClassRegistry} {supply : Supply}

theorem full_backed (hcomposed : classes.Composed) (hcompiled : classes.Compiled supply) :
    (classes.full supply.outline).Backed classes supply.outline where
  composed := hcomposed
  new h := h
  wear := Iff.rfl
  store := Iff.rfl
  const h := h
  superCall h := ⟨trivial, h⟩
  body := by
    rintro slot routine - ⟨cls, found, hfound, hmem⟩
    obtain ⟨source, sig, hvalid, -, hmethod⟩ := hcompiled.body hfound hmem
    obtain ⟨method, checked, name, -, -, -, hcheck, hlower⟩ := hmethod.compiled
    obtain ⟨params, body, -, rfl, hbody⟩ := CheckContext.checkMethod_sound hcheck
    exact lowerMethod_within hlower (hvalid.grants_full hcompiled) hbody
  initializer := by
    rintro routine ⟨cls, found, field, hfound, hmem⟩
    obtain ⟨source, own, hvalid, -, hinitializer⟩ := hcompiled.initializer hfound hmem
    obtain ⟨field, checked, name, -, -, -, hcheck, hlower⟩ := hinitializer.compiled
    obtain ⟨init, rfl, hinit⟩ := CheckContext.checkInitializer_sound hcheck
    exact lowerInitializer_within hlower (hvalid.grants_full hcompiled) hinit
  call_of_write _ := trivial

/-- Overrides have the contracts of what they override, so all bodies of a plain slot are plain. -/
theorem plain_backed (hcomposed : classes.Composed) (hcompiled : classes.Compiled supply) :
    (classes.plain supply.outline).Backed classes supply.outline where
  composed := hcomposed
  new h := h
  wear := Iff.rfl
  store := Iff.rfl
  const h := h
  superCall h := h
  body := by
    rintro slot routine ⟨owner, own, hown, hslot, hmutating, hthis⟩ ⟨cls, found, hfound, hmem⟩
    obtain ⟨source, sig, hvalid, hsig, hmethod⟩ := hcompiled.body hfound hmem
    have hcontract := hcomposed.contract_eq (hvalid.outlines.declares hmethod.declares) hown
      (hsig.trans hslot.symm)
    have heffects : Effects.ofSig sig = {} := by
      obtain ⟨hsigMutating, hsigThis⟩ := MethodSig.flags_eq hcontract
      simp only [Effects.ofSig, Effects.ofFlags, hsigMutating, hsigThis, hmutating, hthis,
        Bool.or_false]
    obtain ⟨method, checked, name, -, -, -, hcheck, hlower⟩ := hmethod.compiled
    obtain ⟨params, body, -, rfl, hbody⟩ := CheckContext.checkMethod_sound hcheck
    rw [CheckContext.within, heffects] at hbody
    exact lowerMethod_within hlower (hvalid.grants_plain hcompiled) hbody
  initializer := by
    rintro routine ⟨cls, found, field, hfound, hmem⟩
    obtain ⟨source, own, hvalid, -, hinitializer⟩ := hcompiled.initializer hfound hmem
    obtain ⟨field, checked, name, -, -, -, hcheck, hlower⟩ := hinitializer.compiled
    obtain ⟨init, rfl, hinit⟩ := CheckContext.checkInitializer_sound hcheck
    exact lowerInitializer_within hlower (hvalid.grants_plain hcompiled) hinit
  call_of_write := nofun

end ClassRegistry

end Attire

import Attire.Proofs.Host.Fabrics
import Attire.Proofs.Import.Kinds

namespace Attire

open Machine

/-! Whatever hosts do with definite modules, what they are given and what objects store is of the
types that are declared for it. -/

namespace Heap.Kinded

variable {heap : Heap} {kinds : Kinds}

mutual

/-- A value of the kind of a type conforms to the type. -/
theorem conforms (h : heap.Kinded kinds) : ∀ {ty : Ty} {kind : Kind} {value : Value},
    ty.kind? = some kind → value.OfKind kinds kind → Conforms heap ty value
  | .num, _, value, hkind, hvalue | .text, _, value, hkind, hvalue
  | .bool, _, value, hkind, hvalue | .void, _, value, hkind, hvalue
  | .suggestion, _, value, hkind, hvalue => by
    cases hkind
    unfold Conforms
    cases value <;> simp_all
  | .null, _, _, hkind, _ | .method .., _, _, hkind, _ => by cases hkind
  | .object _, _, _, hkind, hvalue => by
    cases hkind
    unfold Conforms
    refine (Value.ofKind_object.mp hvalue).imp_right ?_
    rintro ⟨ref, rfl, href⟩
    obtain ⟨object, hobject⟩ := h.object_of_has href
    exact ⟨ref, object, rfl, hobject⟩
  | .array _, _, _, hkind, hvalue => by
    obtain ⟨_, hinner, rfl⟩ := Ty.kind?_array.mp hkind
    unfold Conforms
    refine (Value.ofKind_array.mp hvalue).imp_right ?_
    rintro ⟨ref, rfl, href⟩
    obtain ⟨items, hitems⟩ := h.array_of_has href
    exact ⟨ref, items, rfl, hitems, fun item hmem =>
      h.conforms hinner (h.array_items href hitems item hmem)⟩
  | .set _, _, _, hkind, hvalue => by
    obtain ⟨_, hinner, rfl⟩ := Ty.kind?_set.mp hkind
    unfold Conforms
    refine (Value.ofKind_set.mp hvalue).imp_right ?_
    rintro ⟨ref, rfl, href⟩
    obtain ⟨entries, hentries⟩ := h.set_of_has href
    exact ⟨ref, entries, rfl, hentries, fun item hmem =>
      h.conforms hinner (h.set_items href hentries item hmem)⟩
  | .map _ _, _, _, hkind, hvalue => by
    obtain ⟨_, _, hkey, hcontent, rfl⟩ := Ty.kind?_map.mp hkind
    unfold Conforms
    refine (Value.ofKind_map.mp hvalue).imp_right ?_
    rintro ⟨ref, rfl, href⟩
    obtain ⟨entries, hentries⟩ := h.map_of_has href
    refine ⟨ref, entries, rfl, hentries, fun entry hmem => ?_⟩
    obtain ⟨hkeyOf, hcontentOf⟩ := h.map_entries href hentries entry hmem
    exact ⟨h.conforms hkey hkeyOf, h.conforms hcontent hcontentOf⟩
  | .tuple _, _, _, hkind, hvalue => by
    obtain ⟨all, hall, rfl⟩ := Ty.kind?_tuple.mp hkind
    obtain ⟨items, rfl, hitems⟩ := Value.ofKind_tuple.mp hvalue
    unfold Conforms
    exact ⟨items, rfl, h.conformsAll hall hitems⟩

theorem conformsAll (h : heap.Kinded kinds) : ∀ {types : List Ty} {all : List Kind}
    {values : List Value}, Ty.kinds? types = some all →
      List.Forall₂ (Value.OfKind kinds) values all → ConformsAll heap types values
  | [], _, _, hkinds, hvalues => by
    cases hkinds
    cases hvalues
    trivial
  | _ :: _, _, _, hkinds, hvalues => by
    obtain ⟨_, _, hkind, hothers, rfl⟩ := Ty.kinds?_cons.mp hkinds
    cases hvalues with
    | cons hvalue hrest => exact ⟨h.conforms hkind hvalue, h.conformsAll hothers hrest⟩

end

end Heap.Kinded

/-- The value is of the kind of the type. -/
def Value.OfType (kinds : Kinds) (value : Value) (ty : Ty) : Prop :=
  ∃ kind, ty.kind? = some kind ∧ value.OfKind kinds kind

section

variable {kinds later : Kinds} {value : Value} {ty : Ty}

theorem Value.OfType.mono (hle : kinds ≤ later) (h : value.OfType kinds ty) :
    value.OfType later ty :=
  h.imp fun _ ⟨hkind, hvalue⟩ => ⟨hkind, hvalue.mono hle⟩

theorem Value.OfType.ofKind (h : value.OfType kinds ty) {kind : Kind} (hkind : ty.kind? = some kind) :
    value.OfKind kinds kind := by
  obtain ⟨_, hother, hvalue⟩ := h
  rw [hkind] at hother
  cases hother
  exact hvalue

theorem Value.OfType.conforms {heap : Heap} (h : value.OfType kinds ty)
    (hheap : heap.Kinded kinds) : Conforms heap ty value := by
  obtain ⟨kind, hkind, hvalue⟩ := h
  exact hheap.conforms hkind hvalue

theorem Value.ofTypes {values : List Value} {types : List Ty}
    (h : List.Forall₂ (Value.OfType kinds) values types) :
    ∃ all, Ty.kinds? types = some all ∧ List.Forall₂ (Value.OfKind kinds) values all := by
  induction h with
  | nil => exact ⟨[], rfl, .nil⟩
  | cons hvalue _ ih =>
    obtain ⟨kind, hkind, hvalue⟩ := hvalue
    obtain ⟨all, hall, hvalues⟩ := ih
    exact ⟨_, Ty.kinds?_cons.mpr ⟨kind, all, hkind, hall, rfl⟩, .cons hvalue hvalues⟩

theorem Value.ofType_object {ref : Ref} {cls : ClassId} :
    (Value.object ref).OfType kinds (.object cls) ↔ kinds.Has ref .object := by
  constructor
  · rintro ⟨_, ⟨⟩, -, href⟩
    exact href
  · exact fun href => ⟨.object, rfl, rfl, href⟩

theorem Value.ofType_array {container : Value} : container.OfType kinds (.array ty) ↔
    ∃ element, ty.kind? = some element ∧ container.OfKind kinds (.array element) := by
  constructor
  · rintro ⟨_, hkind, hvalue⟩
    obtain ⟨element, helement, rfl⟩ := Ty.kind?_array.mp hkind
    exact ⟨element, helement, hvalue⟩
  · rintro ⟨element, helement, hvalue⟩
    exact ⟨_, Ty.kind?_array.mpr ⟨element, helement, rfl⟩, hvalue⟩

theorem Value.ofType_set {container : Value} : container.OfType kinds (.set ty) ↔
    ∃ element, ty.kind? = some element ∧ container.OfKind kinds (.set element) := by
  constructor
  · rintro ⟨_, hkind, hvalue⟩
    obtain ⟨element, helement, rfl⟩ := Ty.kind?_set.mp hkind
    exact ⟨element, helement, hvalue⟩
  · rintro ⟨element, helement, hvalue⟩
    exact ⟨_, Ty.kind?_set.mpr ⟨element, helement, rfl⟩, hvalue⟩

theorem Value.ofType_map {container : Value} {key content : Ty} :
    container.OfType kinds (.map key content) ↔ ∃ keyKind contentKind, key.kind? = some keyKind ∧
      content.kind? = some contentKind ∧ container.OfKind kinds (.map keyKind contentKind) := by
  constructor
  · rintro ⟨_, hkind, hvalue⟩
    obtain ⟨keyKind, contentKind, hkey, hcontent, rfl⟩ := Ty.kind?_map.mp hkind
    exact ⟨keyKind, contentKind, hkey, hcontent, hvalue⟩
  · rintro ⟨keyKind, contentKind, hkey, hcontent, hvalue⟩
    exact ⟨_, Ty.kind?_map.mpr ⟨keyKind, contentKind, hkey, hcontent, rfl⟩, hvalue⟩

/-- A written type that takes `null` is one of a kind that does. -/
theorem Value.null_ofType (hwritten : ty.Written) (hnullable : ty.isNullable) :
    Value.null.OfType kinds ty := by
  obtain ⟨kind, hkind⟩ := hwritten.kind?
  exact ⟨kind, hkind, Ty.isNullable_of_kind? hkind hnullable⟩

end

/-- Values that a host has, with the types that they were promised to be of. -/
abbrev Holdings := List (Value × Ty)

/-- How a host comes by values of types without a call: it writes them down, uses what it has under a
type that differs in classes only, makes tuples, or looks into what it has. -/
inductive Machine.Hands (machine : Machine) (held : Holdings) : Value → Ty → Prop
  | num {number : Float} : Hands machine held (.num number) .num
  | text {content : String} : Hands machine held (.text content) .text
  | bool {flag : Bool} : Hands machine held (.bool flag) .bool
  | void : Hands machine held .null .void
  | null {ty : Ty} : ty.Written → ty.isNullable → Hands machine held .null ty
  | like {value : Value} {ty ty' : Ty} : (value, ty) ∈ held → ty'.kind? = ty.kind? →
      Hands machine held value ty'
  | tuple {values : List Value} {types : List Ty} :
      List.Forall₂ (fun value ty => (value, ty) ∈ held) values types →
      Hands machine held (.tuple values) (.tuple types)
  | element {values : List Value} {types : List Ty} {position : Nat} {value : Value} {ty : Ty} :
      (.tuple values, .tuple types) ∈ held → values[position]? = some value →
      types[position]? = some ty → Hands machine held value ty
  | item {ref : Ref} {items : Array Value} {value : Value} {ty : Ty} :
      (.array ref, .array ty) ∈ held → machine.heap.array? ref = some items → value ∈ items →
      Hands machine held value ty
  | member {ref : Ref} {entries : SetEntries} {value : Value} {ty : Ty} :
      (.set ref, .set ty) ∈ held → machine.heap.set? ref = some entries → value ∈ entries.values →
      Hands machine held value ty
  | key {ref : Ref} {entries : MapEntries} {entry : Value × Value} {key content : Ty} :
      (.map ref, .map key content) ∈ held → machine.heap.map? ref = some entries →
      entry ∈ entries.values → Hands machine held entry.1 key
  | content {ref : Ref} {entries : MapEntries} {entry : Value × Value} {key content : Ty} :
      (.map ref, .map key content) ∈ held → machine.heap.map? ref = some entries →
      entry ∈ entries.values → Hands machine held entry.2 content
  | field {ref : Ref} {object : Object} {value : Value} {cls : ClassId} {key : FieldKey}
      {own : OwnField} : (.object ref, .object cls) ∈ held →
      machine.heap.object? ref = some object → object.fields.get? key = some value →
      machine.classes.Owns key own → Hands machine held value own.ty

/-- What a host asks of a machine, and what it is given for an answer.  What it passes is what it
holds as values of the types that are declared. -/
inductive Machine.Grants (machine : Machine) (held : Holdings) :
    {α : Type} → Run α → (α → Holdings) → Prop
  | advanceTick : Grants machine held advanceTick fun _ => []
  | newArray {items : Array Value} {ty : Ty} : ty.Written →
      (∀ item ∈ items.toList, (item, ty) ∈ held) →
      Grants machine held (newArray items) fun value => [(value, .array ty)]
  | newMap {key content : Ty} : key.Written → content.Written →
      Grants machine held newMap fun value => [(value, .map key content)]
  | newSet {ty : Ty} : ty.Written → Grants machine held newSet fun value => [(value, .set ty)]
  | putItem {container index value : Value} {ty : Ty} : (container, .array ty) ∈ held →
      (index, .num) ∈ held → (value, ty) ∈ held →
      Grants machine held (onHeap fun heap => heap.putElement container .array index value)
        fun _ => []
  | putEntry {container index value : Value} {key content : Ty} :
      (container, .map key content) ∈ held → (index, key) ∈ held → (value, content) ∈ held →
      Grants machine held (onHeap fun heap => heap.putElement container .map index value)
        fun _ => []
  | append {container value : Value} {ty : Ty} : (container, .array ty) ∈ held →
      (value, ty) ∈ held →
      Grants machine held (onHeap fun heap => heap.addElement container value) fun _ => []
  | add {container value : Value} {ty : Ty} : (container, .set ty) ∈ held → (value, ty) ∈ held →
      Grants machine held (onHeap fun heap => heap.addElement container value) fun _ => []
  | instantiate (steps : Nat) (cls : ClassId) :
      Grants machine held (instantiate steps cls) fun ref => [(.object ref, .object cls)]
  | extend (steps : Nat) {ref : Ref} {cls : ClassId} (worn : ClassId) :
      (.object ref, .object cls) ∈ held → Grants machine held (extend steps ref worn) fun _ => []
  | retract (steps : Nat) {ref : Ref} {cls : ClassId} (worn : ClassId) :
      (.object ref, .object cls) ∈ held → Grants machine held (retract steps ref worn) fun _ => []
  | enforce (steps : Nat) {stamp : Nat} {batch : List Step} :
      (.suggestion stamp batch, .suggestion) ∈ held →
      Grants machine held (enforce steps batch) fun _ => []
  | call (steps : Nat) {ref : Ref} {object : Object} {caller : Value} {args : List Value}
      {name : String} {sig : MethodSig} {cls cls' : ClassId} : (.object ref, .object cls) ∈ held →
      machine.heap.object? ref = some object → machine.findMethod? object name = some sig →
      (caller, .object cls') ∈ held →
      List.Forall₂ (fun arg ty => (arg, ty) ∈ held) args sig.params →
      Grants machine held (call steps ref name caller args) fun value => [(value, sig.ret)]

namespace Workspace

/-- What imports and a host lead to, with what the host is given on the way. -/
inductive Session (options : Options) (sources : Sources) : Workspace → Holdings → Prop
  | start : Session options sources (ofSources options sources) []
  | imported {workspace next : Workspace} {held : Holdings} {url : String} {id : ModuleId} :
      Session options sources workspace held → importModule url workspace = .ok id next →
      Session options sources next held
  | refused {workspace next : Workspace} {held : Holdings} {url : String} {error : ImportError} :
      Session options sources workspace held → importModule url workspace = .error error next →
      Session options sources next held
  | came {workspace : Workspace} {held : Holdings} {value : Value} {ty : Ty} :
      Session options sources workspace held → workspace.machine.Hands held value ty →
      Session options sources workspace ((value, ty) :: held)
  | answered {workspace : Workspace} {held : Holdings} {α : Type} {action : Run α}
      {gives : α → Holdings} {answer : α} {machine : Machine} :
      Session options sources workspace held → workspace.machine.Grants held action gives →
      action workspace.machine = .ok answer machine →
      Session options sources { workspace with machine } (gives answer ++ held)
  | failed {workspace : Workspace} {held : Holdings} {α : Type} {action : Run α}
      {gives : α → Holdings} {error : RuntimeError} {machine : Machine} :
      Session options sources workspace held → workspace.machine.Grants held action gives →
      action workspace.machine = .error (.error error) machine →
      Session options sources { workspace with machine } held

/-- The values are there, and each is of the kind of its type. -/
structure Vouches (kinds : Kinds) (workspace : Workspace) (held : Holdings) : Prop where
  kinded : workspace.Kinded kinds
  knows {value : Value} {ty : Ty} : (value, ty) ∈ held → workspace.machine.Knows value
  ofType {value : Value} {ty : Ty} : (value, ty) ∈ held → value.OfType kinds ty

end Workspace

namespace Machine

variable {machine : Machine} {held : Holdings} {kinds : Kinds} {value : Value} {ty : Ty}

/-- What is stored under a key is of the type of the field. -/
theorem Kinded.field (h : machine.Kinded kinds) {ref : Ref} {object : Object} {key : FieldKey}
    {own : OwnField} (hobject : machine.heap.object? ref = some object)
    (hvalue : object.fields.get? key = some value) (howns : machine.classes.Owns key own) :
    value.OfType kinds own.ty := by
  obtain ⟨kind, ⟨found, own', hfound, hown', hkind⟩, hof⟩ :=
    (h.heap.stored_object hobject).fields _ (Table.mem_of_get? hvalue)
  obtain ⟨found', hfound', hown⟩ := howns
  rw [h.registry, hfound] at hfound'
  cases hfound'
  rw [hown'] at hown
  cases hown
  exact ⟨kind, hkind, hof⟩

/-- What a host comes by is there. -/
theorem Hands.known (h : machine.Hands held value ty) {classes : ClassRegistry}
    (hsound : machine.Sound classes machine.heap.outline)
    (hknows : ∀ {value ty}, (value, ty) ∈ held → machine.Knows value) : machine.Knows value := by
  have hstored : ∀ {ref entity value}, machine.heap.entity? ref = some entity →
      value ∈ entity.contents → machine.Knows value := fun hentity hmem => by
    rw [Knows, hsound.registry]
    exact (hsound.stored_sound hentity).contents _ hmem
  cases h with
  | num | text | bool | void | null => trivial
  | like hmem => exact hknows hmem
  | tuple hvalues =>
    refine Value.allWithin_iff.mpr fun value hvalue => ?_
    obtain ⟨ty, -, hmem⟩ := (mem_of_forall₂ hvalues).1 value hvalue
    exact hknows hmem
  | element hmem hvalue =>
    exact Value.allWithin_iff.mp (hknows hmem) _ (List.mem_of_getElem? hvalue)
  | item hmem hitems hitem =>
    exact hstored (Heap.array?_eq_some.mp hitems) (Array.mem_toList_iff.mpr hitem)
  | member hmem hentries hitem => exact hstored (Heap.set?_eq_some.mp hentries) hitem
  | key hmem hentries hentry =>
    exact hstored (Heap.map?_eq_some.mp hentries) (List.mem_flatMap.mpr ⟨_, hentry, by simp⟩)
  | content hmem hentries hentry =>
    exact hstored (Heap.map?_eq_some.mp hentries) (List.mem_flatMap.mpr ⟨_, hentry, by simp⟩)
  | field hmem hobject hvalue =>
    exact hstored (Heap.object?_eq_some.mp hobject) (Table.mem_values_of_get? hvalue)

/-- What a host comes by is of the kind of its type. -/
theorem Hands.ofType (h : machine.Hands held value ty) (hkinded : machine.Kinded kinds)
    (hheld : ∀ {value ty}, (value, ty) ∈ held → value.OfType kinds ty) : value.OfType kinds ty := by
  have hheap := hkinded.heap
  cases h with
  | num | text | bool | void => exact ⟨_, rfl, rfl⟩
  | null hwritten hnullable => exact Value.null_ofType hwritten hnullable
  | like hmem hkind =>
    obtain ⟨kind, hty, hvalue⟩ := hheld hmem
    exact ⟨kind, hkind.trans hty, hvalue⟩
  | tuple hvalues =>
    obtain ⟨all, hall, hvalues⟩ := Value.ofTypes (hvalues.imp fun _ _ => hheld)
    exact ⟨_, Ty.kind?_tuple.mpr ⟨all, hall, rfl⟩, Value.ofKind_tuple.mpr ⟨_, rfl, hvalues⟩⟩
  | element hmem hvalue hty =>
    obtain ⟨_, hkind, hof⟩ := hheld hmem
    obtain ⟨all, hall, rfl⟩ := Ty.kind?_tuple.mp hkind
    obtain ⟨_, ⟨⟩, hvalues⟩ := Value.ofKind_tuple.mp hof
    obtain ⟨kind, hkind, hposition⟩ := Ty.kinds?_getElem? hall hty
    obtain ⟨hlt, rfl⟩ := List.getElem?_eq_some_iff.mp hvalue
    obtain ⟨hlt', rfl⟩ := List.getElem?_eq_some_iff.mp hposition
    exact ⟨_, hkind, hvalues.get hlt hlt'⟩
  | item hmem hitems hitem =>
    obtain ⟨element, helement, -, href⟩ := Value.ofType_array.mp (hheld hmem)
    exact ⟨element, helement, hheap.array_items href hitems _ hitem⟩
  | member hmem hentries hitem =>
    obtain ⟨element, helement, -, href⟩ := Value.ofType_set.mp (hheld hmem)
    exact ⟨element, helement, hheap.set_items href hentries _ hitem⟩
  | key hmem hentries hentry =>
    obtain ⟨keyKind, _, hkey, -, -, href⟩ := Value.ofType_map.mp (hheld hmem)
    exact ⟨keyKind, hkey, (hheap.map_entries href hentries _ hentry).1⟩
  | content hmem hentries hentry =>
    obtain ⟨_, contentKind, -, hcontent, -, href⟩ := Value.ofType_map.mp (hheld hmem)
    exact ⟨contentKind, hcontent, (hheap.map_entries href hentries _ hentry).2⟩
  | field hmem hobject hvalue howns =>
    exact hkinded.field hobject hvalue howns

variable {α : Type} {action : Run α} {gives : α → Holdings}

/-- What a host asks for is something that hosts may do. -/
theorem Grants.offers (h : machine.Grants held action gives)
    (hknows : ∀ {value ty}, (value, ty) ∈ held → machine.Knows value) : machine.Offers action := by
  cases h with
  | advanceTick => exact .advanceTick
  | newArray _ hitems => exact .newArray fun item hmem => hknows (hitems item hmem)
  | newMap => exact .newMap
  | newSet => exact .newSet
  | putItem _ hindex hvalue | putEntry _ hindex hvalue =>
    exact .putElement (hknows hindex) (hknows hvalue)
  | append _ hvalue | add _ hvalue => exact .addElement (hknows hvalue)
  | instantiate steps cls => exact .instantiate steps cls
  | extend steps worn hmem => exact .extend steps worn (hknows hmem)
  | retract steps worn hmem => exact .retract steps worn (hknows hmem)
  | enforce steps hmem => exact .enforce steps (hknows hmem)
  | call steps href _ _ hcaller hargs =>
    refine .call steps _ (hknows href) (hknows hcaller) fun arg harg => ?_
    obtain ⟨ty, -, hmem⟩ := (mem_of_forall₂ hargs).1 arg harg
    exact hknows hmem

/-- A call with as many arguments as the method has parameters dispatches. -/
theorem call_eq {ref : Ref} {object : Object} {name : String} {sig : MethodSig} {steps : Nat}
    {caller : Value} {args : List Value} (hobject : machine.heap.object? ref = some object)
    (hfind : machine.findMethod? object name = some sig) (hlength : args.length = sig.params.length) :
    Machine.call steps ref name caller args machine =
      dispatch steps (.object ref) sig.slot caller args sig.ret machine := by
  have hmethod : ((machine.heap.object? ref).bind fun object => machine.findMethod? object name) =
      some sig := by rw [hobject, Option.bind_some, hfind]
  unfold Machine.call
  simp only [bind, EStateM.bind, get, getThe, MonadStateOf.get, EStateM.get, hmethod,
    hlength, ne_eq, not_true_eq_false, if_false]

end Machine

namespace Workspace

variable {workspace next : Workspace} {held : Holdings} {kinds : Kinds}
variable {α : Type} {action : Run α} {gives : α → Holdings}

/-- What a host is given is there. -/
theorem Sound.grants_known (h : workspace.Sound)
    (hgrants : workspace.machine.Grants held action gives)
    (hknows : ∀ {value ty}, (value, ty) ∈ held → workspace.machine.Knows value) {answer : α}
    {machine : Machine} (hrun : action workspace.machine = .ok answer machine) :
    ∀ entry ∈ gives answer, machine.Knows entry.1 := by
  have hfits := h.full_fits
  have hkeeps := h.full.discipline.keeps
  have hanswer : ∀ {value : Value} {ty : Ty}, (∃ stage, workspace.stage ≤ stage ∧
      h.full.Fits stage machine ∧ value.Known workspace.machine.classes stage.outline) →
      ∀ entry ∈ [(value, ty)], machine.Knows entry.1 := by
    rintro value ty ⟨stage, -, hfits, hvalue⟩ entry hmem
    obtain rfl := List.mem_singleton.mp hmem
    have hlayout : machine.heap.outline = stage.outline := hfits.sound.layout
    rw [Knows, hfits.sound.registry, hlayout]
    exact hvalue
  cases hgrants with
  | advanceTick | putItem | putEntry | append | add | extend | retract | enforce =>
    intro entry hmem
    cases hmem
  | newArray _ hitems =>
    exact hanswer ((Footing.safe_newArray hfits fun item hmem =>
      hknows (hitems item hmem)).of_ok hrun)
  | newMap => exact hanswer ((h.full.discipline.newMap_safe hfits).of_ok hrun)
  | newSet => exact hanswer ((h.full.discipline.newSet_safe hfits).of_ok hrun)
  | instantiate steps cls =>
    by_cases hcls : workspace.machine.classes.contains cls
    · exact hanswer (((hkeeps steps).instantiate hfits hcls).of_ok hrun)
    · cases steps with
      | zero => cases hrun
      | succ steps =>
        have hfails : Yields (Machine.instantiate (steps + 1) cls) workspace.machine
            (fun _ _ => False) fun _ _ => True := by
          unfold Machine.instantiate
          refine yields_bind.mpr (yields_get.mpr ?_)
          rw [if_neg hcls]
          trivial
        exact (hfails.of_ok hrun).elim
  | call steps href hobject hfind hcaller hargs =>
    rw [call_eq hobject hfind hargs.length_eq] at hrun
    refine hanswer (((hkeeps steps).dispatch hfits trivial (hknows href) (hknows hcaller)
      fun arg harg => ?_).of_ok hrun)
    obtain ⟨ty, -, hmem⟩ := (mem_of_forall₂ hargs).1 arg harg
    exact hknows hmem

/-- From a run whose answer is not handed out, a host is given nothing of another kind. -/
theorem gives_nothing {post : Kinds → Machine → α → Prop} {machine : Machine}
    (h : kinds.regime.Safe kinds action machine post) :
    kinds.regime.Safe kinds action machine fun later _ _ =>
      ∀ entry ∈ ([] : Holdings), entry.1.OfType later entry.2 :=
  h.mono fun _ _ _ _ _ _ => List.forall_mem_nil _

/-- What a host is given is of the kinds of its types. -/
theorem Sound.grants_safe (h : workspace.Sound) (hkinded : workspace.Kinded kinds)
    (hdefinite : workspace.sources.Definite workspace.options)
    (hgrants : workspace.machine.Grants held action gives)
    (hheld : ∀ {value ty}, (value, ty) ∈ held → value.OfType kinds ty) :
    kinds.regime.Safe kinds action workspace.machine fun later _ answer =>
      ∀ entry ∈ gives answer, entry.1.OfType later entry.2 := by
  have hfits := Kinds.fits_self hkinded.machine
  have hkeeps := keepsKinds (h.backed hkinded hdefinite)
  cases hgrants with
  | advanceTick =>
    exact Regime.Safe.modifyGet (le_refl kinds) (hfits.congr rfl rfl rfl) (List.forall_mem_nil _)
  | @newArray items ty hwritten hitems =>
    obtain ⟨kind, hkind⟩ := hwritten.kind?
    have hitems : ∀ item ∈ items, item.OfKind kinds kind := fun item hmem =>
      (hheld (hitems item (Array.mem_toList_iff.mpr hmem))).ofKind hkind
    exact (safe_newArray hfits hitems).mono fun _ _ _ _ _ hvalue => by
      simpa using Value.ofType_array.mpr ⟨kind, hkind, hvalue⟩
  | newMap hkey hcontent =>
    obtain ⟨keyKind, hkey⟩ := hkey.kind?
    obtain ⟨contentKind, hcontent⟩ := hcontent.kind?
    exact (safe_newMap hfits keyKind contentKind).mono fun _ _ _ _ _ hvalue => by
      simpa using Value.ofType_map.mpr ⟨keyKind, contentKind, hkey, hcontent, hvalue⟩
  | newSet hwritten =>
    obtain ⟨kind, hkind⟩ := hwritten.kind?
    exact (safe_newSet hfits kind).mono fun _ _ _ _ _ hvalue => by
      simpa using Value.ofType_set.mpr ⟨kind, hkind, hvalue⟩
  | putItem hcontainer hindex hvalue =>
    obtain ⟨element, helement, hcontainer⟩ := Value.ofType_array.mp (hheld hcontainer)
    exact gives_nothing (safe_onHeap hfits fun _ hheap => hheap.putElement .array hcontainer
      ((hheld hindex).ofKind rfl) ((hheld hvalue).ofKind helement))
  | putEntry hcontainer hindex hvalue =>
    obtain ⟨_, _, hkey, hcontent, hcontainer⟩ := Value.ofType_map.mp (hheld hcontainer)
    exact gives_nothing (safe_onHeap hfits fun _ hheap => hheap.putElement .map hcontainer
      ((hheld hindex).ofKind hkey) ((hheld hvalue).ofKind hcontent))
  | append hcontainer hvalue =>
    obtain ⟨element, helement, hcontainer⟩ := Value.ofType_array.mp (hheld hcontainer)
    exact gives_nothing (safe_onHeap hfits fun _ hheap => hheap.addElement .array hcontainer
      ((hheld hvalue).ofKind helement))
  | add hcontainer hvalue =>
    obtain ⟨element, helement, hcontainer⟩ := Value.ofType_set.mp (hheld hcontainer)
    exact gives_nothing (safe_onHeap hfits fun _ hheap => hheap.addElement .set hcontainer
      ((hheld hvalue).ofKind helement))
  | instantiate steps cls =>
    exact ((hkeeps steps).instantiate hfits).mono fun _ _ _ _ _ href => by
      simpa using Value.ofType_object.mpr href
  | extend steps worn hmem =>
    exact gives_nothing ((hkeeps steps).extend hfits (Value.ofType_object.mp (hheld hmem)))
  | retract steps worn hmem =>
    exact gives_nothing ((hkeeps steps).retract hfits (Value.ofType_object.mp (hheld hmem)))
  | enforce steps hmem =>
    obtain ⟨_, _, ⟨⟩, hbatch⟩ := Value.ofKind_suggestion.mp ((hheld hmem).ofKind rfl)
    exact gives_nothing ((hkeeps steps).enforce hfits hbatch)
  | @call steps ref object caller args name sig cls cls' href hobject hfind hcaller hargs =>
    obtain ⟨owner, hdeclares⟩ := h.declares_found hfind
    obtain ⟨params, ret, hparams, hret⟩ := (h.compiled.written hdeclares).kinds?
    obtain ⟨params', hparams', hargs'⟩ := Value.ofTypes (hargs.imp fun _ _ => hheld)
    obtain rfl := Option.some.inj (hparams.symm.trans hparams')
    have htakes : kinds.Takes sig.slot params ret :=
      ⟨owner, sig, hkinded.machine.registry ▸ hdeclares, rfl, hparams, hret⟩
    have hdispatch := (hkeeps steps).dispatch hfits htakes hret ((hheld href).ofKind rfl)
      ((hheld hcaller).ofKind rfl) hargs'
    unfold Regime.Safe Yields
    rw [call_eq hobject hfind hargs.length_eq]
    exact hdispatch.mono fun _ _ _ _ _ hvalue => by simpa using ⟨ret, hret, hvalue⟩

theorem Sound.definite {options : Options} {sources : Sources} (hsources : sources.Definite options)
    (h : Reachable options sources workspace) : workspace.sources.Definite workspace.options := by
  have hgrows := (h.leads.sound (sound_ofSources options sources)).2
  rw [hgrows.sources, hgrows.options]
  exact hsources

theorem vouches_start (options : Options) (sources : Sources) :
    ∃ kinds, (ofSources options sources).Vouches kinds [] := by
  have hsound := sound_ofSources options sources
  exact ⟨⟨(ofSources options sources).machine.classes, []⟩,
    ⟨⟨rfl, hsound.running.tables, ⟨rfl, nofun⟩⟩, nofun⟩, nofun, nofun⟩

/-- Imports take nothing away from a host, also when they fail. -/
theorem Vouches.imported (h : workspace.Vouches kinds held) (hweaving : workspace.Weaving next)
    (hsound : next.Sound) (hgrows : workspace.Grows next) :
    ∃ later, next.Vouches later held := by
  obtain ⟨later, hle, hkinded⟩ := hweaving.kinded hsound hgrows h.kinded
  refine ⟨later, hkinded, fun hmem => ?_, fun hmem => (h.ofType hmem).mono hle⟩
  exact (h.knows hmem).imp (fun _ => Outline.Names.mono hgrows.outline) fun _ =>
    hgrows.classes.contains

/-- Runs take nothing away from a host. -/
theorem Vouches.ran (h : workspace.Vouches kinds held) {machine : Machine} {later : Kinds}
    (hreplaces : workspace.Replaces machine) (hle : kinds ≤ later)
    (hkinded : machine.Kinded later) : Vouches later { workspace with machine } held where
  kinded := ⟨hkinded, fun hfabric => (h.kinded.fabrics hfabric).mono hle⟩
  knows hmem := by
    rw [Knows, hreplaces.sound.registry]
    exact (h.knows hmem).mono hreplaces.outline
  ofType hmem := (h.ofType hmem).mono hle

theorem Vouches.append (h : workspace.Vouches kinds held) {given : Holdings}
    (hknows : ∀ entry ∈ given, workspace.machine.Knows entry.1)
    (hgiven : ∀ entry ∈ given, entry.1.OfType kinds entry.2) :
    workspace.Vouches kinds (given ++ held) where
  kinded := h.kinded
  knows hmem := (List.mem_append.mp hmem).elim (hknows _) h.knows
  ofType hmem := (List.mem_append.mp hmem).elim (hgiven _) h.ofType

variable {options : Options} {sources : Sources}

/-- Whatever a host does, what it holds is there, and is of the kinds of its types. -/
theorem Session.vouched (hsources : sources.Definite options)
    (h : Session options sources workspace held) :
    Reachable options sources workspace ∧ ∃ kinds, workspace.Vouches kinds held := by
  induction h with
  | start => exact ⟨.start, vouches_start options sources⟩
  | imported _ himport ih =>
    obtain ⟨hreachable, kinds, hvouches⟩ := ih
    obtain ⟨hsound, hgrows, -⟩ := (importModule_sound _ hreachable.sound).of_ok himport
    exact ⟨.imported hreachable himport,
      hvouches.imported ((importModule_weaving _ _).of_ok himport) hsound hgrows⟩
  | refused _ himport ih =>
    obtain ⟨hreachable, kinds, hvouches⟩ := ih
    obtain ⟨hsound, hgrows⟩ := (importModule_sound _ hreachable.sound).of_error himport
    exact ⟨.refused hreachable himport,
      hvouches.imported ((importModule_weaving _ _).of_error himport) hsound hgrows⟩
  | @came workspace held value ty _ hhands ih =>
    obtain ⟨hreachable, kinds, hvouches⟩ := ih
    have hknown := hhands.known hreachable.sound.running hvouches.knows
    have hvalue := hhands.ofType hvouches.kinded.machine hvouches.ofType
    have hcame : workspace.Vouches kinds ([(value, ty)] ++ held) :=
      hvouches.append (by simpa using hknown) (by simpa using hvalue)
    exact ⟨hreachable, kinds, hcame⟩
  | answered _ hgrants hrun ih =>
    obtain ⟨hreachable, kinds, hvouches⟩ := ih
    have hoffers := hgrants.offers hvouches.knows
    have hreplaces := (hreachable.sound.keeps_offers hoffers).of_ok hrun
    obtain ⟨later, hle, hfits, hgiven⟩ := (hreachable.sound.grants_safe hvouches.kinded
      (Sound.definite hsources hreachable) hgrants hvouches.ofType).of_ok hrun
    exact ⟨.answered hreachable hoffers hrun, later,
      (hvouches.ran hreplaces hle hfits.kinded).append
        (hreachable.sound.grants_known hgrants hvouches.knows hrun) hgiven⟩
  | failed _ hgrants hrun ih =>
    obtain ⟨hreachable, kinds, hvouches⟩ := ih
    have hoffers := hgrants.offers hvouches.knows
    have hreplaces := (hreachable.sound.keeps_offers hoffers).of_error hrun _ rfl
    obtain ⟨-, later, hle, hfits⟩ := (hreachable.sound.grants_safe hvouches.kinded
      (Sound.definite hsources hreachable) hgrants hvouches.ofType).of_error hrun _ rfl
    exact ⟨.failed hreachable hoffers hrun, later, hvouches.ran hreplaces hle hfits.kinded⟩

/-- In bodies without casts, in which no tuple literal has `null` itself as an element and callers are
mentioned only where there is a root class, the checker is sound for the kinds of values: whatever a
host imports and calls, with arguments that it holds as values of the types of the parameters, all
that it was ever given conforms to its type, and so does every field that an object stores. -/
theorem session_conforms (hsources : sources.Definite options)
    (h : Session options sources workspace held) :
    (∀ value ty, (value, ty) ∈ held → Conforms workspace.machine.heap ty value) ∧
    ∀ ref object key value, workspace.machine.heap.object? ref = some object →
      object.fields.get? key = some value → ∃ own, workspace.machine.classes.Owns key own ∧
        Conforms workspace.machine.heap own.ty value := by
  obtain ⟨hreachable, kinds, hvouches⟩ := h.vouched hsources
  have hmachine := hvouches.kinded.machine
  refine ⟨fun value ty hmem => (hvouches.ofType hmem).conforms hmachine.heap, ?_⟩
  intro ref object key value hobject hvalue
  obtain ⟨own, howns⟩ := ClassRegistry.owns_of_hasField
    (((hreachable.sound.running.object_sound hobject).object rfl).fields key
      (List.mem_map_of_mem (Table.mem_of_get? hvalue))).2
  exact ⟨own, howns, (hmachine.field hobject hvalue howns).conforms hmachine.heap⟩

theorem flag_definite : flagSources.Definite {} := by
  rintro url decl ⟨text, tree, hfetch, htree, hdecl⟩
  obtain ⟨rfl, rfl⟩ : url = "weft:core" ∧ text = flagText := by
    by_cases hurl : url = "weft:core"
    · subst hurl
      exact ⟨rfl, (Except.ok.inj hfetch).symm⟩
    · rw [Sources.fetch, flagSources, Table.get?_insert_of_ne _ _ hurl] at hfetch
      cases hfetch
  rw [flag_tree] at htree
  cases htree
  simp only [flagTree, List.mem_cons, reduceCtorEq, Decl.cls.injEq, List.not_mem_nil, or_false,
    false_or] at hdecl
  subst hdecl
  rfl

set_option maxRecDepth 100000 in
theorem flag_given :
    (firstObject? flagSources flagTree 9 ⟨0⟩).map (fun (ref, made) =>
      (ref, (made.heap.object? ref).bind fun object =>
        (made.findMethod? object "lines").map fun sig => (sig.params, sig.ret),
        (reached? (Machine.call 9 ref "lines" (.object ref) []) made).map Prod.fst)) =
    some (⟨1, ⟨1⟩⟩, some ([], .array .text), some (.array ⟨0, ⟨0⟩⟩)) := by
  cbv

theorem flag_conforms : ∃ workspace held, flagSources.Definite {} ∧
    Session {} flagSources workspace held ∧ (.array ⟨0, ⟨0⟩⟩, .array .text) ∈ held ∧
    Conforms workspace.machine.heap (.array .text) (.array ⟨0, ⟨0⟩⟩) := by
  obtain ⟨⟨ref, made⟩, hfirst, hmade⟩ := Option.map_eq_some_iff.mp flag_given
  simp only [Prod.mk.injEq] at hmade
  obtain ⟨rfl, hmethod, hrun⟩ := hmade
  obtain ⟨object, hobject, hmethod⟩ := Option.bind_eq_some_iff.mp hmethod
  obtain ⟨sig, hsig, htypes⟩ := Option.map_eq_some_iff.mp hmethod
  obtain ⟨hparams, hret⟩ := Prod.mk.inj htypes
  obtain ⟨⟨value, called⟩, hcall, rfl⟩ := Option.map_eq_some_iff.mp hrun
  obtain ⟨id, base, himport, hinstantiate⟩ := imported_of_firstObject rfl flag_tree rfl hfirst
  have hmade := (Session.start.imported himport).answered (.instantiate 9 ⟨0⟩) hinstantiate
  have hbearer : (Value.object ⟨1, ⟨1⟩⟩, Ty.object ⟨0⟩) ∈ [(Value.object ⟨1, ⟨1⟩⟩, Ty.object ⟨0⟩)] :=
    .head _
  have hlast := hmade.answered (.call 9 hbearer hobject hsig hbearer (hparams ▸ .nil))
    (reached?_eq_some.mp hcall)
  rw [hret] at hlast
  exact ⟨_, _, flag_definite, hlast, .head _,
    (session_conforms flag_definite hlast).1 _ _ (.head _)⟩

end Workspace

end Attire

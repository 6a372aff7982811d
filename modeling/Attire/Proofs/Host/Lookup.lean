import Attire.Proofs.Classes.Lookup
import Attire.Proofs.Host.Overrides

namespace Attire

/-! What a host finds under a name on an object that wears one class, and what the class itself has
under it. -/

/-- The last class of a manifest that offers something offers the answer. -/
def LastOffer {α : Type} (manifest : List ClassId) (offer : ClassId → Option α) (answer : α) :
    Prop :=
  ∃ front owner back, manifest = front ++ owner :: back ∧ offer owner = some answer ∧
    ∀ cls ∈ back, offer cls = none

section

variable {α : Type} {manifest : List ClassId} {offer : ClassId → Option α} {answer : α}

theorem findSome?_reverse_eq_some :
    manifest.reverse.findSome? offer = some answer ↔ LastOffer manifest offer answer := by
  rw [List.findSome?_eq_some_iff]
  constructor
  · rintro ⟨back, owner, front, hsplit, howner, hback⟩
    refine ⟨front.reverse, owner, back.reverse, ?_, howner, by simpa using hback⟩
    rw [← List.reverse_reverse manifest, hsplit]
    simp
  · rintro ⟨front, owner, back, rfl, howner, hback⟩
    exact ⟨back.reverse, owner, front.reverse, by simp, howner, by simpa using hback⟩

theorem exists_lastOffer {owner : ClassId} (howner : owner ∈ manifest)
    (hoffer : offer owner = some answer) :
    ∃ last, manifest.reverse.findSome? offer = some last ∧ LastOffer manifest offer last := by
  cases hfind : manifest.reverse.findSome? offer with
  | none =>
    rw [List.findSome?_eq_none_iff.mp hfind owner (List.mem_reverse.mpr howner)] at hoffer
    cases hoffer
  | some last => exact ⟨last, rfl, findSome?_reverse_eq_some.mp hfind⟩

theorem findSome?_reverse_eq_none (h : ∀ owner ∈ manifest, ∀ answer, offer owner ≠ some answer) :
    manifest.reverse.findSome? offer = none := by
  refine List.findSome?_eq_none_iff.mpr fun owner howner => ?_
  exact Option.eq_none_iff_forall_ne_some.mpr (h owner (List.mem_reverse.mp howner))

end

namespace ClassRegistry

/-- The method that a class can use under a name. -/
def usableMethod (classes : ClassRegistry) (name : String) (cls : ClassId) : Option MethodSig :=
  (classes.get? cls).bind fun found => found.method? name

/-- The field that a class itself declares under a name. -/
def declaredField (classes : ClassRegistry) (name : String) (cls : ClassId) : Option FieldKey :=
  (classes.get? cls).bind fun found => found.ownFieldKey? name

variable {classes : ClassRegistry} {cls owner : ClassId} {found : ClassDef} {name : String}
variable {sig : MethodSig} {key : FieldKey}

theorem usableMethod_eq_some : classes.usableMethod name owner = some sig ↔
    ∃ above, classes.get? owner = some above ∧ above.methods.get? name = some (.member sig) := by
  simp only [usableMethod, ClassDef.method?, Option.bind_eq_some_iff]
  refine exists_congr fun above => and_congr_right fun _ => ?_
  constructor
  · rintro ⟨entry, hentry, hsig⟩
    cases entry with
    | conflict => cases hsig
    | member value =>
      cases hsig
      exact hentry
  · exact fun hentry => ⟨_, hentry, rfl⟩

theorem Composed.declaredField_eq_some (h : classes.Composed) :
    classes.declaredField name owner = some key ↔
      key.owner = owner ∧ ∃ own, classes.Owns key own ∧ own.name = name := by
  rw [declaredField, Option.bind_eq_some_iff]
  constructor
  · rintro ⟨above, habove, hkey⟩
    obtain ⟨howner, own, hown, hname⟩ :=
      (ClassDef.ownFieldKey?_eq_some (h.fieldNames habove)).mp hkey
    have howner := howner.trans (h.id habove)
    exact ⟨howner, own, ⟨above, howner ▸ habove, hown⟩, hname⟩
  · rintro ⟨rfl, own, ⟨above, habove, hown⟩, hname⟩
    exact ⟨above, habove, (ClassDef.ownFieldKey?_eq_some (h.fieldNames habove)).mpr
      ⟨(h.id habove).symm, own, hown, hname⟩⟩

variable (h : classes.Composed) (hfound : classes.get? cls = some found)
include h hfound

theorem Composed.usableMethod_contains (howner : owner ∈ classes.manifest [cls])
    (hsig : classes.usableMethod name owner = some sig) : found.methods.contains name := by
  obtain ⟨above, habove, hentry⟩ := usableMethod_eq_some.mp hsig
  obtain ⟨start, hstart, hpath⟩ := mem_manifest.mp howner
  obtain rfl := List.mem_singleton.mp hstart
  obtain ⟨there, hthere, hcontains⟩ :=
    h.hands_methods.below hpath habove (Table.contains_of_get? hentry)
  rw [hfound] at hthere
  cases hthere
  exact hcontains

theorem Composed.declaredField_contains (howner : owner ∈ classes.manifest [cls])
    (hkey : classes.declaredField name owner = some key) : found.fields.contains name := by
  obtain ⟨rfl, own, ⟨above, habove, hown⟩, rfl⟩ := h.declaredField_eq_some.mp hkey
  obtain ⟨start, hstart, hpath⟩ := mem_manifest.mp howner
  obtain rfl := List.mem_singleton.mp hstart
  have hknown : above.fields.contains own.name :=
    (h.hands_fields habove).mpr (.inl ⟨own, List.mem_of_getElem? hown, rfl⟩)
  obtain ⟨there, hthere, hcontains⟩ := h.hands_fields.below hpath habove hknown
  rw [hfound] at hthere
  cases hthere
  exact hcontains

/-- Some class of the manifest can use every name that the class knows as that of a method. -/
theorem Composed.exists_usableMethod (hname : found.methods.contains name) :
    ∃ owner ∈ classes.manifest [cls], ∃ sig, classes.usableMethod name owner = some sig := by
  obtain ⟨owner, howner, above, habove, hdeclares⟩ :=
    h.hands_methods.origin h.acyclic hfound hname
  obtain ⟨sig, hsig⟩ := h.own_usable habove hdeclares
  exact ⟨owner, howner, sig, by rw [usableMethod, habove]; exact hsig⟩

/-- Some class of the manifest declares every name that the class knows as that of a field. -/
theorem Composed.exists_declaredField (hname : found.fields.contains name) :
    ∃ owner ∈ classes.manifest [cls], ∃ key, classes.declaredField name owner = some key := by
  obtain ⟨owner, howner, above, habove, own, hown, hdeclared⟩ :=
    h.hands_fields.origin h.acyclic hfound hname
  obtain ⟨index, hindex⟩ := List.getElem?_of_mem hown
  exact ⟨owner, howner, ⟨owner, index⟩,
    h.declaredField_eq_some.mpr ⟨rfl, own, ⟨above, habove, hindex⟩, hdeclared⟩⟩

end ClassRegistry

namespace Machine

variable {machine : Machine} {object : Object} {name : String} {found : ClassDef}

def viewOf (found : ClassDef) (entry : FieldKey × OwnField) : FieldView :=
  { key := entry.1, cls := found.qualifiedName, name := entry.2.name, ty := entry.2.ty }

theorem viewed_own {view : FieldView} (hnames : (found.ownFields.map OwnField.name).Nodup)
    (hview : (found.ownFieldKeys.map (viewOf found)).reverse.find? (fun view => view.name = name) =
      some view) : found.ownFieldKey? name = some view.key := by
  have hname : view.name = name := by simpa using List.find?_some hview
  have hmem := List.mem_of_find?_eq_some hview
  rw [List.mem_reverse, List.mem_map] at hmem
  obtain ⟨entry, hentry, rfl⟩ := hmem
  obtain ⟨index, hindex, rfl⟩ := List.mem_mapIdx.mp hentry
  exact (ClassDef.ownFieldKey?_eq_some hnames).mpr
    ⟨rfl, _, List.getElem?_eq_getElem hindex, hname⟩

/-- A class shows one field under a name that it declares. -/
theorem find?_views (hnames : (found.ownFields.map OwnField.name).Nodup) :
    ((found.ownFieldKeys.map (viewOf found)).reverse.find? fun view => view.name = name).map
      FieldView.key = found.ownFieldKey? name := by
  cases hfind : (found.ownFieldKeys.map (viewOf found)).reverse.find?
      fun view => view.name = name with
  | some view => exact (viewed_own hnames hfind).symm
  | none =>
    cases hkey : found.ownFieldKey? name with
    | none => rfl
    | some key =>
      obtain ⟨-, own, hown, rfl⟩ := (ClassDef.ownFieldKey?_eq_some hnames).mp hkey
      obtain ⟨hindex, rfl⟩ := List.getElem?_eq_some_iff.mp hown
      have hmem : viewOf found (⟨found.id, key.index⟩, found.ownFields[key.index]) ∈
          (found.ownFieldKeys.map (viewOf found)).reverse :=
        List.mem_reverse.mpr (List.mem_map_of_mem (List.mem_mapIdx.mpr ⟨_, hindex, rfl⟩))
      simpa [viewOf] using List.find?_eq_none.mp hfind _ hmem

theorem findSome?_filterMap {α β γ : Type} {f : α → Option β} {g : β → Option γ} {items : List α} :
    (items.filterMap f).findSome? g = items.findSome? fun item => (f item).bind g := by
  induction items with
  | nil => rfl
  | cons item rest ih =>
    cases hitem : f item with
    | none => simp [hitem, ih]
    | some value => simp [hitem, ih, List.findSome?_cons]

/-- Hosts read the last field with the name that a class of the manifest declares. -/
theorem getField?_eq (hcomposed : machine.classes.Composed) : machine.getField? object name =
    (object.manifest.reverse.findSome? (machine.classes.declaredField name)).bind
      object.fields.get? := by
  have hviews : ((machine.fieldViews object).reverse.find? fun view => view.name = name).map
      FieldView.key = object.manifest.reverse.findSome? (machine.classes.declaredField name) := by
    rw [fieldViews, List.reverse_flatMap, List.find?_flatMap, ← List.filterMap_reverse,
      findSome?_filterMap, List.map_findSome?]
    congr 1
    funext cls
    cases hget : machine.classes.get? cls with
    | none => simp [ClassRegistry.declaredField, hget]
    | some found =>
      simp only [Function.comp_apply, ClassRegistry.declaredField, hget, Option.bind_some]
      exact find?_views (hcomposed.fieldNames hget)
  rw [getField?, ← hviews]
  cases (machine.fieldViews object).reverse.find? fun view => view.name = name <;> rfl

end Machine

open Machine

namespace Workspace

variable {workspace : Workspace} {options : Options} {sources : Sources} {ref : Ref}
variable {object : Object} {cls : ClassId} {found : ClassDef} {name : String}

/-- A host looks a method up as the class of the object has it.  A usable method is found and for
an absent one nothing.  In place of a conflict the last class of the manifest that can use the name
answers, of which there always is one. -/
structure FindsMethod (machine : Machine) (object : Object) (found : ClassDef) (name : String) :
    Prop where
  usable {sig : MethodSig} : found.methods.get? name = some (.member sig) →
    machine.findMethod? object name = some sig
  absent : found.methods.get? name = none → machine.findMethod? object name = none
  conflict : found.methods.get? name = some .conflict →
    ∃ sig, LastOffer object.manifest (machine.classes.usableMethod name) sig ∧
      machine.findMethod? object name = some sig

/-- A host reads a field as the class of the object has it.  A usable field is read and for an
absent one nothing.  In place of a conflict the last field that a class of the manifest declares is
read, of which there always is one. -/
structure ReadsField (machine : Machine) (object : Object) (found : ClassDef) (name : String) :
    Prop where
  usable {info : FieldInfo} : found.fields.get? name = some (.member info) →
    machine.getField? object name = object.fields.get? info.key
  absent : found.fields.get? name = none → machine.getField? object name = none
  conflict : found.fields.get? name = some .conflict →
    ∃ key, LastOffer object.manifest (machine.classes.declaredField name) key ∧
      machine.getField? object name = object.fields.get? key

section

variable {machine : Machine} (hcomposed : machine.classes.Composed)
variable (hfound : machine.classes.get? cls = some found)
variable (hmanifest : object.manifest = machine.classes.manifest [cls])
include hcomposed hfound hmanifest

theorem findsMethod : FindsMethod machine object found name := by
  have hfind : machine.findMethod? object name =
      object.manifest.reverse.findSome? (machine.classes.usableMethod name) := rfl
  rw [hmanifest] at hfind
  constructor
  case usable =>
    intro sig hentry
    obtain ⟨below, hbelow⟩ := ClassRegistry.manifest_singleton machine.classes cls
    have hsig := ClassRegistry.usableMethod_eq_some.mpr ⟨found, hfound, hentry⟩
    exact hfind.trans (findSome?_reverse_eq_some.mpr ⟨below, cls, [], hbelow, hsig, nofun⟩)
  case absent =>
    intro hentry
    refine hfind.trans (findSome?_reverse_eq_none fun owner howner sig hsig => ?_)
    have hcontains := hcomposed.usableMethod_contains hfound howner hsig
    simp [Table.contains, hentry] at hcontains
  case conflict =>
    intro hentry
    obtain ⟨owner, howner, sig, hsig⟩ :=
      hcomposed.exists_usableMethod hfound (Table.contains_of_get? hentry)
    obtain ⟨answer, hanswer, hlast⟩ := exists_lastOffer howner hsig
    exact ⟨answer, hmanifest ▸ hlast, hfind.trans hanswer⟩

theorem readsField : ReadsField machine object found name := by
  have hread : machine.getField? object name = _ := getField?_eq hcomposed
  rw [hmanifest] at hread
  constructor
  case usable =>
    intro info hentry
    obtain ⟨hname, hpath, above, own, habove, hown, hsame, -⟩ :=
      hcomposed.field hfound (Table.mem_of_get? hentry)
    have howner : info.key.owner ∈ machine.classes.manifest [cls] :=
      ClassRegistry.mem_manifest.mpr ⟨cls, List.mem_singleton_self cls, hpath⟩
    have hdeclared := hcomposed.declaredField_eq_some.mpr
      ⟨rfl, own, ⟨above, habove, hown⟩, hsame.trans hname⟩
    obtain ⟨key, hkey, front, owner, back, hsplit, hlast, -⟩ := exists_lastOffer howner hdeclared
    -- all fields with the name that there are above the class are that one
    obtain ⟨rfl, own', hown', hname'⟩ := hcomposed.declaredField_eq_some.mp hlast
    have hmem : key.owner ∈ machine.classes.manifest [cls] := by simp [hsplit]
    obtain ⟨start, hstart, hbelow⟩ := ClassRegistry.mem_manifest.mp hmem
    obtain rfl := List.mem_singleton.mp hstart
    rw [hread, hkey, Option.bind_some, hcomposed.field_key hfound hentry hbelow hown' hname']
  case absent =>
    intro hentry
    rw [hread, findSome?_reverse_eq_none, Option.bind_none]
    intro owner howner key hkey
    have hcontains := hcomposed.declaredField_contains hfound howner hkey
    simp [Table.contains, hentry] at hcontains
  case conflict =>
    intro hentry
    obtain ⟨owner, howner, key, hkey⟩ :=
      hcomposed.exists_declaredField hfound (Table.contains_of_get? hentry)
    obtain ⟨last, hanswer, hlast⟩ := exists_lastOffer howner hkey
    exact ⟨last, hmanifest ▸ hlast, by rw [hread, hanswer, Option.bind_some]⟩

end

/-- What hosts find under a name on an object that wears one class. -/
theorem host_lookup (h : Reachable options sources workspace)
    (hobject : workspace.machine.heap.object? ref = some object) (hworn : object.worn = [cls])
    (hfound : workspace.machine.classes.get? cls = some found) (name : String) :
    FindsMethod workspace.machine object found name ∧
      ReadsField workspace.machine object found name := by
  have hsound := h.sound
  obtain ⟨cell, hcell, hentity⟩ := Heap.mem_of_entity? (Heap.object?_eq_some.mp hobject)
  have hmanifest := ((hsound.running.entities cell hcell).object hentity).manifest
  rw [hworn] at hmanifest
  exact ⟨findsMethod hsound.composed hfound hmanifest, readsField hsound.composed hfound hmanifest⟩

/-! Two classes that disagree on a field and on a method, and one that inherits from both. -/

def tornText : String :=
  "[\"module\",[[[\"copyright\",\x7b\"text\":\"\"\x7d]," ++
  "[\"license\",\x7b\"text\":\"\"\x7d]," ++
  "[\"class\",[\"Left\",[],false,[[\"field\",[\"x\",[\"bool\",null]]],[\"method\",[\"m\"]]]]]," ++
  "[\"class\",[\"Right\",[],false,[[\"field\",[\"x\",[\"string\",null]]]," ++
  "[\"method\",[\"m\",[],[\"void\",null],true]]]]]," ++
  "[\"class\",[\"Both\",[[\"Left\"],[\"Right\"]]]]]]]"

def tornTree : ModuleTree where
  declarations := [.copyright "" {}, .license "" {},
    .cls {
      name := "Left"
      members := [.field { name := "x", ty := .bool }, .method { name := "m" }] },
    .cls {
      name := "Right"
      members := [.field { name := "x", ty := .text }, .method { name := "m", mutating := true }] },
    .cls { name := "Both", parents := [["Left"], ["Right"]] }]

def tornSources : Sources := Table.insert ∅ "weft:core" (.ok tornText)

set_option maxRecDepth 100000 in
theorem torn_tree : ModuleTree.ofText? tornText = some tornTree := by
  unfold ModuleTree.ofText? Json.ofText? tornText
  simp only [String.toList_append]
  cbv

set_option maxRecDepth 100000 in
theorem first_torn :
    (firstObject? tornSources tornTree 9 ⟨2⟩).map (fun (ref, after) =>
      (ref, (after.classes.get? ⟨2⟩).map fun found =>
          (found.methods.get? "m", found.fields.get? "x"),
        (after.heap.object? ref).map fun object =>
          (object.worn, after.findMethod? object "m", after.getField? object "x"))) =
    some (⟨0, ⟨0⟩⟩, some (some .conflict, some .conflict),
      some ([⟨2⟩], some { owner := ⟨1⟩, name := "m", mutating := true, mutatingThis := true },
        some (.text ""))) := by
  cbv

/-- An object whose class can use neither the method `m` nor the field `x`. -/
structure Torn (workspace : Workspace) (ref : Ref) (object : Object) (found : ClassDef) : Prop where
  reachable : Reachable {} tornSources workspace
  made : workspace.machine.heap.object? ref = some object
  worn : object.worn = [⟨2⟩]
  registered : workspace.machine.classes.get? ⟨2⟩ = some found
  method : found.methods.get? "m" = some .conflict
  field : found.fields.get? "x" = some .conflict
  finds : workspace.machine.findMethod? object "m" =
    some { owner := ⟨1⟩, name := "m", mutating := true, mutatingThis := true }
  reads : workspace.machine.getField? object "x" = some (.text "")

theorem torn_reachable : ∃ workspace ref object found, Torn workspace ref object found := by
  obtain ⟨⟨ref, after⟩, hfirst, hafter⟩ := Option.map_eq_some_iff.mp first_torn
  simp only [Prod.mk.injEq] at hafter
  obtain ⟨rfl, hclass, hobject⟩ := hafter
  obtain ⟨found, hfound, hentries⟩ := Option.map_eq_some_iff.mp hclass
  obtain ⟨object, hobject, hview⟩ := Option.map_eq_some_iff.mp hobject
  simp only [Prod.mk.injEq] at hentries hview
  obtain ⟨workspace, hreachable, rfl⟩ := reachable_firstObject rfl torn_tree rfl hfirst
  exact ⟨workspace, ⟨0, ⟨0⟩⟩, object, found, hreachable, hobject, hview.1, hfound, hentries.1,
    hentries.2, hview.2.1, hview.2.2⟩

/-- What the class itself cannot use, a host finds: the method and the field of the second parent. -/
theorem torn_lookup : ∃ workspace ref object found, Torn workspace ref object found ∧
    FindsMethod workspace.machine object found "m" ∧
    ReadsField workspace.machine object found "x" := by
  obtain ⟨workspace, ref, object, found, h⟩ := torn_reachable
  exact ⟨workspace, ref, object, found, h,
    (host_lookup h.reachable h.made h.worn h.registered "m").1,
    (host_lookup h.reachable h.made h.worn h.registered "x").2⟩

end Workspace

end Attire

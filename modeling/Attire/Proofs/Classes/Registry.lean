import Attire.Import.Body
import Attire.Proofs.Classes.Composition
import Mathlib.Algebra.GroupWithZero.Nat

namespace Attire

/-! How registries grow, and what stays the same when they do. -/

/-- The classes declare the same; what is installed in them may differ. -/
structure ClassDef.Alike (a b : ClassDef) : Prop where
  id : a.id = b.id
  name : a.name = b.name
  qualifiedName : a.qualifiedName = b.qualifiedName
  module : a.module = b.module
  parents : a.parents = b.parents
  methods : a.methods = b.methods
  fields : a.fields = b.fields
  ownFields : a.ownFields = b.ownFields
  ownMethods : a.ownMethods = b.ownMethods

theorem ClassDef.Alike.refl {cls : ClassDef} : cls.Alike cls :=
  ⟨rfl, rfl, rfl, rfl, rfl, rfl, rfl, rfl, rfl⟩

theorem ClassDef.Alike.symm {a b : ClassDef} (h : a.Alike b) : b.Alike a where
  id := h.id.symm
  name := h.name.symm
  qualifiedName := h.qualifiedName.symm
  module := h.module.symm
  parents := h.parents.symm
  methods := h.methods.symm
  fields := h.fields.symm
  ownFields := h.ownFields.symm
  ownMethods := h.ownMethods.symm

theorem ClassDef.Alike.trans {a b c : ClassDef} (h : a.Alike b) (h' : b.Alike c) : a.Alike c where
  id := h.id.trans h'.id
  name := h.name.trans h'.name
  qualifiedName := h.qualifiedName.trans h'.qualifiedName
  module := h.module.trans h'.module
  parents := h.parents.trans h'.parents
  methods := h.methods.trans h'.methods
  fields := h.fields.trans h'.fields
  ownFields := h.ownFields.trans h'.ownFields
  ownMethods := h.ownMethods.trans h'.ownMethods

namespace ClassRegistry

variable {classes next last : ClassRegistry} {cls : ClassId} {found : ClassDef}

/-- All classes of the first registry stay as they are. -/
def Extends (classes next : ClassRegistry) : Prop :=
  ∀ cls found, classes.get? cls = some found → next.get? cls = some found

/-- All classes of the first registry stay declared as they are. -/
def Outlines (classes next : ClassRegistry) : Prop :=
  ∀ cls found, classes.get? cls = some found →
    ∃ found', next.get? cls = some found' ∧ found.Alike found'

theorem Extends.refl (classes : ClassRegistry) : classes.Extends classes := fun _ _ h => h

theorem Extends.trans (h : classes.Extends next) (h' : next.Extends last) :
    classes.Extends last := fun cls found hget => h' cls found (h cls found hget)

theorem Outlines.trans (h : classes.Outlines next) (h' : next.Outlines last) :
    classes.Outlines last := fun cls found hget => by
  obtain ⟨found', hfound', halike⟩ := h cls found hget
  obtain ⟨found'', hfound'', halike'⟩ := h' cls found' hfound'
  exact ⟨found'', hfound'', halike.trans halike'⟩

theorem Extends.outlines (h : classes.Extends next) : classes.Outlines next :=
  fun cls found hget => ⟨found, h cls found hget, .refl⟩

theorem Outlines.contains (h : classes.Outlines next) (hcls : classes.contains cls) :
    next.contains cls := by
  obtain ⟨found, hfound⟩ := contains_iff.mp hcls
  obtain ⟨found', hfound', -⟩ := h cls found hfound
  exact contains_iff.mpr ⟨found', hfound'⟩

theorem Extends.contains (h : classes.Extends next) (hcls : classes.contains cls) :
    next.contains cls :=
  h.outlines.contains hcls

theorem Extends.size (h : classes.Extends next) : classes.size ≤ next.size := by
  by_cases hzero : classes.size = 0
  · omega
  · have hlast : classes.contains ⟨classes.size - 1⟩ := decide_eq_true (Nat.sub_one_lt hzero)
    have hlt : classes.size - 1 < next.size := of_decide_eq_true (h.contains hlast)
    omega

theorem Outlines.parents (h : classes.Outlines next) (cls : ClassId) :
    classes.parents cls ⊆ next.parents cls := by
  cases hget : classes.get? cls with
  | none => simp [ClassRegistry.parents, hget]
  | some found =>
    obtain ⟨found', hfound', halike⟩ := h cls found hget
    rw [parents_eq hget, parents_eq hfound', halike.parents]
    exact List.Subset.refl _

theorem Outlines.declares (h : classes.Outlines next) {sig : MethodSig}
    (hsig : classes.Declares cls sig) : next.Declares cls sig := by
  obtain ⟨found, hfound, hmem⟩ := hsig
  obtain ⟨found', hfound', halike⟩ := h cls found hfound
  exact ⟨found', hfound', halike.ownMethods ▸ hmem⟩

theorem Outlines.stores (h : classes.Outlines next) {info : FieldInfo}
    (hinfo : classes.Stores info) : next.Stores info := by
  obtain ⟨found, own, hfound, hown, hrest⟩ := hinfo
  obtain ⟨found', hfound', halike⟩ := h _ found hfound
  exact ⟨found', own, hfound', halike.ownFields ▸ hown, hrest⟩

/-- The class is on record as one that a module declares under a name. -/
def Records (classes : ClassRegistry) (module : ModuleId) (url name : String) (cls : ClassId) :
    Prop :=
  ∃ found, classes.get? cls = some found ∧ found.module = module ∧ found.name = name ∧
    found.qualifiedName = qualifiedName url name

theorem Outlines.records (h : classes.Outlines next) {module : ModuleId} {url name : String}
    (hrecords : classes.Records module url name cls) : next.Records module url name cls := by
  obtain ⟨found, hfound, hmodule, hname, hqualified⟩ := hrecords
  obtain ⟨found', hfound', halike⟩ := h cls found hfound
  exact ⟨found', hfound', halike.module ▸ hmodule, halike.name ▸ hname,
    halike.qualifiedName ▸ hqualified⟩

/-- A registry that only differs in what is installed is composed as well. -/
theorem Composed.of_outlines (hcomposed : classes.Composed) (h : classes.Outlines next)
    (hback : next.Outlines classes) : next.Composed := by
  constructor
  case id =>
    intro cls found hget
    obtain ⟨found', hfound', halike⟩ := hback cls found hget
    exact halike.id.trans (hcomposed.id hfound')
  case parents => exact fun hparent => h.contains (hcomposed.parents (hback.parents _ hparent))
  case acyclic => exact hcomposed.acyclic.of_parents hback.parents
  case method =>
    intro cls found name sig hget hmem
    obtain ⟨found', hfound', halike⟩ := hback cls found hget
    obtain ⟨hname, owner, hpath, hown⟩ := hcomposed.method hfound' (halike.methods ▸ hmem)
    exact ⟨hname, owner, hpath.mono h.parents, h.declares hown⟩
  case introduced =>
    intro cls sig hdeclares
    obtain ⟨own, hown, hrest⟩ := hcomposed.introduced (hback.declares hdeclares)
    exact ⟨own, h.declares hown, hrest⟩
  case field =>
    intro cls found name info hget hmem
    obtain ⟨found', hfound', halike⟩ := hback cls found hget
    obtain ⟨hname, hpath, hinfo⟩ := hcomposed.field hfound' (halike.fields ▸ hmem)
    exact ⟨hname, hpath.mono h.parents, h.stores hinfo⟩
  case methodNames =>
    intro cls found hget
    obtain ⟨found', hfound', halike⟩ := hback cls found hget
    exact halike.ownMethods ▸ hcomposed.methodNames hfound'
  case fieldNames =>
    intro cls found hget
    obtain ⟨found', hfound', halike⟩ := hback cls found hget
    exact halike.ownFields ▸ hcomposed.fieldNames hfound'
  case built =>
    intro cls found hget
    obtain ⟨found', hfound', halike⟩ := hback cls found hget
    obtain ⟨declared, members, composition, hid, hadded, hmethods, hfields, hown, hown'⟩ :=
      hcomposed.built hfound'
    refine ⟨declared, members, composition, hid.trans halike.id.symm, ?_,
      halike.methods.trans hmethods, halike.fields.trans hfields, halike.ownFields.trans hown,
      halike.ownMethods.trans hown'⟩
    rw [halike.parents, Composition.ofParents_congr fun parent hparent => ?_]
    · exact hadded
    · obtain ⟨there, hthere⟩ := contains_iff.mp
        (hcomposed.parents (parents_eq hfound' ▸ hparent))
      obtain ⟨there', hthere', hsame⟩ := h parent there hthere
      rw [hthere, hthere', Option.map_some, Option.map_some, hsame.methods, hsame.fields]

/-! Declaring and dropping classes. -/

section

variable {name url : String} {module : ModuleId} {span : Span}

theorem qualifiedName_right {other : String} (h : qualifiedName url name = qualifiedName url other) :
    name = other := by
  simpa [qualifiedName, ← String.toList_inj] using h

theorem get?_declare (cls : ClassId) : (classes.declare name url module span).2.get? cls =
    if cls.index = classes.size then
      some {
        id := ⟨classes.size⟩
        name
        qualifiedName := qualifiedName url name
        module
        span }
    else classes.get? cls := by
  simp only [get?, declare, size, Array.getElem?_push]
  rfl

theorem find?_declare (other : String) : (classes.declare name url module span).2.find? other =
    if other = qualifiedName url name then some ⟨classes.size⟩ else classes.find? other :=
  Table.get?_insert

theorem declare_extends : classes.Extends (classes.declare name url module span).2 := by
  intro cls found hget
  have hlt : cls.index < classes.size := (Array.getElem?_eq_some_iff.mp hget).1
  rw [get?_declare, if_neg (by omega), hget]

theorem declare_composed (hcomposed : classes.Composed) :
    (classes.declare name url module span).2.Composed := by
  -- The new class has neither parents nor members.
  have hold : ∀ cls found, (classes.declare name url module span).2.get? cls = some found →
      classes.get? cls = some found ∨ found.Blank ∧ found.id = cls := by
    intro cls found hget
    rw [get?_declare] at hget
    split at hget
    case isTrue heq =>
      cases hget
      exact .inr ⟨⟨rfl, rfl, rfl, rfl, rfl⟩, by rw [← heq]⟩
    case isFalse => exact .inl hget
  have hextends : classes.Extends (classes.declare name url module span).2 := declare_extends
  have hparents := hextends.outlines.parents
  have hback : ∀ cls, (classes.declare name url module span).2.parents cls ⊆
      classes.parents cls := by
    intro cls parent hparent
    obtain ⟨found, hget⟩ := contains_iff.mp (contains_of_mem_parents hparent)
    rw [parents_eq hget] at hparent
    rcases hold cls found hget with hget | ⟨hblank, -⟩
    · exact parents_eq hget ▸ hparent
    · simp [hblank.parents] at hparent
  constructor
  case id =>
    intro cls found hget
    rcases hold cls found hget with hget | ⟨-, hid⟩
    · exact hcomposed.id hget
    · exact hid
  case parents => exact fun hparent => hextends.contains (hcomposed.parents (hback _ hparent))
  case acyclic => exact hcomposed.acyclic.of_parents hback
  case method =>
    intro cls found name sig hget hmem
    rcases hold cls found hget with hget | ⟨hblank, -⟩
    · obtain ⟨hname, owner, hpath, hown⟩ := hcomposed.method hget hmem
      exact ⟨hname, owner, hpath.mono hparents, hextends.outlines.declares hown⟩
    · simp [hblank.methods] at hmem
  case introduced =>
    rintro cls sig ⟨found, hget, hsig⟩
    rcases hold cls found hget with hget | ⟨hblank, -⟩
    · obtain ⟨own, hown, hrest⟩ := hcomposed.introduced ⟨found, hget, hsig⟩
      exact ⟨own, hextends.outlines.declares hown, hrest⟩
    · simp [hblank.ownMethods] at hsig
  case field =>
    intro cls found name info hget hmem
    rcases hold cls found hget with hget | ⟨hblank, -⟩
    · obtain ⟨hname, hpath, hinfo⟩ := hcomposed.field hget hmem
      exact ⟨hname, hpath.mono hparents, hextends.outlines.stores hinfo⟩
    · simp [hblank.fields] at hmem
  case methodNames =>
    intro cls found hget
    rcases hold cls found hget with hget | ⟨hblank, -⟩
    · exact hcomposed.methodNames hget
    · simp [hblank.ownMethods]
  case fieldNames =>
    intro cls found hget
    rcases hold cls found hget with hget | ⟨hblank, -⟩
    · exact hcomposed.fieldNames hget
    · simp [hblank.ownFields]
  case built =>
    intro cls found hget
    rcases hold cls found hget with hget | ⟨hblank, -⟩
    · obtain ⟨declared, members, composition, hid, hadded, hrest⟩ := hcomposed.built hget
      refine ⟨declared, members, composition, hid, ?_, hrest⟩
      rw [Composition.ofParents_congr fun parent hparent => ?_]
      · exact hadded
      · obtain ⟨there, hthere⟩ := contains_iff.mp
          (hcomposed.parents (parents_eq hget ▸ hparent))
        rw [hthere, hextends parent there hthere]
    · exact hblank.built _

end

theorem get?_truncate {count : Nat} (cls : ClassId) :
    (classes.truncate count).get? cls = if cls.index < count then classes.get? cls else none := by
  simp only [get?, truncate, Array.getElem?_extract, Nat.sub_zero, Nat.zero_add]
  by_cases hlt : cls.index < count
  · rw [if_pos hlt]
    by_cases hsize : cls.index < classes.classes.size
    · rw [if_pos (by omega)]
    · rw [if_neg (by omega), Array.getElem?_eq_none (by omega)]
  · rw [if_neg hlt, if_neg (by omega)]

/-- Every name leads to the class that has it. -/
def Named (classes : ClassRegistry) : Prop :=
  ∀ name id, classes.find? name = some id →
    ∃ found, classes.get? id = some found ∧ found.qualifiedName = name

theorem Named.declare {name url : String} {module : ModuleId} {span : Span} (h : classes.Named) :
    (classes.declare name url module span).2.Named := by
  intro other id hfind
  rw [find?_declare] at hfind
  split at hfind
  case isTrue heq =>
    cases hfind
    exact ⟨_, (get?_declare _).trans (if_pos rfl), heq.symm⟩
  case isFalse =>
    obtain ⟨found, hfound, hname⟩ := h other id hfind
    exact ⟨found, declare_extends id found hfound, hname⟩

/-- A name stays known if no class that is dropped has it. -/
theorem find?_truncate {count : Nat} {name : String} {id : ClassId} :
    (classes.truncate count).find? name = some id ↔ classes.find? name = some id ∧
      ∀ cls found, classes.get? cls = some found → count ≤ cls.index →
        found.qualifiedName ≠ name := by
  have hforget : ∀ (dropped : List ClassDef) (names : Table String ClassId),
      (dropped.foldl (fun names cls => names.erase cls.qualifiedName) names).get? name = some id ↔
        names.get? name = some id ∧ ∀ cls ∈ dropped, cls.qualifiedName ≠ name := by
    intro dropped
    induction dropped with
    | nil => simp
    | cons first rest ih =>
      intro names
      rw [List.foldl_cons, ih, Table.get?_erase]
      by_cases hfirst : first.qualifiedName = name
      · simp [hfirst]
      · simp [hfirst, Ne.symm hfirst]
  have hdropped : (∀ found ∈ classes.classes.toList.drop count, found.qualifiedName ≠ name) ↔
      ∀ cls found, classes.get? cls = some found → count ≤ cls.index →
        found.qualifiedName ≠ name := by
    constructor
    · intro h cls found hfound hle
      refine h found (List.mem_iff_getElem?.mpr ⟨cls.index - count, ?_⟩)
      rw [List.getElem?_drop, Array.getElem?_toList, Nat.add_sub_cancel' hle]
      exact hfound
    · intro h found hmem
      obtain ⟨index, hindex⟩ := List.mem_iff_getElem?.mp hmem
      rw [List.getElem?_drop, Array.getElem?_toList] at hindex
      exact h ⟨count + index⟩ found hindex (Nat.le_add_right _ _)
  rw [find?, truncate, hforget, hdropped, find?]

theorem Named.truncate (h : classes.Named) (count : Nat) : (classes.truncate count).Named := by
  intro name id hfind
  obtain ⟨hold, hkept⟩ := find?_truncate.mp hfind
  obtain ⟨found, hfound, hname⟩ := h name id hold
  refine ⟨found, ?_, hname⟩
  rw [get?_truncate, if_pos, hfound]
  by_contra hle
  exact hkept id found hfound (Nat.not_lt.mp hle) hname

/-- Every class is found under its name. -/
def Indexed (classes : ClassRegistry) : Prop :=
  ∀ cls found, classes.get? cls = some found → classes.find? found.qualifiedName = some cls

/-- Old classes are still found under their names, which no new class has. -/
structure Spares (classes next : ClassRegistry) : Prop where
  kept {cls : ClassId} {found : ClassDef} : classes.get? cls = some found →
    next.find? found.qualifiedName = some cls
  apart {cls old : ClassId} {found former : ClassDef} : next.get? cls = some found →
    ¬classes.contains cls → classes.get? old = some former →
    former.qualifiedName ≠ found.qualifiedName

theorem Indexed.spares (h : classes.Indexed) : classes.Spares classes where
  kept hget := h _ _ hget
  apart hget hnew := absurd (contains_iff.mpr ⟨_, hget⟩) hnew

theorem Spares.declare {name url : String} {module : ModuleId} {span : Span}
    (h : classes.Spares next)
    (hname : ∀ cls found, classes.get? cls = some found →
      found.qualifiedName ≠ qualifiedName url name) :
    classes.Spares (next.declare name url module span).2 where
  kept hget := by
    rw [find?_declare, if_neg (hname _ _ hget), h.kept hget]
  apart {cls old found former} hget hnew hold := by
    rw [get?_declare] at hget
    split at hget
    case isTrue =>
      cases hget
      exact hname old former hold
    case isFalse => exact h.apart hget hnew hold

theorem Spares.congr (h : classes.Spares next) (hnames : last.byName = next.byName)
    (hback : ∀ cls found, last.get? cls = some found →
      ∃ found', next.get? cls = some found' ∧ found'.qualifiedName = found.qualifiedName) :
    classes.Spares last where
  kept hget := by
    rw [find?, hnames]
    exact h.kept hget
  apart hget hnew hold := by
    obtain ⟨found', hfound', hname⟩ := hback _ _ hget
    exact hname ▸ h.apart hfound' hnew hold

theorem Spares.indexed (h : classes.Spares next) (hback : next.Extends classes) : next.Indexed :=
  fun _ _ hget => h.kept (hback _ _ hget)

theorem Spares.truncate (h : classes.Spares next) (hextends : classes.Extends next) :
    (next.truncate classes.size).Indexed := by
  intro cls found hget
  rw [get?_truncate] at hget
  split at hget
  case isFalse => cases hget
  case isTrue hlt =>
    obtain ⟨old, hold⟩ := contains_iff.mp (decide_eq_true hlt : classes.contains cls = true)
    obtain rfl := Option.some.inj ((hextends cls old hold).symm.trans hget)
    refine find?_truncate.mpr ⟨h.kept hold, fun other dropped hdropped hle hname => ?_⟩
    refine h.apart hdropped (fun hcontains => ?_) hold hname.symm
    exact absurd (of_decide_eq_true hcontains) (Nat.not_lt.mpr hle)

theorem Extends.manifest (h : classes.Extends next) (hcomposed : classes.Composed)
    {worn : List ClassId} (hworn : ∀ cls ∈ worn, classes.contains cls) :
    next.manifest worn = classes.manifest worn := by
  have hunique : ∀ a b a' b' : ClassId, a = b ∧ classes.contains a →
      a' = b' ∧ classes.contains a' → (a = a' ↔ b = b') := by
    rintro a _ a' _ ⟨rfl, -⟩ ⟨rfl, -⟩
    exact Iff.rfl
  have hself : ∀ items : List ClassId, (∀ cls ∈ items, classes.contains cls) →
      List.Forall₂ (fun a b => a = b ∧ classes.contains a) items items := by
    intro items hitems
    exact List.forall₂_same.mpr fun cls hmem => ⟨rfl, hitems cls hmem⟩
  have hparents : ∀ a b, a = b ∧ classes.contains a →
      List.Forall₂ (fun a b => a = b ∧ classes.contains a) (classes.parents a)
        (next.parents b) := by
    rintro cls _ ⟨rfl, hcls⟩
    obtain ⟨found, hfound⟩ := contains_iff.mp hcls
    rw [parents_eq (h cls found hfound), ← parents_eq hfound]
    exact hself _ fun parent hparent => hcomposed.parents hparent
  have hparallel := manifest_parallel hunique hparents (hself worn hworn)
  exact (List.forall₂_eq_eq_eq ▸ hparallel.imp fun _ _ hrelated => hrelated.1 :
    classes.manifest worn = next.manifest worn).symm

/-! Installed routines and the tables built from them. -/

/-- Some class has the routine installed for the slot. -/
def Installed (classes : ClassRegistry) (slot : MethodSlot) (routine : Routine) : Prop :=
  ∃ cls found, classes.get? cls = some found ∧ (slot, routine) ∈ found.bodies.entries

variable {manifest below : List ClassId} {slot : MethodSlot} {routine : Routine}

theorem methodsOf_append : classes.methodsOf (below ++ [cls]) =
    match classes.get? cls with
    | some cls => (classes.methodsOf below).overlay cls.bodies
    | none => classes.methodsOf below :=
  List.foldl_append

theorem methodsOf_congr (h : ∀ cls ∈ manifest, next.get? cls = classes.get? cls) :
    next.methodsOf manifest = classes.methodsOf manifest := by
  induction manifest using List.reverseRecOn with
  | nil => rfl
  | append_singleton below cls ih =>
    rw [methodsOf_append, methodsOf_append, h cls (by simp),
      ih fun other hmem => h other (List.mem_append_left _ hmem)]

theorem installed_of_mem_methodsOf (h : (slot, routine) ∈ (classes.methodsOf manifest).entries) :
    classes.Installed slot routine := by
  induction manifest using List.reverseRecOn with
  | nil => cases h
  | append_singleton below cls ih =>
    rw [methodsOf_append] at h
    split at h
    case h_1 found hget =>
      rcases Table.mem_overlay h with h | h
      · exact ⟨cls, found, hget, h⟩
      · exact ih h
    case h_2 => exact ih h

theorem methodsOf_contains (hcls : cls ∈ manifest) (hget : classes.get? cls = some found)
    (hslot : found.bodies.contains slot) : (classes.methodsOf manifest).contains slot := by
  induction manifest using List.reverseRecOn with
  | nil => cases hcls
  | append_singleton below other ih =>
    rw [methodsOf_append]
    rcases List.mem_append.mp hcls with hmem | hmem
    · split
      · exact Table.contains_overlay.mpr (.inr (ih hmem))
      · exact ih hmem
    · obtain rfl := List.mem_singleton.mp hmem
      rw [hget]
      exact Table.contains_overlay.mpr (.inl hslot)

end ClassRegistry

namespace TableCache

variable {classes next : ClassRegistry} {cache : TableCache} {manifest : List ClassId}

/-- Every kept table is what would be built anew. -/
structure Transparent (cache : TableCache) (classes : ClassRegistry) : Prop where
  methods {manifest : List ClassId} {table : MethodTable} :
    cache.tables.get? manifest = some table → table.methods = classes.methodsOf manifest
  contains {manifest : List ClassId} {table : MethodTable} {cls : ClassId} :
    cache.tables.get? manifest = some table → cls ∈ manifest → classes.contains cls

/-- What a cache becomes when tables are asked for one after another, each of them answered with what
would be built anew. -/
inductive Serves (cache : TableCache) (classes : ClassRegistry) :
    List (List ClassId) → TableCache → Prop
  | start : Serves cache classes [] cache
  | request {asked : List (List ClassId)} {after : TableCache} {manifest : List ClassId} :
      Serves cache classes asked after →
      (after.request classes manifest).1.methods = classes.methodsOf manifest →
      Serves cache classes (asked ++ [manifest]) (after.request classes manifest).2

theorem layer_lookups (build : Unit → Table MethodSlot Routine) :
    (cache.layer manifest build).2.hits + (cache.layer manifest build).2.misses =
      cache.hits + cache.misses + 1 := by
  unfold layer
  split
  · dsimp only
    omega
  · dsimp only
    omega

theorem layers_lookups {below : List ClassId} {table : MethodTable} :
    (layers classes below table cache manifest).2.hits +
        (layers classes below table cache manifest).2.misses =
      cache.hits + cache.misses + manifest.length := by
  induction manifest generalizing below table cache with
  | nil => rfl
  | cons cls rest ih =>
    rw [layers, ih, layer_lookups, List.length_cons]
    omega

/-- Every look-up is counted, so a service leaves none out. -/
theorem Serves.lookups {after : TableCache} {asked : List (List ClassId)}
    (h : cache.Serves classes asked after) :
    after.hits + after.misses =
      cache.hits + cache.misses + (asked.map fun manifest => manifest.length + 1).sum := by
  induction h with
  | start => rfl
  | @request asked after manifest _ _ ih =>
    have hrequest : (after.request classes manifest).2.hits +
        (after.request classes manifest).2.misses =
          after.hits + after.misses + 1 + manifest.length := by
      rw [TableCache.request, layers_lookups, layer_lookups]
    rw [hrequest, ih, List.map_append, List.sum_append]
    simp only [List.map_cons, List.map_nil, List.sum_cons, List.sum_nil]
    omega

theorem layer_transparent (h : cache.Transparent classes) (build : Unit → Table MethodSlot Routine)
    (hbuild : build () = classes.methodsOf manifest)
    (hmanifest : ∀ cls ∈ manifest, classes.contains cls) :
    (cache.layer manifest build).1.methods = classes.methodsOf manifest ∧
      (cache.layer manifest build).2.Transparent classes := by
  unfold layer
  split
  case h_1 table htable => exact ⟨h.methods htable, ⟨h.methods, h.contains⟩⟩
  case h_2 =>
    refine ⟨hbuild, ⟨fun htable => ?_, fun htable hmem => ?_⟩⟩
    all_goals
      dsimp only at htable
      rw [Table.get?_insert] at htable
      split at htable
    case refine_1.isTrue heq =>
      cases htable
      exact heq ▸ hbuild
    case refine_1.isFalse => exact h.methods htable
    case refine_2.isTrue heq => exact hmanifest _ (heq ▸ hmem)
    case refine_2.isFalse => exact h.contains htable hmem

theorem layers_transparent {below : List ClassId} {table : MethodTable}
    (h : cache.Transparent classes) (htable : table.methods = classes.methodsOf below)
    (hmanifest : ∀ cls ∈ below ++ manifest, classes.contains cls) :
    (layers classes below table cache manifest).1.methods =
        classes.methodsOf (below ++ manifest) ∧
      (layers classes below table cache manifest).2.Transparent classes := by
  induction manifest generalizing below table cache with
  | nil => exact ⟨by rw [List.append_nil]; exact htable, h⟩
  | cons cls rest ih =>
    have happend : below ++ cls :: rest = (below ++ [cls]) ++ rest := by simp
    rw [happend] at hmanifest ⊢
    obtain ⟨hnext, hcache⟩ := layer_transparent h
      (fun _ =>
        match classes.get? cls with
        | some cls => table.methods.overlay cls.bodies
        | none => table.methods)
      (by rw [ClassRegistry.methodsOf_append, htable])
      fun other hmem => hmanifest other (List.mem_append_left _ hmem)
    exact ih hcache hnext hmanifest

theorem request_transparent (h : cache.Transparent classes)
    (hmanifest : ∀ cls ∈ manifest, classes.contains cls) :
    (cache.request classes manifest).1.methods = classes.methodsOf manifest ∧
      (cache.request classes manifest).2.Transparent classes := by
  have hbase : (cache.layer [] fun _ => ∅).1.methods = classes.methodsOf [] ∧
      (cache.layer [] fun _ => ∅).2.Transparent classes :=
    layer_transparent h _ rfl (by simp)
  exact layers_transparent hbase.2 hbase.1 hmanifest

theorem Transparent.extend (h : cache.Transparent classes) (hextends : classes.Extends next) :
    cache.Transparent next where
  methods htable := by
    rw [h.methods htable]
    refine (ClassRegistry.methodsOf_congr fun cls hmem => ?_).symm
    obtain ⟨found, hfound⟩ := ClassRegistry.contains_iff.mp (h.contains htable hmem)
    rw [hextends cls found hfound, hfound]
  contains htable hmem := hextends.contains (h.contains htable hmem)

theorem Transparent.evict (h : cache.Transparent classes) (first : Nat) :
    (cache.evictFrom first).Transparent classes := by
  have hkept : ∀ {manifest table}, (cache.evictFrom first).tables.get? manifest = some table →
      cache.tables.get? manifest = some table := by
    intro manifest table htable
    rw [evictFrom, Table.get?_restrict] at htable
    split at htable
    · exact htable
    · cases htable
  exact ⟨fun htable => h.methods (hkept htable), fun htable hmem => h.contains (hkept htable) hmem⟩

end TableCache

end Attire

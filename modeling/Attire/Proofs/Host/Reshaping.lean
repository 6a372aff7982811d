import Attire.Proofs.Host.Furnishing

namespace Attire

open Machine Workspace

/-! What objects are like after a class is put on or taken off. -/

/-- What is worn once the class is put on. -/
def donned (worn : List ClassId) (cls : ClassId) : List ClassId :=
  if cls ∈ worn then worn else worn ++ [cls]

/-- What is worn once the class is taken off. -/
def doffed (worn : List ClassId) (cls : ClassId) : List ClassId := worn.filter (· ≠ cls)

/-- What the object stores of the classes that it would be. -/
def Object.retained (classes : ClassRegistry) (worn : List ClassId) (object : Object) :
    Table FieldKey Value :=
  object.fields.restrict fun key => key.owner ∈ classes.manifest worn

/-- The object wears the classes.  It stores what it stored of them, and after that perhaps fields
that it did not store. -/
structure Object.Rewears (classes : ClassRegistry) (worn : List ClassId) (object after : Object) :
    Prop where
  wears : after.worn = worn
  stores : ∃ gained, after.fields.entries = (object.retained classes worn).entries ++ gained ∧
    ∀ entry ∈ gained, entry.1 ∉ object.fields.keys

/-- Only the object is another one: it wears other classes. -/
structure Machine.Reshapes (ref : Ref) (change : List ClassId → List ClassId)
    (before after : Machine) : Prop where
  spares : before.Spares (· = ref.address) after
  object {object : Object} : before.heap.object? ref = some object →
    ∃ object', after.heap.object? ref = some object' ∧
      object.Rewears before.classes (change object.worn) object'

section

variable {classes : ClassRegistry} {object after : Object} {worn : List ClassId} {cls : ClassId}

theorem subset_donned (worn : List ClassId) (cls : ClassId) : worn ⊆ donned worn cls := by
  unfold donned
  split
  · exact List.Subset.refl worn
  · exact List.subset_append_left ..

theorem doffed_donned (h : cls ∉ worn) : doffed (donned worn cls) cls = worn := by
  have hother : worn.filter (· ≠ cls) = worn :=
    List.filter_eq_self.mpr fun other hother => decide_eq_true fun heq => h (heq ▸ hother)
  rw [donned, if_neg h, doffed, List.filter_append, hother]
  simp

theorem Object.Coherent.retained (h : object.Coherent classes)
    (hworn : object.manifest ⊆ classes.manifest worn) :
    object.retained classes worn = object.fields := by
  refine congrArg Table.mk (List.filter_eq_self.mpr fun entry hentry => decide_eq_true ?_)
  exact hworn (h.fields entry.1 (List.mem_map.mpr ⟨entry, hentry, rfl⟩)).1

theorem Object.Coherent.rewears (h : object.Coherent classes)
    (hworn : object.manifest ⊆ classes.manifest worn) :
    object.Rewears classes worn { object with worn } where
  wears := rfl
  stores := ⟨[], by rw [h.retained hworn, List.append_nil], List.forall_mem_nil _⟩

/-- What a complete object gains while it wears more, it stores only as long as it does so. -/
theorem Object.Rewears.retained (h : object.Rewears classes worn after)
    (hcoherent : object.Coherent classes) (hcomplete : object.Complete classes)
    (hafter : after.Coherent classes) (hworn : object.worn ⊆ worn) :
    after.retained classes object.worn = object.fields := by
  have hmanifest := hcoherent.manifest
  have hkept : object.retained classes worn = object.fields :=
    hcoherent.retained (hmanifest ▸ ClassRegistry.manifest_mono hworn)
  obtain ⟨gained, hstores, hfresh⟩ := h.stores
  rw [hkept] at hstores
  have hgained : ∀ entry ∈ gained, entry.1.owner ∉ object.manifest := by
    intro entry hentry howner
    have hstored : entry.1 ∈ after.fields.keys := by
      rw [Table.keys, hstores, List.map_append]
      exact List.mem_append_right _ (List.mem_map.mpr ⟨entry, hentry, rfl⟩)
    exact hfresh entry hentry ((hcomplete entry.1).mpr ⟨howner, (hafter.fields entry.1 hstored).2⟩)
  have hstays : object.fields.entries.filter (fun entry => entry.1.owner ∈ object.manifest) =
      object.fields.entries := List.filter_eq_self.mpr fun entry hentry =>
    decide_eq_true (hcoherent.fields entry.1 (List.mem_map.mpr ⟨entry, hentry, rfl⟩)).1
  have hdropped : gained.filter (fun entry => entry.1.owner ∈ object.manifest) = [] :=
    List.filter_eq_nil_iff.mpr fun entry hentry => by simpa using hgained entry hentry
  unfold Object.retained Table.restrict
  rw [← hmanifest, hstores, List.filter_append, hstays, hdropped, List.append_nil]

end

namespace Workspace

variable {workspace : Workspace} {ref : Ref} {object : Object}
variable {change : List ClassId → List ClassId}

/-- The object wears the classes, with their manifest and method table, and stores what it stored of
them. -/
structure Refitted (workspace : Workspace) (ref : Ref) (worn : List ClassId)
    (object object' : Object) (after : Machine) : Prop where
  sound : Sound { workspace with machine := after }
  knows : after.Knows (.object ref)
  spares : workspace.machine.Spares (· = ref.address) after
  found : after.heap.object? ref = some object'
  wears : object'.worn = worn
  fields : object'.fields = object.retained workspace.machine.classes worn

theorem Sound.refits (h : workspace.Sound) (href : workspace.machine.Knows (.object ref))
    (hobject : workspace.machine.heap.object? ref = some object)
    (hchange : ∀ cls ∈ change object.worn, workspace.machine.classes.contains cls) :
    ∃ after object', ((onHeap fun heap => heap.modifyObject ref fun object =>
        { object with worn := change object.worn }) >>= fun _ => installManifest ref)
        workspace.machine = .ok ⟨⟩ after ∧
      workspace.Refitted ref (change object.worn) object object' after := by
  have hsafe : h.full.regime.Safe workspace.stage
      ((onHeap fun heap => heap.modifyObject ref fun object =>
        { object with worn := change object.worn }) >>= fun _ => installManifest ref)
      workspace.machine fun _ _ _ => True := by
    refine Footing.safe_reshape h.full_fits (Nat.zero_le _) fun other hother => ?_
    obtain rfl := Option.some.inj (hobject.symm.trans hother)
    exact hchange
  have hworn : (workspace.machine.heap.modifyObject ref fun object =>
      { object with worn := change object.worn }).object? ref =
      some { object with worn := change object.worn } := Heap.object?_modifyObject hobject
  obtain ⟨next, hle, hfits, -⟩ := (yields_installManifest hworn).mp
    (yields_modify.mp (yields_bind.mp hsafe))
  have hreplaces := h.replaces hle hfits
  have hspares := (Machine.Spares.refl (· = ref.address) workspace.machine).modifyObject rfl
    fun object => { object with worn := change object.worn }
  refine ⟨_, _, yields_eq_ok.mp (yields_bind.mpr (yields_modify.mpr
    ((yields_installManifest hworn).mpr ⟨rfl, rfl⟩))), hreplaces.sound_workspace h,
    hreplaces.knows href, ?_, Heap.object?_modifyObject hworn, rfl, ?_⟩
  · exact { hspares.modifyObject rfl _ with }
  · simp only [Object.fitted, Object.retained, List.mem_eraseDups]

/-- What is pending then, the object did not store before. -/
theorem Refitted.lacked {worn : List ClassId} {object' : Object} {fitted : Machine}
    {field : PendingField} (h : workspace.Refitted ref worn object object' fitted)
    (hfield : field ∈ fitted.pending ref) : field.key ∉ object.fields.keys := by
  intro hstored
  have hclasses : fitted.classes = workspace.machine.classes := h.spares.classes
  obtain ⟨lacking, hlacking, hlacks⟩ := (h.sound.wants h.knows).lacks
  obtain rfl := Option.some.inj (h.found.symm.trans hlacking)
  obtain ⟨howner, hfresh⟩ := hlacks field hfield
  rw [((h.sound.running.object_sound h.found).object rfl).manifest, h.wears] at howner
  obtain ⟨stored, hstored, hsame⟩ := List.mem_map.mp hstored
  refine hfresh ?_
  rw [h.fields]
  refine List.mem_map.mpr ⟨stored, Table.mem_restrict.mpr ⟨hstored, decide_eq_true ?_⟩, hsame⟩
  rw [hsame, ← hclasses]
  exact howner

theorem Refitted.reshapes {object' : Object} {fitted after : Machine} {done : List PendingField}
    (h : workspace.Refitted ref (change object.worn) object object' fitted)
    (hobject : workspace.machine.heap.object? ref = some object)
    (hdone : done <+: fitted.pending ref)
    (hfurnishes : fitted.Furnishes ref (done.map PendingField.key) after) :
    workspace.machine.Reshapes ref change after := by
  refine ⟨h.spares.trans hfurnishes.spares, fun {other} hother => ?_⟩
  obtain rfl := Option.some.inj (hobject.symm.trans hother)
  obtain ⟨gained, random, hgained, hafter⟩ := hfurnishes.object h.found
  refine ⟨_, hafter, h.wears, gained, by rw [h.fields], fun entry hentry => ?_⟩
  have hkey : entry.1 ∈ done.map PendingField.key :=
    hgained ▸ List.mem_map.mpr ⟨entry, hentry, rfl⟩
  obtain ⟨field, hfield, heq⟩ := List.mem_map.mp hkey
  exact heq ▸ h.lacked (hdone.subset hfield)

/-- Nothing but the object changes; if an initializer fails, the object wears the classes all the
same. -/
theorem Sound.reworn (h : workspace.Sound) (href : workspace.machine.Knows (.object ref))
    (hchange : ∀ object, workspace.machine.heap.object? ref = some object →
      ∀ cls ∈ change object.worn, workspace.machine.classes.contains cls) (steps : Nat) :
    Yields ((onHeap fun heap => heap.modifyObject ref fun object =>
        { object with worn := change object.worn }) >>= fun _ => remanifest steps ref)
      workspace.machine
      (fun _ after => workspace.machine.Reshapes ref change after)
      fun halt after => ∀ error, halt = .error error →
        workspace.machine.Reshapes ref change after := by
  obtain ⟨object, hobject⟩ := Heap.object?_of_names href
  cases steps with
  | zero =>
    refine yields_bind.mpr (yields_modify.mpr ?_)
    rw [remanifest]
    rintro error ⟨⟩
  | succ steps =>
    obtain ⟨_, object', hfitted, hrefitted⟩ := h.refits href hobject (hchange object hobject)
    rw [remanifest, ← bind_assoc]
    refine yields_bind.mpr ((yields_eq_ok.mpr hfitted).imp ?_ fun _ _ h => h.elim)
    rintro _ fitted ⟨-, rfl⟩
    refine (hrefitted.sound.furnishes hrefitted.knows steps).imp ?_ ?_
    · rintro _ after ⟨-, hfurnishes⟩
      exact hrefitted.reshapes hobject (List.prefix_refl _) hfurnishes
    · intro halt after herror error heq
      obtain ⟨-, done, hdone, hfurnishes⟩ := herror error heq
      exact hrefitted.reshapes hobject hdone hfurnishes

theorem Sound.retract_reshapes (h : workspace.Sound) (href : workspace.machine.Knows (.object ref))
    (steps : Nat) (cls : ClassId) :
    Yields (retract steps ref cls) workspace.machine
      (fun _ after => workspace.machine.Reshapes ref (doffed · cls) after)
      fun halt after => ∀ error, halt = .error error →
        workspace.machine.Reshapes ref (doffed · cls) after := by
  cases steps with
  | zero =>
    rw [retract]
    rintro error ⟨⟩
  | succ steps =>
    rw [retract]
    refine h.reworn href (fun object hobject other hmem => ?_) steps
    exact ((h.running.object_sound hobject).object rfl).worn other (List.mem_filter.mp hmem).1

/-- An extension that is refused changes nothing. -/
theorem Sound.extend_reshapes (h : workspace.Sound) (href : workspace.machine.Knows (.object ref))
    (steps : Nat) (cls : ClassId) :
    Yields (extend steps ref cls) workspace.machine
      (fun _ after => workspace.machine.Reshapes ref (donned · cls) after)
      fun halt after => ∀ error, halt = .error error →
        after = workspace.machine ∨ workspace.machine.Reshapes ref (donned · cls) after := by
  obtain ⟨object, hobject⟩ := Heap.object?_of_names href
  have hcoherent := (h.running.object_sound hobject).object rfl
  cases steps with
  | zero =>
    rw [extend]
    rintro error ⟨⟩
  | succ steps =>
    rw [extend]
    refine yields_bind.mpr (yields_get.mpr ?_)
    split
    case isFalse => exact fun _ _ => .inl rfl
    case isTrue hcls =>
      rw [hobject]
      dsimp only
      split
      case isTrue hworn =>
        refine ⟨.refl _ _, fun {other} hother => ⟨other, hother, ?_⟩⟩
        obtain rfl := Option.some.inj (hobject.symm.trans hother)
        rw [donned, if_pos hworn]
        exact hcoherent.rewears fun _ hmem => hcoherent.manifest ▸ hmem
      case isFalse hworn =>
        have hdonned : donned object.worn cls = object.worn ++ [cls] := if_neg hworn
        by_cases himplied : object.embodies cls = true
        · simp only [if_pos himplied]
          refine ⟨(Machine.Spares.refl (· = ref.address) _).modifyObject rfl _,
            fun {other} hother => ⟨_, Heap.object?_modifyObject hother, ?_⟩⟩
          obtain rfl := Option.some.inj (hobject.symm.trans hother)
          rw [hdonned]
          refine hcoherent.rewears ?_
          rw [hcoherent.manifest]
          exact ClassRegistry.manifest_mono (List.subset_append_left ..)
        · simp only [if_neg himplied]
          have hcontains : ∀ other, workspace.machine.heap.object? ref = some other →
              ∀ worn ∈ other.worn ++ [cls], workspace.machine.classes.contains worn := by
            intro other hother worn hmem
            obtain rfl := Option.some.inj (hobject.symm.trans hother)
            rcases List.mem_append.mp hmem with hmem | hmem
            · exact hcoherent.worn worn hmem
            · obtain rfl := List.mem_singleton.mp hmem
              exact hcls
          have hsame : ∀ {after}, workspace.machine.Reshapes ref (· ++ [cls]) after →
              workspace.machine.Reshapes ref (donned · cls) after := fun hreshapes =>
            ⟨hreshapes.spares, fun {other} hother => by
              obtain rfl := Option.some.inj (hobject.symm.trans hother)
              rw [hdonned]
              exact hreshapes.object hother⟩
          exact (h.reworn href hcontains steps).imp (fun _ _ hreshapes => hsame hreshapes)
            fun _ _ herror error heq => .inr (hsame (herror error heq))

/-- A complete object lacks nothing. -/
theorem Sound.initializeMissing_complete (h : workspace.Sound)
    (href : workspace.machine.Knows (.object ref))
    (hobject : workspace.machine.heap.object? ref = some object)
    (hcomplete : object.Complete workspace.machine.classes) (steps : Nat) :
    initializeMissing (steps + 1) ref workspace.machine = .ok ⟨⟩ workspace.machine := by
  have hwants := h.wants href
  obtain ⟨found, hfound, hlacks⟩ := hwants.lacks
  obtain rfl := Option.some.inj (hobject.symm.trans hfound)
  have hpending : workspace.machine.pending ref = [] := by
    refine List.eq_nil_iff_forall_not_mem.mpr fun field hmem => ?_
    obtain ⟨howner, hmissing⟩ := hlacks field hmem
    exact hmissing ((hcomplete field.key).mpr ⟨howner, (hwants.fields field hmem).1⟩)
  rw [initializeMissing_succ]
  show (workspace.machine.pending ref).forM (initializePending steps ref) workspace.machine = _
  rw [hpending]
  rfl

/-- A class that an object did not wear leaves no trace on the object when it is taken off again,
and none on anything else but the random streams from which initializers have drawn. -/
theorem retract_undoes_extend {options : Options} {sources : Sources}
    (h : Reachable options sources workspace) {steps : Nat} {cls : ClassId}
    {machine after : Machine} (hoccurs : workspace.Occurs (.extend steps ref cls) machine)
    (hobject : machine.heap.object? ref = some object) (hcomplete : object.Complete machine.classes)
    (hnew : cls ∉ object.worn) (hrun : Machine.extend steps ref cls machine = .ok ⟨⟩ after)
    (more : Nat) :
    ∃ last object', Machine.retract (more + 3) ref cls after = .ok ⟨⟩ last ∧
      last.heap.object? ref = some object' ∧ object'.worn = object.worn ∧
      object'.manifest = object.manifest ∧
      (∀ other, other ∈ object'.types ↔ other ∈ object.types) ∧
      object'.table.methods = object.table.methods ∧ object'.fields = object.fields ∧
      machine.Spares (· = ref.address) last := by
  obtain ⟨stage, hfits, hnames⟩ := h.sound.allows_occurring hoccurs
  obtain ⟨hsound, hknows⟩ := h.sound.moment hfits
  have href := hknows (.object ref) hnames
  have hcoherent := (hsound.running.object_sound hobject).object rfl
  have hreplaces := (hsound.keeps_offers (.extend steps cls href)).of_ok hrun
  have hafter := hreplaces.sound_workspace hsound
  have hextends := (hsound.extend_reshapes href steps cls).of_ok hrun
  obtain ⟨extended, hextended, hrewears⟩ := hextends.object hobject
  have hcoherent' : extended.Coherent after.classes :=
    (hafter.running.object_sound hextended).object rfl
  have hclasses : after.classes = machine.classes := hextends.spares.classes
  have hdoffed : doffed extended.worn cls = object.worn := by
    rw [hrewears.wears, doffed_donned hnew]
  have hretained : extended.retained after.classes object.worn = object.fields := by
    rw [hclasses] at hcoherent' ⊢
    exact hrewears.retained hcoherent hcomplete hcoherent' (subset_donned _ _)
  -- The retraction goes back to what was worn and stored before, so that nothing is pending.
  have hknown : ∀ other ∈ doffed extended.worn cls, after.classes.contains other :=
    fun other hmem => hcoherent'.worn other (List.mem_filter.mp hmem).1
  obtain ⟨last, object', hlast, hrefitted⟩ :=
    hafter.refits (hreplaces.knows href) hextended hknown
  have hobject' := hrefitted.found
  have hworn' : object'.worn = object.worn := hrefitted.wears.trans hdoffed
  have hfields' : object'.fields = object.fields := by
    refine Eq.trans hrefitted.fields ?_
    show extended.retained after.classes (doffed extended.worn cls) = object.fields
    rw [hdoffed, hretained]
  have hcoherent'' := (hrefitted.sound.running.object_sound hobject').object rfl
  have hclasses' : last.classes = machine.classes := hrefitted.spares.classes.trans hclasses
  have hmanifest' : object'.manifest = object.manifest := by
    rw [hcoherent''.manifest, hworn', hcoherent.manifest]
    exact congrArg (ClassRegistry.manifest · object.worn) hclasses'
  have hcomplete' : object'.Complete last.classes := by
    rw [hclasses']
    intro key
    rw [hfields', hmanifest', hcomplete]
  refine ⟨last, object', ?_, hobject', hworn', hmanifest', fun other => ?_, ?_, hfields',
    hextends.spares.trans hrefitted.spares⟩
  · rw [retract, remanifest, ← bind_assoc]
    exact (run_bind_ok hlast).trans
      (hrefitted.sound.initializeMissing_complete hrefitted.knows hobject' hcomplete' more)
  · rw [hcoherent''.types, hcoherent.types, hmanifest']
  · rw [hcoherent''.table, hcoherent.table, hmanifest']
    exact congrArg (ClassRegistry.methodsOf · object.manifest) hclasses'

/-! Birds have a die each, and rolling it with the first crest decides on their luck. -/

def flockText : String :=
  "[\"module\",[[[\"copyright\",\x7b\"text\":\"\"\x7d]," ++
  "[\"license\",\x7b\"text\":\"\"\x7d]," ++
  "[\"class\",[\"Die\",[],false,[[\"method\",[\"roll\",[],[\"num\",null],false,false,false," ++
  "[[\"return\",\x7b\"value\":[\"random\",null]\x7d]]]]]]]," ++
  "[\"class\",[\"Bird\",[],false,[[\"field\",[\"die\",[\"named\",\x7b\"path\":[\"Die\"]\x7d]," ++
  "[\"new\",\x7b\"ty\":[\"named\",\x7b\"path\":[\"Die\"]\x7d]\x7d]]]]]]," ++
  "[\"class\",[\"Crest\",[[\"Bird\"]],false,[[\"field\",[\"luck\",[\"num\",null]," ++
  "[\"call\",\x7b\"object\":[\"field\",\x7b\"object\":[\"this\",null],\"name\":\"die\"\x7d]," ++
  "\"method\":\"roll\"\x7d]]]]]]]]]"

def flockTree : ModuleTree where
  declarations := [.copyright "" {}, .license "" {},
    .cls {
      name := "Die"
      members := [.method {
        name := "roll", ret := .num, body := [.return (some (.mk none .random)) {}] }] },
    .cls {
      name := "Bird"
      members := [.field {
        name := "die", ty := .named ["Die"], init := some (.mk none (.new (.named ["Die"]))) }] },
    .cls {
      name := "Crest"
      parents := [["Bird"]]
      members := [.field {
        name := "luck"
        ty := .num
        init := some (.mk none (.call (.mk none (.field (.mk none .this) "die")) "roll" [])) }] }]

def flockSources : Sources := Table.insert ∅ "weft:core" (.ok flockText)

set_option maxRecDepth 100000 in
theorem flock_tree : ModuleTree.ofText? flockText = some flockTree := by
  unfold ModuleTree.ofText? Json.ofText? flockText
  simp only [String.toList_append]
  cbv

/-- What the bird wears, which entities there are, and the tick of the stream of the bird's die. -/
structure Plumage where
  worn : Option (List ClassId)
  cells : List (Id × EntityKind)
  tick : Option (Option Nat)
deriving DecidableEq

def plumage (machine : Machine) : Plumage where
  worn := (machine.heap.object? ⟨0, ⟨0⟩⟩).map Object.worn
  cells := machine.heap.outline.cells
  tick := (machine.heap.object? ⟨1, ⟨1⟩⟩).map fun die => die.random.tick

set_option maxRecDepth 100000 in
theorem first_crest :
    ((firstObject? flockSources flockTree 20 ⟨1⟩).bind fun (ref, bird) =>
      (reached? (extend 20 ref ⟨2⟩) bird).bind fun (_, crested) =>
        (reached? (retract 20 ref ⟨2⟩) crested).map fun (_, last) =>
          (ref.address, ref.id, [bird, crested, last].map plumage)) =
    some (0, ⟨0⟩, [
      ⟨some [⟨1⟩], [(⟨0⟩, .object), (⟨1⟩, .object)], some none⟩,
      ⟨some [⟨1⟩, ⟨2⟩], [(⟨0⟩, .object), (⟨1⟩, .object)], some (some 0)⟩,
      ⟨some [⟨1⟩], [(⟨0⟩, .object), (⟨1⟩, .object)], some (some 0)⟩]) := by
  decide +kernel

/-- A bird that gets a crest and loses it again. -/
structure Moults (workspace : Workspace) (bird : Ref) (object : Object) (crested last : Machine) :
    Prop where
  reachable : Reachable {} flockSources workspace
  knows : workspace.machine.Knows (.object bird)
  made : workspace.machine.heap.object? bird = some object
  worn : object.worn = [⟨1⟩]
  complete : object.Complete workspace.machine.classes
  extended : extend 20 bird ⟨2⟩ workspace.machine = .ok ⟨⟩ crested
  retracted : retract 20 bird ⟨2⟩ crested = .ok ⟨⟩ last
  address : bird.address = 0
  /-- The stream of the die has not begun. -/
  before : ∃ die, workspace.machine.heap.object? ⟨1, ⟨1⟩⟩ = some die ∧ die.random.tick = none
  /-- The stream of the die has begun. -/
  after : ∃ die, last.heap.object? ⟨1, ⟨1⟩⟩ = some die ∧ die.random.tick = some 0

theorem Moults.occurs {bird : Ref} {crested last : Machine}
    (h : Moults workspace bird object crested last) :
    workspace.Occurs (.extend 20 bird ⟨2⟩) workspace.machine :=
  ⟨.extend 20 bird ⟨2⟩, 0, h.knows, .itself⟩

theorem bird_moults : ∃ workspace bird object crested last,
    Moults workspace bird object crested last := by
  obtain ⟨⟨ref, bird⟩, hbird, hrest⟩ := Option.bind_eq_some_iff.mp first_crest
  obtain ⟨⟨⟨⟩, crested⟩, hcrested, hrest⟩ := Option.bind_eq_some_iff.mp hrest
  obtain ⟨⟨⟨⟩, last⟩, hlast, hplumage⟩ := Option.map_eq_some_iff.mp hrest
  simp only [List.map_cons, List.map_nil, plumage, Prod.mk.injEq, List.cons.injEq, Plumage.mk.injEq,
    and_true] at hplumage
  obtain ⟨haddress, hid, ⟨hworn, hcells, hbefore⟩, -, -, -, hafter⟩ := hplumage
  obtain ⟨workspace, hreachable, -, hrun⟩ := reachable_imported rfl flock_tree rfl hbird
  have href : ref = ⟨0, ⟨0⟩⟩ := by
    cases ref
    cases haddress
    cases hid
    rfl
  subst href
  obtain ⟨object, hobject, hworn⟩ := Option.map_eq_some_iff.mp hworn
  obtain ⟨found, hfound, hcomplete⟩ := (hreachable.sound.instantiate_completes 20 ⟨1⟩).of_ok hrun
  obtain rfl := Option.some.inj (hobject.symm.trans hfound)
  refine ⟨{ workspace with machine := bird }, ⟨0, ⟨0⟩⟩, object, crested, last,
    .answered hreachable (.instantiate 20 ⟨1⟩) hrun, ?_, hobject, hworn, hcomplete,
    reached?_eq_some.mp hcrested, reached?_eq_some.mp hlast, rfl, Option.map_eq_some_iff.mp hbefore,
    Option.map_eq_some_iff.mp hafter⟩
  show bird.heap.outline.cells[0]? = some (⟨0⟩, .object)
  rw [hcells]
  rfl

/-- The die has moved on in its random stream. -/
theorem streams_move : ¬∀ (workspace : Workspace) (steps more : Nat) (ref : Ref) (cls : ClassId)
    (machine after : Machine) (object : Object), Reachable {} flockSources workspace →
    workspace.Occurs (.extend steps ref cls) machine → machine.heap.object? ref = some object →
    object.Complete machine.classes → cls ∉ object.worn →
    extend steps ref cls machine = .ok ⟨⟩ after →
    ∃ last, retract (more + 3) ref cls after = .ok ⟨⟩ last ∧
      ∀ (other : Ref) (stored : Object), other.address ≠ ref.address →
        machine.heap.object? other = some stored → last.heap.object? other = some stored := by
  intro hclaim
  obtain ⟨workspace, bird, object, crested, last, h⟩ := bird_moults
  have hnew : (⟨2⟩ : ClassId) ∉ object.worn := by
    rw [h.worn]
    decide
  obtain ⟨after, hafter, hsame⟩ := hclaim workspace 20 17 bird ⟨2⟩ workspace.machine crested object
    h.reachable h.occurs h.made h.complete hnew h.extended
  obtain rfl : last = after := by
    have hresult := h.retracted.symm.trans hafter
    cases hresult
    rfl
  obtain ⟨die, hdie, htick⟩ := h.before
  obtain ⟨die', hdie', htick'⟩ := h.after
  have hother := hsame ⟨1, ⟨1⟩⟩ die (by rw [h.address]; decide) hdie
  obtain rfl := Option.some.inj (hdie'.symm.trans hother)
  rw [htick] at htick'
  cases htick'

theorem moult_undone : ∃ workspace bird object crested last,
    Moults workspace bird object crested last ∧ ∃ restored object',
      retract 20 bird ⟨2⟩ crested = .ok ⟨⟩ restored ∧ restored.heap.object? bird = some object' ∧
      object'.worn = [⟨1⟩] ∧ object'.fields = object.fields ∧
      workspace.machine.Spares (· = bird.address) restored := by
  obtain ⟨workspace, bird, object, crested, last, h⟩ := bird_moults
  have hnew : (⟨2⟩ : ClassId) ∉ object.worn := by
    rw [h.worn]
    decide
  obtain ⟨restored, object', hrun, hobject', hworn, -, -, -, hfields, hspares⟩ :=
    retract_undoes_extend h.reachable h.occurs h.made h.complete hnew h.extended 17
  exact ⟨workspace, bird, object, crested, last, h, restored, object', hrun, hobject',
    hworn.trans h.worn, hfields, hspares⟩

end Workspace

end Attire

import Attire.Proofs.Machine.Ordinary
import Attire.Proofs.Runs.Safety
import Attire.Proofs.Snapshot.Phases

namespace Attire

open Machine

/-! Restoring keeps machines sound, whatever the snapshot holds and also when it fails. -/

namespace Footing

variable {footing : Footing} {stage next : Stage} {machine : Machine}

/-- The shells of a snapshot are entities that there are, and that may be written to. -/
def Holds (footing : Footing) (outline : Outline) (shells : Restore.Shells) : Prop :=
  ∀ entry ∈ shells.entries, outline.Names entry.2 ∧
    ∀ ref, entry.2.ref? = some ref → footing.floor ≤ ref.address

theorem Holds.mono {outline outline' : Outline} {shells : Restore.Shells} (hle : outline ≤ outline')
    (h : footing.Holds outline shells) : footing.Holds outline' shells :=
  fun entry hmem => ⟨(h entry hmem).1.mono hle, (h entry hmem).2⟩

theorem Holds.floor_le {outline : Outline} {shells : Restore.Shells} {id : String} {ref : Ref}
    (h : footing.Holds outline shells) (href : Restore.refOf? shells id = some ref) :
    footing.floor ≤ ref.address := by
  obtain ⟨entity, hentity, href⟩ := Option.bind_eq_some_iff.mp href
  exact (h (id, entity) (Table.mem_of_get? hentity)).2 ref href

theorem safe_fault {α : Type} (hfits : footing.Fits stage machine) {fault : SnapshotFault}
    {post : Stage → Machine → α → Prop} :
    footing.regime.lenient.Safe stage (Restore.fault fault) machine post :=
  Regime.Safe.fail hfits trivial

theorem safe_parseId (hfits : footing.Fits stage machine) {text : String} :
    footing.regime.lenient.Safe stage (Restore.parseId text) machine fun _ _ _ => True := by
  unfold Restore.parseId
  split
  case h_1 => exact Regime.Safe.pure hfits trivial
  case h_2 => exact safe_fault hfits

theorem safe_findClass (hnamed : footing.classes.Named) (hfits : footing.Fits stage machine)
    {name : String} :
    footing.regime.lenient.Safe stage (Restore.findClass name) machine
      fun _ _ cls => footing.classes.contains cls := by
  unfold Restore.findClass
  refine Regime.Safe.bind_get ?_
  rw [hfits.sound.registry]
  split
  case h_1 id hfind =>
    obtain ⟨found, hfound, -⟩ := hnamed name id hfind
    exact Regime.Safe.pure hfits (ClassRegistry.contains_iff.mpr ⟨found, hfound⟩)
  case h_2 => exact safe_fault hfits

theorem known_of_names {classes : ClassRegistry} {outline : Outline} {value : Value}
    (h : outline.Names value) : value.Known classes outline := by
  cases value <;> first | exact h | cases h

mutual

theorem safe_value (hnamed : footing.classes.Named) {shells : Restore.Shells} :
    ∀ (content : SnapValue) {stage : Stage} {machine : Machine}, footing.Fits stage machine →
      footing.Holds stage.outline shells →
      footing.regime.lenient.Safe stage (Restore.value shells content) machine
        fun next _ answer => answer.Known footing.classes next.outline
  | .null, _, _, hfits, _ | .num _, _, _, hfits, _ | .bool _, _, _, hfits, _
  | .text _, _, _, hfits, _ => Regime.Safe.pure hfits trivial
  | .ref id, stage, machine, hfits, hshells => by
    unfold Restore.value
    split
    case h_1 entity hentity =>
      exact Regime.Safe.pure hfits (known_of_names (hshells _ (Table.mem_of_get? hentity)).1)
    case h_2 => exact safe_fault hfits
  | .tuple items, _, _, hfits, hshells =>
    Regime.Safe.map (safe_values hnamed items hfits hshells |>.mono fun _ _ _ _ _ h =>
      Value.allWithin_iff.mpr h)
  | .suggestion steps, _, _, hfits, hshells =>
    Regime.Safe.bind (safe_stepsOf hnamed steps hfits hshells) fun world _ _ _ hfits h =>
      Regime.Safe.modifyGet (le_refl world) (hfits.congr rfl rfl rfl rfl rfl rfl)
        (Step.allWithin_iff.mpr h)

theorem safe_values (hnamed : footing.classes.Named) {shells : Restore.Shells} :
    ∀ (contents : List SnapValue) {stage : Stage} {machine : Machine}, footing.Fits stage machine →
      footing.Holds stage.outline shells →
      footing.regime.lenient.Safe stage (Restore.values shells contents) machine
        fun next _ answers => ∀ answer ∈ answers, answer.Known footing.classes next.outline
  | [], _, _, hfits, _ => Regime.Safe.pure hfits (List.forall_mem_nil _)
  | content :: rest, stage, machine, hfits, hshells => by
    unfold Restore.values
    refine Regime.Safe.bind (safe_value hnamed content hfits hshells) ?_
    intro stage' machine' value hle hfits' hvalue
    refine Regime.Safe.bind (safe_values hnamed rest hfits' (hshells.mono hle.2)) ?_
    intro stage'' machine'' values hle' hfits'' hvalues
    refine Regime.Safe.pure hfits'' fun answer hmem => ?_
    rcases List.mem_cons.mp hmem with rfl | hmem
    · exact hvalue.mono hle'.2
    · exact hvalues answer hmem

theorem safe_step (hnamed : footing.classes.Named) {shells : Restore.Shells} :
    ∀ (content : SnapStep) {stage : Stage} {machine : Machine}, footing.Fits stage machine →
      footing.Holds stage.outline shells →
      footing.regime.lenient.Safe stage (Restore.step shells content) machine
        fun next _ answer => answer.Within next.outline.Names fun cls => footing.classes.contains cls
  | .extend target cls, _, _, hfits, hshells | .retract target cls, _, _, hfits, hshells =>
    Regime.Safe.bind (safe_value hnamed target hfits hshells) fun _ _ _ _ hfits htarget =>
      Regime.Safe.map ((safe_findClass hnamed hfits).mono fun _ _ _ hle _ hcls =>
        ⟨hcls, htarget.mono hle.2⟩)
  | .call target caller origin method args, stage, machine, hfits, hshells => by
    unfold Restore.step
    refine Regime.Safe.bind (safe_value hnamed target hfits hshells) ?_
    intro stage₁ machine₁ target hle₁ hfits₁ htarget
    refine Regime.Safe.bind (safe_value hnamed caller hfits₁ (hshells.mono hle₁.2)) ?_
    intro stage₂ machine₂ caller hle₂ hfits₂ hcaller
    refine Regime.Safe.bind (safe_findClass hnamed hfits₂) ?_
    intro stage₃ machine₃ cls hle₃ hfits₃ _
    refine Regime.Safe.map ((safe_values hnamed args hfits₃
      (hshells.mono ((hle₁.trans hle₂).trans hle₃).2)).mono ?_)
    intro stage₄ machine₄ args hle₄ _ hargs
    exact ⟨htarget.mono ((hle₂.trans hle₃).trans hle₄).2, hcaller.mono (hle₃.trans hle₄).2,
      Value.allWithin_iff.mpr hargs⟩

theorem safe_stepsOf (hnamed : footing.classes.Named) {shells : Restore.Shells} :
    ∀ (contents : List SnapStep) {stage : Stage} {machine : Machine}, footing.Fits stage machine →
      footing.Holds stage.outline shells →
      footing.regime.lenient.Safe stage (Restore.stepsOf shells contents) machine
        fun next _ answers => ∀ answer ∈ answers,
          answer.Within next.outline.Names fun cls => footing.classes.contains cls
  | [], _, _, hfits, _ => Regime.Safe.pure hfits nofun
  | content :: rest, stage, machine, hfits, hshells => by
    unfold Restore.stepsOf
    refine Regime.Safe.bind (safe_step hnamed content hfits hshells) ?_
    intro stage' machine' step hle hfits' hstep
    refine Regime.Safe.bind (safe_stepsOf hnamed rest hfits' (hshells.mono hle.2)) ?_
    intro stage'' machine'' steps hle' hfits'' hsteps
    refine Regime.Safe.pure hfits'' fun answer hmem => ?_
    rcases List.mem_cons.mp hmem with rfl | hmem
    · exact hstep.imp (fun _ => Outline.Names.mono hle'.2) fun _ h => h
    · exact hsteps answer hmem

end

theorem safe_addShell (hfits : footing.Fits stage machine) {shells : Restore.Shells}
    (hshells : footing.Holds stage.outline shells) {id : String} {entity : Value}
    (hentity : stage.outline.Names entity)
    (hfloor : ∀ ref, entity.ref? = some ref → footing.floor ≤ ref.address) :
    footing.regime.lenient.Safe stage (Restore.addShell shells id entity) machine
      fun next _ answer => footing.Holds next.outline answer := by
  unfold Restore.addShell
  split
  case isTrue => exact safe_fault hfits
  case isFalse =>
    refine Regime.Safe.pure hfits fun entry hmem => ?_
    rcases Table.mem_insert hmem with rfl | hmem
    · exact ⟨hentity, hfloor⟩
    · exact hshells entry hmem

theorem safe_objectShell (hnamed : footing.classes.Named) (hfits : footing.Fits stage machine)
    {id : String} {object : SnapObject} :
    footing.regime.lenient.Safe stage (Restore.objectShell id object) machine
      fun next _ ref => next.outline.Names (.object ref) ∧ footing.floor ≤ ref.address := by
  unfold Restore.objectShell
  refine Regime.Safe.bind (safe_parseId hfits) ?_
  intro stage₁ machine₁ fresh _ hfits₁ _
  refine Regime.Safe.bind (Regime.Safe.mapM (fun _ cls => footing.classes.contains cls)
    (fun _ h => h) hfits₁ fun _ _ _ _ _ hfits => safe_findClass hnamed hfits) ?_
  intro stage₂ machine₂ worn _ hfits₂ hworn
  exact (safe_allocObject hfits₂ fresh hworn).lenient.mono fun _ _ _ _ _ h => ⟨h.1, h.2.2⟩

theorem safe_containerShells {α : Type} (empty : Entity) (make : Ref → Value)
    (hempty : ∀ outline, empty.Sound footing.classes outline)
    (hmake : ∀ (outline : Outline) (ref : Ref),
      outline.cells[ref.address]? = some (ref.id, empty.kind) → outline.Names (make ref))
    (href : ∀ ref, (make ref).ref? = some ref)
    {table : Ordered String α} {shells : Restore.Shells} (hfits : footing.Fits stage machine)
    (hshells : footing.Holds stage.outline shells) :
    footing.regime.lenient.Safe stage (Restore.containerShells empty make table shells) machine
      fun next _ answer => footing.Holds next.outline answer := by
  refine Regime.Safe.foldlM
    (motive := fun (stage : Stage) shells => footing.Holds stage.outline shells) hfits hshells ?_
  intro id _ shells stage machine _ hfits hshells
  refine Regime.Safe.bind (safe_parseId hfits) ?_
  intro stage₁ machine₁ fresh hle₁ hfits₁ _
  obtain ⟨hle₂, hfits₂, hcell⟩ := hfits₁.alloc fresh (hempty stage₁.outline)
  have halloc : footing.regime.lenient.Safe stage₁ (Machine.alloc fresh empty) machine₁
      fun next _ ref => next.outline.Names (make ref) ∧ footing.floor ≤ ref.address :=
    Regime.Safe.modifyGet hle₂ hfits₂ ⟨hmake _ _ hcell, hfits₁.floor_le⟩
  refine Regime.Safe.bind halloc ?_
  rintro stage₃ machine₃ ref hle₃ hfits₃ ⟨hnames, hfloor⟩
  refine safe_addShell hfits₃ (hshells.mono (hle₁.trans hle₃).2) hnames fun other hother => ?_
  obtain rfl := Option.some.inj ((href ref).symm.trans hother)
  exact hfloor

theorem hasField_of_ownFieldKey (hfits : footing.Fits stage machine) {cls : ClassId}
    {name : String} {key : FieldKey}
    (h : ((machine.classes.get? cls).bind fun found => found.ownFieldKey? name) = some key) :
    footing.classes.HasField key ∧ key.owner = cls := by
  obtain ⟨found, hfound, hkey⟩ := Option.bind_eq_some_iff.mp h
  obtain ⟨index, hindex, rfl⟩ := Option.map_eq_some_iff.mp hkey
  rw [hfits.sound.registry] at hfound
  have hid := footing.backed.composed.id hfound
  have hlt := (List.findIdx?_eq_some_iff_getElem.mp hindex).1
  exact ⟨⟨found, hid ▸ hfound, hlt⟩, hid⟩

theorem safe_fillField (hnamed : footing.classes.Named) (hfits : footing.Fits stage machine)
    {shells : Restore.Shells} (hshells : footing.Holds stage.outline shells) {ref : Ref}
    (hfloor : footing.floor ≤ ref.address) {key : String} {content : SnapValue} :
    footing.regime.lenient.Safe stage (Restore.fillField shells ref key content) machine
      fun _ _ _ => True := by
  unfold Restore.fillField
  split
  case h_2 => exact safe_fault hfits
  case h_1 name fieldName _ =>
    refine Regime.Safe.bind (safe_findClass hnamed hfits) ?_
    intro stage₁ machine₁ cls hle₁ hfits₁ _
    refine Regime.Safe.bind_get ?_
    split
    case h_2 => exact safe_fault hfits₁
    case h_1 field hfield =>
      obtain ⟨hkey, howner⟩ := hasField_of_ownFieldKey hfits₁ hfield
      refine Regime.Safe.bind (safe_value hnamed content hfits₁ (hshells.mono hle₁.2)) ?_
      intro stage₂ machine₂ value _ hfits₂ hvalue
      refine (safe_onHeap (hfits₂.store hfloor
        (footing.backed.store.mpr hkey) (admits_iff.mpr hvalue) fun object => ?_)).lenient
      split
      case isTrue hembodies => exact .inr ⟨howner ▸ hembodies, rfl⟩
      case isFalse => exact .inl rfl

theorem safe_fillArray (hnamed : footing.classes.Named) (hfits : footing.Fits stage machine)
    {shells : Restore.Shells} (hshells : footing.Holds stage.outline shells)
    {id : String} {items : List SnapValue} :
    footing.regime.lenient.Safe stage (Restore.fillArray shells id items) machine
      fun _ _ _ => True := by
  unfold Restore.fillArray
  refine Regime.Safe.bind (safe_values hnamed items hfits hshells) ?_
  intro stage' machine' values _ hfits' hvalues
  split
  case h_1 ref href =>
    refine (safe_onHeap (hfits'.modify (hshells.floor_le href)
      (hfits'.sound.modifyArray fun _ _ item hmem => ?_))).lenient
    exact hvalues item (by simpa using hmem)
  case h_2 => exact Regime.Safe.pure hfits' trivial

theorem safe_fillMap (hnamed : footing.classes.Named) (hfits : footing.Fits stage machine)
    {shells : Restore.Shells} (hshells : footing.Holds stage.outline shells)
    {id : String} {entries : List (SnapValue × SnapValue)} :
    footing.regime.lenient.Safe stage (Restore.fillMap shells id entries) machine
      fun _ _ _ => True := by
  unfold Restore.fillMap
  refine Regime.Safe.bind (Regime.Safe.mapM (fun (stage : Stage) (entry : MapKey × Value × Value) =>
    entry.1 = MapKey.ofValue entry.2.1 ∧ entry.2.1.Known footing.classes stage.outline ∧
      entry.2.2.Known footing.classes stage.outline)
    (@fun _ _ _ (hle : (_ : Stage) ≤ _) h => ⟨h.1, h.2.1.mono hle.2, h.2.2.mono hle.2⟩) hfits ?_) ?_
  · rintro ⟨key, item⟩ - stage₁ machine₁ hle₁ hfits₁
    refine Regime.Safe.bind (safe_value hnamed key hfits₁ (hshells.mono hle₁.2)) ?_
    intro stage₂ machine₂ key hle₂ hfits₂ hkey
    refine Regime.Safe.bind (safe_value hnamed item hfits₂ (hshells.mono (hle₁.trans hle₂).2)) ?_
    intro stage₃ machine₃ item hle₃ hfits₃ hitem
    exact Regime.Safe.pure hfits₃ ⟨rfl, hkey.mono hle₃.2, hitem⟩
  intro stage' machine' pairs _ hfits' hpairs
  split
  case h_1 ref href =>
    refine (safe_onHeap (hfits'.modify (hshells.floor_le href)
      (hfits'.sound.modifyMap fun _ _ => ?_))).lenient
    exact Entity.sound_map (Ordered.ofList_sorted pairs)
      (fun entry hmem => (hpairs entry (Ordered.mem_ofList hmem)).1)
      fun entry hmem => (hpairs entry (Ordered.mem_ofList hmem)).2
  case h_2 => exact Regime.Safe.pure hfits' trivial

theorem safe_fillSet (hnamed : footing.classes.Named) (hfits : footing.Fits stage machine)
    {shells : Restore.Shells} (hshells : footing.Holds stage.outline shells)
    {id : String} {items : List SnapValue} :
    footing.regime.lenient.Safe stage (Restore.fillSet shells id items) machine
      fun _ _ _ => True := by
  unfold Restore.fillSet
  refine Regime.Safe.bind (safe_values hnamed items hfits hshells) ?_
  intro stage' machine' values _ hfits' hvalues
  have hentries : ∀ entry ∈ values.map fun item => (MapKey.ofValue item, item),
      entry.1 = MapKey.ofValue entry.2 ∧ entry.2.Known footing.classes stage'.outline := by
    intro entry hmem
    obtain ⟨item, hitem, rfl⟩ := List.mem_map.mp hmem
    exact ⟨rfl, hvalues item hitem⟩
  split
  case h_1 ref href =>
    refine (safe_onHeap (hfits'.modify (hshells.floor_le href)
      (hfits'.sound.modifySet fun _ _ => ?_))).lenient
    exact Entity.sound_set (Ordered.ofList_sorted _)
      (fun entry hmem => (hentries entry (Ordered.mem_ofList hmem)).1)
      fun entry hmem => (hentries entry (Ordered.mem_ofList hmem)).2
  case h_2 => exact Regime.Safe.pure hfits' trivial

/-- The shells that were made, and the objects among them. -/
def Stocks (footing : Footing) (outline : Outline)
    (made : Restore.Shells × List (Ref × SnapObject)) : Prop :=
  footing.Holds outline made.1 ∧
    ∀ entry ∈ made.2, outline.Names (.object entry.1) ∧ footing.floor ≤ entry.1.address

theorem safe_objectShells (hnamed : footing.classes.Named) (hfits : footing.Fits stage machine)
    (objects : Ordered String SnapObject) :
    footing.regime.lenient.Safe stage (Restore.objectShells objects) machine
      fun next _ made => footing.Stocks next.outline made := by
  refine Regime.Safe.foldlM
    (motive := fun (stage : Stage) made => footing.Stocks stage.outline made) hfits
    ⟨nofun, nofun⟩ ?_
  rintro ⟨id, object⟩ - ⟨shells, objects⟩ stage₁ machine₁ _ hfits₁ ⟨hshells, hobjects⟩
  refine Regime.Safe.bind (safe_objectShell hnamed hfits₁) ?_
  rintro stage₂ machine₂ ref hle₂ hfits₂ ⟨href, hfloor⟩
  refine Regime.Safe.bind (safe_addShell hfits₂ (hshells.mono hle₂.2) href ?_) ?_
  · rintro other hother
    obtain rfl := Option.some.inj hother
    exact hfloor
  intro stage₃ machine₃ shells hle₃ hfits₃ hshells
  refine Regime.Safe.pure hfits₃ ⟨hshells, fun entry hmem => ?_⟩
  rcases List.mem_append.mp hmem with hmem | hmem
  · exact ⟨(hobjects entry hmem).1.mono (hle₂.trans hle₃).2, (hobjects entry hmem).2⟩
  · obtain rfl := List.mem_singleton.mp hmem
    exact ⟨href.mono hle₃.2, hfloor⟩

theorem safe_stock (hnamed : footing.classes.Named) (hfits : footing.Fits stage machine)
    (snapshot : Snapshot) :
    footing.regime.lenient.Safe stage (Restore.stock snapshot) machine
      fun next _ made => footing.Stocks next.outline made := by
  unfold Restore.stock
  refine Regime.Safe.bind (safe_objectShells hnamed hfits snapshot.objects) ?_
  rintro stage₁ machine₁ ⟨shells, objects⟩ - hfits₁ ⟨hshells, hobjects⟩
  refine Regime.Safe.bind (safe_containerShells (.array #[]) .array
    (fun _ => Entity.sound_array (by simp)) (fun _ _ h => h) (fun _ => rfl) hfits₁ hshells) ?_
  intro stage₂ machine₂ shells hle₂ hfits₂ hshells
  refine Regime.Safe.bind (safe_containerShells (.map ∅) .map
    (fun _ => Entity.sound_map .nil nofun nofun) (fun _ _ h => h) (fun _ => rfl) hfits₂ hshells) ?_
  intro stage₃ machine₃ shells hle₃ hfits₃ hshells
  refine Regime.Safe.bind (safe_containerShells (.set ∅) .set
    (fun _ => Entity.sound_set .nil nofun nofun) (fun _ _ h => h) (fun _ => rfl) hfits₃ hshells) ?_
  intro stage₄ machine₄ shells hle₄ hfits₄ hshells
  exact Regime.Safe.pure hfits₄ ⟨hshells, fun entry hmem =>
    ⟨(hobjects entry hmem).1.mono ((hle₂.trans hle₃).trans hle₄).2, (hobjects entry hmem).2⟩⟩

theorem safe_fill (hnamed : footing.classes.Named) (hfits : footing.Fits stage machine)
    {shells : Restore.Shells} (hshells : footing.Holds stage.outline shells)
    {objects : List (Ref × SnapObject)}
    (hfloor : ∀ entry ∈ objects, footing.floor ≤ entry.1.address) (snapshot : Snapshot) :
    footing.regime.lenient.Safe stage (Restore.fill shells objects snapshot) machine
      fun _ _ _ => True := by
  unfold Restore.fill
  refine Regime.Safe.bind (Regime.Safe.forM hfits ?_) ?_
  · rintro ⟨ref, object⟩ hmem stage₁ machine₁ hle₁ hfits₁
    refine Regime.Safe.forM hfits₁ ?_
    rintro ⟨key, content⟩ - stage₂ machine₂ hle₂ hfits₂
    exact safe_fillField hnamed hfits₂ (hshells.mono (hle₁.trans hle₂).2) (hfloor _ hmem)
  intro stage₁ machine₁ _ hle₁ hfits₁ _
  refine Regime.Safe.bind (Regime.Safe.forM hfits₁ fun _ _ _ _ hle hfits =>
    safe_fillArray hnamed hfits (hshells.mono (hle₁.trans hle).2)) ?_
  intro stage₂ machine₂ _ hle₂ hfits₂ _
  refine Regime.Safe.bind (Regime.Safe.forM hfits₂ fun _ _ _ _ hle hfits =>
    safe_fillMap hnamed hfits (hshells.mono ((hle₁.trans hle₂).trans hle).2)) ?_
  intro stage₃ machine₃ _ hle₃ hfits₃ _
  exact Regime.Safe.forM hfits₃ fun _ _ _ _ hle hfits =>
    safe_fillSet hnamed hfits (hshells.mono (((hle₁.trans hle₂).trans hle₃).trans hle).2)

theorem safe_missing (hfits : footing.Fits stage machine) (steps : Nat)
    {objects : List (Ref × SnapObject)} (hobjects : ∀ entry ∈ objects,
      stage.outline.Names (.object entry.1) ∧ footing.floor ≤ entry.1.address) :
    footing.regime.lenient.Safe stage
      (objects.forM fun (ref, _) => initializeMissing steps ref) machine fun _ _ _ => True := by
  refine Regime.Safe.forM hfits ?_
  rintro ⟨ref, object⟩ hmem stage machine hle hfits
  obtain ⟨hnames, hwritable⟩ := hobjects _ hmem
  exact ((footing.discipline.keeps steps).initializeMissing hfits hwritable
    (hnames.mono hle.2)).lenient

/-- Restoring keeps the machine sound, also when it fails. -/
theorem safe_restore (hnamed : footing.classes.Named) (hfits : footing.Fits stage machine)
    (steps : Nat) (snapshot : Snapshot) :
    footing.regime.lenient.Safe stage (Machine.restore steps snapshot) machine
      fun next _ root => root.Known footing.classes next.outline := by
  rw [restore_eq]
  refine Regime.Safe.bind (safe_stock hnamed hfits snapshot) ?_
  rintro stage₁ machine₁ ⟨shells, objects⟩ - hfits₁ ⟨hshells, hobjects⟩
  refine Regime.Safe.bind (safe_fill hnamed hfits₁ hshells
    (fun entry hmem => (hobjects entry hmem).2) snapshot) ?_
  intro stage₂ machine₂ _ hle₂ hfits₂ _
  refine Regime.Safe.bind (safe_value hnamed snapshot.root hfits₂ (hshells.mono hle₂.2)) ?_
  intro stage₃ machine₃ root hle₃ hfits₃ hroot
  refine Regime.Safe.bind (safe_missing hfits₃ steps fun entry hmem =>
    ⟨(hobjects entry hmem).1.mono (hle₂.trans hle₃).2, (hobjects entry hmem).2⟩) ?_
  intro stage₄ machine₄ _ hle₄ hfits₄ _
  refine Regime.Safe.bind (Regime.Safe.forM hfits₄ fun ref _ stage machine _ hfits => ?_) ?_
  · exact Regime.Safe.modifyGet (le_refl stage) (hfits.congr rfl rfl rfl rfl rfl rfl) trivial
  intro stage₅ machine₅ _ hle₅ hfits₅ _
  exact Regime.Safe.pure hfits₅ (hroot.mono (hle₄.trans hle₅).2)

end Footing

end Attire

import Attire.Snapshot.Restore

namespace Attire

/-! A rebuild makes shells of all entities first, so that what is filled into them may mention any of
them. -/

namespace Restore

def objectShells (objects : Ordered String SnapObject) :
    Run (Shells × List (Ref × SnapObject)) :=
  objects.entries.foldlM
    (fun (shells, objects) (id, object) => do
      let ref ← objectShell id object
      return (← addShell shells id (.object ref), objects ++ [(ref, object)]))
    ((∅ : Shells), ([] : List (Ref × SnapObject)))

/-- Makes all shells. -/
def stock (snapshot : Snapshot) : Run (Shells × List (Ref × SnapObject)) := do
  let (shells, objects) ← objectShells snapshot.objects
  let shells ← containerShells (.array #[]) .array snapshot.arrays shells
  let shells ← containerShells (.map ∅) .map snapshot.maps shells
  let shells ← containerShells (.set ∅) .set snapshot.sets shells
  return (shells, objects)

/-- Fills all shells. -/
def fill (shells : Shells) (objects : List (Ref × SnapObject)) (snapshot : Snapshot) :
    Run Unit := do
  objects.forM fun (ref, object) =>
    object.fields.entries.forM fun (key, content) => fillField shells ref key content
  snapshot.arrays.entries.forM fun (id, items) => fillArray shells id items
  snapshot.maps.entries.forM fun (id, entries) => fillMap shells id entries
  snapshot.sets.entries.forM fun (id, items) => fillSet shells id items

end Restore

open Restore

namespace Machine

theorem restore_eq (steps : Nat) (snapshot : Snapshot) : restore steps snapshot = do
    let (shells, objects) ← stock snapshot
    fill shells objects snapshot
    let root ← value shells snapshot.root
    objects.forM fun (ref, _) => initializeMissing steps ref
    (shells.values.filterMap Value.ref?).forM fun ref =>
      modify fun machine => { machine with odometer := machine.odometer.advancePast ref.id }
    return root := by
  unfold restore stock fill
  rw [bind_assoc]
  refine congrArg (objectShells snapshot.objects >>= ·) (funext fun (shells, objects) => ?_)
  simp only [bind_assoc, pure_bind]

end Machine

end Attire

import Attire.Proofs.Import.Loader
import Attire.Proofs.Machine.Minting

namespace Attire.Workspace

/-! What every step of an import does to a workspace, whether it succeeds or fails. -/

/-- The step leads from a workspace to a related one, also when it fails. -/
def Moves {α : Type} (relation : Workspace → Workspace → Prop) (step : Importing α) : Prop :=
  ∀ workspace, Yields step workspace (fun _ next => relation workspace next)
    fun _ next => relation workspace next

/-- Relations that the steps of an import keep to as long as they register nothing. -/
structure Steady (relation : Workspace → Workspace → Prop) : Prop where
  refl (workspace : Workspace) : relation workspace workspace
  trans {workspace next last : Workspace} : relation workspace next → relation next last →
    relation workspace last
  registries (workspace : Workspace) (classes : ClassRegistry) (tables : TableCache) :
    relation workspace { workspace with machine := { workspace.machine with classes, tables } }
  weave (workspace : Workspace) (lines : List String) :
    relation workspace { workspace with machine := { workspace.machine with
      odometer := workspace.machine.odometer.next.2
      heap := (workspace.machine.heap.alloc workspace.machine.odometer.peek
        (.array (lines.map Value.text).toArray)).2 } }

namespace Steady

variable {relation : Workspace → Workspace → Prop} {α β γ ε : Type} {step : Importing α}
variable (h : Steady relation)
include h

theorem pure (answer : α) : Moves relation (pure answer : Importing α) := h.refl

theorem throw (error : ImportError) : Moves relation (throw error : Importing α) := h.refl

theorem bind {next : α → Importing β} (hstep : Moves relation step)
    (hnext : ∀ answer, Moves relation (next answer)) : Moves relation (step >>= next) :=
  fun workspace => yields_bind.mpr ((hstep workspace).imp
    (fun answer middle hfirst => (hnext answer middle).imp (fun _ _ => h.trans hfirst)
      fun _ _ => h.trans hfirst)
    fun _ _ hfirst => hfirst)

omit h in
theorem bind_get {next : Workspace → Importing β}
    (hnext : ∀ workspace, Moves relation (next workspace)) : Moves relation (get >>= next) :=
  fun workspace => hnext workspace workspace

theorem tryCatch {handler : ImportError → Importing α} (hstep : Moves relation step)
    (hhandler : ∀ error, Moves relation (handler error)) :
    Moves relation (tryCatch step handler) :=
  fun workspace => yields_tryCatch.mpr ((hstep workspace).imp (fun _ _ hfirst => hfirst)
    fun error failed hfirst => (hhandler error failed).imp (fun _ _ => h.trans hfirst)
      fun _ _ => h.trans hfirst)

theorem foldlM {step : β → γ → Importing β}
    (hstep : ∀ current item, Moves relation (step current item)) (items : List γ) (start : β) :
    Moves relation (items.foldlM step start) := fun workspace =>
  Yields.foldlM (motive := fun _ next => relation workspace next) (h.refl _)
    fun item _ current middle hfirst => (hstep current item middle).imp
      (fun _ _ => h.trans hfirst) fun _ _ => h.trans hfirst

theorem filterMapM {step : γ → Importing (Option β)} (hstep : ∀ item, Moves relation (step item))
    (items : List γ) : Moves relation (items.filterMapM step) := fun workspace =>
  (Yields.filterMapM (motive := fun next => relation workspace next) (p := fun _ _ => True)
    (h.refl _) fun item _ middle hfirst => (hstep item middle).imp
      (fun _ _ hnext => ⟨h.trans hfirst hnext, fun _ h => h, fun _ _ => trivial⟩)
      fun _ _ => h.trans hfirst).imp (fun _ _ hnext => hnext.1) fun _ _ hnext => hnext

theorem orFail (wrap : ε → ImportError) (result : Except ε α) :
    Moves relation (orFail wrap result) := by
  cases result with
  | ok value => exact h.pure value
  | error error => exact h.throw (wrap error)

theorem onClasses (change : ClassRegistry → α × ClassRegistry) :
    Moves relation (onClasses change) :=
  fun workspace => h.registries workspace _ _

theorem moves_weave (lines : List String) : Moves relation (Workspace.weave lines) :=
  fun workspace => h.weave workspace lines

theorem declare (draft : ModuleDraft) (decl : Decl) : Moves relation (declare draft decl) := by
  unfold Workspace.declare
  split
  case h_1 cls => exact h.bind (h.onClasses _) fun _ => h.bind (h.orFail _ _) fun _ => h.pure _
  case h_2 fabric =>
    dsimp only
    split
    case isTrue =>
      exact h.bind (h.throw _) fun _ => h.bind (h.moves_weave _) fun _ =>
        h.bind (h.orFail _ _) fun _ => h.pure _
    case isFalse =>
      exact h.bind (h.moves_weave _) fun _ => h.bind (h.orFail _ _) fun _ => h.pure _
  case h_3 => exact h.pure draft

theorem complete (draft : ModuleDraft) : Moves relation (complete draft) := by
  unfold Workspace.complete
  refine bind_get fun workspace => ?_
  dsimp only
  split
  case isTrue => exact h.throw _
  case isFalse =>
    exact h.bind (h.orFail _ _) fun _ => h.bind (h.orFail _ _) fun _ =>
      h.bind (h.orFail _ _) fun _ => h.bind (h.orFail _ _) fun _ => h.onClasses _

theorem rollBack (mark : Nat) : Moves relation (rollBack mark) := by
  intro workspace
  have htruncate : ∀ count, Yields (Machine.truncateClasses count) workspace.machine
      (fun _ machine => relation workspace { workspace with machine })
      fun _ machine => relation workspace { workspace with machine } := by
    intro count
    refine yields_modify.mpr ?_
    split
    · exact h.registries workspace _ _
    · exact h.refl workspace
  refine yields_modify.mpr ?_
  dsimp only
  split
  case h_1 hrun => exact (htruncate _).of_ok hrun
  case h_2 hrun => exact (htruncate _).of_error hrun

section

variable {load : String → Importing ModuleId} (hload : ∀ url, Moves relation (load url))
include hload

theorem loadCore (options : Options) (url : String) : Moves relation (loadCore load options url) := by
  unfold Workspace.loadCore
  split
  · exact h.pure none
  · exact fun workspace => yields_map.mpr (hload _ workspace)

theorem loadImport (decl : Decl) : Moves relation (loadImport load decl) := by
  unfold Workspace.loadImport
  split
  · exact h.bind (hload _) fun _ => h.pure _
  · exact h.pure none

theorem build (url : String) (tree : ModuleTree) : Moves relation (build load url tree) := by
  unfold Workspace.build
  refine bind_get fun workspace => h.bind (h.loadCore hload _ _) fun core =>
    h.bind (h.filterMapM (h.loadImport hload) _) fun imports => bind_get fun workspace => ?_
  refine h.bind (h.foldlM (fun draft (name, id, span) => h.orFail _ _) _ _) fun draft => ?_
  exact h.bind (h.foldlM h.declare _ _) fun draft => h.bind (h.orFail _ _) fun draft =>
    h.bind (h.orFail _ _) fun draft => h.bind (h.complete _) fun _ => h.pure _

end

/-- An import keeps to a relation if the modules that it registers do. -/
theorem importBelow
    (hbuild : ∀ load url text tree notes, (∀ url, Moves relation (load url)) →
      ModuleTree.ofText? text = some tree → ∀ workspace : Workspace,
      workspace.sources.fetch url = .ok text → Yields (Workspace.build load url tree) workspace
        (fun draft next => relation workspace { next with
          modules := (next.modules.register (draft.seal url text notes)).2 })
        fun _ next => relation workspace next)
    (steps : Nat) (chain : List String) (url : String) :
    Moves relation (importBelow steps chain url) := by
  induction steps generalizing chain url with
  | zero => exact h.throw _
  | succ steps ih =>
    intro workspace
    unfold Workspace.importBelow
    refine yields_bind.mpr (yields_get.mpr ?_)
    split
    case h_1 => exact h.refl _
    case h_2 =>
      split
      case isTrue => exact h.refl _
      case isFalse =>
        refine yields_bind.mpr (yields_orFail (fun text hfetch => ?_) fun _ _ => h.refl _)
        split
        case h_2 => exact h.refl _
        case h_1 tree htree =>
          refine yields_bind.mpr (yields_orFail (fun notes _ => ?_) fun _ _ => h.refl _)
          have hbuilt := hbuild (Workspace.importBelow steps (chain ++ [url])) url text tree notes
            (ih _) htree workspace hfetch
          refine yields_bind.mpr (yields_tryCatch.mpr (hbuilt.imp ?_ ?_))
          · exact fun _ _ hnext => hnext
          · intro error failed hfailed
            exact yields_bind.mpr ((h.rollBack _ failed).imp (fun _ _ => h.trans hfailed)
              fun _ _ => h.trans hfailed)

end Steady

end Attire.Workspace

namespace Attire

namespace Workspace

/-! Imports mint identifiers for the fabrics of modules, and leave the rest of the heap alone. -/

/-- The step makes nothing but what it mints an identifier for, also when it fails. -/
def Minting {α : Type} (step : Importing α) : Prop :=
  ∀ workspace, Yields step workspace (fun _ next => workspace.machine.Mints next.machine)
    fun _ next => workspace.machine.Mints next.machine

theorem mints_steady : Steady fun workspace next => workspace.machine.Mints next.machine where
  refl workspace := .refl workspace.machine
  trans := .trans
  registries workspace _ _ := (Machine.Mints.refl workspace.machine).congr rfl rfl
  weave workspace _ := (Machine.Mints.refl workspace.machine).create _

theorem Minting.importModule (url : String) : Minting (importModule url) :=
  Steady.bind_get fun _ => mints_steady.importBelow
    (fun _ url _ tree _ hload _ workspace _ => mints_steady.build hload url tree workspace) _ _ _

end Workspace

end Attire

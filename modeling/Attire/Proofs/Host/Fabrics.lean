import Attire.Proofs.Host.Initializers
import Attire.Proofs.Host.Lookup
import Attire.Proofs.Import.Weaving

namespace Attire

open Machine

/-! Fabrics hold the lines that are declared for them. -/

/-- What a statement writes to. -/
def Stmt.written? : Stmt → Option Expr
  | .assign target _ _ | .compound _ target _ _ => some target
  | _ => none

namespace CheckContext

variable {ctx : CheckContext}

/-- The chain of members that leads to the location starts at the name of a fabric. -/
inductive FromFabric (ctx : CheckContext) : Expr → Prop
  | name {note : Option Note} {path : Path} {id : FabricId} : ctx.localOfPath? path = none →
    note.bind Note.meaning = some (.fabric id) → FromFabric ctx (.mk note (.name path))
  | field {note : Option Note} {object : Expr} {name : String} : FromFabric ctx object →
    FromFabric ctx (.mk note (.field object name))
  | index {note : Option Note} {object index : Expr} : FromFabric ctx object →
    FromFabric ctx (.mk note (.index object index))

theorem FromFabric.root {target : Expr} (h : ctx.FromFabric target) :
    ∃ name, (ctx.placeOf target).root = .fabric name := by
  induction h with
  | @name note path id hlocal hmeaning => exact ⟨path.text, by simp [placeOf, hlocal, hmeaning]⟩
  | field _ ih =>
    obtain ⟨name, hroot⟩ := ih
    exact ⟨name, by simpa [placeOf] using hroot⟩
  | index _ ih =>
    obtain ⟨name, hroot⟩ := ih
    exact ⟨name, by simpa [placeOf] using hroot⟩

theorem FromFabric.requireWrite_ne {target : Expr} (h : ctx.FromFabric target) (primitive : Bool)
    (action : String) : ctx.requireWrite (ctx.placeOf target) primitive action ≠ .ok () := by
  obtain ⟨name, hroot⟩ := h.root
  simp [requireWrite, hroot]

theorem FromFabric.checkWrite_ne {target : Expr} (h : ctx.FromFabric target) (verb : String) :
    ctx.checkWrite target verb ≠ .ok () := by
  cases h with
  | name hlocal hmeaning =>
    simp [checkWrite, Expr.form, placeOf, hlocal, hmeaning]
  | field hobject =>
    exact (FromFabric.field hobject).requireWrite_ne _ _
  | index hobject => exact hobject.requireWrite_ne _ _

/-- No checked statement writes where a chain leads that starts at the name of a fabric. -/
theorem StmtTyped.spares_fabrics {after : CheckContext} {stmt : Stmt} {target : Expr}
    (h : ctx.StmtTyped stmt after) (htarget : stmt.written? = some target) :
    ¬ctx.FromFabric target := by
  intro hfabric
  cases h with
  | assign _ _ _ hwrite =>
    cases htarget
    exact hfabric.checkWrite_ne _ hwrite
  | change _ _ hwrite =>
    cases htarget
    exact hfabric.requireWrite_ne _ _ hwrite
  | update _ _ _ hwrite =>
    cases htarget
    exact hfabric.checkWrite_ne _ hwrite
  | _ => cases htarget

end CheckContext

theorem Machine.Undisturbed.array? {before after : Machine} (h : before.Undisturbed after)
    (ref : Ref) (items : Array Value) (hitems : before.heap.array? ref = some items) :
    after.heap.array? ref = some items := by
  obtain ⟨cell, hcell, hentity⟩ := Heap.entity?_eq_some.mp (Heap.array?_eq_some.mp hitems)
  obtain ⟨cell', hcell', -, hredrawn⟩ := h.cells hcell
  rw [hentity] at hredrawn
  exact Heap.array?_eq_some.mpr (Heap.entity?_eq_some.mpr ⟨cell', hcell', hredrawn⟩)

/-- What hosts may do to machines that mutates nothing: make objects, and call methods that are
neither `mutating` nor `mutating this`. -/
inductive Machine.Asks (machine : Machine) : {α : Type} → Run α → Prop
  | instantiate (steps : Nat) (cls : ClassId) : Asks machine (instantiate steps cls)
  | call (steps : Nat) {ref : Ref} {caller : Value} {args : List Value} {name : String} :
      machine.Knows (.object ref) → machine.Knows caller → (∀ arg ∈ args, machine.Knows arg) →
      (∀ object sig, machine.heap.object? ref = some object →
        machine.findMethod? object name = some sig →
        sig.mutating = false ∧ sig.mutatingThis = false) →
      Asks machine (call steps ref name caller args)

theorem Machine.Asks.offers {machine : Machine} {α : Type} {action : Run α}
    (h : machine.Asks action) : machine.Offers action := by
  cases h with
  | instantiate steps cls => exact .instantiate steps cls
  | call steps href hcaller hargs => exact .call steps _ href hcaller hargs

namespace Workspace

variable {options : Options} {sources : Sources} {workspace : Workspace}

/-- A method that a host finds is declared by some class. -/
theorem Sound.declares_found (h : workspace.Sound) {object : Object} {name : String}
    {sig : MethodSig} (hfind : workspace.machine.findMethod? object name = some sig) :
    ∃ cls, workspace.machine.classes.Declares cls sig := by
  obtain ⟨owner, -, howner⟩ := List.exists_of_findSome?_eq_some hfind
  obtain ⟨above, habove, hentry⟩ := ClassRegistry.usableMethod_eq_some.mp howner
  obtain ⟨-, cls, -, hdeclares⟩ := h.composed.method habove (Table.mem_of_get? hentry)
  exact ⟨cls, hdeclares⟩

theorem Sound.asks_preserves (h : workspace.Sound) {α : Type} {action : Run α}
    (hasks : workspace.machine.Asks action) : workspace.machine.Preserves action := by
  have hrefl := h.undisturbed (le_refl _) h.plain_fits
  cases hasks with
  | instantiate steps cls => exact h.instantiate_preserves steps cls
  | @call steps ref caller args name href hcaller hargs hplain =>
    unfold Machine.call
    refine yields_bind.mpr (yields_get.mpr ?_)
    split
    case h_1 => exact fun _ _ => hrefl
    case h_2 sig hfind =>
      obtain ⟨object, hobject, hsig⟩ := Option.bind_eq_some_iff.mp hfind
      obtain ⟨hmutating, hthis⟩ := hplain object sig hobject hsig
      obtain ⟨cls, hdeclares⟩ := h.declares_found hsig
      split
      case isTrue => exact fun _ _ => hrefl
      case isFalse =>
        exact h.preserves ((h.plain.discipline.keeps steps).dispatch h.plain_fits
          ⟨cls, sig, hdeclares, rfl, hmutating, hthis⟩ href hcaller hargs)

/-- What imports lead to, and what hosts ask of the machine in between. -/
inductive Asked (options : Options) (sources : Sources) : Workspace → Prop
  | start : Asked options sources (ofSources options sources)
  | imported {workspace next : Workspace} {url : String} {id : ModuleId} :
      Asked options sources workspace → importModule url workspace = .ok id next →
      Asked options sources next
  | refused {workspace next : Workspace} {url : String} {error : ImportError} :
      Asked options sources workspace → importModule url workspace = .error error next →
      Asked options sources next
  | answered {workspace : Workspace} {α : Type} {action : Run α} {answer : α} {machine : Machine} :
      Asked options sources workspace → workspace.machine.Asks action →
      action workspace.machine = .ok answer machine → Asked options sources { workspace with machine }
  | failed {workspace : Workspace} {α : Type} {action : Run α} {error : RuntimeError}
      {machine : Machine} :
      Asked options sources workspace → workspace.machine.Asks action →
      action workspace.machine = .error (.error error) machine →
      Asked options sources { workspace with machine }

theorem Asked.reachable (h : Asked options sources workspace) :
    Reachable options sources workspace := by
  induction h with
  | start => exact .start
  | imported _ himport ih => exact .imported ih himport
  | refused _ himport ih => exact .refused ih himport
  | answered _ hasks hrun ih => exact .answered ih hasks.offers hrun
  | failed _ hasks hrun ih => exact .failed ih hasks.offers hrun

/-- Fabrics hold the lines that are declared for them, in order, for as long as hosts make objects and
call methods that may mutate nothing, whatever those do with them; and the checker refuses every write
to a chain of members that starts at the name of a fabric. -/
theorem fabrics_hold (h : Asked options sources workspace) :
    workspace.Woven ∧
    ∀ (ctx after : CheckContext) (stmt : Stmt) (target : Expr), ctx.StmtTyped stmt after →
      stmt.written? = some target → ¬ctx.FromFabric target := by
  refine ⟨?_, fun ctx after stmt target hstmt => hstmt.spares_fabrics⟩
  induction h with
  | start => exact nofun
  | imported _ himport ih => exact ((importModule_weaving _ _).of_ok himport).woven ih
  | refused _ himport ih => exact ((importModule_weaving _ _).of_error himport).woven ih
  | answered hasked hasks hrun ih =>
    exact ih.mono rfl rfl ((hasked.reachable.sound.asks_preserves hasks).of_ok hrun).array?
  | failed hasked hasks hrun ih =>
    have hpreserves := hasked.reachable.sound.asks_preserves hasks
    exact ih.mono rfl rfl (hpreserves.of_error hrun _ rfl).array?

/-- What an import answers is the module at the address. -/
theorem Sound.registers {next : Workspace} {url : String} {id : ModuleId} (h : workspace.Sound)
    (himport : importModule url workspace = .ok id next) :
    ∃ module, next.modules.get? id = some module ∧ module.url = url ∧
      next.sources = workspace.sources := by
  obtain ⟨hleads, hfind⟩ := (importModule_leads url h).of_ok himport
  obtain ⟨hnext, hgrows⟩ := hleads.sound h
  obtain ⟨module, hmodule, hurl⟩ := hnext.byUrl hfind
  exact ⟨module, hmodule, hurl, hgrows.sources⟩

/-! A host that calls a method which gives a fabric away. -/

def flagText : String :=
  "[\"module\",[[[\"copyright\",\x7b\"text\":\"\"\x7d]," ++
  "[\"license\",\x7b\"text\":\"\"\x7d]," ++ "[\"fabric\",[\"FLAG\",[\"ab\",\"cd\"]]]," ++
  "[\"class\",[\"Object\",[],false,[" ++
  "[\"method\",[\"lines\",[],[\"array\",\x7b\"element\":[\"string\",null]\x7d]," ++
  "false,false,false,[[\"return\",\x7b\"value\":" ++
  "[\"name\",\x7b\"path\":[\"FLAG\"]\x7d]\x7d]]]]]]]]]]"

def flagTree : ModuleTree where
  declarations := [.copyright "" {}, .license "" {},
    .fabric { name := "FLAG", lines := ["ab", "cd"] },
    .cls {
      name := "Object"
      members := [.method {
        name := "lines"
        ret := .array .text
        body := [.return (some (.mk none (.name ["FLAG"]))) {}] }] }]

def flagSources : Sources := Table.insert ∅ "weft:core" (.ok flagText)

set_option maxRecDepth 100000 in
theorem flag_tree : ModuleTree.ofText? flagText = some flagTree := by
  unfold ModuleTree.ofText? Json.ofText? flagText
  simp only [String.toList_append]
  cbv

set_option maxRecDepth 100000 in
theorem first_bearer :
    (firstObject? flagSources flagTree 9 ⟨0⟩).map (fun (ref, made) =>
      (ref, made.heap.outline.cells, (made.heap.object? ref).bind fun object =>
        (made.findMethod? object "lines").map fun sig => (sig.mutating, sig.mutatingThis),
        (reached? (Machine.call 9 ref "lines" .null []) made).map Prod.fst)) =
    some (⟨1, ⟨1⟩⟩, [(⟨0⟩, .array), (⟨1⟩, .object)], some (false, false),
      some (.array ⟨0, ⟨0⟩⟩)) := by
  cbv

theorem flag_holds : ∃ workspace id module, Asked {} flagSources workspace ∧
    workspace.modules.get? id = some module ∧
    workspace.machine.heap.Weaves flagTree.declarations module.fabrics := by
  obtain ⟨⟨ref, made⟩, hfirst, hmade⟩ := Option.map_eq_some_iff.mp first_bearer
  simp only [Prod.mk.injEq] at hmade
  obtain ⟨rfl, hcells, hmethod, hrun⟩ := hmade
  obtain ⟨object, hobject, hmethod⟩ := Option.bind_eq_some_iff.mp hmethod
  obtain ⟨sig, hsig, hplain⟩ := Option.map_eq_some_iff.mp hmethod
  obtain ⟨⟨value, called⟩, hcall, rfl⟩ := Option.map_eq_some_iff.mp hrun
  obtain ⟨id, base, himport, hinstantiate⟩ := imported_of_firstObject rfl flag_tree rfl hfirst
  have himported : Asked {} flagSources base := .imported .start himport
  obtain ⟨module, hmodule, hurl, hsources⟩ :=
    (sound_ofSources {} flagSources).registers himport
  have hdone := himported.answered (.instantiate 9 ⟨0⟩) hinstantiate
  have hasks : made.Asks (Machine.call 9 ⟨1, ⟨1⟩⟩ "lines" .null []) := by
    refine .call 9 ?_ trivial nofun fun other found hother hfound => ?_
    · show made.heap.outline.cells[1]? = some (⟨1⟩, .object)
      rw [hcells]
      rfl
    · rw [hobject] at hother
      cases hother
      rw [hsig] at hfound
      cases hfound
      exact Prod.mk.inj hplain
  have hlast := hdone.answered hasks (reached?_eq_some.mp hcall)
  obtain ⟨text, tree, hfetch, htree, hweaves⟩ := (fabrics_hold hlast).1 id module hmodule
  change base.sources.fetch module.url = .ok text at hfetch
  rw [hurl, hsources] at hfetch
  obtain rfl : flagText = text := Except.ok.inj hfetch
  rw [flag_tree] at htree
  cases htree
  exact ⟨_, id, module, hlast, hmodule, hweaves⟩

end Workspace

end Attire

import Attire.Proofs.Classes.Ascent
import Attire.Proofs.Classes.Lookup
import Attire.Proofs.Classes.Subclasses
import Attire.Proofs.Host.Reachable
import Mathlib

namespace Attire

open Machine Workspace

/-! What calls of a method reach, through whichever class they are made. -/

theorem lowerMethod_shape {fabrics : Fabrics} {className : String} {sig : MethodSig}
    {decl : MethodDecl} {routine : Routine}
    (h : lowerMethod fabrics className sig decl = .ok routine) :
    routine.arity = sig.params.length ∧ routine.ret = sig.ret := by
  obtain ⟨-, rfl⟩ := Lower.finish_eq_ok h
  exact ⟨rfl, rfl⟩

/-- What a manifest binds to the slot of a method: a routine of the method's shape, from a class
whose own method changes as much, with no body for the slot further down. -/
structure ClassRegistry.Binds (classes : ClassRegistry) (manifest : List ClassId) (sig : MethodSig)
    (routine : Routine) : Prop where
  bound : (classes.methodsOf manifest).get? sig.slot = some routine
  arity : routine.arity = sig.params.length
  ret : routine.ret = sig.ret
  derived : ∃ owner ∈ manifest, classes.Implements owner sig.slot routine ∧
    (∃ own, classes.Declares owner own ∧ own.slot = sig.slot ∧ own.mutating = sig.mutating ∧
      own.mutatingThis = sig.mutatingThis) ∧
    ∀ cls ∈ manifest, classes.Descends cls owner →
      ∀ other, ¬classes.Implements cls sig.slot other

namespace Workspace

variable {workspace : Workspace} {options : Options} {sources : Sources}
variable {cls owner ancestor : ClassId} {found above : ClassDef} {name : String}
variable {sig inherited : MethodSig} {slot : MethodSlot} {routine : Routine} {worn : List ClassId}

theorem Sound.declared (h : workspace.Sound)
    (himplements : workspace.machine.classes.Implements owner slot routine) :
    ∃ own, workspace.machine.classes.Declares owner own ∧ own.slot = slot ∧
      routine.arity = own.params.length ∧ routine.ret = own.ret := by
  obtain ⟨found, hfound, hbody⟩ := himplements
  obtain ⟨source, own, hvalid, hslot, hmethod⟩ :=
    h.compiled.body hfound (Table.mem_of_get? hbody)
  obtain ⟨method, checked, label, -, -, -, -, hlower⟩ := hmethod.compiled
  obtain ⟨harity, hret⟩ := lowerMethod_shape hlower
  exact ⟨own, hvalid.outlines.declares hmethod.declares, hslot, harity, hret⟩

theorem Sound.usable (h : workspace.Sound)
    (hfound : workspace.machine.classes.get? cls = some found)
    (hmember : found.method? name = some sig) :
    sig.name = name ∧ ∃ owner, workspace.machine.classes.Inherits cls owner ∧
      workspace.machine.classes.Declares owner sig := by
  obtain ⟨entry, hentry, hsig⟩ := Option.bind_eq_some_iff.mp hmember
  cases entry with
  | conflict => cases hsig
  | member value =>
    cases hsig
    exact h.composed.method hfound (Table.mem_of_get? hentry)

theorem Sound.bound (h : workspace.Sound)
    (hcls : cls ∈ workspace.machine.classes.manifest worn)
    (howner : workspace.machine.classes.Inherits cls owner)
    (hdeclares : workspace.machine.classes.Declares owner sig) :
    ∃ routine, (workspace.machine.classes.methodsOf
      (workspace.machine.classes.manifest worn)).get? sig.slot = some routine := by
  obtain ⟨above, habove, hmem⟩ := hdeclares
  obtain ⟨start, hstart, hpath⟩ := ClassRegistry.mem_manifest.mp hcls
  have hmanifest := ClassRegistry.mem_manifest.mpr ⟨start, hstart, hpath.trans howner⟩
  exact Option.isSome_iff_exists.mp
    (ClassRegistry.methodsOf_contains hmanifest habove (h.compiled.complete habove hmem))

/-- Whatever is worn, and in whichever order, every usable method is bound to the most derived body
for its slot, and the body keeps the contract of the method. -/
theorem dispatch_derived (h : Reachable options sources workspace)
    (hcls : cls ∈ workspace.machine.classes.manifest worn)
    (hfound : workspace.machine.classes.get? cls = some found)
    (hmember : found.method? name = some sig) :
    ∃ routine, workspace.machine.classes.Binds (workspace.machine.classes.manifest worn) sig
      routine := by
  have hsound := h.sound
  obtain ⟨-, above, habove, hdeclares⟩ := hsound.usable hfound hmember
  obtain ⟨routine, hroutine⟩ := hsound.bound hcls habove hdeclares
  obtain ⟨front, owner, back, hsplit, himplements, hback⟩ :=
    ClassRegistry.methodsOf_eq_some hsound.compiled.distinct hroutine
  obtain ⟨own, hown, hslot, harity, hret⟩ := hsound.declared himplements
  have hcontract := hsound.composed.contract_eq hown hdeclares hslot
  obtain ⟨hmutating, hthis⟩ := MethodSig.flags_eq hcontract
  obtain ⟨hrets, hparams⟩ :=
    (hsound.compiled.written hown).types_eq (hsound.compiled.written hdeclares) hcontract
  refine ⟨routine, hroutine, harity.trans (congrArg List.length hparams), hret.trans hrets, owner,
    by simp [hsplit], himplements, ⟨own, hown, hslot, hmutating, hthis⟩, fun other hother hpath => ?_⟩
  have hlayered := hsound.composed.acyclic.layered worn
  rw [hsplit] at hlayered hother
  exact hback other (hlayered.descendant_mem hpath hother)

/-- On an object that wears one class, the class answers to the slots of its own methods, whichever
ancestor they are called through.  A method of the same name that an ancestor has under another
slot is answered by an ancestor. -/
theorem override_reached (h : Reachable options sources workspace)
    (hsig : workspace.machine.classes.Declares cls sig)
    (hancestor : workspace.machine.classes.Descends cls ancestor)
    (habove : workspace.machine.classes.get? ancestor = some above)
    (hinherited : above.method? sig.name = some inherited) :
    ∃ routine, workspace.machine.classes.Implements cls sig.slot routine ∧
      (inherited.slot = sig.slot →
        (workspace.machine.classes.methodsOf (workspace.machine.classes.manifest [cls])).get?
          inherited.slot = some routine ∧
        ∀ ref object, workspace.machine.heap.object? ref = some object → object.worn = [cls] →
          boundRoutine? workspace.machine.heap (.object ref) inherited.slot = some routine) ∧
      (inherited.slot ≠ sig.slot → ∃ owner other, workspace.machine.classes.Descends cls owner ∧
        workspace.machine.classes.Implements owner inherited.slot other ∧
        (workspace.machine.classes.methodsOf (workspace.machine.classes.manifest [cls])).get?
          inherited.slot = some other) := by
  have hsound := h.sound
  obtain ⟨found, hfound, hown⟩ := hsig
  obtain ⟨routine, hroutine⟩ :=
    Option.isSome_iff_exists.mp (hsound.compiled.complete hfound hown)
  have himplements : workspace.machine.classes.Implements cls sig.slot routine :=
    ⟨found, hfound, hroutine⟩
  refine ⟨routine, himplements, fun hslot => ?_, fun hslot => ?_⟩
  · have hbound := ClassRegistry.methodsOf_singleton hsound.compiled.distinct himplements
    refine ⟨hslot ▸ hbound, fun ref object hobject hworn => ?_⟩
    obtain ⟨cell, hcell, hentity⟩ := Heap.mem_of_entity? (Heap.object?_eq_some.mp hobject)
    have hcoherent := (hsound.running.entities cell hcell).object hentity
    rw [boundRoutine?, hobject, Option.bind_some, MethodTable.get?, hcoherent.table,
      hcoherent.manifest, hworn, hslot]
    exact hbound
  · obtain ⟨hname, owner, hpath, hdeclares⟩ := hsound.usable habove hinherited
    obtain ⟨other, hother⟩ := hsound.bound (ClassRegistry.mem_manifest_of_mem (List.mem_singleton_self cls))
      (hancestor.to_reflTransGen.trans hpath) hdeclares
    obtain ⟨front, answering, back, hsplit, hanswers, -⟩ :=
      ClassRegistry.methodsOf_eq_some hsound.compiled.distinct hother
    refine ⟨answering, other, ?_, hanswers, hother⟩
    have hmem : answering ∈ workspace.machine.classes.manifest [cls] := by simp [hsplit]
    obtain ⟨start, hstart, hinherits⟩ := ClassRegistry.mem_manifest.mp hmem
    obtain rfl := List.mem_singleton.mp hstart
    rcases Relation.reflTransGen_iff_eq_or_transGen.mp hinherits with rfl | hdescends
    · -- The class has one method of the name only.
      obtain ⟨own, ⟨found', hfound', hown'⟩, hownSlot, -⟩ := hsound.declared hanswers
      rw [hfound] at hfound'
      cases hfound'
      have hsame : own = sig := List.inj_on_of_nodup_map (hsound.composed.methodNames hfound) hown'
        hown ((congrArg MethodSlot.name hownSlot).trans hname)
      exact absurd (hownSlot.symm.trans (congrArg MethodSig.slot hsame)) hslot
    · exact hdescends

/-! Two classes that introduce one contract apart from each other, and one that overrides both. -/

def viewsText : String :=
  "[\"module\",[[[\"copyright\",\x7b\"text\":\"\"\x7d]," ++
  "[\"license\",\x7b\"text\":\"\"\x7d]," ++
  "[\"class\",[\"A\",[],false,[[\"method\",[\"m\",[],[\"string\",null],false,false,false," ++
  "[[\"return\",\x7b\"value\":[\"str\",\x7b\"value\":\"a\"\x7d]\x7d]]]]]]]," ++
  "[\"class\",[\"B\",[],false,[[\"method\",[\"m\",[],[\"string\",null],false,false,false," ++
  "[[\"return\",\x7b\"value\":[\"str\",\x7b\"value\":\"b\"\x7d]\x7d]]]]]]]," ++
  "[\"class\",[\"C\",[[\"A\"],[\"B\"]],false,[[\"method\",[\"m\",[],[\"string\",null],false,false," ++
  "true,[[\"return\",\x7b\"value\":[\"str\",\x7b\"value\":\"c\"\x7d]\x7d]]]]]]]]]]"

def viewClass (name : String) (parents : List Path) (text : String) : ClassDecl where
  name
  parents
  members := [.method {
    name := "m"
    ret := .text
    isOverride := !parents.isEmpty
    body := [.return (some (.mk none (.text text))) {}] }]

def viewsTree : ModuleTree where
  declarations := [.copyright "" {}, .license "" {}, .cls (viewClass "A" [] "a"),
    .cls (viewClass "B" [] "b"), .cls (viewClass "C" [["A"], ["B"]] "c")]

def viewsSources : Sources := Table.insert ∅ "weft:core" (.ok viewsText)

def mSig (owner : ClassId) : MethodSig where
  owner
  name := "m"
  ret := .text

set_option maxRecDepth 100000 in
theorem views_tree : ModuleTree.ofText? viewsText = some viewsTree := by
  unfold ModuleTree.ofText? Json.ofText? viewsText
  simp only [String.toList_append]
  cbv

/-- The parents of a class, its own methods, the usable method `m`, and the names of its bodies. -/
def ClassDef.summary (found : ClassDef) :
    List ClassId × List MethodSig × Option MethodSig × List (MethodSlot × String) :=
  (found.parents, found.ownMethods, found.method? "m",
    found.bodies.entries.map fun entry => (entry.1, entry.2.name))

set_option maxRecDepth 100000 in
theorem first_view :
    (firstObject? viewsSources viewsTree 9 ⟨2⟩).map (fun (ref, after) =>
      (ref, (after.heap.object? ref).map fun object =>
        (object.worn, object.table.methods.entries.map fun entry => (entry.1, entry.2.name)),
      (after.classes.get? ⟨0⟩).map ClassDef.summary,
      (after.classes.get? ⟨1⟩).map ClassDef.summary,
      (after.classes.get? ⟨2⟩).map ClassDef.summary)) =
    some (⟨0, ⟨0⟩⟩,
      some ([⟨2⟩], [((mSig ⟨0⟩).slot, "C.m"), ((mSig ⟨1⟩).slot, "B.m")]),
      some ([], [mSig ⟨0⟩], some (mSig ⟨0⟩), [((mSig ⟨0⟩).slot, "A.m")]),
      some ([], [mSig ⟨1⟩], some (mSig ⟨1⟩), [((mSig ⟨1⟩).slot, "B.m")]),
      some ([⟨0⟩, ⟨1⟩], [mSig ⟨0⟩], some (mSig ⟨0⟩), [((mSig ⟨0⟩).slot, "C.m")])) := by
  cbv

/-- An object that wears `C`, with the three classes. -/
structure Views (workspace : Workspace) (ref : Ref) (object : Object) (a b c : ClassDef) : Prop where
  reachable : Reachable {} viewsSources workspace
  made : workspace.machine.heap.object? ref = some object
  worn : object.worn = [⟨2⟩]
  first : workspace.machine.classes.get? ⟨0⟩ = some a
  second : workspace.machine.classes.get? ⟨1⟩ = some b
  third : workspace.machine.classes.get? ⟨2⟩ = some c
  firstMethod : a.method? "m" = some (mSig ⟨0⟩)
  secondMethod : b.method? "m" = some (mSig ⟨1⟩)
  thirdMethods : c.ownMethods = [mSig ⟨0⟩]
  thirdParents : c.parents = [⟨0⟩, ⟨1⟩]
  thirdBody : (c.bodies.get? (mSig ⟨0⟩).slot).map Routine.name = some "C.m"
  bound : (object.table.get? (mSig ⟨1⟩).slot).map Routine.name = some "B.m"

theorem views_reachable : ∃ workspace ref object a b c, Views workspace ref object a b c := by
  obtain ⟨⟨ref, after⟩, hfirst, hafter⟩ := Option.map_eq_some_iff.mp first_view
  simp only [Prod.mk.injEq] at hafter
  obtain ⟨rfl, hobject, ha, hb, hc⟩ := hafter
  obtain ⟨object, hobject, hview⟩ := Option.map_eq_some_iff.mp hobject
  obtain ⟨a, ha, hfirstSummary⟩ := Option.map_eq_some_iff.mp ha
  obtain ⟨b, hb, hsecondSummary⟩ := Option.map_eq_some_iff.mp hb
  obtain ⟨c, hc, hthirdSummary⟩ := Option.map_eq_some_iff.mp hc
  simp only [ClassDef.summary, Prod.mk.injEq] at hview hfirstSummary hsecondSummary hthirdSummary
  obtain ⟨workspace, hreachable, rfl⟩ := reachable_firstObject rfl views_tree rfl hfirst
  have hnames : ∀ (table : Table MethodSlot Routine) (slot : MethodSlot),
      (table.get? slot).map Routine.name = (table.mapValues Routine.name).get? slot :=
    fun _ _ => Table.get?_mapValues.symm
  refine ⟨workspace, ⟨0, ⟨0⟩⟩, object, a, b, c, hreachable, hobject, hview.1, ha, hb, hc,
    hfirstSummary.2.2.1, hsecondSummary.2.2.1, hthirdSummary.2.1, hthirdSummary.1, ?_, ?_⟩
  · rw [hnames, Table.mapValues, hthirdSummary.2.2.2]
    rfl
  · rw [MethodTable.get?, hnames, Table.mapValues, hview.2]
    rfl

variable {ref : Ref} {object : Object} {a b c : ClassDef}

theorem Views.descends (h : Views workspace ref object a b c) (hmem : cls ∈ c.parents) :
    workspace.machine.classes.Descends ⟨2⟩ cls :=
  .single (by rwa [ClassRegistry.parents_eq h.third])

theorem Views.declares (h : Views workspace ref object a b c) :
    workspace.machine.classes.Declares ⟨2⟩ (mSig ⟨0⟩) :=
  ⟨c, h.third, by simp [h.thirdMethods]⟩

/-- An override is not reached through a parent that introduces the contract under another slot. -/
theorem views_differ : ¬∀ (workspace : Workspace) (cls ancestor : ClassId) (above : ClassDef)
    (sig inherited : MethodSig) (ref : Ref) (object : Object) (routine : Routine),
    Reachable {} viewsSources workspace → workspace.machine.classes.Declares cls sig →
    workspace.machine.classes.Descends cls ancestor →
    workspace.machine.classes.get? ancestor = some above →
    above.method? sig.name = some inherited →
    workspace.machine.heap.object? ref = some object → object.worn = [cls] →
    workspace.machine.classes.Implements cls sig.slot routine →
    boundRoutine? workspace.machine.heap (.object ref) inherited.slot = some routine := by
  intro hclaim
  obtain ⟨workspace, ref, object, a, b, c, h⟩ := views_reachable
  obtain ⟨routine, hroutine, hname⟩ := Option.map_eq_some_iff.mp h.thirdBody
  have hbound := hclaim workspace ⟨2⟩ ⟨1⟩ b (mSig ⟨0⟩) (mSig ⟨1⟩) ref object routine h.reachable
    h.declares (h.descends (by simp [h.thirdParents])) h.second h.secondMethod h.made h.worn
    ⟨c, h.third, hroutine⟩
  have hother := h.bound
  rw [boundRoutine?, h.made, Option.bind_some] at hbound
  rw [hbound, Option.map_some, hname] at hother
  exact absurd hother (by decide)

theorem views_override : ∃ workspace ref object a b c, Views workspace ref object a b c ∧
    ∃ routine, workspace.machine.classes.Implements ⟨2⟩ (mSig ⟨0⟩).slot routine ∧
      boundRoutine? workspace.machine.heap (.object ref) (mSig ⟨0⟩).slot = some routine := by
  obtain ⟨workspace, ref, object, a, b, c, h⟩ := views_reachable
  obtain ⟨routine, himplements, hreached, -⟩ := override_reached h.reachable h.declares
    (h.descends (by simp [h.thirdParents])) h.first h.firstMethod
  exact ⟨workspace, ref, object, a, b, c, h, routine, himplements,
    (hreached rfl).2 ref object h.made h.worn⟩

theorem views_dispatch : ∃ workspace ref object a b c, Views workspace ref object a b c ∧
    ∃ routine, workspace.machine.classes.Binds
      (workspace.machine.classes.manifest [⟨2⟩, ⟨0⟩]) (mSig ⟨1⟩) routine := by
  obtain ⟨workspace, ref, object, a, b, c, h⟩ := views_reachable
  have hparent : (⟨1⟩ : ClassId) ∈ workspace.machine.classes.parents ⟨2⟩ := by
    rw [ClassRegistry.parents_eq h.third, h.thirdParents]
    simp
  have hcls : (⟨1⟩ : ClassId) ∈ workspace.machine.classes.manifest [⟨2⟩, ⟨0⟩] :=
    ClassRegistry.mem_manifest.mpr ⟨⟨2⟩, by simp, .single hparent⟩
  exact ⟨workspace, ref, object, a, b, c, h, dispatch_derived h.reachable hcls h.second
    h.secondMethod⟩

end Workspace

end Attire

namespace Attire

open Workspace

/-! What an object embodies is what the classes that it wears are subclasses of. -/

namespace ClassRegistry

variable {classes : ClassRegistry} {worn front back : List ClassId} {cls ancestor : ClassId}

/-- Without cycles, all strict ancestors of a class are listed before it. -/
theorem Acyclic.ancestor_mem (h : classes.Acyclic)
    (hlisted : classes.manifest worn = front ++ cls :: back)
    (hancestor : classes.isSubclass cls ancestor) (hne : ancestor ≠ cls) : ancestor ∈ front := by
  have hlayered : Layered classes.parents (front ++ cls :: back) := hlisted ▸ h.layered worn
  rcases Relation.ReflTransGen.cases_head (isSubclass_iff.mp hancestor) with heq | ⟨parent, hparent, hpath⟩
  · exact absurd heq.symm hne
  · exact hlayered.ancestor_mem ((hlayered front cls back rfl).1 hparent) hpath

end ClassRegistry

namespace Workspace

/-- On every parent graph, cyclic or not, a class is a subclass of itself and of what it inherits
from; the walk that makes a manifest ends, and lists every class once that something worn is a
subclass of; and what is worn on top is listed after the rest.  Graphs that imports bring about
have no cycles, and without cycles classes are listed after their ancestors. -/
theorem manifest_lineage :
    (∀ classes : ClassRegistry,
      (∀ cls ancestor, classes.isSubclass cls ancestor ↔
        Relation.ReflTransGen (fun cls parent => parent ∈ classes.parents cls) cls ancestor) ∧
      ∀ worn,
        (∃ seen, ∀ after, Ascent classes.parents worn ([], []) after ↔
          after = (seen, classes.manifest worn)) ∧
        (classes.manifest worn).Nodup ∧
        (∀ cls, cls ∈ classes.manifest worn ↔ ∃ start ∈ worn, classes.isSubclass start cls) ∧
        (∀ more, classes.manifest worn <+: classes.manifest (worn ++ more)) ∧
        (classes.Acyclic → ∀ front cls back, classes.manifest worn = front ++ cls :: back →
          ∀ ancestor, classes.isSubclass cls ancestor → ancestor ≠ cls → ancestor ∈ front)) ∧
    ∀ options sources workspace, Reachable options sources workspace →
      workspace.machine.classes.Acyclic := by
  refine ⟨fun classes => ⟨fun cls ancestor => ClassRegistry.isSubclass_iff, fun worn => ?_⟩,
    fun options sources workspace h => h.sound.composed.acyclic⟩
  have hascends := classes.ascends worn ([], [])
  refine ⟨⟨_, fun after => ⟨fun hafter => (hascends.unique hafter).symm, ?_⟩⟩,
    classes.nodup_manifest worn, fun cls => ?_, classes.manifest_grows worn, ?_⟩
  · rintro rfl
    exact hascends
  · simp only [ClassRegistry.isSubclass_iff]
    exact ClassRegistry.mem_manifest
  · intro hacyclic front cls back hlisted ancestor hancestor hne
    exact hacyclic.ancestor_mem hlisted hancestor hne

/-- The third class of the views stands after its parents, whatever else is worn. -/
theorem views_lineage : ∃ workspace ref object a b c front back,
    Views workspace ref object a b c ∧ workspace.machine.classes.Acyclic ∧
    workspace.machine.classes.manifest [⟨2⟩, ⟨0⟩] = front ++ ⟨2⟩ :: back ∧
    ∀ parent ∈ c.parents, parent ∈ front := by
  obtain ⟨workspace, ref, object, a, b, c, h⟩ := views_reachable
  obtain ⟨hgraphs, hreachable⟩ := manifest_lineage
  have hacyclic := hreachable _ _ workspace h.reachable
  obtain ⟨hsubclass, hmanifests⟩ := hgraphs workspace.machine.classes
  obtain ⟨-, -, hmem, -, hordered⟩ := hmanifests [⟨2⟩, ⟨0⟩]
  have hworn : (⟨2⟩ : ClassId) ∈ workspace.machine.classes.manifest [⟨2⟩, ⟨0⟩] :=
    (hmem ⟨2⟩).mpr ⟨⟨2⟩, by simp, (hsubclass ⟨2⟩ ⟨2⟩).mpr .refl⟩
  obtain ⟨front, back, hlisted⟩ := List.append_of_mem hworn
  refine ⟨workspace, ref, object, a, b, c, front, back, h, hacyclic, hlisted, ?_⟩
  intro parent hparent
  have hdescends : workspace.machine.classes.Descends ⟨2⟩ parent := h.descends hparent
  apply hordered hacyclic front ⟨2⟩ back hlisted parent
  · exact (hsubclass ⟨2⟩ parent).mpr hdescends.to_reflTransGen
  · rintro rfl
    exact hacyclic _ hdescends

end Workspace

end Attire

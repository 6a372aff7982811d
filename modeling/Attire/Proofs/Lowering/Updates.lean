import Attire.Proofs.Lowering.Allocation
import Attire.Proofs.Runs.Updates

namespace Attire

/-! Compound assignments find their locations once. -/

namespace Lower

variable {fabrics : Fabrics} {count : Nat} {locals : Locals} {stmt : Stmt} {instr : Instr}
variable {own : List Nat}

/-- An update of a field or of an element, of a number, a text or a suggestion, comes to the same as
keeping the parts of its location in fresh variables, and then updating the location of these. -/
structure UpdatesOnce (fabrics : Fabrics) (count : Nat) (locals : Locals) (stmt : Stmt)
    (instr : Instr) (own : List Nat) : Prop where
  field {op : CompoundOp} {target object value : Expr} {name : String} {ty : Ty} {span : Span} :
    stmt = .compound op target value span → target.form = .field object name →
    target.ty? = some ty → ty = .num ∨ ty = .text ∨ ty = .suggestion →
    ∃ info objectCode code, target.meaning? = some (.field info) ∧
      object.Compiles fabrics locals objectCode ∧ value.Compiles fabrics locals code ∧
      ∀ slot ∉ locals.slots, Interchangeable count own [slot] (instr :: releaseOf own)
        [.store slot objectCode,
          .setField (.local slot) info.key
            (combine op ty (.getField (.local slot) info.key info.ty) code)]
  element {op : CompoundOp} {target object index value : Expr} {ty : Ty} {span : Span} :
    stmt = .compound op target value span → target.form = .index object index →
    target.ty? = some ty → ty = .num ∨ ty = .text ∨ ty = .suggestion →
    ∃ kind objectCode indexCode code, Reads locals (indexKind object) kind ∧
      object.Compiles fabrics locals objectCode ∧ index.Compiles fabrics locals indexCode ∧
      value.Compiles fabrics locals code ∧
      ∀ slot ∉ locals.slots, ∀ slot' ∉ locals.slots, slot ≠ slot' →
        Interchangeable count own [slot, slot'] (instr :: releaseOf own)
          [.store slot objectCode, .store slot' indexCode,
            .setIndex (.local slot) kind (.local slot')
              (combine op ty (.index (.local slot) kind (.local slot') ty) code)]

theorem not_isContainer {ty : Ty} (h : ty = .num ∨ ty = .text ∨ ty = .suggestion) :
    ¬ty.isContainer := by
  rcases h with rfl | rfl | rfl <;> exact Bool.false_ne_true

theorem readingsOf_compiles {expr : Expr} {code : Code} (h : expr.Compiles fabrics locals code) :
    ReadingsOf locals.slots code.mentions :=
  fun _ hmem => h.reads_known hmem

theorem Becomes.updatesOnce (h : Becomes fabrics locals stmt instr own)
    (hbelow : ∀ slot ∈ own, slot < count) : UpdatesOnce fabrics count locals stmt instr own where
  field hstmt hform hty htypes := by
    cases h with
    | append hty' hcontainer | remove hty' hcontainer =>
      -- Only containers are changed in place, and this location has none.
      cases hstmt
      cases hty.symm.trans hty'
      exact absurd hcontainer (not_isContainer htypes)
    | updateField hform' hmeaning hty' hobject hvalue hscratch =>
      cases hstmt
      cases hform.symm.trans hform'
      cases hty.symm.trans hty'
      refine ⟨_, _, _, hmeaning, hobject, hvalue, fun slot hslot => ?_⟩
      exact interchangeable_setField (readingsOf_compiles hobject) (readingsOf_compiles hvalue)
        hscratch hslot (hbelow _ List.mem_cons_self)
    | updateElement hform' =>
      cases hstmt
      cases hform.symm.trans hform'
    | _ => cases hstmt <;> cases hform
  element hstmt hform hty htypes := by
    cases h with
    | append hty' hcontainer | remove hty' hcontainer =>
      cases hstmt
      cases hty.symm.trans hty'
      exact absurd hcontainer (not_isContainer htypes)
    | updateElement hform' hkind hty' hobject hindex hvalue hcontainer hkey hne =>
      cases hstmt
      cases hform.symm.trans hform'
      cases hty.symm.trans hty'
      refine ⟨_, _, _, _, hkind, hobject, hindex, hvalue, fun slot hslot slot' hslot' hne' => ?_⟩
      exact interchangeable_setIndex (readingsOf_compiles hobject) (readingsOf_compiles hindex)
        (readingsOf_compiles hvalue) hcontainer hkey hne hslot hslot' hne'
        (hbelow _ List.mem_cons_self) (hbelow _ (List.mem_cons_of_mem _ List.mem_cons_self))
    | updateField hform' =>
      cases hstmt
      cases hform.symm.trans hform'
    | _ => cases hstmt <;> cases hform

/-- In the code of a checked method, all updates of fields and elements find their location once. -/
theorem checked_updates {ctx : CheckContext} (hfabrics : ctx.Provides fabrics) (className : String)
    {cls : ClassId} {sig : MethodSig} {decl answer : MethodDecl}
    (hlength : decl.params.length = sig.params.length)
    (h : ctx.checkMethod cls sig decl = .ok answer) :
    ∃ routine params declared scratch, lowerMethod fabrics className sig answer = .ok routine ∧
      (∀ this caller args,
        routine.slots ≤ (Frame.ofRoutine routine this caller args).slots.size) ∧
      MethodPlaced fabrics
        (fun locals stmt instr own => Becomes fabrics locals stmt instr own ∧
          UpdatesOnce fabrics routine.slots locals stmt instr own)
        ctx cls sig answer routine.body routine.slots params declared scratch := by
  obtain ⟨routine, params, declared, scratch, hroutine, hplaced⟩ :=
    lowerMethod_placed className hfabrics hlength h
  refine ⟨routine, params, declared, scratch, hroutine, Frame.slots_le_ofRoutine routine,
    hplaced.imp fun locals stmt instr own hsub hbecomes => ⟨hbecomes, hbecomes.updatesOnce ?_⟩⟩
  exact fun slot hmem => hplaced.below slot (List.mem_append_right _ (hsub hmem))

/-! An update of a field by an element, and one of the element by the field. -/

def ledgerContext : CheckContext where
  classes := {
    classes := #[{
      id := ⟨0⟩
      name := "Ledger"
      qualifiedName := "books#Ledger"
      module := ⟨0⟩
      fields := (∅ : Table String (Entry FieldInfo)).insert "total"
        (.member ⟨⟨⟨0⟩, 0⟩, "total", .num⟩)
      ownFields := [⟨"total", .num, {}⟩] }] }
  names := ⟨{}, {}⟩
  rootClass := none
  clonableClass := none

def bookSig : MethodSig where
  owner := ⟨0⟩
  name := "book"
  params := [.array .num, .num]
  ret := .void
  mutating := true
  mutatingThis := true

def bookDecl : MethodDecl where
  name := "book"
  params := [⟨"items", .array .num⟩, ⟨"position", .num⟩]
  ret := .void
  mutating := true
  body :=
    let total : Expr := .mk none (.field (.mk none .this) "total")
    let item : Expr := .mk none
      (.index (.mk none (.name ["items"])) (.mk none (.name ["position"])))
    [.compound .add total item {}, .compound .mul item total {}]

theorem book_updates : ∃ answer routine params declared scratch,
    ledgerContext.Provides (fun _ => some .null) ∧
    bookDecl.params.length = bookSig.params.length ∧
    ledgerContext.checkMethod ⟨0⟩ bookSig bookDecl = .ok answer ∧
    lowerMethod (fun _ => some .null) "Ledger" bookSig answer = .ok routine ∧
    (∀ this caller args, routine.slots ≤ (Frame.ofRoutine routine this caller args).slots.size) ∧
    MethodPlaced (fun _ => some .null)
      (fun locals stmt instr own => Becomes (fun _ => some .null) locals stmt instr own ∧
        UpdatesOnce (fun _ => some .null) routine.slots locals stmt instr own)
      ledgerContext ⟨0⟩ bookSig answer routine.body routine.slots params declared scratch := by
  have hfabrics : ledgerContext.Provides (fun _ => some .null) := fun _ _ _ => ⟨_, rfl⟩
  obtain ⟨answer, hcheck⟩ : ∃ answer, ledgerContext.checkMethod ⟨0⟩ bookSig bookDecl = .ok answer :=
    exists_eq_ok (by decide +kernel)
  obtain ⟨routine, params, declared, scratch, hroutine, hframes, hplaced⟩ :=
    checked_updates hfabrics "Ledger" rfl hcheck
  exact ⟨answer, routine, params, declared, scratch, hfabrics, rfl, hcheck, hroutine, hframes,
    hplaced⟩

end Lower

end Attire

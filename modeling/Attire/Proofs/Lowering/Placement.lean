import Attire.Proofs.Lowering.References

namespace Attire

/-! Where the compilation keeps variables and the parts of locations that it updates. -/

namespace Slots

/-- Between two statements no scratch slot is in use. -/
structure Settled (slots : Slots) : Prop where
  pending : slots.pending = []
  nodup : slots.free.Nodup
  minted : ∀ slot ∈ slots.free, slot < slots.next

/-- The slot is one of a variable. -/
def Owned (slots : Slots) (slot : Nat) : Prop := slot < slots.next ∧ slot ∉ slots.free

/-- What statements do to the slots: those that variables get are new, and scratch slots stay such. -/
structure Advance (before : Slots) (declared scratch : List Nat) (after : Slots) : Prop where
  settled : after.Settled
  next : before.next ≤ after.next
  fresh : ∀ slot ∈ declared, before.next ≤ slot
  owned : ∀ slot ∈ declared, after.Owned slot
  distinct : declared.Nodup
  scratch : ∀ slot ∈ scratch, slot ∈ after.free
  kept : ∀ slot ∈ before.free, slot ∈ after.free
  minted : ∀ slot ∈ after.free, slot ∈ before.free ∨ before.next ≤ slot

/-- What a statement has drawn so far. -/
structure Draws (before : Slots) (drawn : List Nat) (slots : Slots) : Prop where
  next : before.next ≤ slots.next
  nodup : (drawn ++ slots.free).Nodup
  below : ∀ slot ∈ drawn ++ slots.free, slot < slots.next
  kept : ∀ slot ∈ before.free, slot ∈ drawn ++ slots.free
  minted : ∀ slot ∈ drawn ++ slots.free, slot ∈ before.free ∨ before.next ≤ slot

variable {before slots after : Slots} {declared declared' scratch scratch' drawn : List Nat}
variable {slot : Nat}

theorem Owned.advance (h : before.Owned slot) (hadvance : before.Advance declared scratch after) :
    after.Owned slot := by
  refine ⟨Nat.lt_of_lt_of_le h.1 hadvance.next, fun hfree => ?_⟩
  rcases hadvance.minted slot hfree with hfree | hle
  · exact h.2 hfree
  · exact Nat.not_le_of_lt h.1 hle

theorem Advance.refl (h : slots.Settled) : slots.Advance [] [] slots where
  settled := h
  next := Nat.le_refl _
  fresh := nofun
  owned := nofun
  distinct := List.nodup_nil
  scratch := nofun
  kept _ h := h
  minted _ h := .inl h

theorem Advance.trans (h : before.Advance declared scratch slots)
    (h' : slots.Advance declared' scratch' after) :
    before.Advance (declared ++ declared') (scratch ++ scratch') after where
  settled := h'.settled
  next := Nat.le_trans h.next h'.next
  fresh slot hmem := by
    rcases List.mem_append.mp hmem with hmem | hmem
    · exact h.fresh slot hmem
    · exact Nat.le_trans h.next (h'.fresh slot hmem)
  owned slot hmem := by
    rcases List.mem_append.mp hmem with hmem | hmem
    · exact (h.owned slot hmem).advance h'
    · exact h'.owned slot hmem
  distinct := by
    refine List.nodup_append'.mpr ⟨h.distinct, h'.distinct, fun slot hmem hmem' => ?_⟩
    exact Nat.not_le_of_lt (h.owned slot hmem).1 (h'.fresh slot hmem')
  scratch slot hmem := by
    rcases List.mem_append.mp hmem with hmem | hmem
    · exact h'.kept slot (h.scratch slot hmem)
    · exact h'.scratch slot hmem
  kept slot hmem := h'.kept slot (h.kept slot hmem)
  minted slot hmem := by
    rcases h'.minted slot hmem with hmem | hle
    · exact h.minted slot hmem
    · exact .inr (Nat.le_trans h.next hle)

/-- A variable gets the next slot. -/
theorem Advance.mint (h : slots.Settled) : slots.Advance [slots.next] [] slots.mint.2 where
  settled := ⟨h.pending, h.nodup, fun slot hmem => Nat.lt_succ_of_lt (h.minted slot hmem)⟩
  next := Nat.le_succ _
  fresh slot hmem := by simp_all
  owned slot hmem := by
    rw [List.mem_singleton.mp hmem]
    exact ⟨Nat.lt_succ_self _, fun hfree => Nat.lt_irrefl _ (h.minted _ hfree)⟩
  distinct := List.nodup_singleton _
  scratch := nofun
  kept _ h := h
  minted _ h := .inl h

theorem Draws.none (h : slots.Settled) : slots.Draws [] slots where
  next := Nat.le_refl _
  nodup := h.nodup
  below := h.minted
  kept _ h := h
  minted _ h := .inl h

/-- A scratch slot is one that is free, or else a new one. -/
theorem Draws.alloc (h : before.Draws drawn slots) :
    before.Draws (drawn ++ [slots.alloc.1]) slots.alloc.2 := by
  obtain ⟨next, nodup, below, kept, minted⟩ := h
  unfold Slots.alloc
  cases hfree : slots.free with
  | cons slot free =>
    rw [hfree] at nodup below kept minted
    constructor
    all_goals simpa only [List.append_assoc, List.singleton_append]
  | nil =>
    simp only [hfree, List.append_nil] at nodup below kept minted
    constructor
    all_goals simp only [Slots.mint, hfree, List.append_nil, List.mem_append, List.mem_singleton]
    case next => exact Nat.le_succ_of_le next
    case nodup =>
      refine List.nodup_append'.mpr ⟨nodup, List.nodup_singleton _, fun slot hmem hmem' => ?_⟩
      rw [List.mem_singleton.mp hmem'] at hmem
      exact Nat.lt_irrefl _ (below _ hmem)
    case below =>
      rintro slot (hmem | rfl)
      · exact Nat.lt_succ_of_lt (below slot hmem)
      · exact Nat.lt_succ_self _
    case kept => exact fun slot hmem => .inl (kept slot hmem)
    case minted =>
      rintro slot (hmem | rfl)
      · exact minted slot hmem
      · exact .inr next

theorem Draws.deferRelease (h : before.Draws drawn slots) :
    before.Draws drawn (slots.deferRelease slot) :=
  ⟨h.next, h.nodup, h.below, h.kept, h.minted⟩

theorem flush_snd (slots : Slots) : slots.flush.2 =
    { slots with free := slots.pending ++ slots.free, pending := [] } := by
  obtain ⟨next, free, pending⟩ := slots
  cases pending <;> rfl

/-- After the statement what it has drawn is free again. -/
theorem Draws.flush (h : before.Draws drawn slots) (hpending : slots.pending = drawn) :
    before.Advance [] drawn slots.flush.2 := by
  subst hpending
  rw [flush_snd]
  exact {
    settled := ⟨rfl, h.nodup, h.below⟩
    next := h.next
    fresh := nofun
    owned := nofun
    distinct := List.nodup_nil
    scratch := fun _ hmem => List.mem_append_left _ hmem
    kept := h.kept
    minted := h.minted }

/-- Nothing that was drawn is a slot of a variable. -/
theorem Draws.not_owned (h : before.Draws drawn slots) (hmem : slot ∈ drawn) :
    ¬before.Owned slot := by
  rintro ⟨hlt, hfree⟩
  rcases h.minted slot (List.mem_append_left _ hmem) with hmem | hle
  · exact hfree hmem
  · exact Nat.not_le_of_lt hlt hle

end Slots

namespace Locals

def declare (locals : Locals) (name : String) (found : Local) : Locals :=
  match locals with
  | [] => [(∅ : Table String Local).insert name found]
  | scope :: outer => scope.insert name found :: outer

theorem find?_declare {locals : Locals} {name other : String} {found : Local} :
    (locals.declare name found).find? other =
      if other = name then some found else locals.find? other := by
  cases locals with
  | nil =>
    simp only [declare, find?, Table.get?_insert]
    by_cases h : other = name <;> simp [h]
  | cons scope outer =>
    simp only [declare, find?, Table.get?_insert]
    by_cases h : other = name <;> simp [h]

theorem slots_insert {scope : Table String Local} {outer : Locals} {name : String} {found : Local}
    (h : name ∉ scope.keys) :
    (slots (scope.insert name found :: outer)).Perm (found.slot :: slots (scope :: outer)) := by
  simp only [slots, List.flatMap_cons, Table.insert_of_notMem h, Table.values, List.map_append,
    List.map_cons, List.map_nil, List.append_assoc, List.singleton_append]
  exact List.perm_middle

variable {ctx after : CheckContext} {locals : Locals} {name : String} {found : Local}

theorem mem_slots_insert {scope : Table String Local} {outer : Locals} {slot : Nat}
    (h : slot ∈ slots (scope.insert name found :: outer)) :
    slot = found.slot ∨ slot ∈ slots (scope :: outer) := by
  simp only [slots, List.flatMap_cons, List.mem_append, List.mem_map, Table.values] at h ⊢
  rcases h with ⟨_, ⟨entry, hentry, rfl⟩, rfl⟩ | h
  · rcases Table.mem_insert hentry with rfl | hentry
    · exact .inl rfl
    · exact .inr (.inl ⟨_, ⟨entry, hentry, rfl⟩, rfl⟩)
  · exact .inr (.inr h)

theorem mem_slots_declare {slot : Nat} (h : slot ∈ (locals.declare name found).slots) :
    slot = found.slot ∨ slot ∈ locals.slots := by
  cases locals with
  | nil =>
    replace h : slot ∈ slots ((∅ : Table String Local).insert name found :: []) := h
    exact mem_slots_insert h
  | cons scope outer => exact mem_slots_insert h

theorem keys_mapValues {κ : Type u} {α : Type v} {β : Type w} {change : α → β}
    {table : Table κ α} : (table.mapValues change).keys = table.keys := by
  simp [Table.keys, Table.mapValues]

/-- What a declaration does to the variables: there is one more, which has the name from now on. -/
theorem declare_spec {ty : Ty} (hdeclare : ctx.declare name ty = .ok after)
    (htypes : ctx.scopes = locals.types) (slot : Nat) :
    after.scopes = (locals.declare name ⟨slot, ty⟩).types ∧
      (locals.declare name ⟨slot, ty⟩).slots.Perm (slot :: locals.slots) := by
  unfold CheckContext.declare at hdeclare
  cases locals with
  | nil =>
    rw [htypes] at hdeclare
    cases hdeclare
    have hfresh : name ∉ (∅ : Table String Local).keys := nofun
    refine ⟨?_, slots_insert hfresh⟩
    simp only [CheckContext.enter, htypes, declare, types, List.map_cons, List.map_nil,
      Table.mapValues_insert]
    rfl
  | cons scope outer =>
    rw [htypes, types, List.map_cons] at hdeclare
    dsimp only at hdeclare
    split at hdeclare
    case isTrue => cases hdeclare
    case isFalse hfresh =>
      cases hdeclare
      rw [Table.contains_iff, keys_mapValues] at hfresh
      refine ⟨?_, slots_insert hfresh⟩
      simp only [declare, types, List.map_cons, Table.mapValues_insert]

end Locals

/-- What clears the scratch slots of a statement, if it has any. -/
def releaseOf : List Nat → List Instr
  | [] => []
  | slots => [.release slots]

namespace Lower

variable {fabrics : Fabrics}

/-- What becomes of the statements that have no blocks and declare nothing, and the scratch slots
that they use. -/
inductive Becomes (fabrics : Fabrics) (locals : Locals) : Stmt → Instr → List Nat → Prop
  | setVariable {note : Note} {path : Path} {found : Local} {value : Expr} {code : Code}
      {span : Span} :
      locals.ofPath? path = some found → note.ty = found.ty → value.Compiles fabrics locals code →
      Becomes fabrics locals (.assign (.mk (some note) (.name path)) value span)
        (.store found.slot code) []
  | setField {target object value : Expr} {name : String} {info : FieldInfo}
      {objectCode code : Code} {span : Span} :
      target.form = .field object name → target.meaning? = some (.field info) →
      object.Compiles fabrics locals objectCode → value.Compiles fabrics locals code →
      Becomes fabrics locals (.assign target value span) (.setField objectCode info.key code) []
  | setElement {target object index value : Expr} {kind : IndexKind}
      {objectCode indexCode code : Code} {span : Span} :
      target.form = .index object index → Reads locals (indexKind object) kind →
      object.Compiles fabrics locals objectCode → index.Compiles fabrics locals indexCode →
      value.Compiles fabrics locals code →
      Becomes fabrics locals (.assign target value span)
        (.setIndex objectCode kind indexCode code) []
  | append {target value : Expr} {ty : Ty} {targetCode code : Code} {span : Span} :
      target.ty? = some ty → ty.isContainer → target.Compiles fabrics locals targetCode →
      value.Compiles fabrics locals code →
      Becomes fabrics locals (.compound .add target value span) (.append targetCode code) []
  | remove {target value : Expr} {ty : Ty} {targetCode code : Code} {span : Span} :
      target.ty? = some ty → ty.isContainer → target.Compiles fabrics locals targetCode →
      value.Compiles fabrics locals code →
      Becomes fabrics locals (.compound .sub target value span) (.remove targetCode code) []
  | updateVariable {op : CompoundOp} {note : Note} {path : Path} {found : Local} {value : Expr}
      {code : Code} {span : Span} :
      locals.ofPath? path = some found → note.ty = found.ty → value.Compiles fabrics locals code →
      Becomes fabrics locals (.compound op (.mk (some note) (.name path)) value span)
        (.store found.slot (combine op note.ty (.local found.slot) code)) []
  | updateField {op : CompoundOp} {target object value : Expr} {ty : Ty} {name : String}
      {info : FieldInfo} {objectCode code : Code} {scratch : Nat} {span : Span} :
      target.form = .field object name → target.meaning? = some (.field info) →
      target.ty? = some ty → object.Compiles fabrics locals objectCode →
      value.Compiles fabrics locals code → scratch ∉ locals.slots →
      Becomes fabrics locals (.compound op target value span)
        (.setField (.tee scratch objectCode) info.key
          (combine op ty (.getField (.local scratch) info.key info.ty) code))
        [scratch]
  | updateElement {op : CompoundOp} {target object index value : Expr} {ty : Ty}
      {kind : IndexKind} {objectCode indexCode code : Code} {container key : Nat} {span : Span} :
      target.form = .index object index → Reads locals (indexKind object) kind →
      target.ty? = some ty → object.Compiles fabrics locals objectCode →
      index.Compiles fabrics locals indexCode → value.Compiles fabrics locals code →
      container ∉ locals.slots → key ∉ locals.slots → container ≠ key →
      Becomes fabrics locals (.compound op target value span)
        (.setIndex (.tee container objectCode) kind (.tee key indexCode)
          (combine op ty (.index (.local container) kind (.local key) ty) code))
        [container, key]
  | expr {expr : Expr} {code : Code} {span : Span} :
      expr.Compiles fabrics locals code →
      Becomes fabrics locals (.expr expr span) (.eval code) []
  | returnNothing {span : Span} :
      Becomes fabrics locals (.return none span) (.return .null) []
  | returnValue {value : Expr} {code : Code} {span : Span} :
      value.Compiles fabrics locals code →
      Becomes fabrics locals (.return (some value) span) (.return code) []
  | break {span : Span} : Becomes fabrics locals (.break span) .break []
  | continue {span : Span} : Becomes fabrics locals (.continue span) .continue []
  | extend {cls : ClassId} {target : Expr} {path : Path} {code : Code} {span : Span} :
      target.Compiles fabrics locals code →
      Becomes fabrics locals (.extend (some cls) target path span) (.extend code cls) []
  | retract {cls : ClassId} {target : Expr} {path : Path} {code : Code} {span : Span} :
      target.Compiles fabrics locals code →
      Becomes fabrics locals (.retract (some cls) target path span) (.retract code cls) []
  | enforce {suggestion : Expr} {code : Code} {span : Span} :
      suggestion.Compiles fabrics locals code →
      Becomes fabrics locals (.enforce suggestion span) (.enforce code) []

mutual

/-- The code of a statement, the variables after it, the slots of the variables that it declares and
the scratch slots that it uses, those of its blocks included.  `flat` tells what becomes of statements
that have no blocks and declare nothing. -/
inductive StmtPlaced (fabrics : Fabrics) (flat : Locals → Stmt → Instr → List Nat → Prop) :
    CheckContext → Locals → Stmt → List Instr → Locals → List Nat → List Nat → Prop
  | letValue {ctx : CheckContext} {locals : Locals} {name : String} {written : Option TypeExpr}
      {ty : Ty} {init : Expr} {code : Code} {slot : Nat} {span : Span} :
      init.Compiles fabrics locals code →
      StmtPlaced fabrics flat ctx locals (.let (some ty) name written (some init) span)
        [.store slot code] (locals.declare name ⟨slot, ty⟩) [slot] []
  | letDefault {ctx : CheckContext} {locals : Locals} {name : String} {written : Option TypeExpr}
      {ty : Ty} {slot : Nat} {span : Span} :
      StmtPlaced fabrics flat ctx locals (.let (some ty) name written none span)
        [.store slot (.default ty true)] (locals.declare name ⟨slot, ty⟩) [slot] []
  | flat {ctx : CheckContext} {locals : Locals} {stmt : Stmt} {instr : Instr}
      {scratch : List Nat} :
      flat locals stmt instr scratch →
      StmtPlaced fabrics flat ctx locals stmt (instr :: releaseOf scratch) locals [] scratch
  | branch {ctx : CheckContext} {locals : Locals} {cond : Expr} {yes no : List Stmt} {code : Code}
      {yesCode noCode : List Instr} {declared declared' scratch scratch' : List Nat}
      {span : Span} :
      cond.Compiles fabrics locals code →
      BlockPlaced fabrics flat (ctx.enter ∅) (∅ :: locals) yes yesCode declared scratch →
      BlockPlaced fabrics flat (ctx.enter ∅) (∅ :: locals) no noCode declared' scratch' →
      StmtPlaced fabrics flat ctx locals (.if cond yes no span) [.branch code yesCode noCode] locals
        (declared ++ declared') (scratch ++ scratch')
  | while {ctx : CheckContext} {locals : Locals} {cond : Expr} {body : List Stmt} {code : Code}
      {bodyCode : List Instr} {declared scratch : List Nat} {span : Span} :
      cond.Compiles fabrics locals code →
      BlockPlaced fabrics flat { ctx.enter ∅ with inLoop := true } (∅ :: locals) body bodyCode
        declared scratch →
      StmtPlaced fabrics flat ctx locals (.while cond body span) [.while code bodyCode] locals
        declared scratch
  | forOne {ctx : CheckContext} {locals : Locals} {plan : LoopPlan} {key : String}
      {keyTy valueTy : Option TypeExpr} {iter : Expr} {body : List Stmt} {source : Code}
      {first : Nat} {loop : Table String Local} {bodyCode : List Instr}
      {declared scratch : List Nat} {span : Span} :
      iter.Compiles fabrics locals source →
      loop = (∅ : Table String Local).insert key ⟨first, plan.first⟩ →
      BlockPlaced fabrics flat { ctx.enter (loop.mapValues Local.ty) with inLoop := true }
        (loop :: locals) body bodyCode declared scratch →
      StmtPlaced fabrics flat ctx locals (.for (some plan) key none keyTy valueTy iter body span)
        [.forEach source plan.kind first none bodyCode] locals (first :: declared) scratch
  | forTwo {ctx : CheckContext} {locals : Locals} {plan : LoopPlan} {key name : String} {ty : Ty}
      {keyTy valueTy : Option TypeExpr} {iter : Expr} {body : List Stmt} {source : Code}
      {first second : Nat} {loop : Table String Local} {bodyCode : List Instr}
      {declared scratch : List Nat} {span : Span} :
      iter.Compiles fabrics locals source → plan.second = some ty →
      loop = ((∅ : Table String Local).insert key ⟨first, plan.first⟩).insert name ⟨second, ty⟩ →
      BlockPlaced fabrics flat { ctx.enter (loop.mapValues Local.ty) with inLoop := true }
        (loop :: locals) body bodyCode declared scratch →
      StmtPlaced fabrics flat ctx locals
        (.for (some plan) key (some name) keyTy valueTy iter body span)
        [.forEach source plan.kind first (some second) bodyCode] locals
        (first :: second :: declared) scratch

/-- The code of a block, in which the variables of the checker have slots of their own at every
statement. -/
inductive BlockPlaced (fabrics : Fabrics) (flat : Locals → Stmt → Instr → List Nat → Prop) :
    CheckContext → Locals → List Stmt → List Instr → List Nat → List Nat → Prop
  | nil {ctx : CheckContext} {locals : Locals} :
      BlockPlaced fabrics flat ctx locals [] [] [] []
  | cons {ctx next : CheckContext} {locals after : Locals} {stmt : Stmt} {rest : List Stmt}
      {instrs code : List Instr} {declared declared' scratch scratch' : List Nat} :
      ctx.scopes = locals.types → locals.slots.Nodup → ctx.StmtTyped stmt next →
      StmtPlaced fabrics flat ctx locals stmt instrs after declared scratch →
      BlockPlaced fabrics flat next after rest code declared' scratch' →
      BlockPlaced fabrics flat ctx locals (stmt :: rest) (instrs ++ code) (declared ++ declared')
        (scratch ++ scratch')

end

variable {flat flat' : Locals → Stmt → Instr → List Nat → Prop}

mutual

theorem StmtPlaced.imp : ∀ {ctx : CheckContext} {locals after : Locals} {stmt : Stmt}
    {code : List Instr} {declared scratch : List Nat},
    StmtPlaced fabrics flat ctx locals stmt code after declared scratch →
    (∀ locals stmt instr own, own ⊆ scratch → flat locals stmt instr own →
      flat' locals stmt instr own) →
    StmtPlaced fabrics flat' ctx locals stmt code after declared scratch
  | _, _, _, _, _, _, _, .letValue hinit, _ => .letValue hinit
  | _, _, _, _, _, _, _, .letDefault, _ => .letDefault
  | _, _, _, _, _, _, _, .flat h, himp => .flat (himp _ _ _ _ (List.Subset.refl _) h)
  | _, _, _, _, _, _, _, .branch hcond hyes hno, himp =>
    .branch hcond
      (hyes.imp fun _ _ _ _ hsub => himp _ _ _ _ (List.subset_append_of_subset_left _ hsub))
      (hno.imp fun _ _ _ _ hsub => himp _ _ _ _ (List.subset_append_of_subset_right _ hsub))
  | _, _, _, _, _, _, _, .while hcond hbody, himp => .while hcond (hbody.imp himp)
  | _, _, _, _, _, _, _, .forOne hiter hloop hbody, himp => .forOne hiter hloop (hbody.imp himp)
  | _, _, _, _, _, _, _, .forTwo hiter hsecond hloop hbody, himp =>
    .forTwo hiter hsecond hloop (hbody.imp himp)

/-- Statements become the like if those without blocks do. -/
theorem BlockPlaced.imp : ∀ {ctx : CheckContext} {locals : Locals} {body : List Stmt}
    {code : List Instr} {declared scratch : List Nat},
    BlockPlaced fabrics flat ctx locals body code declared scratch →
    (∀ locals stmt instr own, own ⊆ scratch → flat locals stmt instr own →
      flat' locals stmt instr own) →
    BlockPlaced fabrics flat' ctx locals body code declared scratch
  | _, _, _, _, _, _, .nil, _ => .nil
  | _, _, _, _, _, _, .cons htypes hnodup htyped hstmt hrest, himp =>
    .cons htypes hnodup htyped
      (hstmt.imp fun _ _ _ _ hsub => himp _ _ _ _ (List.subset_append_of_subset_left _ hsub))
      (hrest.imp fun _ _ _ _ hsub => himp _ _ _ _ (List.subset_append_of_subset_right _ hsub))

end

/-- The slot is one of those of the variables in scope, or of what the code uses besides. -/
def Placed (locals : Locals) (declared scratch : List Nat) (slot : Nat) : Prop :=
  slot ∈ locals.slots ∨ slot ∈ declared ∨ slot ∈ scratch

theorem Placed.own {locals : Locals} {declared own : List Nat} {slot : Nat} (h : slot ∈ own) :
    Placed locals declared own slot :=
  .inr (.inr h)

theorem placed_of_compiles {locals : Locals} {expr : Expr} {code : Code}
    {declared scratch : List Nat} (h : expr.Compiles fabrics locals code) {mention : Mention}
    (hmem : mention ∈ code.mentions) : Placed locals declared scratch mention.slot := by
  obtain ⟨slot, hslot, rfl⟩ := h.reads_known hmem
  exact .inl hslot

theorem combine_mentions (op : CompoundOp) (ty : Ty) (current operand : Code) :
    (combine op ty current operand).mentions = current.mentions ++ operand.mentions := by
  unfold combine
  split <;> rfl

theorem Becomes.placed {locals : Locals} {stmt : Stmt} {instr : Instr} {own : List Nat}
    (h : Becomes fabrics locals stmt instr own) {mention : Mention}
    (hmem : mention ∈ instr.mentions) : Placed locals [] own mention.slot := by
  cases h with
  | setVariable hpath _ hvalue =>
    rcases List.mem_append.mp hmem with hmem | hmem
    · exact placed_of_compiles hvalue hmem
    · rw [List.mem_singleton.mp hmem]
      exact .inl (Locals.slot_mem_of_ofPath? hpath)
  | setField _ _ hobject hvalue =>
    exact (List.mem_append.mp hmem).elim (placed_of_compiles hobject) (placed_of_compiles hvalue)
  | setElement _ _ hobject hindex hvalue =>
    rcases List.mem_append.mp hmem with hmem | hmem
    · exact (List.mem_append.mp hmem).elim (placed_of_compiles hobject) (placed_of_compiles hindex)
    · exact placed_of_compiles hvalue hmem
  | append _ _ htarget hvalue | remove _ _ htarget hvalue =>
    exact (List.mem_append.mp hmem).elim (placed_of_compiles htarget) (placed_of_compiles hvalue)
  | updateVariable hpath _ hvalue =>
    have hfound := Locals.slot_mem_of_ofPath? hpath
    simp only [Instr.mentions, combine_mentions, Code.mentions, List.mem_append,
      List.mem_singleton] at hmem
    rcases hmem with (rfl | hmem) | rfl
    · exact .inl hfound
    · exact placed_of_compiles hvalue hmem
    · exact .inl hfound
  | updateField _ _ _ hobject hvalue =>
    simp only [Instr.mentions, combine_mentions, Code.mentions, List.mem_append,
      List.mem_singleton] at hmem
    rcases hmem with (hmem | rfl) | rfl | hmem
    · exact placed_of_compiles hobject hmem
    · exact .own List.mem_cons_self
    · exact .own List.mem_cons_self
    · exact placed_of_compiles hvalue hmem
  | updateElement _ _ _ hobject hindex hvalue =>
    simp only [Instr.mentions, combine_mentions, Code.mentions, List.mem_append,
      List.mem_singleton] at hmem
    rcases hmem with ((hmem | rfl) | hmem | rfl) | (rfl | rfl) | hmem
    · exact placed_of_compiles hobject hmem
    · exact .own List.mem_cons_self
    · exact placed_of_compiles hindex hmem
    · exact .own (List.mem_cons_of_mem _ List.mem_cons_self)
    · exact .own List.mem_cons_self
    · exact .own (List.mem_cons_of_mem _ List.mem_cons_self)
    · exact placed_of_compiles hvalue hmem
  | expr hvalue | returnValue hvalue | extend hvalue | retract hvalue | enforce hvalue =>
    exact placed_of_compiles hvalue hmem
  | returnNothing | «break» | «continue» => cases hmem

theorem mentions_releaseOf (slots : List Nat) :
    Instr.allMentions (releaseOf slots) = slots.map .write := by
  cases slots with
  | nil => rfl
  | cons slot rest => exact List.append_nil _

/-- A statement that declares a variable has it in scope afterwards. -/
theorem StmtPlaced.mem_slots {ctx : CheckContext} {locals after : Locals} {stmt : Stmt}
    {code : List Instr} {declared scratch : List Nat} {slot : Nat}
    (h : StmtPlaced fabrics flat ctx locals stmt code after declared scratch)
    (hmem : slot ∈ after.slots) : slot ∈ locals.slots ∨ slot ∈ declared := by
  cases h with
  | letValue | letDefault =>
    rcases Locals.mem_slots_declare hmem with rfl | hmem
    · exact .inr (List.mem_singleton_self _)
    · exact .inl hmem
  | flat | branch | «while» | forOne | forTwo => exact .inl hmem

theorem Placed.widen {locals : Locals} {declared declared' scratch scratch' : List Nat} {slot : Nat}
    (hdeclared : declared ⊆ declared') (hscratch : scratch ⊆ scratch')
    (h : Placed locals declared scratch slot) : Placed locals declared' scratch' slot :=
  h.imp_right (Or.imp (fun hmem => hdeclared hmem) (fun hmem => hscratch hmem))

/-- Slots in scope inside of a block are in scope around it, or the block's own. -/
theorem Placed.leave {locals inner : Locals} {declared scratch : List Nat} {slot : Nat}
    (own : List Nat) (hinner : ∀ slot ∈ inner.slots, slot ∈ locals.slots ∨ slot ∈ own)
    (h : Placed inner declared scratch slot) : Placed locals (own ++ declared) scratch slot := by
  rcases h with hmem | hmem | hmem
  · exact (hinner slot hmem).imp_right fun hmem => .inl (List.mem_append_left _ hmem)
  · exact .inr (.inl (List.mem_append_right _ hmem))
  · exact .own hmem

/-- What becomes of statements without blocks mentions slots in scope and their own. -/
def Confined (flat : Locals → Stmt → Instr → List Nat → Prop) : Prop :=
  ∀ {locals stmt instr own}, flat locals stmt instr own →
    ∀ mention ∈ instr.mentions, Placed locals [] own mention.slot

theorem Becomes.confined : Confined (Becomes fabrics) := fun h _ hmem => h.placed hmem

mutual

theorem StmtPlaced.placed (hflat : Confined flat) : ∀ {ctx : CheckContext}
    {locals after : Locals} {stmt : Stmt} {code : List Instr} {declared scratch : List Nat},
    StmtPlaced fabrics flat ctx locals stmt code after declared scratch →
    ∀ mention ∈ Instr.allMentions code, Placed locals declared scratch mention.slot
  | _, _, _, _, _, _, _, .letValue hinit, mention, hmem => by
    simp only [Instr.allMentions, Instr.mentions, List.append_nil, List.mem_append,
      List.mem_singleton] at hmem
    rcases hmem with hmem | rfl
    · exact placed_of_compiles hinit hmem
    · exact .inr (.inl List.mem_cons_self)
  | _, _, _, _, _, _, _, .letDefault, mention, hmem => by
    simp only [Instr.allMentions, Instr.mentions, Code.mentions, List.append_nil, List.nil_append,
      List.mem_singleton] at hmem
    subst hmem
    exact .inr (.inl List.mem_cons_self)
  | _, _, _, _, _, _, _, .flat h, mention, hmem => by
    simp only [Instr.allMentions, mentions_releaseOf, List.mem_append, List.mem_map] at hmem
    rcases hmem with hmem | ⟨slot, hslot, rfl⟩
    · exact hflat h mention hmem
    · exact .own hslot
  | _, _, _, _, _, _, _, .branch hcond hyes hno, mention, hmem => by
    simp only [Instr.allMentions, Instr.mentions, List.append_nil, List.mem_append] at hmem
    rcases hmem with (hmem | hmem) | hmem
    · exact placed_of_compiles hcond hmem
    · exact (hyes.placed hflat mention hmem).widen (List.subset_append_left ..)
        (List.subset_append_left ..)
    · exact (hno.placed hflat mention hmem).widen (List.subset_append_right ..)
        (List.subset_append_right ..)
  | _, _, _, _, _, _, _, .while hcond hbody, mention, hmem => by
    simp only [Instr.allMentions, Instr.mentions, List.append_nil, List.mem_append] at hmem
    rcases hmem with hmem | hmem
    · exact placed_of_compiles hcond hmem
    · exact hbody.placed hflat mention hmem
  | _, _, _, _, _, _, _, .forOne hiter hloop hbody, mention, hmem => by
    simp only [Instr.allMentions, Instr.mentions, Option.toList_none, List.map_cons, List.map_nil,
      List.append_nil, List.mem_append, List.mem_singleton] at hmem
    rcases hmem with (hmem | rfl) | hmem
    · exact placed_of_compiles hiter hmem
    · exact .inr (.inl List.mem_cons_self)
    · subst hloop
      refine (hbody.placed hflat mention hmem).leave [_] fun slot hmem => ?_
      exact (Locals.mem_slots_insert hmem).symm.imp_right List.mem_singleton.mpr
  | _, locals, _, _, _, _, _, .forTwo hiter _ hloop hbody, mention, hmem => by
    simp only [Instr.allMentions, Instr.mentions, Option.toList_some, List.map_cons, List.map_nil,
      List.append_nil, List.mem_append, List.mem_cons, List.not_mem_nil, or_false] at hmem
    rcases hmem with (hmem | rfl | rfl) | hmem
    · exact placed_of_compiles hiter hmem
    · exact .inr (.inl List.mem_cons_self)
    · exact .inr (.inl (List.mem_cons_of_mem _ List.mem_cons_self))
    · subst hloop
      refine (hbody.placed hflat mention hmem).leave [_, _] fun slot hmem => ?_
      rcases Locals.mem_slots_insert hmem with rfl | hmem
      · exact .inr (List.mem_cons_of_mem _ List.mem_cons_self)
      · rcases Locals.mem_slots_insert hmem with rfl | hmem
        · exact .inr List.mem_cons_self
        · exact .inl hmem

/-- Code mentions slots of variables in scope, of those that it declares, and its scratch slots. -/
theorem BlockPlaced.placed (hflat : Confined flat) : ∀ {ctx : CheckContext} {locals : Locals}
    {body : List Stmt} {code : List Instr} {declared scratch : List Nat},
    BlockPlaced fabrics flat ctx locals body code declared scratch →
    ∀ mention ∈ Instr.allMentions code, Placed locals declared scratch mention.slot
  | _, _, _, _, _, _, .nil, _, hmem => nomatch hmem
  | _, _, _, _, _, _, .cons _ _ _ hstmt hrest, mention, hmem => by
    rw [Instr.allMentions_append, List.mem_append] at hmem
    rcases hmem with hmem | hmem
    · exact (hstmt.placed hflat mention hmem).widen (List.subset_append_left ..)
        (List.subset_append_left ..)
    · exact ((hrest.placed hflat mention hmem).leave _ fun slot hmem => hstmt.mem_slots hmem).widen
        (List.Subset.refl _) (List.subset_append_right ..)

end

end Lower

end Attire

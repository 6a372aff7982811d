import Attire.Proofs.Lowering.Gives
import Attire.Proofs.Typing.Rules

namespace Attire

/-! No `break` and no `continue` of a typed body is outside of a loop. -/

mutual

/-- Breaks and continues are only inside of loops. -/
def Instr.Contained : Instr → Prop
  | .break | .continue => False
  | .branch _ yes no => Instr.AllContained yes ∧ Instr.AllContained no
  | _ => True

def Instr.AllContained : List Instr → Prop
  | [] => True
  | instr :: rest => instr.Contained ∧ Instr.AllContained rest

end

theorem Instr.allContained_append {first second : List Instr} :
    Instr.AllContained (first ++ second) ↔
      Instr.AllContained first ∧ Instr.AllContained second := by
  induction first with
  | nil => simp [Instr.AllContained]
  | cons instr rest ih => simp [Instr.AllContained, ih, and_assoc]

namespace Lower

open CheckContext

variable {fabrics : Fabrics} {state : LoweringState}

theorem missingInstr_contained {what : String} :
    Gives (missingInstr what) state fun instr _ => instr.Contained :=
  Gives.seq fun _ _ => trivial

theorem lowerAssign_contained {target value : Expr} :
    Gives (lowerAssign fabrics target value) state fun instr _ => instr.Contained := by
  unfold lowerAssign
  split
  case h_1 =>
    refine Gives.seq fun slot state => ?_
    cases slot with
    | none => exact missingInstr_contained
    | some slot => exact Gives.seq fun _ _ => trivial
  case h_2 =>
    split
    · exact Gives.seq fun _ _ => Gives.seq fun _ _ => trivial
    · exact missingInstr_contained
  case h_3 => exact Gives.seq fun _ _ => Gives.seq fun _ _ => Gives.seq fun _ _ =>
      Gives.seq fun _ _ => trivial
  case h_4 => exact missingInstr_contained

theorem lowerUpdate_contained {op : CompoundOp} {ty : Ty} {target value : Expr} :
    Gives (lowerUpdate fabrics op ty target value) state fun instr _ => instr.Contained := by
  unfold lowerUpdate
  split
  case h_1 =>
    refine Gives.seq fun slot state => ?_
    cases slot with
    | none => exact missingInstr_contained
    | some slot => exact Gives.seq fun _ _ => trivial
  case h_2 =>
    split
    · exact Gives.seq fun _ _ => Gives.seq fun _ _ => Gives.seq fun _ _ => trivial
    · exact missingInstr_contained
  case h_3 =>
    refine Gives.seq fun kind state => ?_
    dsimp only
    split
    · exact missingInstr_contained
    · exact Gives.seq fun _ _ => Gives.seq fun _ _ => Gives.seq fun _ _ => Gives.seq fun _ _ =>
        Gives.seq fun _ _ => Gives.seq fun _ _ => trivial
  case h_4 => exact missingInstr_contained

theorem lowerCompound_contained {op : CompoundOp} {target value : Expr} :
    Gives (lowerCompound fabrics op target value) state fun instr _ => instr.Contained := by
  refine Gives.seq fun ty state => ?_
  split
  case h_5 => exact lowerUpdate_contained
  all_goals exact Gives.seq fun _ _ => Gives.seq fun _ _ => trivial

theorem flush_contained : Gives flush state fun instrs _ => Instr.AllContained instrs := by
  refine Gives.seq fun slots state => ?_
  cases slots with
  | none => trivial
  | some slots => exact ⟨trivial, trivial⟩

mutual

theorem lowerStmt_contained : ∀ {ctx after : CheckContext} {stmt : Stmt},
    StmtTyped ctx stmt after → ctx.inLoop = false → ∀ state,
      Gives (lowerStmt fabrics stmt) state fun instrs _ => Instr.AllContained instrs
  | _, _, _, .letInferred .., _, _ | _, _, _, .letDeclared .., _, _
  | _, _, _, .letDefault .., _, _ =>
    Gives.seq fun _ _ => Gives.seq fun _ _ => Gives.seq fun _ _ => ⟨trivial, trivial⟩
  | _, _, _, .assign .., _, _ =>
    Gives.bind lowerAssign_contained fun _ _ hinstr => ⟨hinstr, trivial⟩
  | _, _, _, .change .., _, _ | _, _, _, .update .., _, _ =>
    Gives.bind lowerCompound_contained fun _ _ hinstr => ⟨hinstr, trivial⟩
  | _, _, _, .branch _ hyes hno, hloop, state => by
    refine Gives.seq fun cond state => ?_
    refine Gives.bind (inBlock_gives (lowerStmts_contained hyes hloop) state)
      fun yes state hyes => ?_
    exact Gives.bind (inBlock_gives (lowerStmts_contained hno hloop) state)
      fun no _ hno => ⟨⟨hyes, hno⟩, trivial⟩
  | _, _, _, .while .., _, _ => Gives.seq fun _ _ => Gives.seq fun _ _ => ⟨trivial, trivial⟩
  | _, _, .for (some plan) key value _ _ _ body _, .for .., _, state => by
    refine Gives.seq fun source state => inBlock_gives (fun state => ?_) state
    refine Gives.seq fun first state => Gives.seq fun _ state => ?_
    have hloop : ∀ second state, Gives (do
        let body ← inBlock (lowerStmts fabrics body)
        return [Instr.forEach source plan.kind first second body]) state
        fun instrs _ => Instr.AllContained instrs :=
      fun second state => Gives.seq fun _ _ => ⟨trivial, trivial⟩
    cases value with
    | none => exact hloop none state
    | some name =>
      cases plan.second with
      | none => exact hloop none state
      | some ty => exact Gives.seq fun slot state => Gives.seq fun _ state => hloop (some slot) state
  | _, _, _, .returnNothing _, _, _ => ⟨trivial, trivial⟩
  | _, _, _, .break hinside, hloop, _ | _, _, _, .continue hinside, hloop, _ =>
    absurd hinside (by simp [hloop])
  | _, _, _, .expr .., _, _ | _, _, _, .returnValue .., _, _ | _, _, _, .extend .., _, _
  | _, _, _, .retract .., _, _ | _, _, _, .enforce .., _, _ =>
    Gives.seq fun _ _ => ⟨trivial, trivial⟩

theorem lowerStmts_contained : ∀ {ctx : CheckContext} {body : List Stmt}, BlockTyped ctx body →
    ctx.inLoop = false → ∀ state,
      Gives (lowerStmts fabrics body) state fun instrs _ => Instr.AllContained instrs
  | _, _, .nil, _, _ => trivial
  | _, _, .cons hstmt hrest, hloop, state => by
    obtain ⟨scopes, rfl⟩ := hstmt.scoped
    refine Gives.bind (lowerStmt_contained hstmt hloop state) fun instrs state hinstrs => ?_
    refine Gives.bind flush_contained fun released state hreleased => ?_
    refine Gives.bind (lowerStmts_contained hrest hloop state) fun rest _ hrest => ?_
    exact Instr.allContained_append.mpr
      ⟨Instr.allContained_append.mpr ⟨hinstrs, hreleased⟩, hrest⟩

end

theorem finish_contained {name : String} {arity : Nat} {ret : Ty} {run : Lower (List Instr)}
    {routine : Routine} (h : finish name arity ret run = .ok routine)
    (hrun : Gives run {} fun body _ => Instr.AllContained body) :
    Instr.AllContained routine.body := by
  obtain ⟨-, hroutine⟩ := finish_eq_ok h
  rw [hroutine]
  exact hrun

end Lower

open Lower

variable {fabrics : Fabrics} {className : String} {routine : Routine}

theorem lowerMethod_contained {ctx : CheckContext} {sig : MethodSig} {decl : MethodDecl}
    (h : lowerMethod fabrics className sig decl = .ok routine) (hloop : ctx.inLoop = false)
    (hbody : CheckContext.BlockTyped ctx decl.body) : Instr.AllContained routine.body := by
  refine finish_contained h (inBlock_gives (fun state => ?_) _)
  exact Gives.seq fun _ state => inBlock_gives (lowerStmts_contained hbody hloop) state

theorem lowerInitializer_contained {ty : Ty} {decl : FieldDecl}
    (h : lowerInitializer fabrics className decl ty = .ok routine) :
    Instr.AllContained routine.body := by
  refine finish_contained h (inBlock_gives (fun state => ?_) _)
  exact Gives.seq fun _ _ => ⟨trivial, trivial⟩

end Attire

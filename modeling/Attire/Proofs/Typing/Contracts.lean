import Attire.Proofs.Results
import Attire.Ty
import Attire.Typing.Resolve

namespace Attire

/-! Types and signatures up to the identity of methods. -/

namespace Ty

mutual

/-- The type with the owners and names of methods left out. -/
def anonymous : Ty → Ty
  | array element => array (anonymous element)
  | tuple elements => tuple (anonymousAll elements)
  | map key value => map (anonymous key) (anonymous value)
  | set element => set (anonymous element)
  | method _ _ mutating mutatingThis ret params =>
    method ⟨0⟩ "" mutating mutatingThis (anonymous ret) (anonymousAll params)
  | ty => ty

def anonymousAll : List Ty → List Ty
  | [] => []
  | ty :: rest => anonymous ty :: anonymousAll rest

end

mutual

theorem same_iff : ∀ {a b : Ty}, a.same b ↔ a.anonymous = b.anonymous
  | .num, b | .text, b | .bool, b | .void, b | .null, b | .object _, b | .suggestion, b => by
    cases b <;> simp [same, anonymous]
  | .array _, b | .set _, b => by
    cases b <;> simp [same, anonymous, same_iff]
  | .map _ _, b => by
    cases b <;> simp [same, anonymous, same_iff]
  | .tuple _, b => by
    cases b <;> simp [same, anonymous, sameAll_iff]
  | .method .., b => by
    cases b <;> simp [same, anonymous, same_iff, sameAll_iff, and_assoc]

theorem sameAll_iff : ∀ {as bs : List Ty}, sameAll as bs ↔ anonymousAll as = anonymousAll bs
  | [], bs => by cases bs <;> simp [sameAll, anonymousAll]
  | a :: as, bs => by
    cases bs <;> simp [sameAll, anonymousAll, same_iff, sameAll_iff]

end

mutual

theorem anonymous_of_resolveType {names : NameScope} : ∀ {written : TypeExpr} {ty : Ty},
    names.resolveType written = .ok ty → ty.anonymous = ty
  | .num, _, h | .text, _, h | .bool, _, h | .void, _, h | .suggestion, _, h => by
    cases h
    rfl
  | .named path, _, h => by
    obtain ⟨cls, -, h⟩ := bind_eq_ok.mp h
    cases h
    rfl
  | .array element, _, h | .set element, _, h => by
    obtain ⟨ty, hty, h⟩ := bind_eq_ok.mp h
    cases h
    rw [anonymous, anonymous_of_resolveType hty]
  | .map key value, _, h => by
    obtain ⟨keyTy, hkey, h⟩ := bind_eq_ok.mp h
    obtain ⟨valueTy, hvalue, h⟩ := bind_eq_ok.mp h
    cases h
    rw [anonymous, anonymous_of_resolveType hkey, anonymous_of_resolveType hvalue]
  | .tuple elements, _, h => by
    obtain ⟨types, htypes, h⟩ := bind_eq_ok.mp h
    cases h
    rw [anonymous, anonymousAll_of_resolveTypes htypes]

theorem anonymousAll_of_resolveTypes {names : NameScope} : ∀ {written : List TypeExpr}
    {types : List Ty}, names.resolveTypes written = .ok types → anonymousAll types = types
  | [], _, h => by
    cases h
    rfl
  | _ :: _, _, h => by
    obtain ⟨ty, hty, h⟩ := bind_eq_ok.mp h
    obtain ⟨rest, hrest, h⟩ := bind_eq_ok.mp h
    cases h
    rw [anonymousAll, anonymous_of_resolveType hty, anonymousAll_of_resolveTypes hrest]

end

/-- The type can be written down, so it mentions no types of methods. -/
def Written (ty : Ty) : Prop :=
  ∃ (names : NameScope) (written : TypeExpr), names.resolveType written = .ok ty

theorem Written.anonymous_eq {ty : Ty} (h : ty.Written) : ty.anonymous = ty := by
  obtain ⟨names, written, hwritten⟩ := h
  exact anonymous_of_resolveType hwritten

theorem anonymousAll_eq {types : List Ty} (h : ∀ ty ∈ types, ty.Written) :
    anonymousAll types = types := by
  induction types with
  | nil => rfl
  | cons ty rest ih =>
    rw [anonymousAll, (h ty (by simp)).anonymous_eq, ih fun other hmem => h other (by simp [hmem])]

theorem written_of_resolveTypes {names : NameScope} {written : List TypeExpr} {types : List Ty}
    (h : names.resolveTypes written = .ok types) : ∀ ty ∈ types, ty.Written := by
  induction written generalizing types with
  | nil =>
    cases h
    exact nofun
  | cons first rest ih =>
    obtain ⟨ty, hty, h⟩ := bind_eq_ok.mp h
    obtain ⟨others, hothers, h⟩ := bind_eq_ok.mp h
    cases h
    exact List.forall_mem_cons.mpr ⟨⟨names, first, hty⟩, ih hothers⟩

end Ty

/-- The types of a method can be written down. -/
structure MethodSig.Written (sig : MethodSig) : Prop where
  ret : sig.ret.Written
  params : ∀ ty ∈ sig.params, ty.Written

/-- What a caller relies on. -/
def MethodSig.contract (sig : MethodSig) : MethodSig where
  owner := ⟨0⟩
  name := ""
  mutating := sig.mutating
  mutatingThis := sig.mutatingThis
  ret := sig.ret.anonymous
  params := Ty.anonymousAll sig.params

theorem MethodSig.sameContract_iff {a b : MethodSig} :
    a.sameContract b ↔ a.contract = b.contract := by
  simp [sameContract, contract, Ty.same_iff, Ty.sameAll_iff, and_assoc]

theorem MethodSig.flags_eq {a b : MethodSig} (h : a.contract = b.contract) :
    a.mutating = b.mutating ∧ a.mutatingThis = b.mutatingThis := by
  simp only [contract, mk.injEq] at h
  exact ⟨h.2.2.1, h.2.2.2.1⟩

theorem MethodSig.Written.types_eq {a b : MethodSig} (ha : a.Written) (hb : b.Written)
    (h : a.contract = b.contract) : a.ret = b.ret ∧ a.params = b.params := by
  simp only [contract, mk.injEq, ha.ret.anonymous_eq, hb.ret.anonymous_eq,
    Ty.anonymousAll_eq ha.params, Ty.anonymousAll_eq hb.params] at h
  exact ⟨h.2.2.2.2.1, h.2.2.2.2.2⟩

end Attire

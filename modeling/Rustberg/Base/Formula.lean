import Mathlib.Order.BoundedOrder.Lattice
import Mathlib.Order.Lattice
import Mathlib.Order.Nat

/-!
# Formulas with holes

A `Formula` is built from atoms by conjunction, disjunction and negation,
and may hold holes: parts whose meaning is not known. Its value is taken in
any bounded lattice with an order-reversing negation, `Truth` with its
third value among them.

`Formula.widen` replaces each hole by a constant, true where it stands
under an even number of negations and false under an odd number, and
`eval_le_widen` is the reason for the sign: whatever the holes mean, the
result is implied by the formula.
-/

namespace Logic

universe u v w

/-! ## Three truth values -/

inductive Truth where
  | no
  | unknown
  | yes
  deriving DecidableEq, Repr

namespace Truth

def rank : Truth → Nat
  | no => 0
  | unknown => 1
  | yes => 2

theorem rank_injective : Function.Injective rank := by
  intro a b
  cases a <;> cases b <;> simp [rank]

/-- From false over unknown to true. -/
instance : LinearOrder Truth := LinearOrder.lift' rank rank_injective

theorem le_def {a b : Truth} : a ≤ b ↔ a.rank ≤ b.rank := Iff.rfl

instance : BoundedOrder Truth where
  top := yes
  le_top a := by cases a <;> decide
  bot := no
  bot_le a := by cases a <;> decide

theorem top_eq_yes : (⊤ : Truth) = yes := rfl

theorem bot_eq_no : (⊥ : Truth) = no := rfl

protected def not : Truth → Truth
  | no => yes
  | unknown => unknown
  | yes => no

@[simp] theorem not_no : no.not = yes := rfl

@[simp] theorem not_unknown : unknown.not = unknown := rfl

@[simp] theorem not_yes : yes.not = no := rfl

@[simp] theorem not_not (a : Truth) : a.not.not = a := by cases a <;> rfl

theorem not_antitone : Antitone Truth.not := by
  intro a b hab
  cases a <;> cases b <;> revert hab <;> decide

/-- What is implied by a truth is true. -/
theorem eq_yes_of_le {a b : Truth} (h : a ≤ b) (ha : a = yes) : b = yes := by
  subst ha
  exact top_le_iff.mp h

end Truth

/-! ## Formulas -/

inductive Formula (A : Type u) (H : Type v) where
  | const (b : Bool)
  | atom (a : A)
  | hole (h : H)
  | and (left right : Formula A H)
  | or (left right : Formula A H)
  | not (child : Formula A H)

namespace Formula

variable {A : Type u} {H : Type v} {V : Type w}

/-- Every hole replaced by the constant its polarity calls for. -/
def widen : Bool → Formula A H → Formula A Empty
  | _, const b => const b
  | _, atom a => atom a
  | positive, hole _ => const positive
  | positive, and left right => and (left.widen positive) (right.widen positive)
  | positive, or left right => or (left.widen positive) (right.widen positive)
  | positive, not child => not (child.widen !positive)

section Eval

variable [Lattice V] [BoundedOrder V] (neg : V → V) (atomValue : A → V) (holeValue : H → V)

def eval : Formula A H → V
  | const b => if b then ⊤ else ⊥
  | atom a => atomValue a
  | hole h => holeValue h
  | and left right => left.eval ⊓ right.eval
  | or left right => left.eval ⊔ right.eval
  | not child => neg child.eval

variable {neg}

/-- Widened, a formula is implied by itself; under a negation it implies itself. -/
theorem eval_widen (hneg : Antitone neg) (f : Formula A H) :
    f.eval neg atomValue holeValue ≤ (f.widen true).eval neg atomValue Empty.elim ∧
      (f.widen false).eval neg atomValue Empty.elim ≤ f.eval neg atomValue holeValue := by
  induction f with
  | const b => exact ⟨le_rfl, le_rfl⟩
  | atom a => exact ⟨le_rfl, le_rfl⟩
  | hole h => exact ⟨le_top, bot_le⟩
  | and left right ihl ihr => exact ⟨inf_le_inf ihl.1 ihr.1, inf_le_inf ihl.2 ihr.2⟩
  | or left right ihl ihr => exact ⟨sup_le_sup ihl.1 ihr.1, sup_le_sup ihl.2 ihr.2⟩
  | not child ih => exact ⟨hneg ih.2, hneg ih.1⟩

theorem eval_le_widen (hneg : Antitone neg) (f : Formula A H) :
    f.eval neg atomValue holeValue ≤ (f.widen true).eval neg atomValue Empty.elim :=
  (eval_widen atomValue holeValue hneg f).1

end Eval

/-! ## Reading the atoms -/

def atoms : Formula A H → List A
  | const _ => []
  | atom a => [a]
  | hole _ => []
  | and left right => left.atoms ++ right.atoms
  | or left right => left.atoms ++ right.atoms
  | not child => child.atoms

def Holeless : Formula A H → Prop
  | const _ => True
  | atom _ => True
  | hole _ => False
  | and left right => left.Holeless ∧ right.Holeless
  | or left right => left.Holeless ∧ right.Holeless
  | not child => child.Holeless

variable {B : Type*} {K : Type*}

/-- Every atom read by `g`; nothing where one cannot be read or a hole is met. -/
def traverse (g : A → Option B) : Formula A H → Option (Formula B K)
  | const b => some (const b)
  | atom a => (g a).map atom
  | hole _ => none
  | and left right => do return and (← left.traverse g) (← right.traverse g)
  | or left right => do return or (← left.traverse g) (← right.traverse g)
  | not child => (child.traverse g).map not

theorem traverse_isSome {g : A → Option B} {f : Formula A H} :
    (f.traverse g : Option (Formula B K)).isSome ↔ f.Holeless ∧ ∀ a ∈ f.atoms, (g a).isSome := by
  induction f with
  | const b => simp [traverse, Holeless, atoms]
  | atom a => simp [traverse, Holeless, atoms]
  | hole h => simp [traverse, Holeless]
  | and left right ihl ihr | or left right ihl ihr =>
      simp only [Holeless, atoms, List.forall_mem_append]
      rw [and_and_and_comm, ← ihl, ← ihr, traverse]
      cases (left.traverse g : Option (Formula B K)) <;>
        cases (right.traverse g : Option (Formula B K)) <;> simp
  | not child ih =>
      rw [traverse, Option.isSome_map, ih]
      rfl

/-- Read by `g` and then by `g'` is read by both in turn. -/
theorem traverse_traverse {C : Type*} {L : Type*} (g : A → Option B) (g' : B → Option C)
    (f : Formula A H) :
    ((f.traverse g : Option (Formula B K)).bind fun f' => f'.traverse g') =
      (f.traverse fun a => (g a).bind g' : Option (Formula C L)) := by
  induction f with
  | const b => rfl
  | atom a => cases h : g a <;> simp [traverse, h]
  | hole h => rfl
  | and left right ihl ihr | or left right ihl ihr =>
      rw [traverse, traverse, ← ihl, ← ihr]
      cases (left.traverse g : Option (Formula B K)) with
      | none => rfl
      | some l =>
          cases (right.traverse g : Option (Formula B K)) with
          | none => simp
          | some r => simp [traverse]
  | not child ih =>
      rw [traverse, traverse, ← ih]
      cases (child.traverse g : Option (Formula B K)) <;> simp [traverse]

/-- Atoms that are read alike make formulas of one value. -/
theorem eval_traverse [Lattice V] [BoundedOrder V] {neg : V → V} {C : Type*} {L : Type*}
    {g : A → Option B} {g' : A → Option C} {valueB : B → V} {valueC : C → V}
    {holeK : K → V} {holeL : L → V} {f : Formula A H} (hf : f.Holeless)
    (hatoms : ∀ a ∈ f.atoms, ∃ b c, g a = some b ∧ g' a = some c ∧ valueB b = valueC c) :
    ∃ (l : Formula B K) (r : Formula C L), f.traverse g = some l ∧ f.traverse g' = some r ∧
      l.eval neg valueB holeK = r.eval neg valueC holeL := by
  induction f with
  | const b => exact ⟨const b, const b, rfl, rfl, rfl⟩
  | atom a =>
      obtain ⟨b, c, hb, hc, hvalue⟩ := hatoms a (List.mem_singleton_self a)
      exact ⟨atom b, atom c, by rw [traverse, hb]; rfl, by rw [traverse, hc]; rfl, hvalue⟩
  | hole h => exact hf.elim
  | and left right ihl ihr =>
      obtain ⟨hl, hr⟩ := List.forall_mem_append.mp hatoms
      obtain ⟨l, l', hl, hl', hleft⟩ := ihl hf.1 hl
      obtain ⟨r, r', hr, hr', hright⟩ := ihr hf.2 hr
      exact ⟨and l r, and l' r', by rw [traverse, hl, hr]; rfl, by rw [traverse, hl', hr']; rfl,
        by rw [eval, eval, hleft, hright]⟩
  | or left right ihl ihr =>
      obtain ⟨hl, hr⟩ := List.forall_mem_append.mp hatoms
      obtain ⟨l, l', hl, hl', hleft⟩ := ihl hf.1 hl
      obtain ⟨r, r', hr, hr', hright⟩ := ihr hf.2 hr
      exact ⟨or l r, or l' r', by rw [traverse, hl, hr]; rfl, by rw [traverse, hl', hr']; rfl,
        by rw [eval, eval, hleft, hright]⟩
  | not child ih =>
      obtain ⟨l, l', hl, hl', hchild⟩ := ih hf hatoms
      exact ⟨not l, not l', by rw [traverse, hl]; rfl, by rw [traverse, hl']; rfl,
        by rw [eval, eval, hchild]⟩

/-! ## Folding constants -/

/-- The constant a formula folds to. -/
def folded : Formula A H → Option Bool
  | const b => some b
  | atom _ => none
  | hole _ => none
  | and left right =>
      if left.folded = some false ∨ right.folded = some false then some false
      else if left.folded = some true ∧ right.folded = some true then some true
      else none
  | or left right =>
      if left.folded = some true ∨ right.folded = some true then some true
      else if left.folded = some false ∧ right.folded = some false then some false
      else none
  | not child => child.folded.map (!·)

theorem folded_and (left right : Formula A H) : (and left right).folded =
    if left.folded = some false ∨ right.folded = some false then some false
    else if left.folded = some true ∧ right.folded = some true then some true
    else none := rfl

theorem folded_or (left right : Formula A H) : (or left right).folded =
    if left.folded = some true ∨ right.folded = some true then some true
    else if left.folded = some false ∧ right.folded = some false then some false
    else none := rfl

theorem folded_and_false {left right : Formula A H} :
    (and left right).folded = some false ↔
      left.folded = some false ∨ right.folded = some false := by
  rw [folded_and]
  split
  · next h => exact iff_of_true rfl h
  · next h => split <;> simp [h]

theorem folded_and_true {left right : Formula A H} :
    (and left right).folded = some true ↔ left.folded = some true ∧ right.folded = some true := by
  rw [folded_and]
  split
  · next h => rcases h with h | h <;> simp [h]
  · split
    · next h => exact iff_of_true rfl h
    · next h => simp [h]

theorem folded_or_true {left right : Formula A H} :
    (or left right).folded = some true ↔ left.folded = some true ∨ right.folded = some true := by
  rw [folded_or]
  split
  · next h => exact iff_of_true rfl h
  · next h => split <;> simp [h]

theorem folded_or_false {left right : Formula A H} :
    (or left right).folded = some false ↔ left.folded = some false ∧ right.folded = some false := by
  rw [folded_or]
  split
  · next h => rcases h with h | h <;> simp [h]
  · split
    · next h => exact iff_of_true rfl h
    · next h => simp [h]

theorem folded_traverse {g : A → Option B} {f : Formula A H} {f' : Formula B K}
    (h : f.traverse g = some f') : f'.folded = f.folded := by
  induction f generalizing f' with
  | const b =>
      cases h
      rfl
  | atom a =>
      obtain ⟨b, -, rfl⟩ := Option.map_eq_some_iff.mp h
      rfl
  | hole a => cases h
  | and left right ihl ihr | or left right ihl ihr =>
      rw [traverse] at h
      cases hl : (left.traverse g : Option (Formula B K)) with
      | none =>
          rw [hl] at h
          cases h
      | some l =>
          cases hr : (right.traverse g : Option (Formula B K)) with
          | none =>
              rw [hl, hr] at h
              cases h
          | some r =>
              rw [hl, hr] at h
              cases h
              rw [folded, folded, ihl hl, ihr hr]
  | not child ih =>
      obtain ⟨f', hf', rfl⟩ := Option.map_eq_some_iff.mp h
      rw [folded, folded, ih hf']

/-- The atoms that folding leaves. -/
def live : Formula A H → List A
  | const _ => []
  | atom a => [a]
  | hole _ => []
  | and left right =>
      if (and left right).folded.isSome then [] else left.live ++ right.live
  | or left right =>
      if (or left right).folded.isSome then [] else left.live ++ right.live
  | not child => child.live

theorem live_subset_atoms (f : Formula A H) : f.live ⊆ f.atoms := by
  induction f with
  | const b => exact List.Subset.refl _
  | atom a => exact List.Subset.refl _
  | hole h => exact List.Subset.refl _
  | and left right ihl ihr | or left right ihl ihr =>
      rw [live, atoms]
      split
      · exact List.nil_subset _
      · exact List.append_subset.mpr ⟨List.subset_append_of_subset_left _ ihl,
          List.subset_append_of_subset_right _ ihr⟩
  | not child ih => exact ih

theorem live_traverse {g : A → Option B} {f : Formula A H} {f' : Formula B K}
    (h : f.traverse g = some f') : f'.live = f.live.filterMap g := by
  induction f generalizing f' with
  | const b =>
      cases h
      rfl
  | atom a =>
      obtain ⟨b, hb, rfl⟩ := Option.map_eq_some_iff.mp h
      rw [live, live, List.filterMap_cons_some hb]
      rfl
  | hole a => cases h
  | and left right ihl ihr | or left right ihl ihr =>
      have hfolded := folded_traverse h
      obtain ⟨l, hl, h⟩ := Option.bind_eq_some_iff.mp h
      obtain ⟨r, hr, h⟩ := Option.bind_eq_some_iff.mp h
      obtain rfl := Option.some.inj h
      rw [live, live, hfolded, ihl hl, ihr hr]
      split
      · rfl
      · exact List.filterMap_append.symm
  | not child ih =>
      obtain ⟨inner, hinner, rfl⟩ := Option.map_eq_some_iff.mp h
      rw [live, live, ih hinner]

end Formula

end Logic

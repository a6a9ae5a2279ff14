import Mathlib.Data.List.Basic

/-!
# Results

What a fallible computation that succeeds has gone through: each of its
steps has succeeded, and each element of a traversal.
-/

namespace Except

variable {α β ε ε' : Type}

theorem ok_bind (a : α) (f : α → Except ε β) : ((.ok a : Except ε α) >>= f) = f a := rfl

theorem bind_eq_ok {r : Except ε α} {f : α → Except ε β} {b : β} :
    (r >>= f) = .ok b ↔ ∃ a, r = .ok a ∧ f a = .ok b := by
  cases r with
  | error e =>
      refine iff_of_false (fun h => by cases h) ?_
      rintro ⟨a, h, -⟩
      cases h
  | ok a =>
      refine ⟨fun h => ⟨a, rfl, h⟩, ?_⟩
      rintro ⟨a', h, hf⟩
      cases h
      exact hf

theorem map_eq_ok {r : Except ε α} {f : α → β} {b : β} :
    r.map f = .ok b ↔ ∃ a, r = .ok a ∧ f a = b := by
  cases r with
  | error e =>
      refine iff_of_false (fun h => by cases h) ?_
      rintro ⟨a, h, -⟩
      cases h
  | ok a =>
      refine ⟨fun h => ⟨a, rfl, Except.ok.inj h⟩, ?_⟩
      rintro ⟨a', h, rfl⟩
      cases h
      rfl

theorem mapError_eq_ok {r : Except ε α} {f : ε → ε'} {a : α} :
    r.mapError f = .ok a ↔ r = .ok a := by
  cases r with
  | error e => exact iff_of_false (fun h => by cases h) (fun h => by cases h)
  | ok b => exact ⟨fun h => congrArg Except.ok (Except.ok.inj h),
      fun h => congrArg Except.ok (Except.ok.inj h)⟩

theorem error_ne_ok {e : ε} : ¬ ∃ a, (.error e : Except ε α) = .ok a := by
  rintro ⟨a, h⟩
  cases h

/-- No element is read of none. -/
theorem none_ne_some {P : α → Prop} : ¬ ∃ a, (none : Option α) = some a ∧ P a := by
  rintro ⟨a, h, -⟩
  cases h

theorem toOption_eq_none {r : Except ε α} : r.toOption = none ↔ ∃ e, r = .error e := by
  cases r with
  | error e => exact iff_of_true rfl ⟨e, rfl⟩
  | ok a => exact iff_of_false (fun h => by cases h) fun ⟨_, h⟩ => by cases h

theorem toOption_eq_some {r : Except ε α} {a : α} : r.toOption = some a ↔ r = .ok a := by
  cases r with
  | error e => exact iff_of_false (fun h => by cases h) (fun h => by cases h)
  | ok b => exact ⟨fun h => congrArg Except.ok (Option.some.inj h),
      fun h => congrArg some (Except.ok.inj h)⟩

/-- What a traversal yields, some element has yielded. -/
theorem of_mem_mapM {f : α → Except ε β} {as : List α} {bs : List β}
    (h : as.mapM f = .ok bs) : ∀ b ∈ bs, ∃ a ∈ as, f a = .ok b := by
  induction as generalizing bs with
  | nil =>
      cases h
      intro b hb
      cases hb
  | cons a as ih =>
      rw [List.mapM_cons] at h
      obtain ⟨b, hb, h⟩ := bind_eq_ok.mp h
      obtain ⟨bs, hbs, h⟩ := bind_eq_ok.mp h
      cases h
      intro b' hb'
      rcases List.mem_cons.mp hb' with rfl | hb'
      · exact ⟨a, List.mem_cons_self, hb⟩
      · obtain ⟨a', ha', h⟩ := ih hbs b' hb'
        exact ⟨a', List.mem_cons_of_mem a ha', h⟩

/-- Each element yields the one in its place. -/
theorem forall₂_of_mapM {f : α → Except ε β} {as : List α} {bs : List β} (h : as.mapM f = .ok bs) :
    List.Forall₂ (fun a b => f a = .ok b) as bs := by
  induction as generalizing bs with
  | nil =>
      cases h
      exact .nil
  | cons a as ih =>
      rw [List.mapM_cons] at h
      obtain ⟨b, hb, h⟩ := bind_eq_ok.mp h
      obtain ⟨bs, hbs, h⟩ := bind_eq_ok.mp h
      cases h
      exact .cons hb (ih hbs)

/-- A traversal succeeds where every element does. -/
theorem exists_mapM_ok {f : α → Except ε β} {as : List α} :
    (∃ bs, as.mapM f = .ok bs) ↔ ∀ a ∈ as, ∃ b, f a = .ok b := by
  induction as with
  | nil => exact iff_of_true ⟨[], rfl⟩ fun a h => by cases h
  | cons a as ih =>
      rw [List.forall_mem_cons, ← ih, List.mapM_cons]
      constructor
      · rintro ⟨bs, h⟩
        obtain ⟨b, hb, h⟩ := bind_eq_ok.mp h
        obtain ⟨bs', hbs, -⟩ := bind_eq_ok.mp h
        exact ⟨⟨b, hb⟩, bs', hbs⟩
      · rintro ⟨⟨b, hb⟩, bs, hbs⟩
        exact ⟨b :: bs, by rw [hb, hbs]; rfl⟩

end Except

import Mathlib

/-!
# Programs over atomic effects, and their interleavings

A `Prog` is a computation that performs effects one at a time and
continues with the answer of each: an effect is one atomic step of a
shared store, and between two effects of one program any number of
effects of other programs may take place.

- `Prog.run` runs one program alone against a handler.
- `Step`/`Run` interleave any number of calls, each started at any time
  and suspended between its effects; a `Run` records every event with
  the state before and after it.
- `Run.invariant` is the induction over runs: what holds at the start
  and is kept by every event of the run holds at its end.
- `Run.follows` projects a run to one call: the effects of call `i`, in
  order, are a path through its program. What a program does whatever
  the answers are is then a statement about `Prog` alone: `Prog.Meets` for
  the effects it can perform and its results, `Prog.Follows` for the order they come in.
  `Prog.Traced` is for what depends on the answers seen so far.
- `Run.moves` turns a schedule into a run.
-/

namespace Process

universe u v w

/-- A computation of an `α` that performs effects `e : E`, each answered
by an `R e`. -/
inductive Prog (E : Type u) (R : E → Type v) (α : Type w) where
  | done (a : α)
  | perform (e : E) (k : R e → Prog E R α)

namespace Prog

variable {E : Type u} {R : E → Type v} {α β : Type w}

def bind : Prog E R α → (α → Prog E R β) → Prog E R β
  | done a, f => f a
  | perform e k, f => perform e fun r => (k r).bind f

instance : Monad (Prog E R) where
  pure := done
  bind := bind

/-- The program that performs `e` and returns its answer. -/
def call (e : E) : Prog E R (R e) := perform e done

@[simp] theorem pure_eq_done (a : α) : (pure a : Prog E R α) = done a := rfl

@[simp] theorem done_bind (a : α) (f : α → Prog E R β) : (done a >>= f) = f a := rfl

@[simp] theorem perform_bind (e : E) (k : R e → Prog E R α) (f : α → Prog E R β) :
    (perform e k >>= f) = perform e fun r => k r >>= f := rfl

theorem bind_done (p : Prog E R α) : p.bind done = p := by
  induction p with
  | done a => rfl
  | perform e k ih => exact congrArg (perform e) (funext ih)

theorem bind_assoc {γ : Type w} (p : Prog E R α) (f : α → Prog E R β) (g : β → Prog E R γ) :
    (p.bind f).bind g = p.bind fun a => (f a).bind g := by
  induction p with
  | done a => rfl
  | perform e k ih => exact congrArg (perform e) (funext ih)

instance : LawfulMonad (Prog E R) :=
  LawfulMonad.mk' _ bind_done (fun _ _ => rfl) bind_assoc

/-! ## Programs in terms of others -/

section Through

variable {E' : Type u} {R' : E' → Type v} (h : (e : E) → Prog E' R' (R e))

/-- Every effect carried out by a program over other effects. -/
def through {α : Type v} : Prog E R α → Prog E' R' α
  | done a => done a
  | perform e k => (h e).bind fun r => (k r).through

@[simp] theorem through_done {α : Type v} (a : α) : (done a : Prog E R α).through h = done a := rfl

@[simp] theorem through_perform {α : Type v} (e : E) (k : R e → Prog E R α) :
    (perform e k).through h = h e >>= fun r => (k r).through h := rfl

theorem through_bind {α β : Type v} (p : Prog E R α) (f : α → Prog E R β) :
    (p >>= f).through h = p.through h >>= fun a => (f a).through h := by
  induction p with
  | done a => rfl
  | perform e k ih =>
      change (h e).bind (fun r => ((k r) >>= f).through h) = ((h e).bind fun r => _).bind _
      rw [bind_assoc]
      exact congrArg _ (funext ih)

/-- Programs that may end in an error, step by step. -/
theorem through_bind_except {ε α β : Type v} (p : ExceptT ε (Prog E R) α)
    (f : α → ExceptT ε (Prog E R) β) :
    through h (p >>= f).run =
      ((show ExceptT ε (Prog E' R') α from through h p.run) >>= fun a =>
        (show ExceptT ε (Prog E' R') β from through h (f a).run)).run := by
  refine (through_bind h p.run _).trans
    (congrArg (Prog.bind (through h p.run)) (funext fun r => ?_))
  cases r <;> rfl

end Through

/-! ## One program alone -/

section Run

variable {S : Type*}

/-- Run a program to its end, every effect answered by `h`. -/
def run (h : (e : E) → S → R e × S) : Prog E R α → S → α × S
  | done a, s => (a, s)
  | perform e k, s => run h (k (h e s).1) (h e s).2

@[simp] theorem run_done (h : (e : E) → S → R e × S) (a : α) (s : S) :
    (done a : Prog E R α).run h s = (a, s) := rfl

@[simp] theorem run_perform (h : (e : E) → S → R e × S) (e : E) (k : R e → Prog E R α)
    (s : S) : (perform e k).run h s = (k (h e s).1).run h (h e s).2 := rfl

theorem run_bind (h : (e : E) → S → R e × S) (p : Prog E R α) (f : α → Prog E R β)
    (s : S) : (p >>= f).run h s = (f (p.run h s).1).run h (p.run h s).2 := by
  induction p generalizing s with
  | done a => rfl
  | perform e k ih => exact ih _ _

/-- Sequencing of programs that may end in an error. -/
theorem run_bind_except {ε : Type w} (h : (e : E) → S → R e × S)
    (p : ExceptT ε (Prog E R) α) (f : α → ExceptT ε (Prog E R) β) (s : S) :
    Prog.run h (p >>= f).run s =
      match Prog.run h p.run s with
      | (.ok a, s') => Prog.run h (f a).run s'
      | (.error e, s') => (.error e, s') := by
  change Prog.run h (Prog.bind p.run _) s = _
  rw [show Prog.bind p.run _ = (p.run >>= _) from rfl, run_bind]
  rcases Prog.run h p.run s with ⟨r | a, s'⟩ <;> rfl

end Run

/-! ## What a program does whatever the answers are -/

/-- The effects a program has performed, oldest first, each with its answer. -/
abbrev History (E : Type u) (R : E → Type v) := List (Σ e, R e)

/-- Performing `h` takes `p` to `p'`. -/
def Follows : Prog E R α → History E R → Prog E R α → Prop
  | p, [], p' => p = p'
  | done _, _ :: _, _ => False
  | perform e k, x :: h, p' => ∃ r, x = ⟨e, r⟩ ∧ Follows (k r) h p'

@[simp] theorem follows_nil {p p' : Prog E R α} : Follows p [] p' ↔ p = p' := by
  cases p <;> rfl

theorem Follows.snoc {p p' : Prog E R α} {h : History E R} {e : E} {k : R e → Prog E R α}
    {r : R e} (hp : Follows p h p') (hp' : p' = perform e k) :
    Follows p (h ++ [⟨e, r⟩]) (k r) := by
  induction h generalizing p with
  | nil =>
      obtain rfl : p = p' := by simpa using hp
      subst hp'
      exact ⟨r, rfl, by simp⟩
  | cons x h ih =>
      cases p with
      | done a => exact hp.elim
      | perform e' k' =>
          obtain ⟨r', hx, hrest⟩ := hp
          exact ⟨r', hx, ih hrest⟩

/-- A path through a sequence stays in the first program or has finished it. -/
theorem Follows.bind_cases {p : Prog E R α} {f : α → Prog E R β} {h : History E R}
    {q : Prog E R β} (hf : Follows (p >>= f) h q) :
    (∃ e k, Follows p h (perform e k) ∧ q = perform e fun r => k r >>= f) ∨
      ∃ h₁ h₂ a, h = h₁ ++ h₂ ∧ Follows p h₁ (done a) ∧ Follows (f a) h₂ q := by
  induction p generalizing h with
  | done a => exact Or.inr ⟨[], h, a, rfl, by simp, hf⟩
  | perform e k ih =>
      cases h with
      | nil =>
          have hq : (perform e k >>= f) = q := by simpa using hf
          exact Or.inl ⟨e, k, by simp, hq.symm⟩
      | cons x h =>
          obtain ⟨r, rfl, hrest⟩ := hf
          rcases ih r hrest with ⟨e', k', hp', hq⟩ | ⟨h₁, h₂, a, rfl, hp', hq⟩
          · exact Or.inl ⟨e', k', ⟨r, rfl, hp'⟩, hq⟩
          · exact Or.inr ⟨⟨e, r⟩ :: h₁, h₂, a, rfl, ⟨r, rfl, hp'⟩, hq⟩

@[simp] theorem follows_perform {e : E} {k : R e → Prog E R α} {x : Σ e, R e} {h : History E R}
    {q : Prog E R α} :
    Follows (perform e k) (x :: h) q ↔ ∃ r, x = ⟨e, r⟩ ∧ Follows (k r) h q := Iff.rfl

@[simp] theorem follows_done {a : α} {h : History E R} {q : Prog E R α} :
    Follows (done a) h q ↔ h = [] ∧ done a = q := by
  cases h <;> simp [Follows]

/-- Every effect `p` can perform satisfies `P`, every result it can end with `Q`. -/
def Meets (P : E → Prop) (Q : α → Prop) : Prog E R α → Prop
  | done a => Q a
  | perform e k => P e ∧ ∀ r, Meets P Q (k r)

theorem Meets.bind {P : E → Prop} {Q : α → Prop} {Q' : β → Prop} {p : Prog E R α}
    {f : α → Prog E R β} (hp : Meets P Q p) (hf : ∀ a, Q a → Meets P Q' (f a)) :
    Meets P Q' (p >>= f) := by
  induction p with
  | done a => exact hf a hp
  | perform e k ih => exact ⟨hp.1, fun r => ih r (hp.2 r)⟩

theorem Meets.through {E' : Type u} {R' : E' → Type v} {h : (e : E) → Prog E' R' (R e)} {α : Type v}
    {P : E → Prop} {P' : E' → Prop} {Q : α → Prop} {p : Prog E R α} (hp : Meets P Q p)
    (hh : ∀ e, P e → Meets P' (fun _ => True) (h e)) : Meets P' Q (p.through h) := by
  induction p with
  | done a => exact hp
  | perform e k ih => exact Meets.bind (hh e hp.1) fun r _ => ih r (hp.2 r)

theorem Meets.all (p : Prog E R α) : Meets (fun _ => True) (fun _ => True) p := by
  induction p with
  | done a => exact True.intro
  | perform e k ih => exact ⟨True.intro, ih⟩

theorem Meets.mono {P : E → Prop} {Q Q' : α → Prop} {p : Prog E R α} (hp : Meets P Q p)
    (hQ : ∀ a, Q a → Q' a) : Meets P Q' p := by
  induction p with
  | done a => exact hQ a hp
  | perform e k ih => exact ⟨hp.1, fun r => ih r (hp.2 r)⟩

theorem Meets.weaken {P P' : E → Prop} {Q : α → Prop} {p : Prog E R α} (hp : Meets P Q p)
    (hP : ∀ e, P e → P' e) : Meets P' Q p := by
  induction p with
  | done a => exact hp
  | perform e k ih => exact ⟨hP e hp.1, fun r => ih r (hp.2 r)⟩

/-- On a path through `p` every effect satisfies `P`, and at its end the result `Q`. -/
theorem Meets.of_follows {P : E → Prop} {Q : α → Prop} {p p' : Prog E R α} {h : History E R}
    (hp : Meets P Q p) (hf : Follows p h p') : (∀ x ∈ h, P x.1) ∧ Meets P Q p' := by
  induction h generalizing p with
  | nil =>
      obtain rfl : p = p' := by simpa using hf
      exact ⟨by simp, hp⟩
  | cons x h ih =>
      cases p with
      | done a => exact hf.elim
      | perform e k =>
          obtain ⟨r, rfl, hrest⟩ := hf
          obtain ⟨hall, hend⟩ := ih (hp.2 r) hrest
          exact ⟨List.forall_mem_cons.mpr ⟨hp.1, hall⟩, hend⟩

/-! ## What a program does, given what it has seen -/

/-- After the history `h`, every effect `p` can perform satisfies `P` of the
history before it, every result it can end with `Q` of the whole history. -/
def Traced (P : History E R → E → Prop) (Q : History E R → α → Prop) :
    History E R → Prog E R α → Prop
  | h, done a => Q h a
  | h, perform e k => P h e ∧ ∀ r, Traced P Q (h ++ [⟨e, r⟩]) (k r)

theorem Traced.bind {P : History E R → E → Prop} {Q : History E R → α → Prop}
    {Q' : History E R → β → Prop} {p : Prog E R α} {f : α → Prog E R β} {h : History E R}
    (hp : Traced P Q h p) (hf : ∀ h a, Q h a → Traced P Q' h (f a)) :
    Traced P Q' h (p >>= f) := by
  induction p generalizing h with
  | done a => exact hf h a hp
  | perform e k ih => exact ⟨hp.1, fun r => ih r (hp.2 r)⟩

theorem Traced.mono {P P' : History E R → E → Prop} {Q Q' : History E R → α → Prop}
    {p : Prog E R α} {h : History E R} (hp : Traced P Q h p) (hP : ∀ h e, P h e → P' h e)
    (hQ : ∀ h a, Q h a → Q' h a) : Traced P' Q' h p := by
  induction p generalizing h with
  | done a => exact hQ h a hp
  | perform e k ih => exact ⟨hP h e hp.1, fun r => ih r (hp.2 r)⟩

/-- What a program has seen stays seen. -/
theorem Traced.extends {P : History E R → E → Prop} {Q : History E R → α → Prop}
    {p : Prog E R α} {h : History E R} (hp : Traced P Q h p) :
    Traced P (fun h' a => h <+: h' ∧ Q h' a) h p := by
  induction p generalizing h with
  | done a => exact ⟨List.prefix_rfl, hp⟩
  | perform e k ih =>
      refine ⟨hp.1, fun r => Traced.mono (ih r (hp.2 r)) (fun _ _ hP => hP) fun h' a hQ => ?_⟩
      exact ⟨(List.prefix_append ..).trans hQ.1, hQ.2⟩

/-- What holds whatever the program has seen, holds of what it has seen. -/
theorem Meets.traced {P : E → Prop} {Q : α → Prop} {P' : History E R → E → Prop}
    {Q' : History E R → α → Prop} {p : Prog E R α} {h : History E R} (hp : Meets P Q p)
    (hP : ∀ h' e, P e → P' (h ++ h') e) (hQ : ∀ h' a, Q a → Q' (h ++ h') a) : Traced P' Q' h p := by
  induction p generalizing h with
  | done a =>
      have hend := hQ [] a hp
      rwa [List.append_nil] at hend
  | perform e k ih =>
      have hhead := hP [] e hp.1
      rw [List.append_nil] at hhead
      refine ⟨hhead, fun r => ih r (hp.2 r) (fun h' e' he' => ?_) fun h' a ha => ?_⟩
      · rw [List.append_assoc]
        exact hP _ e' he'
      · rw [List.append_assoc]
        exact hQ _ a ha

/-- What holds whatever a program has seen. -/
theorem Traced.meets {P : E → Prop} {Q : History E R → α → Prop} {p : Prog E R α}
    {h : History E R} (hp : Traced (fun _ => P) Q h p) : Meets P (fun _ => True) p := by
  induction p generalizing h with
  | done a => trivial
  | perform e k ih => exact ⟨hp.1, fun r => ih r (hp.2 r)⟩

/-- What is left after a path through `p` has seen that path. -/
theorem Traced.of_follows {P : History E R → E → Prop} {Q : History E R → α → Prop}
    {p p' : Prog E R α} {h₀ h : History E R} (hp : Traced P Q h₀ p) (hf : Follows p h p') :
    Traced P Q (h₀ ++ h) p' := by
  induction h generalizing p h₀ with
  | nil =>
      obtain rfl : p = p' := by simpa using hf
      rwa [List.append_nil]
  | cons x h ih =>
      cases p with
      | done a => exact hf.elim
      | perform e k =>
          obtain ⟨r, rfl, hrest⟩ := hf
          have hrest' := ih (hp.2 r) hrest
          rwa [List.append_assoc] at hrest'

/-- Every effect on a path through `p` has seen the path before it. -/
theorem Traced.issued {P : History E R → E → Prop} {Q : History E R → α → Prop}
    {p p' : Prog E R α} {h₀ h₁ h₂ : History E R} {x : Σ e, R e} (hp : Traced P Q h₀ p)
    (hf : Follows p (h₁ ++ x :: h₂) p') : P (h₀ ++ h₁) x.1 := by
  induction h₁ generalizing p h₀ with
  | nil =>
      cases p with
      | done a => exact hf.elim
      | perform e k =>
          obtain ⟨r, rfl, -⟩ := hf
          rw [List.append_nil]
          exact hp.1
  | cons y h₁ ih =>
      cases p with
      | done a => exact hf.elim
      | perform e k =>
          obtain ⟨r, rfl, hrest⟩ := hf
          have hissued := ih (hp.2 r) hrest
          rwa [List.append_assoc] at hissued

/-! ## Programs that end at the first error -/

section Except

variable {ε : Type w}

/-- The results a program may end with, an error among them. -/
def OrError (Q : α → Prop) : Except ε α → Prop
  | .ok a => Q a
  | .error _ => True

theorem Meets.bind_except {P : E → Prop} {Q : α → Prop} {Q' : β → Prop}
    {p : ExceptT ε (Prog E R) α} {f : α → ExceptT ε (Prog E R) β}
    (hp : Meets P (OrError Q) p.run) (hf : ∀ a, Q a → Meets P (OrError Q') (f a).run) :
    Meets P (OrError Q') (p >>= f).run :=
  Meets.bind hp fun
    | .ok a, ha => hf a ha
    | .error _, _ => trivial

theorem Traced.bind_except {P : History E R → E → Prop}
    {Q : History E R → Except ε α → Prop} {Q' : History E R → Except ε β → Prop}
    {p : ExceptT ε (Prog E R) α} {f : α → ExceptT ε (Prog E R) β} {h : History E R}
    (hp : Traced P Q h p.run) (herror : ∀ h e, Q h (.error e) → Q' h (.error e))
    (hf : ∀ h a, Q h (.ok a) → Traced P Q' h (f a).run) : Traced P Q' h (p >>= f).run :=
  Traced.bind hp fun h => fun
    | .ok a, ha => hf h a ha
    | .error e, he => herror h e he

/-- A path through a sequence that ends at the first error: inside the first
program, at its error, or past it. -/
theorem Follows.bind_except_cases {p : ExceptT ε (Prog E R) α}
    {f : α → ExceptT ε (Prog E R) β} {h : History E R} {q : Prog E R (Except ε β)}
    (hf : Follows (p >>= f).run h q) :
    (∃ e k, Follows p.run h (perform e k) ∧ ∀ a, q ≠ done a) ∨
      (∃ err, Follows p.run h (done (.error err)) ∧ q = done (.error err)) ∨
      ∃ h₁ h₂ a, h = h₁ ++ h₂ ∧ Follows p.run h₁ (done (.ok a)) ∧ Follows (f a).run h₂ q := by
  rcases Follows.bind_cases hf with ⟨e, k, hp', rfl⟩ | ⟨h₁, h₂, a, rfl, hp', hq⟩
  · exact Or.inl ⟨e, k, hp', fun a ha => by cases ha⟩
  · cases a with
    | error err =>
        obtain ⟨rfl, rfl⟩ := follows_done.mp hq
        exact Or.inr (Or.inl ⟨err, by rw [List.append_nil]; exact hp', rfl⟩)
    | ok a => exact Or.inr (Or.inr ⟨h₁, h₂, a, rfl, hp', hq⟩)

end Except

/-! ## One program alone, on a relation -/

section Exec

variable {S : Type*} (sem : (e : E) → S → R e → S → Prop)

/-- The effects of `h`, one after the other, can take `s` to `s'`. -/
def Steps : S → History E R → S → Prop
  | s, [], s' => s' = s
  | s, x :: h, s' => ∃ mid, sem x.1 s x.2 mid ∧ Steps mid h s'

/-- `p` can run alone from `s` to its end, with result `a`, in `s'`. -/
def Exec (p : Prog E R α) (s : S) (a : α) (s' : S) : Prop :=
  ∃ h, Follows p h (done a) ∧ Steps sem s h s'

variable {sem}

theorem steps_append {s s' : S} {h₁ h₂ : History E R} :
    Steps sem s (h₁ ++ h₂) s' ↔ ∃ mid, Steps sem s h₁ mid ∧ Steps sem mid h₂ s' := by
  induction h₁ generalizing s with
  | nil => simp [Steps]
  | cons x h₁ ih =>
      simp only [List.cons_append, Steps, ih]
      constructor
      · rintro ⟨first, hx, mid, h₁, h₂⟩
        exact ⟨mid, ⟨first, hx, h₁⟩, h₂⟩
      · rintro ⟨mid, ⟨first, hx, h₁⟩, h₂⟩
        exact ⟨first, hx, mid, h₁, h₂⟩

@[simp] theorem exec_done {a b : α} {s s' : S} :
    Exec sem (done a : Prog E R α) s b s' ↔ b = a ∧ s' = s := by
  constructor
  · rintro ⟨h, hf, hsteps⟩
    obtain ⟨rfl, heq⟩ := follows_done.mp hf
    cases heq
    exact ⟨rfl, hsteps⟩
  · rintro ⟨rfl, rfl⟩
    exact ⟨[], by simp, rfl⟩

theorem exec_perform {e : E} {k : R e → Prog E R α} {a : α} {s s' : S} :
    Exec sem (perform e k) s a s' ↔ ∃ r mid, sem e s r mid ∧ Exec sem (k r) mid a s' := by
  constructor
  · rintro ⟨h, hf, hsteps⟩
    cases h with
    | nil => cases (show _ = _ from hf)
    | cons x h =>
        obtain ⟨r, rfl, hrest⟩ := hf
        obtain ⟨mid, hx, hsteps⟩ := hsteps
        exact ⟨r, mid, hx, h, hrest, hsteps⟩
  · rintro ⟨r, mid, hx, h, hrest, hsteps⟩
    exact ⟨⟨e, r⟩ :: h, ⟨r, rfl, hrest⟩, mid, hx, hsteps⟩

theorem exec_bind {p : Prog E R α} {f : α → Prog E R β} {b : β} {s s' : S} :
    Exec sem (p >>= f) s b s' ↔ ∃ a mid, Exec sem p s a mid ∧ Exec sem (f a) mid b s' := by
  induction p generalizing s with
  | done a => simp
  | perform e k ih =>
      rw [perform_bind, exec_perform]
      constructor
      · rintro ⟨r, mid, hx, hrest⟩
        obtain ⟨a, last, hk, hf⟩ := (ih r).mp hrest
        exact ⟨a, last, exec_perform.mpr ⟨r, mid, hx, hk⟩, hf⟩
      · rintro ⟨a, last, hp, hf⟩
        obtain ⟨r, mid, hx, hk⟩ := exec_perform.mp hp
        exact ⟨r, mid, hx, (ih r).mpr ⟨a, last, hk, hf⟩⟩

/-- A sequence that ends at the first error: at the first program's, or past it. -/
theorem exec_bind_except {ε : Type w} {p : ExceptT ε (Prog E R) α} {f : α → ExceptT ε (Prog E R) β}
    {b : Except ε β} {s s' : S} :
    Exec sem (p >>= f).run s b s' ↔
      (∃ e, Exec sem p.run s (.error e) s' ∧ b = .error e) ∨
        ∃ a mid, Exec sem p.run s (.ok a) mid ∧ Exec sem (f a).run mid b s' := by
  refine (exec_bind (p := p.run)).trans ⟨?_, ?_⟩
  · rintro ⟨a | a, mid, hp, hf⟩
    · obtain ⟨rfl, rfl⟩ := exec_done.mp hf
      exact Or.inl ⟨a, hp, rfl⟩
    · exact Or.inr ⟨a, mid, hp, hf⟩
  · rintro (⟨e, hp, rfl⟩ | ⟨a, mid, hp, hf⟩)
    · exact ⟨.error e, s', hp, exec_done.mpr ⟨rfl, rfl⟩⟩
    · exact ⟨.ok a, mid, hp, hf⟩

/-- What every effect of a path keeps, the whole path keeps. -/
theorem Steps.keeps {I : S → Prop} {h : History E R} {s s' : S} (hsteps : Steps sem s h s')
    (hI : I s) (hstep : ∀ x ∈ h, ∀ s s', I s → sem x.1 s x.2 s' → I s') : I s' := by
  induction h generalizing s with
  | nil =>
      obtain rfl := hsteps
      exact hI
  | cons x h ih =>
      obtain ⟨mid, hx, hrest⟩ := hsteps
      exact ih hrest (hstep x (List.mem_cons_self ..) _ _ hI hx) fun y hy =>
        hstep y (List.mem_cons_of_mem _ hy)

/-- A handler that does what `sem` allows shows one way to run. -/
theorem exec_run {handler : (e : E) → S → R e × S}
    (hsem : ∀ e s, sem e s (handler e s).1 (handler e s).2) (p : Prog E R α) (s : S) :
    Exec sem p s (p.run handler s).1 (p.run handler s).2 := by
  induction p generalizing s with
  | done a => exact ⟨[], by simp, rfl⟩
  | perform e k ih =>
      obtain ⟨h, hf, hsteps⟩ := ih (handler e s).1 (handler e s).2
      exact ⟨⟨e, _⟩ :: h, ⟨_, rfl, hf⟩, _, hsem e s, hsteps⟩

end Exec

end Prog

/-! ## Interleaved runs -/

section System

variable {E : Type u} {R : E → Type v} {α : Type w} {S : Type*} {Q : Type*}

/-- A call in flight: the request and what is left to do. -/
structure Call (E : Type u) (R : E → Type v) (α : Type w) (Q : Type*) where
  request : Q
  rest : Prog E R α

/-- The store and every call started so far, by number. -/
structure Config (E : Type u) (R : E → Type v) (α : Type w) (S : Type*) (Q : Type*) where
  state : S
  calls : List (Call E R α Q)

inductive Label (E : Type u) (R : E → Type v) (Q : Type*) where
  | start (q : Q)
  | act (i : Nat) (e : E) (r : R e)
  | env

/-- One event of a run, with the state before and after it. -/
structure Event (E : Type u) (R : E → Type v) (S : Type*) (Q : Type*) where
  pre : S
  label : Label E R Q
  post : S

variable (prog : Q → Prog E R α) (sem : (e : E) → S → R e → S → Prop) (env : S → S → Prop)

/-- A new call starts, a call performs its next effect, or the store
changes from outside. -/
inductive Step : Config E R α S Q → Label E R Q → Config E R α S Q → Prop
  | start (c : Config E R α S Q) (q : Q) :
      Step c (.start q) { c with calls := c.calls ++ [⟨q, prog q⟩] }
  | act (c : Config E R α S Q) (i : Nat) (q : Q) (e : E) (k : R e → Prog E R α) (r : R e)
      (s' : S) (hi : c.calls[i]? = some ⟨q, .perform e k⟩) (hs : sem e c.state r s') :
      Step c (.act i e r) ⟨s', c.calls.set i ⟨q, k r⟩⟩
  | env (c : Config E R α S Q) (s' : S) (hs : env c.state s') :
      Step c .env { c with state := s' }

variable {prog sem env} in
theorem Step.act_cases {c c' : Config E R α S Q} {i : Nat} {e : E} {r : R e}
    (hs : Step prog sem env c (.act i e r) c') :
    ∃ q k, c.calls[i]? = some ⟨q, .perform e k⟩ ∧ sem e c.state r c'.state ∧
      c' = ⟨c'.state, c.calls.set i ⟨q, k r⟩⟩ := by
  generalize hl : Label.act i e r = l at hs
  cases hs with
  | start q => cases hl
  | act i q e k r s' hi hs =>
      cases hl
      exact ⟨q, k, hi, hs, rfl⟩
  | env s' hs => cases hl

variable {prog sem env} in
theorem Step.effect {c c' : Config E R α S Q} {i : Nat} {e : E} {r : R e}
    (hs : Step prog sem env c (.act i e r) c') : sem e c.state r c'.state := by
  obtain ⟨-, -, -, hsem, -⟩ := hs.act_cases
  exact hsem

variable {prog sem env} in
/-- A call keeps its request. -/
theorem Step.request {c c' : Config E R α S Q} {l : Label E R Q} (hs : Step prog sem env c l c')
    {i : Nat} {call : Call E R α Q} (hi : c.calls[i]? = some call) :
    ∃ call', c'.calls[i]? = some call' ∧ call'.request = call.request := by
  cases hs with
  | start q =>
      have hlt : i < c.calls.length := (List.getElem?_eq_some_iff.mp hi).1
      exact ⟨call, by rw [List.getElem?_append_left hlt, hi], rfl⟩
  | act j q e k r s' hj hs =>
      by_cases hij : j = i
      · subst hij
        have hlt : j < c.calls.length := (List.getElem?_eq_some_iff.mp hi).1
        obtain rfl := Option.some.inj (hj.symm.trans hi)
        exact ⟨_, List.getElem?_set_self hlt, rfl⟩
      · exact ⟨call, by rw [List.getElem?_set_ne hij, hi], rfl⟩
  | env s' hs => exact ⟨call, hi, rfl⟩

/-- A run from `c₀`, with its events oldest first. -/
inductive Run (c₀ : Config E R α S Q) : List (Event E R S Q) → Config E R α S Q → Prop
  | nil : Run c₀ [] c₀
  | snoc {tr : List (Event E R S Q)} {c c' : Config E R α S Q} {l : Label E R Q}
      (hr : Run c₀ tr c) (hs : Step prog sem env c l c') :
      Run c₀ (tr ++ [⟨c.state, l, c'.state⟩]) c'

variable {prog sem env}

/-- What holds at the start and is kept by every event holds at the end. -/
theorem Run.invariant {c₀ c : Config E R α S Q} {tr : List (Event E R S Q)} {I : S → Prop}
    (hr : Run prog sem env c₀ tr c) (h0 : I c₀.state)
    (hstep : ∀ ev ∈ tr, I ev.pre → I ev.post) : I c.state := by
  induction hr with
  | nil => exact h0
  | snoc hr hs ih =>
      have hpre := ih fun ev hev => hstep ev (List.mem_append_left _ hev)
      exact hstep _ (List.mem_append_right _ (List.mem_singleton_self _)) hpre

theorem Run.append {c₀ c₁ c : Config E R α S Q} {tr₁ tr₂ : List (Event E R S Q)}
    (hr₁ : Run prog sem env c₀ tr₁ c₁) (hr₂ : Run prog sem env c₁ tr₂ c) :
    Run prog sem env c₀ (tr₁ ++ tr₂) c := by
  induction hr₂ with
  | nil => rwa [List.append_nil]
  | snoc hr hs ih =>
      rw [← List.append_assoc]
      exact ih.snoc hs

theorem Step.unique {c c₁ c₂ : Config E R α S Q} {l : Label E R Q}
    (h₁ : Step prog sem env c l c₁) (h₂ : Step prog sem env c l c₂) (hstate : c₁.state = c₂.state) :
    c₁ = c₂ := by
  cases l with
  | start q =>
      cases h₁
      cases h₂
      rfl
  | act i e r =>
      obtain ⟨q, k, hi, -, hc₁⟩ := h₁.act_cases
      obtain ⟨q', k', hi', -, hc₂⟩ := h₂.act_cases
      cases hi.symm.trans hi'
      rw [hc₁, hc₂, hstate]
  | env =>
      cases h₁
      cases h₂
      cases hstate
      rfl

/-- The events of a run determine what it leads to. -/
theorem Run.unique {c₀ c c' : Config E R α S Q} {tr : List (Event E R S Q)}
    (hr : Run prog sem env c₀ tr c) (hr' : Run prog sem env c₀ tr c') : c = c' := by
  induction hr generalizing c' with
  | nil =>
      generalize htr : ([] : List (Event E R S Q)) = tr at hr'
      cases hr' with
      | nil => rfl
      | snoc _ _ => simp at htr
  | @snoc tr c c₁ l hr hs ih =>
      generalize htr : tr ++ [⟨c.state, l, c₁.state⟩] = tr' at hr'
      cases hr' with
      | nil => simp at htr
      | @snoc tr'' c'' c₂ l' hr' hs' =>
          obtain ⟨rfl, hev⟩ := List.append_inj' htr rfl
          obtain rfl := ih hr'
          injection List.singleton_inj.mp hev with _ hl hpost
          subst hl
          exact hs.unique hs' hpost

/-- A run reaches each of its events, and takes the step. -/
theorem Run.reaches {c₀ c : Config E R α S Q} {tr₁ tr₂ : List (Event E R S Q)} {ev : Event E R S Q}
    (hr : Run prog sem env c₀ (tr₁ ++ ev :: tr₂) c) :
    ∃ c₁ c₂, Run prog sem env c₀ tr₁ c₁ ∧ Step prog sem env c₁ ev.label c₂ ∧
      ev.pre = c₁.state ∧ ev.post = c₂.state := by
  induction tr₂ using List.reverseRecOn generalizing c with
  | nil =>
      generalize htr : tr₁ ++ [ev] = tr at hr
      cases hr with
      | nil => simp at htr
      | @snoc tr' c' _ l hr hs =>
          obtain ⟨rfl, hev⟩ := List.append_inj' htr rfl
          obtain rfl := List.singleton_inj.mp hev
          exact ⟨c', c, hr, hs, rfl, rfl⟩
  | append_singleton tr₂ ev' ih =>
      generalize htr : tr₁ ++ ev :: (tr₂ ++ [ev']) = tr at hr
      cases hr with
      | nil => simp at htr
      | @snoc tr' c' _ l hr hs =>
          rw [← List.cons_append, ← List.append_assoc] at htr
          obtain ⟨rfl, -⟩ := List.append_inj' htr rfl
          exact ih hr

/-- Every event of a run is a step of the semantics. -/
theorem Run.event_cases {c₀ c : Config E R α S Q} {tr : List (Event E R S Q)}
    (hr : Run prog sem env c₀ tr c) {ev : Event E R S Q} (hev : ev ∈ tr) :
    (∃ q, ev.label = .start q ∧ ev.post = ev.pre) ∨
      (∃ i e r, ev.label = .act i e r ∧ sem e ev.pre r ev.post) ∨
      (ev.label = .env ∧ env ev.pre ev.post) := by
  induction hr with
  | nil => simp at hev
  | snoc hr hs ih =>
      rcases List.mem_append.mp hev with hev | hev
      · exact ih hev
      · obtain rfl := List.mem_singleton.mp hev
        cases hs with
        | start q => exact Or.inl ⟨q, rfl, rfl⟩
        | act i q e k r s' hi hs => exact Or.inr (Or.inl ⟨i, e, r, rfl, hs⟩)
        | env s' hs => exact Or.inr (Or.inr ⟨rfl, hs⟩)

/-- What every step keeps holds from an event on. -/
theorem Run.stays {c₀ c : Config E R α S Q} {tr : List (Event E R S Q)} {K : S → Prop}
    (hr : Run prog sem env c₀ tr c) (hsem : ∀ e s r s', sem e s r s' → K s → K s')
    (henv : ∀ s s', env s s' → K s → K s') {ev : Event E R S Q} (hev : ev ∈ tr)
    (hpost : K ev.post) :
    K c.state := by
  induction hr with
  | nil => cases hev
  | snoc hr hs ih =>
      rcases List.mem_append.mp hev with hold | hlast
      · have hpre := ih hold
        cases hs with
        | start q => exact hpre
        | act i q e k r s' hi hs => exact hsem e _ r s' hs hpre
        | env s' hs => exact henv _ s' hs hpre
      · rwa [List.mem_singleton.mp hlast] at hpost

/-- The effects of call `i`, in order. -/
def actsOf (i : Nat) (tr : List (Event E R S Q)) : Prog.History E R :=
  tr.filterMap fun ev =>
    match ev.label with
    | .act j e r => if j = i then some ⟨e, r⟩ else none
    | _ => none

@[simp] theorem actsOf_append (i : Nat) (tr tr' : List (Event E R S Q)) :
    actsOf i (tr ++ tr') = actsOf i tr ++ actsOf i tr' := List.filterMap_append

@[simp] theorem actsOf_act (i : Nat) (s s' : S) (e : E) (r : R e) :
    actsOf i [(⟨s, .act i e r, s'⟩ : Event E R S Q)] = [⟨e, r⟩] := by
  simp [actsOf]

/-- The effects of a call are a path through its program, and a call that has
not started has none. -/
theorem Run.follows_and_nil {s₀ : S} {c : Config E R α S Q} {tr : List (Event E R S Q)}
    (hr : Run prog sem env ⟨s₀, []⟩ tr c) :
    (∀ i q p, c.calls[i]? = some ⟨q, p⟩ → Prog.Follows (prog q) (actsOf i tr) p) ∧
      ∀ i, c.calls.length ≤ i → actsOf i tr = [] := by
  induction hr with
  | nil => exact ⟨fun i q p hi => by simp at hi, fun i _ => rfl⟩
  | snoc hr hs ih =>
      obtain ⟨ih, ihnew⟩ := ih
      cases hs with
      | start q' =>
          refine ⟨fun i q p hi => ?_, fun i hlen => ?_⟩
          · rw [actsOf_append]
            rcases Nat.lt_or_ge i (List.length _) with hlt | hge
            · rw [List.getElem?_append_left hlt] at hi
              simpa [actsOf] using ih i q p hi
            · rw [List.getElem?_append_right hge] at hi
              cases hidx : i - List.length _ with
              | zero =>
                  rw [hidx] at hi
                  obtain ⟨rfl, rfl⟩ : q' = q ∧ prog q' = p := by simpa using hi
                  simp [actsOf, show List.filterMap _ _ = [] from ihnew i hge]
              | succ n => rw [hidx] at hi; simp at hi
          · simp only [List.length_append, List.length_singleton] at hlen
            rw [actsOf_append, ihnew i (by omega)]
            rfl
      | act j q' e k r s' hj hs =>
          refine ⟨fun i q p hi => ?_, fun i hlen => ?_⟩
          · rw [actsOf_append]
            by_cases hij : j = i
            · subst hij
              have hlt : j < List.length _ := (List.getElem?_eq_some_iff.mp hj).1
              rw [List.getElem?_set_self hlt] at hi
              obtain ⟨rfl, rfl⟩ : q' = q ∧ k r = p := by simpa using hi
              simpa [actsOf] using (ih j q' _ hj).snoc (r := r) rfl
            · rw [List.getElem?_set_ne hij] at hi
              simpa [actsOf, hij] using ih i q p hi
          · simp only [List.length_set] at hlen
            have hij : j ≠ i := by
              have hlt : j < List.length _ := (List.getElem?_eq_some_iff.mp hj).1
              omega
            rw [actsOf_append, ihnew i hlen]
            simp [actsOf, hij]
      | env s' hs =>
          refine ⟨fun i q p hi => ?_, fun i hlen => ?_⟩
          · simpa [actsOf] using ih i q p hi
          · simpa [actsOf] using ihnew i hlen

theorem Run.follows {s₀ : S} {c : Config E R α S Q} {tr : List (Event E R S Q)}
    (hr : Run prog sem env ⟨s₀, []⟩ tr c) {i : Nat} {q : Q} {p : Prog E R α}
    (hi : c.calls[i]? = some ⟨q, p⟩) : Prog.Follows (prog q) (actsOf i tr) p :=
  hr.follows_and_nil.1 i q p hi

theorem Run.actsOf_nil {s₀ : S} {c : Config E R α S Q} {tr : List (Event E R S Q)}
    (hr : Run prog sem env ⟨s₀, []⟩ tr c) {i : Nat} (hi : c.calls.length ≤ i) :
    actsOf i tr = [] :=
  hr.follows_and_nil.2 i hi

theorem mem_actsOf {tr : List (Event E R S Q)} {ev : Event E R S Q} (hev : ev ∈ tr) {i : Nat}
    {e : E} {r : R e} (hl : ev.label = .act i e r) : (⟨e, r⟩ : Σ e, R e) ∈ actsOf i tr :=
  List.mem_filterMap.mpr ⟨ev, hev, by simp [hl]⟩

theorem label_of_act {i : Nat} {ev : Event E R S Q} {x : Σ e, R e}
    (h : (match ev.label with
      | .act j e r => if j = i then some (⟨e, r⟩ : Σ e, R e) else none
      | _ => none) = some x) : ev.label = .act i x.1 x.2 := by
  cases hlabel : ev.label with
  | act j e r =>
      rw [hlabel] at h
      by_cases hj : j = i
      · subst hj
        obtain rfl : (⟨e, r⟩ : Σ e, R e) = x := by simpa using h
        rfl
      · simp [hj] at h
  | _ => rw [hlabel] at h; cases h

theorem exists_of_mem_actsOf {tr : List (Event E R S Q)} {i : Nat} {x : Σ e, R e}
    (hx : x ∈ actsOf i tr) : ∃ ev ∈ tr, ev.label = .act i x.1 x.2 := by
  obtain ⟨ev, hev, h⟩ := List.mem_filterMap.mp hx
  exact ⟨ev, hev, label_of_act h⟩

/-- The last effect of a call is an event of the run. -/
theorem actsOf_eq_snoc {i : Nat} {tr : List (Event E R S Q)} {h : Prog.History E R} {x : Σ e, R e}
    (hacts : actsOf i tr = h ++ [x]) :
    ∃ tr₁ ev tr₂, tr = tr₁ ++ ev :: tr₂ ∧ actsOf i tr₁ = h ∧ ev.label = .act i x.1 x.2 ∧
      actsOf i tr₂ = [] := by
  obtain ⟨tr₁, tr', rfl, hh, htr'⟩ := List.filterMap_eq_append_iff.mp hacts
  obtain ⟨tr₀, ev, tr₂, rfl, htr₀, hev, htr₂⟩ := List.filterMap_eq_cons_iff.mp htr'
  refine ⟨tr₁ ++ tr₀, ev, tr₂, by simp, ?_, label_of_act hev, htr₂⟩
  rw [actsOf_append, actsOf, actsOf, hh, List.filterMap_eq_nil_iff.mpr htr₀, List.append_nil]

/-- Every call that has performed an effect has been started. -/
theorem Run.call_of_mem {s₀ : S} {c : Config E R α S Q} {tr : List (Event E R S Q)}
    (hr : Run prog sem env ⟨s₀, []⟩ tr c) {i : Nat} {x : Σ e, R e} (hx : x ∈ actsOf i tr) :
    ∃ call, c.calls[i]? = some call := by
  cases hi : c.calls[i]? with
  | none =>
      rw [hr.actsOf_nil (by simpa using hi)] at hx
      cases hx
  | some call => exact ⟨call, rfl⟩

/-- What is left of a call has seen the effects of the call. -/
theorem Run.traced {s₀ : S} {c : Config E R α S Q} {tr : List (Event E R S Q)}
    (hr : Run prog sem env ⟨s₀, []⟩ tr c) {P : Prog.History E R → E → Prop}
    {T : Prog.History E R → α → Prop} {i : Nat} {q : Q} {p : Prog E R α}
    (hi : c.calls[i]? = some ⟨q, p⟩) (hq : Prog.Traced P T [] (prog q)) :
    Prog.Traced P T (actsOf i tr) p := hq.of_follows (hr.follows hi)

/-- The next effect of a call is one its program performs after what it has seen. -/
theorem Run.issues {s₀ : S} {c c' : Config E R α S Q} {tr : List (Event E R S Q)}
    (hr : Run prog sem env ⟨s₀, []⟩ tr c) {P : Prog.History E R → E → Prop}
    {T : Prog.History E R → α → Prop} (hP : ∀ q, Prog.Traced P T [] (prog q)) {i : Nat} {e : E}
    {r : R e} (hs : Step prog sem env c (.act i e r) c') : P (actsOf i tr) e := by
  obtain ⟨q, k, hi, -⟩ := hs.act_cases
  exact (hr.traced hi (hP q)).1

/-- Every effect of a run is one its call's program can perform. -/
theorem Run.meets {s₀ : S} {c : Config E R α S Q} {tr : List (Event E R S Q)}
    (hr : Run prog sem env ⟨s₀, []⟩ tr c) {P : Q → E → Prop}
    (hP : ∀ call ∈ c.calls, Prog.Meets (P call.request) (fun _ => True) (prog call.request))
    {ev : Event E R S Q} (hev : ev ∈ tr) {i : Nat} {e : E} {r : R e} (hl : ev.label = .act i e r) :
    ∃ call, c.calls[i]? = some call ∧ P call.request e := by
  have hmem := mem_actsOf hev hl
  obtain ⟨call, hi⟩ := hr.call_of_mem hmem
  exact ⟨call, hi, ((hP call (List.mem_of_getElem? hi)).of_follows (hr.follows hi)).1 _ hmem⟩

/-! ## Schedules

A schedule names who moves next; with a handler that does what `sem`
allows it determines a run. -/

inductive Move (Q : Type*) where
  | start (q : Q)
  | step (i : Nat)

/-- One move: its event, and the configuration after it. A call that has
finished does nothing. -/
def Config.move (prog : Q → Prog E R α) (handler : (e : E) → S → R e × S)
    (c : Config E R α S Q) : Move Q → List (Event E R S Q) × Config E R α S Q
  | .start q => ([⟨c.state, .start q, c.state⟩], { c with calls := c.calls ++ [⟨q, prog q⟩] })
  | .step i =>
      match c.calls[i]? with
      | some ⟨q, .perform e k⟩ =>
          let (r, s') := handler e c.state
          ([⟨c.state, .act i e r, s'⟩], ⟨s', c.calls.set i ⟨q, k r⟩⟩)
      | _ => ([], c)

/-- All moves of a schedule. -/
def Config.moves (prog : Q → Prog E R α) (handler : (e : E) → S → R e × S) :
    Config E R α S Q → List (Move Q) → List (Event E R S Q) × Config E R α S Q
  | c, [] => ([], c)
  | c, m :: ms =>
      let (ev, c') := c.move prog handler m
      let (tr, c'') := Config.moves prog handler c' ms
      (ev ++ tr, c'')

theorem Run.move {handler : (e : E) → S → R e × S}
    (hsem : ∀ e s, sem e s (handler e s).1 (handler e s).2) {c₀ c : Config E R α S Q}
    {tr : List (Event E R S Q)} (hr : Run prog sem env c₀ tr c) (m : Move Q) :
    Run prog sem env c₀ (tr ++ (c.move prog handler m).1) (c.move prog handler m).2 := by
  cases m with
  | start q => exact hr.snoc (.start c q)
  | step i =>
      simp only [Config.move]
      split
      · next q e k hi => exact hr.snoc (.act c i q e k _ _ hi (hsem e c.state))
      · simpa using hr

/-- Every schedule is a run. -/
theorem Run.moves {handler : (e : E) → S → R e × S}
    (hsem : ∀ e s, sem e s (handler e s).1 (handler e s).2) {c₀ c : Config E R α S Q}
    {tr : List (Event E R S Q)} (hr : Run prog sem env c₀ tr c) (ms : List (Move Q)) :
    Run prog sem env c₀ (tr ++ (c.moves prog handler ms).1) (c.moves prog handler ms).2 := by
  induction ms generalizing c tr with
  | nil => simpa [Config.moves] using hr
  | cons m ms ih =>
      have h := ih (hr.move hsem m)
      rwa [List.append_assoc] at h

/-- The request a move starts. -/
def Move.started : Move Q → Option Q
  | .start q => some q
  | .step _ => none

theorem Config.move_requests (prog : Q → Prog E R α) (handler : (e : E) → S → R e × S)
    (c : Config E R α S Q) (m : Move Q) :
    (c.move prog handler m).2.calls.map (·.request) =
      c.calls.map (·.request) ++ m.started.toList := by
  cases m with
  | start q => simp [Config.move, Move.started]
  | step i =>
      simp only [Config.move, Move.started, Option.toList_none, List.append_nil]
      split
      · next q e k hi =>
          obtain ⟨hlt, hcall⟩ := List.getElem?_eq_some_iff.mp hi
          rw [List.map_set]
          refine List.ext_getElem (by simp) fun j _ _ => ?_
          by_cases hij : i = j
          · subst hij
            simp [hcall]
          · simp [hij]
      · rfl

/-- The calls of a schedule are the ones it starts. -/
theorem Config.moves_requests (prog : Q → Prog E R α) (handler : (e : E) → S → R e × S)
    (c : Config E R α S Q) (ms : List (Move Q)) :
    (c.moves prog handler ms).2.calls.map (·.request) =
      c.calls.map (·.request) ++ ms.filterMap Move.started := by
  induction ms generalizing c with
  | nil => simp [Config.moves]
  | cons m ms ih =>
      rw [Config.moves]
      dsimp only
      rw [ih, Config.move_requests, List.append_assoc]
      cases m <;> rfl

end System

end Process

import Rustberg.Base.Process

/-!
# Programs over programs

`Prog.through` replaces every effect of a program by a program of its own.
A path of the result is then a path of the program, each of its effects
carried out in turn: `Carries` is the relation between the two histories.
`Traced.through` brings what is known of the upper program down to the
lower one: whatever a lower effect needs may be read off the upper effect
it is part of, and off the upper history before it.

The store below may be seen as another, simpler one. `Run.on` turns a run
over the first into a run over the second, of the same calls with the same
answers, where each effect on the first is that effect on the second.
-/

namespace Process.Prog

universe u v w

variable {E : Type u} {R : E → Type v} {E' : Type u} {R' : E' → Type v} {α : Type v}

/-- `h'` is `h` carried out: the effects of `h` in order, each by a whole path of its program. -/
inductive Carries (carry : (e : E) → Prog E' R' (R e)) : History E R → History E' R' → Prop
  | nil : Carries carry [] []
  | snoc {h : History E R} {h' h₁ : History E' R'} {e : E} {r : R e} (hc : Carries carry h h')
      (hf : Follows (carry e) h₁ (done r)) : Carries carry (h ++ [⟨e, r⟩]) (h' ++ h₁)

variable {carry : (e : E) → Prog E' R' (R e)}

/-- What was answered above was answered at the end of a path below. -/
theorem Carries.mem {h : History E R} {h' : History E' R'} (hc : Carries carry h h') {e : E}
    {r : R e} (hmem : ⟨e, r⟩ ∈ h) :
    ∃ h₁ h₂ h₃, h' = h₁ ++ h₂ ++ h₃ ∧ Follows (carry e) h₂ (done r) := by
  induction hc with
  | nil => cases hmem
  | @snoc h h' h₁ e' r' hc hf ih =>
      rcases List.mem_append.mp hmem with hold | hlast
      · obtain ⟨g₁, g₂, g₃, rfl, hg⟩ := ih hold
        exact ⟨g₁, g₂, g₃ ++ h₁, by simp only [List.append_assoc], hg⟩
      · cases List.mem_singleton.mp hlast
        exact ⟨h', h₁, [], by rw [List.append_nil], hf⟩

/-- The program of an effect, followed from where the upper history stands. -/
theorem Traced.followed {P : History E R → E → Prop} {Q : History E R → α → Prop}
    {p : Prog E R α} {h : History E R} (hp : Traced P Q h p) :
    Traced P (fun h' a => Q h' a ∧ ∃ h₁, h' = h ++ h₁ ∧ Follows p h₁ (done a)) h p := by
  induction p generalizing h with
  | done a => exact ⟨hp, [], (List.append_nil h).symm, rfl⟩
  | perform e k ih =>
      refine ⟨hp.1, fun r => Traced.mono (ih r (hp.2 r)) (fun _ _ hP => hP) ?_⟩
      rintro h' a ⟨hQ, h₁, rfl, hf⟩
      exact ⟨hQ, ⟨e, r⟩ :: h₁, by simp, r, rfl, hf⟩

theorem Traced.and {P P' : History E R → E → Prop} {Q Q' : History E R → α → Prop}
    {p : Prog E R α} {h : History E R} (hp : Traced P Q h p) (hp' : Traced P' Q' h p) :
    Traced (fun h e => P h e ∧ P' h e) (fun h a => Q h a ∧ Q' h a) h p := by
  induction p generalizing h with
  | done a => exact ⟨hp, hp'⟩
  | perform e k ih => exact ⟨⟨hp.1, hp'.1⟩, fun r => ih r (hp.2 r) (hp'.2 r)⟩

/-- What a program does on its own, it does after anything else. -/
theorem Traced.shift {P P' : History E R → E → Prop} {Q Q' : History E R → α → Prop}
    {p : Prog E R α} {h : History E R} (h₀ : History E R) (hp : Traced P Q h p)
    (hP : ∀ h e, P h e → P' (h₀ ++ h) e) (hQ : ∀ h a, Q h a → Q' (h₀ ++ h) a) :
    Traced P' Q' (h₀ ++ h) p := by
  induction p generalizing h with
  | done a => exact hQ h a hp
  | perform e k ih =>
      refine ⟨hP h e hp.1, fun r => ?_⟩
      rw [List.append_assoc]
      exact ih r (hp.2 r)

/-- What every effect of a program keeps holds all along it. -/
theorem Meets.keeps {P : E → Prop} {Q : α → Prop} {I : History E R → Prop} {p : Prog E R α}
    {h : History E R} (hp : Meets P Q p) (hI : I h)
    (hstep : ∀ h x, I h → P x.1 → I (h ++ [x])) :
    Traced (fun h e => I h ∧ P e) (fun h a => I h ∧ Q a) h p := by
  induction p generalizing h with
  | done a => exact ⟨hI, hp⟩
  | perform e k ih => exact ⟨⟨hI, hp.1⟩, fun r => ih r (hp.2 r) (hstep h ⟨e, r⟩ hI hp.1)⟩

/-- What holds of the program above holds, carried out, of the program below. -/
theorem Traced.through {P : History E R → E → Prop} {Q : History E R → α → Prop}
    {P' : History E' R' → E' → Prop} {Q' : History E' R' → α → Prop} {p : Prog E R α}
    {h : History E R} {h' : History E' R'} (hp : Traced P Q h p) (hc : Carries carry h h')
    (hstep : ∀ h h' e, Carries carry h h' → P h e →
      Traced P' (fun _ _ => True) h' (carry e))
    (hend : ∀ h h' a, Carries carry h h' → Q h a → Q' h' a) :
    Traced P' Q' h' (p.through carry) := by
  induction p generalizing h h' with
  | done a => exact hend h h' a hc hp
  | perform e k ih =>
      rw [through_perform]
      refine Traced.bind (Traced.followed (hstep h h' e hc hp.1)) ?_
      rintro h'' r ⟨-, h₁, rfl, hf⟩
      exact ih r (hp.2 r) (hc.snoc hf)

end Process.Prog

/-! ## One event of a run -/

namespace Process

universe u v w

section

variable {E : Type u} {R : E → Type v} {α : Type w} {S Q : Type*} {prog : Q → Prog E R α}
  {sem : (e : E) → S → R e → S → Prop} {env : S → S → Prop}

theorem Run.effect {c₀ c : Config E R α S Q} {tr : List (Event E R S Q)}
    (hr : Run prog sem env c₀ tr c) {ev : Event E R S Q} (hev : ev ∈ tr) {i : Nat} {e : E} {r : R e}
    (hl : ev.label = .act i e r) : sem e ev.pre r ev.post := by
  rcases hr.event_cases hev with ⟨q, hstart, -⟩ | ⟨j, e', r', hact, hsem⟩ | ⟨henv, -⟩
  · rw [hl] at hstart
    cases hstart
  · rw [hl] at hact
    cases hact
    exact hsem
  · rw [hl] at henv
    cases henv

/-- What holds at the start and is kept by every step holds before every event. -/
theorem Run.always {c₀ c : Config E R α S Q} {tr : List (Event E R S Q)} {I : S → Prop}
    (hr : Run prog sem env c₀ tr c) (h0 : I c₀.state) (hsem : ∀ e s r s', sem e s r s' → I s → I s')
    (henv : ∀ s s', env s s' → I s → I s') : I c.state ∧ ∀ ev ∈ tr, I ev.pre := by
  induction hr with
  | nil => exact ⟨h0, fun ev hev => absurd hev List.not_mem_nil⟩
  | @snoc tr c c' l hr hs ih =>
      refine ⟨?_, fun ev hev => ?_⟩
      · cases hs with
        | start q => exact ih.1
        | act i q e k r s' hi hs => exact hsem e _ r s' hs ih.1
        | env s' hs => exact henv _ s' hs ih.1
      · rcases List.mem_append.mp hev with hold | hlast
        · exact ih.2 ev hold
        · rw [List.mem_singleton.mp hlast]
          exact ih.1

/-- The last event of a run is a step from where the events before it lead. -/
theorem Run.last {c₀ c : Config E R α S Q} {tr : List (Event E R S Q)} {ev : Event E R S Q}
    (hr : Run prog sem env c₀ (tr ++ [ev]) c) :
    ∃ c₁, Run prog sem env c₀ tr c₁ ∧ ev.pre = c₁.state ∧ ev.post = c.state := by
  generalize htr : tr ++ [ev] = tr' at hr
  cases hr with
  | nil => simp at htr
  | @snoc tr' c₁ _ l hr hs =>
      obtain ⟨rfl, hev⟩ := List.append_inj' htr rfl
      obtain rfl := List.singleton_inj.mp hev
      exact ⟨c₁, hr, rfl, rfl⟩

/-- What holds after an event and is kept by every later one holds from then on. -/
theorem Run.since {c₀ c : Config E R α S Q} {tr₁ tr₂ : List (Event E R S Q)} {ev : Event E R S Q}
    {K : S → Prop} (hr : Run prog sem env c₀ (tr₁ ++ ev :: tr₂) c) (hpost : K ev.post)
    (hstep : ∀ ev' ∈ tr₂, K ev'.pre → K ev'.post) : K c.state ∧ ∀ ev' ∈ tr₂, K ev'.pre := by
  induction tr₂ using List.reverseRecOn generalizing c with
  | nil =>
      obtain ⟨-, -, -, hlast⟩ := hr.last
      exact ⟨hlast ▸ hpost, fun ev' hev' => absurd hev' List.not_mem_nil⟩
  | append_singleton tr₂ last ih =>
      rw [← List.cons_append, ← List.append_assoc] at hr
      obtain ⟨c₁, hr, hpre, hlast⟩ := hr.last
      obtain ⟨hstate, hall⟩ := ih hr fun ev' hev' => hstep ev' (List.mem_append_left _ hev')
      have hkept := hstep last (List.mem_append_right _ (List.mem_singleton_self _))
      rw [hpre, hlast] at hkept
      refine ⟨hkept hstate, fun ev' hev' => ?_⟩
      rcases List.mem_append.mp hev' with hold | hnew
      · exact hall ev' hold
      · rw [List.mem_singleton.mp hnew, hpre]
        exact hstate

theorem actsOf_cons_act {i : Nat} {e : E} {r : R e} {ev : Event E R S Q}
    (hl : ev.label = .act i e r)
    (tr : List (Event E R S Q)) : actsOf i (ev :: tr) = ⟨e, r⟩ :: actsOf i tr := by
  rw [← List.singleton_append, actsOf_append]
  simp [actsOf, hl]

/-- An effect is one that the program of its own request performs, after what the request has
seen. -/
theorem Run.issued {P : Q → Prog.History E R → E → Prop} {T : Q → Prog.History E R → α → Prop}
    (hP : ∀ q, Prog.Traced (P q) (T q) [] (prog q)) {s₀ : S} {c : Config E R α S Q}
    {tr₁ tr₂ : List (Event E R S Q)} {ev : Event E R S Q}
    (hr : Run prog sem env ⟨s₀, []⟩ (tr₁ ++ ev :: tr₂) c) {i : Nat} {e : E} {r : R e}
    (hl : ev.label = .act i e r) :
    ∃ call, c.calls[i]? = some call ∧ P call.request (actsOf i tr₁) e := by
  have hacts : actsOf i (tr₁ ++ ev :: tr₂) = actsOf i tr₁ ++ ⟨e, r⟩ :: actsOf i tr₂ := by
    rw [actsOf_append, actsOf_cons_act hl]
  obtain ⟨call, hcall⟩ := hr.call_of_mem (i := i) (x := ⟨e, r⟩)
    (by rw [hacts]; exact List.mem_append_right _ (List.mem_cons_self ..))
  have hfollows := hr.follows (p := call.rest) hcall
  rw [hacts] at hfollows
  exact ⟨call, hcall, (hP call.request).issued hfollows⟩

end

end Process

/-! ## Runs over another store -/

namespace Process

universe u v w

section

variable {E : Type u} {R : E → Type v} {α : Type w} {S S' Q : Type*} (view : S → S')

/-- The same calls, on the store as `view` shows it. -/
def Config.on (c : Config E R α S Q) : Config E R α S' Q := ⟨view c.state, c.calls⟩

def Event.on (ev : Event E R S Q) : Event E R S' Q := ⟨view ev.pre, ev.label, view ev.post⟩

variable {view} {prog : Q → Prog E R α} {sem : (e : E) → S → R e → S → Prop} {env : S → S → Prop}
  {sem' : (e : E) → S' → R e → S' → Prop} {env' : S' → S' → Prop}

/-- A run is a run over the store as `view` shows it, if each of its events
is, where the invariant holds, and keeps the invariant. -/
theorem Run.on {c₀ c : Config E R α S Q} {tr : List (Event E R S Q)} {I : S → Prop}
    (hr : Run prog sem env c₀ tr c) (h0 : I c₀.state)
    (hact : ∀ ev ∈ tr, ∀ i e r, ev.label = .act i e r → sem e ev.pre r ev.post → I ev.pre →
      I ev.post ∧ sem' e (view ev.pre) r (view ev.post))
    (henv : ∀ s s', env s s' → I s → I s' ∧ env' (view s) (view s')) :
    I c.state ∧ Run prog sem' env' (c₀.on view) (tr.map (Event.on view)) (c.on view) := by
  induction hr with
  | nil => exact ⟨h0, .nil⟩
  | @snoc tr c c' l hr hs ih =>
      obtain ⟨hI, hrun⟩ := ih fun ev hev => hact ev (List.mem_append_left _ hev)
      have hlast :=
        hact ⟨c.state, l, c'.state⟩ (List.mem_append_right _ (List.mem_singleton_self _))
      suffices hstep : I c'.state ∧ Step prog sem' env' (c.on view) l (c'.on view) by
        refine ⟨hstep.1, ?_⟩
        rw [List.map_append]
        exact hrun.snoc hstep.2
      cases hs with
      | start q => exact ⟨hI, .start (c.on view) q⟩
      | act i q e k r s' hi hs =>
          obtain ⟨hI', hsem⟩ := hlast i e r rfl hs hI
          exact ⟨hI', .act (c.on view) i q e k r (view s') hi hsem⟩
      | env s' hs =>
          obtain ⟨hI', hsem⟩ := henv c.state s' hs hI
          exact ⟨hI', .env (c.on view) (view s') hsem⟩

end

end Process

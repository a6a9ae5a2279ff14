import Rustberg.Management.Recorded

/-!
# What is in force is what is reported

`swap` writes the authorizer under one lock and its sequence under another, and
requests and the poller all swap. While the sequences are written in the order
of the authorizers, and the authorizers in the order of the log, a replica with
nothing in flight enforces the revision it reports, and none newer has been in
force before (`inForce_reported`). Two swaps that cross leave an old policy set
under a new number (`crossed_reported`).
-/

namespace Rustberg.Management

open Process Auth

variable {cedar : Cedar} {failClosed : Bool} {start : System cedar} {tr : List (PolicyEvent cedar)}
  {cfg : PolicyConfig cedar}

/-- No authorizer replaces a newer one. A sequence is written while its own
authorizer is in force, or while the swap of the one in force has yet to write its own. -/
structure SwapsInOrder (tr : List (PolicyEvent cedar)) : Prop where
  current : ∀ tr₁ ev tr₂, tr = tr₁ ++ ev :: tr₂ → ∀ i replica loaded sequence,
    ev.label = .act i (.setCurrent replica loaded sequence) () →
      (ev.pre.replicas replica).installed ≤ sequence
  sequence : ∀ tr₁ ev tr₂, tr = tr₁ ++ ev :: tr₂ → ∀ i replica sequence,
    ev.label = .act i (.setSequence replica sequence) () →
      (ev.pre.replicas replica).installed = sequence ∨ ∃ j loaded, j ≠ i ∧
        Swapping (actsOf j tr₁) replica loaded (ev.pre.replicas replica).installed

theorem SwapsInOrder.of_append {tr' : List (PolicyEvent cedar)} (h : SwapsInOrder (tr ++ tr')) :
    SwapsInOrder tr where
  current tr₁ ev tr₂ htr := h.current tr₁ ev (tr₂ ++ tr') (by simp [htr])
  sequence tr₁ ev tr₂ htr := h.sequence tr₁ ev (tr₂ ++ tr') (by simp [htr])

/-- What the replica enforces was built from the revision whose sequence it reports. -/
def Reported (s : System cedar) (replica : Nat) : Prop :=
  ∃ revision ∈ s.log, revision.sequence = (s.replicas replica).sequence ∧
    cedar.compile revision.source = .ok (s.replicas replica).current.authorizer

/-- The replica enforces the newest revision, or reports an older one, which a tick
then replaces. -/
def Converging (s : System cedar) (replica : Nat) : Prop :=
  ∀ revision, s.log.getLast? = some revision →
    (s.replicas replica).sequence < revision.sequence ∨
      cedar.compile revision.source = .ok (s.replicas replica).current.authorizer

/-! ## What the log answers -/

/-- A revision that an append or a poll has been answered with is in the log, and the
append's has its text. -/
theorem PolicyRun.logged (hrun : PolicyRun failClosed start tr cfg) {i : Nat}
    {loaded : Loaded cedar} {sequence : Nat} (h : Chosen failClosed (actsOf i tr) loaded sequence) :
    ∃ revision ∈ cfg.state.log, revision.sequence = sequence ∧ revision.source = loaded.source := by
  rcases h with ⟨source, author, note, revision, hmem, hsequence, hsource, -⟩ |
    ⟨revision, hmem, hsequence, hsource⟩
  · refine ⟨revision, ?_⟩
    obtain ⟨ev, hev, hlabel⟩ := exists_of_mem_actsOf hmem
    rcases Run.event_cases hrun hev with ⟨q, hq, -⟩ | ⟨j, e, r, hact, hsem⟩ | ⟨henv, -⟩
    · rw [hq] at hlabel
      cases hlabel
    · rw [hact] at hlabel
      cases hlabel
      rcases hsem with ⟨hr, hpost⟩ | ⟨⟨_, hr⟩, -⟩
      · cases hr
        have hlog : ev.pre.next source author note ∈ ev.post.log := by
          rw [hpost]
          exact List.mem_append_right _ (List.mem_singleton_self _)
        exact ⟨hrun.stays (K := fun s => ev.pre.next source author note ∈ s.log)
          (fun e s r s' h => h.log_subset _) hev hlog, hsequence, hsource⟩
      · cases hr
    · rw [henv] at hlabel
      cases hlabel
  · refine ⟨revision, ?_, hsequence, hsource⟩
    obtain ⟨ev, hev, hlabel⟩ := exists_of_mem_actsOf hmem
    refine hrun.stays (fun e s r s' h => h.log_subset _) hev ?_
    rcases Run.event_cases hrun hev with ⟨q, hq, -⟩ | ⟨j, e, r, hact, hsem⟩ | ⟨henv, -⟩
    · rw [hq] at hlabel
      cases hlabel
    · rw [hact] at hlabel
      cases hlabel
      rcases hsem with ⟨hr | ⟨_, hr⟩, hpost⟩
      · rw [hpost]
        exact List.mem_of_getLast? (Except.ok.inj hr).symm
      · cases hr
    · rw [henv] at hlabel
      cases hlabel

/-! ## What swaps keep -/

/-- What is installed is a revision of the log, none installed before was newer, and
the sequence is its own, or its swap has yet to write it. -/
structure Settling (tr : List (PolicyEvent cedar)) (cfg : PolicyConfig cedar) (replica : Nat) :
    Prop where
  logged : ∃ revision ∈ cfg.state.log,
    revision.sequence = (cfg.state.replicas replica).installed ∧
      revision.source = (cfg.state.replicas replica).current.source
  newest : ∀ ev ∈ tr, (ev.pre.replicas replica).installed ≤ (cfg.state.replicas replica).installed
  reported : (cfg.state.replicas replica).sequence = (cfg.state.replicas replica).installed ∨
    ∃ i loaded, Swapping (actsOf i tr) replica loaded (cfg.state.replicas replica).installed

/-- A step that leaves the replica alone. -/
theorem Settling.snoc {replica : Nat} {l : Label (Effect cedar) Effect.Answer Request}
    {cfg' : PolicyConfig cedar} (h : Settling tr cfg replica)
    (hreplica : cfg'.state.replicas replica = cfg.state.replicas replica)
    (hlog : ∀ revision ∈ cfg.state.log, revision ∈ cfg'.state.log)
    (hswap : ∀ i loaded sequence, Swapping (actsOf i tr) replica loaded sequence →
      Swapping (actsOf i (tr ++ [⟨cfg.state, l, cfg'.state⟩])) replica loaded sequence) :
    Settling (tr ++ [⟨cfg.state, l, cfg'.state⟩]) cfg' replica where
  logged := by
    obtain ⟨revision, hmem, hrest⟩ := h.logged
    rw [hreplica]
    exact ⟨revision, hlog _ hmem, hrest⟩
  newest ev hev := by
    rw [hreplica]
    rcases List.mem_append.mp hev with hold | hlast
    · exact h.newest ev hold
    · rw [List.mem_singleton.mp hlast]
  reported := by
    rw [hreplica]
    exact h.reported.imp_right fun ⟨i, loaded, hswapping⟩ => ⟨i, loaded, hswap _ _ _ hswapping⟩

theorem actsOf_snoc_ne {i j : Nat} (hij : i ≠ j) (s s' : System cedar) (e : Effect cedar)
    (r : e.Answer) : actsOf i (tr ++ [⟨s, .act j e r, s'⟩]) = actsOf i tr := by
  rw [actsOf_append]
  simp [actsOf, hij.symm]

theorem PolicyRun.settling (hstart : Started start) (hrun : PolicyRun failClosed start tr cfg)
    (horder : SwapsInOrder tr) (replica : Nat) : Settling tr cfg replica := by
  induction hrun with
  | nil =>
      exact ⟨hstart.loaded replica, fun ev hev => (by cases hev), Or.inl (hstart.sequence replica)⟩
  | @snoc tr cfg cfg' l hr hs ih =>
      have hold := ih horder.of_append
      cases hs with
      | start q => exact hold.snoc rfl (fun _ h => h) fun i _ _ h => by simpa [actsOf] using h
      | env s' hs =>
          obtain rfl := hs
          exact hold.snoc rfl (fun _ h => h) fun i _ _ h => by simpa [actsOf] using h
      | act j q e k r s' hj hs =>
          have hissues : Issues failClosed (actsOf j tr) e :=
            (hr.traced hj (serve_traced failClosed q)).1
          -- Only its own sequence ends a swap.
          have hswap : (∀ sequence, e ≠ .setSequence replica sequence) →
              ∀ i loaded sequence, Swapping (actsOf i tr) replica loaded sequence →
                Swapping (actsOf i (tr ++ [⟨cfg.state, .act j e r, s'⟩])) replica loaded
                  sequence := by
            intro hne i loaded sequence hswapping
            by_cases hij : i = j
            · subst hij
              exact absurd (hissues.2 _ _ _ hswapping) (hne sequence)
            · rwa [actsOf_snoc_ne hij]
          cases e with
          | setCurrent replica' loaded sequence =>
              by_cases hreplica : replica' = replica
              · subst hreplica
                have hle := horder.current tr _ [] rfl j replica' loaded sequence rfl
                obtain rfl := hs
                have hpost : (cfg.state.setReplica replica' { cfg.state.replicas replica' with
                    current := loaded, installed := sequence }).replicas replica' =
                      { cfg.state.replicas replica' with
                        current := loaded, installed := sequence } := by
                  simp
                refine ⟨?_, fun ev hev => ?_, Or.inr ⟨j, loaded, ?_⟩⟩
                · rw [hpost]
                  exact PolicyRun.logged hr hissues.1
                · rw [hpost]
                  rcases List.mem_append.mp hev with hmem | hlast
                  · exact Nat.le_trans (hold.newest ev hmem) hle
                  · rw [List.mem_singleton.mp hlast]
                    exact hle
                · rw [hpost, actsOf_append, actsOf_act]
                  simp [Swapping]
              · obtain rfl := hs
                exact hold.snoc (by simp [Ne.symm hreplica]) (fun _ h => h)
                  (hswap fun _ h => by cases h)
          | setSequence replica' sequence =>
              by_cases hreplica : replica' = replica
              · subst hreplica
                have hnext := horder.sequence tr _ [] rfl j replica' sequence rfl
                obtain rfl := hs
                have hpost : (cfg.state.setReplica replica' { cfg.state.replicas replica' with
                    sequence := sequence }).replicas replica' =
                      { cfg.state.replicas replica' with sequence := sequence } := by
                  simp
                refine ⟨?_, fun ev hev => ?_, ?_⟩
                · rw [hpost]
                  exact hold.logged
                · rw [hpost]
                  rcases List.mem_append.mp hev with hmem | hlast
                  · exact hold.newest ev hmem
                  · rw [List.mem_singleton.mp hlast]
                · rw [hpost]
                  rcases hnext with heq | ⟨i, loaded, hij, hswapping⟩
                  · exact Or.inl heq.symm
                  · exact Or.inr ⟨i, loaded, by rwa [actsOf_snoc_ne hij]⟩
              · obtain rfl := hs
                exact hold.snoc (by simp [Ne.symm hreplica]) (fun _ h => h)
                  (hswap fun _ h => hreplica (Effect.setSequence.inj h).1)
          | append source author note =>
              refine hold.snoc ?_ hs.log_subset (hswap fun _ h => by cases h)
              rcases hs with ⟨-, rfl⟩ | ⟨-, rfl | rfl⟩ <;> rfl
          | write line =>
              refine hold.snoc ?_ hs.log_subset (hswap fun _ h => by cases h)
              rcases hs with ⟨-, rfl⟩ | ⟨-, rfl⟩ <;> rfl
          | _ =>
              refine hold.snoc ?_ hs.log_subset (hswap fun _ h => by cases h)
              obtain ⟨-, rfl⟩ := hs
              rfl

/-- With every call at its end, no swap is half made. -/
theorem PolicyRun.not_swapping (hrun : PolicyRun failClosed start tr cfg)
    (hdone : ∀ call ∈ cfg.calls, ∃ result, call.rest = .done result) (i replica : Nat)
    (loaded : Loaded cedar) (sequence : Nat) :
    ¬ Swapping (actsOf i tr) replica loaded sequence := by
  intro hswapping
  obtain ⟨⟨q, rest⟩, hi⟩ := Run.call_of_mem hrun (List.mem_of_getLast? hswapping)
  obtain ⟨result, hrest⟩ := hdone _ (List.mem_of_getElem? hi)
  obtain rfl : rest = .done result := hrest
  have hends : Ends (actsOf i tr) result := Run.traced hrun hi (serve_traced failClosed q)
  exact hends.1 replica loaded sequence hswapping

/-- While swaps keep their order: whenever nothing is in flight, every replica enforces
the revision it reports, none newer has been in force before, and a tick takes it on
to the newest. -/
theorem inForce_reported (cedar : Cedar) (failClosed : Bool) (start : System cedar)
    (tr : List (PolicyEvent cedar)) (cfg : PolicyConfig cedar) (hstart : Started start)
    (hrun : PolicyRun failClosed start tr cfg)
    (hdone : ∀ call ∈ cfg.calls, ∃ result, call.rest = .done result) (horder : SwapsInOrder tr)
    (replica : Nat) : Reported cfg.state replica ∧
      (∀ ev ∈ tr, (ev.pre.replicas replica).installed ≤ (cfg.state.replicas replica).sequence) ∧
        Converging cfg.state replica := by
  have hsettling := PolicyRun.settling hstart hrun horder replica
  have hsequence :
    (cfg.state.replicas replica).sequence = (cfg.state.replicas replica).installed := by
    rcases hsettling.reported with heq | ⟨i, loaded, hswapping⟩
    · exact heq
    · exact absurd hswapping (PolicyRun.not_swapping hrun hdone i replica loaded _)
  obtain ⟨revision, hmem, hinstalled, hsource⟩ := hsettling.logged
  have hcompile :
    cedar.compile revision.source = .ok (cfg.state.replicas replica).current.authorizer := by
    rw [hsource]
    exact (cfg.state.replicas replica).current.built
  refine ⟨⟨revision, hmem, by rw [hinstalled, hsequence], hcompile⟩, fun ev hev => ?_, ?_⟩
  · rw [hsequence]
    exact hsettling.newest ev hev
  · intro last hlast
    rcases Nat.lt_or_ge (cfg.state.replicas replica).sequence last.sequence with hlt | hge
    · exact Or.inl hlt
    · -- Sequences are distinct, so what is in force is the last of the log.
      have hnumbered := PolicyRun.numbered hstart hrun
      obtain ⟨log, hlog⟩ := List.getLast?_eq_some_iff.mp hlast
      have hordered := hnumbered.ordered
      rw [hlog] at hmem hordered
      rcases List.mem_append.mp hmem with hold | hnew
      · have hlt := (List.pairwise_append.mp hordered).2.2 _ hold _ (List.mem_singleton_self _)
        omega
      · rw [← List.mem_singleton.mp hnew]
        exact Or.inr hcompile

/-! ### Two updates in turn, and two that cross -/

/-- The order of swaps, where no other swap is under way. -/
def inOrder (ev : PolicyEvent permitAll) : Bool :=
  match ev.label with
  | .act _ (.setCurrent replica _ sequence) _ => (ev.pre.replicas replica).installed ≤ sequence
  | .act _ (.setSequence replica sequence) _ => (ev.pre.replicas replica).installed = sequence
  | _ => true

theorem swapsInOrder_of_all {tr : List (PolicyEvent permitAll)} (h : tr.all inOrder = true) :
    SwapsInOrder tr where
  current := by
    intro tr₁ ev tr₂ htr i replica loaded sequence hlabel
    have hev : inOrder ev = true := List.all_eq_true.mp h ev (by simp [htr])
    rw [inOrder, hlabel] at hev
    exact of_decide_eq_true hev
  sequence := by
    intro tr₁ ev tr₂ htr i replica sequence hlabel
    have hev : inOrder ev = true := List.all_eq_true.mp h ev (by simp [htr])
    rw [inOrder, hlabel] at hev
    exact Or.inl (of_decide_eq_true hev)

def finished (call : Call (Effect permitAll) Effect.Answer Result Request) : Bool :=
  match call.rest with
  | .done _ => true
  | .perform .. => false

theorem done_of_all {cfg : PolicyConfig permitAll} (h : cfg.calls.all finished = true) :
    ∀ call ∈ cfg.calls, ∃ result, call.rest = .done result := by
  intro call hmem
  have hfinished := List.all_eq_true.mp h call hmem
  cases hrest : call.rest with
  | done result => exact ⟨result, rfl⟩
  | perform e k =>
      rw [finished, hrest] at hfinished
      cases hfinished

/-- Two updates append in turn and swap in turn, and the poller of replica 1 reads the
second revision before replica 0 has it in force. -/
def inTurn : List (PolicyEvent permitAll) × PolicyConfig permitAll :=
  runWith (fun _ => true)
    [.start (.update 0 admin "a".toList none), .start (.update 0 admin "b".toList none), .step 0,
      .step 0, .step 0, .step 0, .step 0, .step 1, .step 1, .step 1, .step 1, .step 1,
      .start (.tick 1), .step 2, .step 0, .step 2, .step 0, .step 1, .step 2, .step 1, .step 2]

theorem inForce_reported_inTurn :
    ((inTurn.2.state.replicas 0).sequence = 3 ∧ (inTurn.2.state.replicas 1).sequence = 3) ∧
      ∀ replica, Reported inTurn.2.state replica ∧
        (∀ ev ∈ inTurn.1, (ev.pre.replicas replica).installed ≤
          (inTurn.2.state.replicas replica).sequence) ∧ Converging inTurn.2.state replica :=
  ⟨by decide +kernel, inForce_reported permitAll true seeded inTurn.1 inTurn.2 seeded_started
    (runWith_run _ _) (done_of_all (by decide +kernel)) (swapsInOrder_of_all (by decide +kernel))⟩

/-- Two updates append in turn; the second writes its authorizer before the first, and
its sequence after. -/
def crossed : List (PolicyEvent permitAll) × PolicyConfig permitAll :=
  runWith (fun _ => true) (
    [.start (.update 0 admin "a".toList none), .start (.update 0 admin "b".toList none)] ++
      List.replicate 5 (.step 0) ++ List.replicate 5 (.step 1) ++
        [.step 1, .step 0, .step 0, .step 1])

theorem crossed_sequence : (crossed.2.state.replicas 0).sequence = 3 := by decide +kernel

theorem crossed_current :
    (crossed.2.state.replicas 0).current.authorizer.policySetVersion = some "a".toList := by
  decide +kernel

theorem crossed_log :
    (crossed.2.state.log.all fun revision =>
      revision.sequence != 3 || revision.source != "a".toList) =
      true := by decide +kernel

/-- The first policy set is enforced under the second one's number. -/
theorem crossed_reported :
    ¬ ∀ (cedar : Cedar) (failClosed : Bool) (start : System cedar) (tr : List (PolicyEvent cedar))
      (cfg : PolicyConfig cedar), Started start → PolicyRun failClosed start tr cfg →
        (∀ call ∈ cfg.calls, ∃ result, call.rest = .done result) →
          ∀ replica, Reported cfg.state replica := by
  intro hall
  obtain ⟨revision, hmem, hsequence, hcompile⟩ := hall permitAll true seeded crossed.1 crossed.2
    seeded_started (runWith_run _ _) (done_of_all (by decide +kernel)) 0
  rw [crossed_sequence] at hsequence
  have hsource : some revision.source = some "a".toList := by
    rw [← crossed_current, ← Except.ok.inj hcompile]
  have hlog := List.all_eq_true.mp crossed_log revision hmem
  rw [hsequence, Option.some.inj hsource] at hlog
  exact absurd hlog (by decide)

end Rustberg.Management

import Rustberg.Management.Policies

/-!
# What is in force has been recorded

A request appends its revision before its line is accepted, and installs it
after. While pollers read only revisions that have been recorded, no revision
of a request is in force anywhere without its line, and one whose request
answered that it is not in force never is (`installed_recorded`). A poller
that reads the log in between installs what was refused
(`refused_installed`).
-/

namespace Rustberg.Management

open Process Auth

variable {cedar : Cedar} {start : System cedar} {tr : List (PolicyEvent cedar)}
  {cfg : PolicyConfig cedar}

/-- A line of the trail that says which revision it is about. -/
def Line.Names (line : Line) (sequence : Nat) : Prop :=
  ∃ event details, line = .policySet event details ∧
    ("policy_sequence".toList, Text.decimal sequence) ∈ details

/-- An accepted line names the revision. -/
def System.Named (s : System cedar) (sequence : Nat) : Prop := ∃ line ∈ s.trail, line.Names sequence

/-- No poller reads a revision of a request before its line is accepted. -/
def PollsRecorded (start : System cedar) (tr : List (PolicyEvent cedar)) : Prop :=
  ∀ ev ∈ tr, ∀ i revision, ev.label = .act i .current (.ok (some revision)) →
    revision ∈ start.log ∨ ev.pre.Named revision.sequence

theorem installLine_names (caller : Caller) (revision : PolicyRevision) :
    (installLine caller revision).Names revision.sequence :=
  ⟨_, _, rfl, List.mem_cons_self ..⟩

theorem decimal_inj {m n : Nat} (h : Text.decimal m = Text.decimal n) : m = n :=
  Nat.repr_injective (congrArg String.ofList h)

theorem installLine_names_iff {caller : Caller} {revision : PolicyRevision} {sequence : Nat} :
    (installLine caller revision).Names sequence ↔ sequence = revision.sequence := by
  constructor
  · rintro ⟨event, details, hline, hmem⟩
    cases hline
    rcases List.mem_cons.mp hmem with heq | hmem
    · exact decimal_inj (Prod.mk.inj heq).2
    · obtain ⟨hkey, -⟩ := Prod.mk.inj (List.mem_singleton.mp hmem)
      exact absurd hkey (by decide)
  · rintro rfl
    exact installLine_names caller revision

/-! ## What stays -/

theorem PolicyRun.stays {failClosed : Bool} {K : System cedar → Prop}
    (hrun : PolicyRun failClosed start tr cfg)
    (hsem : ∀ (e : Effect cedar) s (r : e.Answer) s', Sem e s r s' → K s → K s')
    {ev : PolicyEvent cedar} (hev : ev ∈ tr) (hpost : K ev.post) : K cfg.state :=
  Run.stays hrun hsem (fun _ _ heq hs => heq ▸ hs) hev hpost

theorem Sem.named {s s' : System cedar} {e : Effect cedar} {r : e.Answer} (h : Sem e s r s')
    {sequence : Nat} (hs : s.Named sequence) : s'.Named sequence := by
  obtain ⟨line, hmem, hnames⟩ := hs
  exact ⟨line, h.trail_subset line hmem, hnames⟩

/-- An accepted line is in the trail. -/
theorem PolicyRun.accepted {failClosed : Bool} (hrun : PolicyRun failClosed start tr cfg) {i : Nat}
    {line : Line} (hmem : (⟨.write line, .ok ()⟩ : Σ e : Effect cedar, e.Answer) ∈ actsOf i tr) :
    line ∈ cfg.state.trail := by
  obtain ⟨ev, hev, hlabel⟩ := exists_of_mem_actsOf hmem
  refine hrun.stays (fun e s r s' h hs => h.trail_subset line hs) hev ?_
  rcases Run.event_cases hrun hev with ⟨q, hq, -⟩ | ⟨j, e, r, hact, hsem⟩ | ⟨henv, -⟩
  · rw [hq] at hlabel
    cases hlabel
  · rw [hact] at hlabel
    cases hlabel
    rcases hsem with ⟨-, hpost⟩ | ⟨⟨_, he⟩, -⟩
    · rw [hpost]
      exact List.mem_append_right _ (List.mem_singleton_self _)
    · cases he
  · rw [henv] at hlabel
    cases hlabel

/-- What a poller has read was recorded by then, and is so from then on. -/
theorem PolicyRun.polled {failClosed : Bool} (hrun : PolicyRun failClosed start tr cfg)
    (hpolls : PollsRecorded start tr) {i : Nat} {revision : PolicyRevision}
    (hmem : (⟨.current, .ok (some revision)⟩ : Σ e : Effect cedar, e.Answer) ∈ actsOf i tr) :
    revision ∈ start.log ∨ cfg.state.Named revision.sequence := by
  obtain ⟨ev, hev, hlabel⟩ := exists_of_mem_actsOf hmem
  refine (hpolls ev hev i revision hlabel).imp_right fun hnamed => ?_
  refine hrun.stays (fun e s r s' h hs => h.named hs) hev ?_
  rcases Run.event_cases hrun hev with ⟨q, hq, -⟩ | ⟨j, e, r, hact, hsem⟩ | ⟨henv, -⟩
  · rw [hq] at hlabel
    cases hlabel
  · exact hsem.named hnamed
  · rw [henv] at hlabel
    cases hlabel

/-- The revision is one the log began with, or its line has been accepted. -/
def Covered (start s : System cedar) (sequence : Nat) : Prop :=
  (∃ revision ∈ start.log, revision.sequence = sequence) ∨ s.Named sequence

theorem PolicyRun.covered (hstart : Started start) (hrun : PolicyRun true start tr cfg)
    (hpolls : PollsRecorded start tr) (replica : Nat) :
    Covered start cfg.state (cfg.state.replicas replica).installed := by
  induction hrun with
  | nil =>
      obtain ⟨revision, hmem, hsequence, -⟩ := hstart.loaded replica
      exact Or.inl ⟨revision, hmem, hsequence⟩
  | @snoc tr cfg cfg' l hr hs ih =>
      have hold : PollsRecorded start tr := fun ev hev => hpolls ev (List.mem_append_left _ hev)
      have hcovered := ih hold
      cases hs with
      | start q => exact hcovered
      | env s' hs =>
          obtain rfl := hs
          exact hcovered
      | act j q e k r s' hj hs =>
          have hkeeps : Covered start s' (cfg.state.replicas replica).installed :=
            hcovered.imp_right hs.named
          cases e with
          | setCurrent replica' loaded sequence =>
              obtain rfl := hs
              change Covered start cfg.state (System.replicas _ replica).installed
              rw [System.setReplica_replicas]
              split
              · rcases (hr.traced hj (serve_traced true q)).1.1 with
                  ⟨source, author, note, revision, -, rfl, -, hline⟩ | ⟨revision, hread, rfl, -⟩
                · obtain ⟨caller, hline⟩ := hline rfl
                  exact Or.inr ⟨_, PolicyRun.accepted hr hline, installLine_names caller revision⟩
                · exact (PolicyRun.polled hr hold hread).imp_left fun hmem => ⟨revision, hmem, rfl⟩
              · exact hcovered
          | setSequence replica' sequence =>
              obtain rfl := hs
              change Covered start cfg.state (System.replicas _ replica).installed
              rw [System.setReplica_replicas]
              split
              · next heq =>
                  subst heq
                  exact hcovered
              · exact hcovered
          | append source author note => rcases hs with ⟨-, rfl⟩ | ⟨-, rfl | rfl⟩ <;> exact hkeeps
          | write line => rcases hs with ⟨-, rfl⟩ | ⟨-, rfl⟩ <;> exact hkeeps
          | _ => obtain ⟨-, rfl⟩ := hs; exact hkeeps

/-! ## One append a revision -/

/-- Call `i` has appended `revision`. -/
def Appended (tr : List (PolicyEvent cedar)) (i : Nat) (revision : PolicyRevision) : Prop :=
  ∃ source author note,
    (⟨.append source author note, .ok revision⟩ : Σ e : Effect cedar, e.Answer) ∈ actsOf i tr

theorem appended_snoc {ev : PolicyEvent cedar} {i : Nat} {revision : PolicyRevision}
    (h : Appended (tr ++ [ev]) i revision) : Appended tr i revision ∨
      ∃ source author note, ev.label = .act i (.append source author note) (.ok revision) := by
  obtain ⟨source, author, note, hmem⟩ := h
  rw [actsOf_append] at hmem
  rcases List.mem_append.mp hmem with hold | hnew
  · exact Or.inl ⟨source, author, note, hold⟩
  · obtain ⟨ev', hev', hlabel⟩ := exists_of_mem_actsOf hnew
    obtain rfl := List.mem_singleton.mp hev'
    exact Or.inr ⟨source, author, note, hlabel⟩

/-- Appended revisions are in the log, newer than what it began with, and no two
calls have appended one sequence. -/
structure Numbered (start : System cedar) (tr : List (PolicyEvent cedar))
    (cfg : PolicyConfig cedar) :
    Prop where
  ordered : cfg.state.log.Pairwise fun a b => a.sequence < b.sequence
  kept : ∀ revision ∈ start.log, revision ∈ cfg.state.log
  logged : ∀ i revision, Appended tr i revision → revision ∈ cfg.state.log
  newer : ∀ i revision, Appended tr i revision → ∀ old ∈ start.log, old.sequence < revision.sequence
  unique : ∀ i i' revision revision', Appended tr i revision → Appended tr i' revision' →
    revision.sequence = revision'.sequence → i = i'

theorem PolicyRun.numbered {failClosed : Bool} (hstart : Started start)
    (hrun : PolicyRun failClosed start tr cfg) : Numbered start tr cfg := by
  induction hrun with
  | nil =>
      exact ⟨hstart.ordered, fun _ h => h, fun _ _ ⟨_, _, _, h⟩ => (by cases h),
        fun _ _ ⟨_, _, _, h⟩ => (by cases h), fun _ _ _ _ ⟨_, _, _, h⟩ => (by cases h)⟩
  | @snoc tr cfg cfg' l hr hs ih =>
      have hsubset : ∀ revision ∈ cfg.state.log, revision ∈ cfg'.state.log := by
        cases hs with
        | start q => exact fun _ h => h
        | env s' hs => exact fun _ h => hs ▸ h
        | act j q e k r s' hj hs => exact hs.log_subset
      -- What this step appends is the next revision.
      have hnew : ∀ i source author note revision,
          l = .act i (.append source author note) (.ok revision) →
            revision = cfg.state.next source author note ∧ revision ∈ cfg'.state.log := by
        rintro i source author note revision rfl
        rcases hs.effect with ⟨hr, hpost⟩ | ⟨⟨_, hr⟩, -⟩
        · cases hr
          exact ⟨rfl, hpost ▸ List.mem_append_right _ (List.mem_singleton_self _)⟩
        · cases hr
      have habove : ∀ i source author note revision,
          l = .act i (.append source author note) (.ok revision) →
            ∀ old ∈ cfg.state.log, old.sequence < revision.sequence := by
        intro i source author note revision hl old hmem
        rw [(hnew i source author note revision hl).1]
        exact Nat.lt_succ_of_le (System.le_newest ih.ordered hmem)
      refine ⟨?_, fun revision h => hsubset _ (ih.kept revision h), fun i revision h => ?_,
        fun i revision h => ?_, fun i i' revision revision' h h' heq => ?_⟩
      · cases hs with
        | start q => exact ih.ordered
        | env s' hs => exact hs ▸ ih.ordered
        | act j q e k r s' hj hs => exact hs.ordered ih.ordered
      · rcases appended_snoc h with hold | ⟨source, author, note, hl⟩
        · exact hsubset _ (ih.logged i revision hold)
        · exact (hnew i source author note revision hl).2
      · rcases appended_snoc h with hold | ⟨source, author, note, hl⟩
        · exact ih.newer i revision hold
        · exact fun old hmem => habove i source author note revision hl old (ih.kept old hmem)
      · rcases appended_snoc h with hold | ⟨source, author, note, hl⟩ <;>
          rcases appended_snoc h' with hold' | ⟨source', author', note', hl'⟩
        · exact ih.unique i i' revision revision' hold hold' heq
        · have hlt := habove i' _ _ _ _ hl' revision (ih.logged i revision hold)
          omega
        · have hlt := habove i _ _ _ _ hl revision' (ih.logged i' revision' hold')
          omega
        · change l = _ at hl hl'
          rw [hl] at hl'
          cases hl'
          rfl

/-- A line that names a revision was accepted by the call that appended it. -/
theorem PolicyRun.named_by {failClosed : Bool} (hstart : Started start)
    (hrun : PolicyRun failClosed start tr cfg) {sequence : Nat}
    (hnamed : cfg.state.Named sequence) : ∃ i revision event details, Appended tr i revision ∧
      revision.sequence = sequence ∧
        (⟨.write (.policySet event details), .ok ()⟩ : Σ e : Effect cedar, e.Answer) ∈
          actsOf i tr := by
  have hlines : ∀ line ∈ cfg.state.trail, line.Names sequence → ∃ i revision event details,
      Appended tr i revision ∧ revision.sequence = sequence ∧
        (⟨.write (.policySet event details), .ok ()⟩ : Σ e : Effect cedar, e.Answer) ∈
          actsOf i tr := by
    clear hnamed
    induction hrun with
    | nil =>
        intro line hmem
        change line ∈ start.trail at hmem
        rw [hstart.trail] at hmem
        cases hmem
    | @snoc tr cfg cfg' l hr hs ih =>
        intro line hmem hnames
        have hstep : line ∈ cfg.state.trail ∨ ∃ j, l = .act j (.write line) (.ok ()) := by
          cases hs with
          | start q => exact Or.inl hmem
          | env s' hs => exact Or.inl (hs ▸ hmem)
          | act j q e k r s' hj hs =>
              cases e with
              | write line' =>
                  rcases hs with ⟨rfl, rfl⟩ | ⟨-, rfl⟩
                  · rcases List.mem_append.mp hmem with hold | hlast
                    · exact Or.inl hold
                    · obtain rfl := List.mem_singleton.mp hlast
                      exact Or.inr ⟨j, rfl⟩
                  · exact Or.inl hmem
              | append source author note =>
                  rcases hs with ⟨-, rfl⟩ | ⟨-, rfl | rfl⟩ <;> exact Or.inl hmem
              | setCurrent replica loaded sequence => obtain rfl := hs; exact Or.inl hmem
              | setSequence replica sequence => obtain rfl := hs; exact Or.inl hmem
              | _ => obtain ⟨-, rfl⟩ := hs; exact Or.inl hmem
        rcases hstep with hold | ⟨j, rfl⟩
        · obtain ⟨i, revision, event, details, ⟨source, author, note, happ⟩, hsequence, hwrite⟩ :=
            ih line hold hnames
          refine ⟨i, revision, event, details, ⟨source, author, note, ?_⟩, hsequence, ?_⟩
          · rw [actsOf_append]
            exact List.mem_append_left _ happ
          · rw [actsOf_append]
            exact List.mem_append_left _ hwrite
        · obtain ⟨event, details, rfl, -⟩ := id hnames
          obtain ⟨caller, source, author, note, revision, hline, happ⟩ :=
            (hr.issues (serve_traced failClosed) hs).1
          rw [hline, installLine_names_iff] at hnames
          refine ⟨j, revision, event, details, ⟨source, author, note, ?_⟩, hnames.symm, ?_⟩
          · rw [actsOf_append]
            exact List.mem_append_left _ happ
          · rw [actsOf_append, actsOf_act]
            exact List.mem_append_right _ (List.mem_singleton_self _)
  obtain ⟨line, hmem, hnames⟩ := hnamed
  exact hlines line hmem hnames

/-- While pollers read only what is recorded: what any replica enforces is a
revision the log began with or one that an accepted line names, and a revision
whose request answered that it is not in force is enforced by none. -/
theorem installed_recorded (cedar : Cedar) (start : System cedar) (tr : List (PolicyEvent cedar))
    (cfg : PolicyConfig cedar) (hstart : Started start) (hrun : PolicyRun true start tr cfg)
    (hpolls : PollsRecorded start tr) :
    (∀ replica, Covered start cfg.state (cfg.state.replicas replica).installed) ∧
      ∀ i q, cfg.calls[i]? = some ⟨q, .done (.error notInForce)⟩ → ∀ revision,
        Appended tr i revision → ∀ replica,
          (cfg.state.replicas replica).installed ≠ revision.sequence := by
  refine ⟨PolicyRun.covered hstart hrun hpolls, fun i q hi revision happended replica heq => ?_⟩
  have hnumbered := PolicyRun.numbered hstart hrun
  rcases PolicyRun.covered hstart hrun hpolls replica with ⟨old, hmem, hsequence⟩ | hnamed
  · have hlt := hnumbered.newer i revision happended old hmem
    omega
  · rw [heq] at hnamed
    obtain ⟨j, revision', event, details, happended', hsequence, hwrite⟩ :=
      PolicyRun.named_by hstart hrun hnamed
    obtain rfl := hnumbered.unique i j revision revision' happended happended' hsequence.symm
    have hends : Ends (actsOf i tr) (.error notInForce) := hrun.traced hi (serve_traced true q)
    exact hends.2 rfl event details hwrite

/-! ### An update on one replica, a poller on another -/

/-- Every text is a policy set that permits everything. -/
def permitAll : Cedar where
  compile source := .ok ⟨fun _ => .allow, some source⟩
  versionOf source := source

def loadedAs (source : Text) : Loaded permitAll := ⟨source, ⟨fun _ => .allow, some source⟩, rfl⟩

/-- A log with its seed, which every replica has loaded. -/
def seeded : System permitAll where
  log :=
    [⟨1, "seed".toList, "seed".toList, "system:bootstrap".toList, some "Seeded at startup".toList⟩]
  trail := []
  replicas _ := ⟨loadedAs "seed".toList, 1, 1⟩

theorem seeded_started : Started seeded where
  ordered := List.pairwise_singleton ..
  loaded _ := ⟨_, List.mem_singleton_self _, rfl, rfl⟩
  sequence _ := rfl
  trail := rfl

/-- Every effect succeeds, but for the lines the sink does not accept. -/
def System.handle (accepts : Line → Bool) :
    (e : Effect permitAll) → System permitAll → e.Answer × System permitAll
  | .snapshot replica, s => ((s.replicas replica).current, s)
  | .loadedSequence replica, s => ((s.replicas replica).sequence, s)
  | .setCurrent replica loaded sequence, s => ((),
      s.setReplica replica { s.replicas replica with current := loaded, installed := sequence })
  | .setSequence replica sequence, s => ((),
      s.setReplica replica { s.replicas replica with sequence := sequence })
  | .current, s => (.ok s.log.getLast?, s)
  | .append source author note, s =>
      (.ok (s.next source author note), { s with log := s.log ++ [s.next source author note] })
  | .get sequence, s => (.ok (s.log.find? (·.sequence = sequence)), s)
  | .write line, s => match accepts line with
      | true => (.ok (), { s with trail := s.trail ++ [line] })
      | false => (.error "disk full".toList, s)

theorem System.handle_sem (accepts : Line → Bool) (e : Effect permitAll) (s : System permitAll) :
    Sem e s (s.handle accepts e).1 (s.handle accepts e).2 := by
  cases e with
  | snapshot replica => exact ⟨rfl, rfl⟩
  | loadedSequence replica => exact ⟨rfl, rfl⟩
  | setCurrent replica loaded sequence => rfl
  | setSequence replica sequence => rfl
  | current => exact ⟨Or.inl rfl, rfl⟩
  | append source author note => exact Or.inl ⟨rfl, rfl⟩
  | get sequence => exact ⟨Or.inl rfl, rfl⟩
  | write line =>
      cases h : accepts line with
      | true =>
          simp only [handle, h]
          exact Or.inl ⟨rfl, rfl⟩
      | false =>
          simp only [handle, h]
          exact Or.inr ⟨⟨_, rfl⟩, rfl⟩

def runWith (accepts : Line → Bool) (ms : List (Move Request)) :
    List (PolicyEvent permitAll) × PolicyConfig permitAll :=
  Config.moves (Request.serve permitAll true) (fun e s => System.handle accepts e s) ⟨seeded, []⟩ ms

theorem runWith_run (accepts : Line → Bool) (ms : List (Move Request)) :
    PolicyRun true seeded (runWith accepts ms).1 (runWith accepts ms).2 :=
  Run.moves (System.handle_sem accepts) .nil ms

def admin : Caller := ⟨⟨"ada".toList, .user, "acme".toList, []⟩, ⟨none, none, []⟩⟩

/-- An update on replica 0, up to its answer. -/
def updating : List (Move Request) :=
  .start (.update 0 admin "new".toList none) :: List.replicate 7 (.step 0)

/-- The details of a line give the sequence. -/
def Line.names (line : Line) (sequence : Nat) : Bool :=
  match line with
  | .decision _ => false
  | .policySet _ details => details.contains ("policy_sequence".toList, Text.decimal sequence)

theorem Line.names_of_check {line : Line} {sequence : Nat} (h : line.names sequence = true) :
    line.Names sequence := by
  cases line with
  | decision event => cases h
  | policySet event details => exact ⟨event, details, rfl, List.contains_iff_mem.mp h⟩

/-- A poller that reads the log in this event reads what is recorded. -/
def pollRecorded (start : System permitAll) (ev : PolicyEvent permitAll) : Bool :=
  match ev.label with
  | .act _ .current (.ok (some revision)) =>
      start.log.contains revision || ev.pre.trail.any (·.names revision.sequence)
  | _ => true

theorem pollsRecorded_of_all {start : System permitAll} {tr : List (PolicyEvent permitAll)}
    (h : tr.all (pollRecorded start) = true) : PollsRecorded start tr := by
  intro ev hev i revision hlabel
  have hpoll := List.all_eq_true.mp h ev hev
  rw [pollRecorded, hlabel] at hpoll
  rcases Bool.or_eq_true_iff.mp hpoll with hseed | hnamed
  · exact Or.inl (List.contains_iff_mem.mp hseed)
  · obtain ⟨line, hmem, hnames⟩ := List.any_eq_true.mp hnamed
    exact Or.inr ⟨line, hmem, Line.names_of_check hnames⟩

/-- The sink accepts decisions, and of the policy sets the second alone. -/
def acceptsSecond : Line → Bool
  | .decision _ => true
  | line => line.names 2

/-- One update is recorded and installed. While the next is under way the poller of
replica 1 has its round, and then the line of that update is refused. -/
def polled : List (PolicyEvent permitAll) × PolicyConfig permitAll :=
  runWith acceptsSecond (updating ++
    [.start (.update 0 admin "newer".toList none), .step 1, .start (.tick 1), .step 2, .step 1,
      .step 2, .step 2, .step 2, .step 1, .step 1, .step 1])

/-- The revision that the refused update has appended. -/
theorem polled_appended : ∃ revision, Appended polled.1 1 revision ∧ revision.sequence = 3 := by
  obtain ⟨author, revision, hact, hsequence⟩ : ∃ author revision, (actsOf 1 polled.1)[3]? =
      some ⟨.append "newer".toList author none, .ok revision⟩ ∧ revision.sequence = 3 :=
    ⟨_, _, rfl, rfl⟩
  exact ⟨revision, ⟨_, author, none, List.mem_of_getElem? hact⟩, hsequence⟩

theorem polled_notInForce : ∃ q, polled.2.calls[1]? = some ⟨q, .done (.error notInForce)⟩ :=
  ⟨_, rfl⟩

theorem installed_recorded_polled :
    ((polled.2.state.replicas 1).installed = 2 ∧ Covered seeded polled.2.state 2) ∧
      ∃ revision, (Appended polled.1 1 revision ∧ revision.sequence = 3) ∧
        ∀ replica, (polled.2.state.replicas replica).installed ≠ revision.sequence := by
  obtain ⟨hcovered, hrefused⟩ :=
    installed_recorded permitAll seeded polled.1 polled.2 seeded_started
    (runWith_run _ _) (pollsRecorded_of_all (by decide))
  obtain ⟨revision, happended, hsequence⟩ := polled_appended
  obtain ⟨q, hcall⟩ := polled_notInForce
  have hpolled : (polled.2.state.replicas 1).installed = 2 := by decide
  exact ⟨⟨hpolled, hpolled ▸ hcovered 1⟩, revision, ⟨happended, hsequence⟩,
    hrefused 1 q hcall revision happended⟩

/-- The sink accepts decisions only. -/
def acceptsDecision : Line → Bool
  | .decision _ => true
  | .policySet .. => false

/-- The update is refused, and then the poller of replica 1 has its round. -/
def refused : List (PolicyEvent permitAll) × PolicyConfig permitAll :=
  runWith acceptsDecision (updating ++ .start (.tick 1) :: List.replicate 4 (.step 1))

theorem refused_installs : (refused.2.state.replicas 1).installed = 2 := by decide

theorem refused_trail : refused.2.state.trail.all acceptsDecision = true := by decide

/-- The poller puts into force what was refused. -/
theorem refused_installed :
    ¬ ∀ (cedar : Cedar) (start : System cedar) (tr : List (PolicyEvent cedar))
      (cfg : PolicyConfig cedar), Started start → PolicyRun true start tr cfg →
        ∀ replica, Covered start cfg.state (cfg.state.replicas replica).installed := by
  intro hall
  have hcovered := hall permitAll seeded refused.1 refused.2 seeded_started (runWith_run _ _) 1
  rw [refused_installs] at hcovered
  rcases hcovered with ⟨revision, hmem, hsequence⟩ | ⟨line, hmem, event, details, rfl, -⟩
  · obtain rfl := List.mem_singleton.mp hmem
    cases hsequence
  · cases List.all_eq_true.mp refused_trail _ hmem

end Rustberg.Management

import Mathlib.Logic.Function.Basic
import Mathlib.Data.List.Basic

/-!
# Directories

A tree of folders that hold entries of several kinds by name, with drafts
of entries beside them. A `Change` goes through on a directory, or not
(`Change.Allowed`), and `Ran` is a list of changes that all go through, one
after the other. Who removes a folder may see only some of the names in it
(`visible`): it is removed when nothing it sees is left.

No entry is lost, doubled or merged: `follow` says where the changes take
an entry, and what is there at the end is what they take there from the
start, or made on the way (`Ran.follow_holds`, `Ran.follow_injective`,
`Ran.origin`).
-/

/-- A name in a folder. -/
abbrev Address (N : Type*) := List N × N

/-- Where an entry can stand: an address, for each kind. -/
abbrev Spot (K N : Type*) := K × Address N

@[ext] structure Directory (N K P V : Type*) where
  folders : List N → Option P
  entries : K → Address N → Option V
  /-- Entries to be, kept apart until they are adopted. -/
  drafts : Address N → Option V

namespace Directory

variable {N K P V : Type*}

def entry (d : Directory N K P V) (spot : Spot K N) : Option V := d.entries spot.1 spot.2

def Holds (d : Directory N K P V) (spot : Spot K N) : Prop := d.entry spot ≠ none

/-- No kind of entry has the name. -/
def Free (d : Directory N K P V) (place : Address N) : Prop := ∀ kind, d.entries kind place = none

inductive Change (N K P V : Type*) where
  | makeFolder (path : List N) (value : P)
  | setFolder (path : List N) (value : P)
  | removeFolder (path : List N)
  | put (kind : K) (place : Address N) (value : V)
  | draft (place : Address N) (value : V)
  | remove (kind : K) (place : Address N)
  | move (kind : K) (src dest : Address N) (touch : V → V)
  | replace (kind : K) (place : Address N) (expected value : V)
  /-- Makes an entry of a draft. -/
  | adopt (kind : K) (place : Address N) (value : V)

namespace Change

def Allowed (visible : N → Prop) (d : Directory N K P V) : Change N K P V → Prop
  | makeFolder path _ =>
      (1 < path.length → d.folders path.dropLast ≠ none) ∧ d.folders path = none
  | setFolder path _ => d.folders path ≠ none
  | removeFolder path => d.folders path ≠ none ∧
      (∀ kind name, visible name → d.entries kind (path, name) = none) ∧
      ∀ name rest, visible name → d.folders (path ++ name :: rest) = none
  | put _ place _ => d.Free place
  | draft _ _ => True
  | remove kind place => d.entries kind place ≠ none
  | move kind src dest _ => d.entries kind src ≠ none ∧ d.Free dest
  | replace kind place expected _ => d.entries kind place = some expected
  | adopt _ place _ => d.folders place.1 ≠ none ∧ d.Free place

/-- The change makes a new entry at the spot. -/
def Makes (spot : Spot K N) : Change N K P V → Prop
  | put kind place _ | adopt kind place _ => (kind, place) = spot
  | _ => False

end Change

section

variable [DecidableEq N] [DecidableEq K]

def setEntry (d : Directory N K P V) (kind : K) (place : Address N) (value : Option V) :
    Directory N K P V :=
  { d with
    entries := Function.update d.entries kind (Function.update (d.entries kind) place value) }

theorem setEntry_entry (d : Directory N K P V) (kind : K) (place : Address N) (value : Option V)
    (spot : Spot K N) :
    (d.setEntry kind place value).entry spot =
      if (kind, place) = spot then value else d.entry spot := by
  dsimp only [setEntry, entry]
  by_cases hkind : spot.1 = kind
  · subst hkind
    by_cases hplace : spot.2 = place
    · subst hplace
      rw [if_pos rfl, Function.update_self, Function.update_self]
    · rw [if_neg fun heq => hplace (congrArg Prod.snd heq).symm, Function.update_self,
        Function.update_of_ne hplace]
  · rw [if_neg fun heq => hkind (congrArg Prod.fst heq).symm, Function.update_of_ne hkind]

/-- Where the entry at a spot is after the change; nowhere, when it is removed. -/
def Change.follow : Change N K P V → Spot K N → Option (Spot K N)
  | remove kind place, spot => if (kind, place) = spot then none else some spot
  | move kind src dest _, spot => some (if (kind, src) = spot then (kind, dest) else spot)
  | _, spot => some spot

/-- Where it is after all of them. -/
def follow : List (Change N K P V) → Spot K N → Option (Spot K N)
  | [], spot => some spot
  | c :: cs, spot => (c.follow spot).bind (follow cs)

variable (visible : N → Prop) [DecidablePred visible]

/-- The directory a change leaves. -/
def Change.apply (d : Directory N K P V) : Change N K P V → Directory N K P V
  | makeFolder path value | setFolder path value =>
      { d with folders := Function.update d.folders path (some value) }
  | removeFolder path =>
      { d with
        folders := Function.update d.folders path none
        drafts := fun place => if place.1 = path ∧ visible place.2 then none else d.drafts place }
  | put kind place value => d.setEntry kind place (some value)
  | draft place value => { d with drafts := Function.update d.drafts place (some value) }
  | remove kind place => d.setEntry kind place none
  | move kind src dest touch =>
      (d.setEntry kind dest ((d.entries kind src).map touch)).setEntry kind src none
  | replace kind place _ value => d.setEntry kind place (some value)
  | adopt kind place value =>
      { d.setEntry kind place (some value) with drafts := Function.update d.drafts place none }

/-- All changes go through, one after the other. -/
def Ran : List (Change N K P V) → Directory N K P V → Directory N K P V → Prop
  | [], d, d' => d' = d
  | c :: cs, d, d' => c.Allowed visible d ∧ Ran cs (c.apply visible d) d'

variable {visible} {d d' : Directory N K P V} {c : Change N K P V} {cs cs' : List (Change N K P V)}

@[simp] theorem ran_nil : Ran visible [] d d' ↔ d' = d := Iff.rfl

@[simp] theorem ran_cons :
    Ran visible (c :: cs) d d' ↔ c.Allowed visible d ∧ Ran visible cs (c.apply visible d) d' :=
  Iff.rfl

theorem ran_append :
    Ran visible (cs ++ cs') d d' ↔ ∃ mid, Ran visible cs d mid ∧ Ran visible cs' mid d' := by
  induction cs generalizing d with
  | nil => simp
  | cons c cs ih =>
      rw [List.cons_append, ran_cons, ih]
      constructor
      · rintro ⟨hallowed, mid, hcs, hcs'⟩
        exact ⟨mid, ⟨hallowed, hcs⟩, hcs'⟩
      · rintro ⟨mid, ⟨hallowed, hcs⟩, hcs'⟩
        exact ⟨hallowed, mid, hcs, hcs'⟩

/-! ## What becomes of an entry -/

namespace Change

variable {s s' t : Spot K N}

/-- A change leaves the entry where it takes it. -/
theorem follow_holds (hallowed : c.Allowed visible d) (h : d.Holds s) (hs : c.follow s = some s') :
    (c.apply visible d).Holds s' := by
  have hset : ∀ (kind : K) (place : Address N) (value : V),
      (d.setEntry kind place (some value)).Holds s := by
    intro kind place value
    rw [Holds, setEntry_entry]
    split
    · exact Option.some_ne_none value
    · exact h
  cases c with
  | makeFolder path value => obtain rfl := Option.some.inj hs; exact h
  | setFolder path value => obtain rfl := Option.some.inj hs; exact h
  | removeFolder path => obtain rfl := Option.some.inj hs; exact h
  | draft place value => obtain rfl := Option.some.inj hs; exact h
  | put kind place value => obtain rfl := Option.some.inj hs; exact hset kind place value
  | adopt kind place value => obtain rfl := Option.some.inj hs; exact hset kind place value
  | replace kind place expected value =>
      obtain rfl := Option.some.inj hs
      exact hset kind place value
  | remove kind place =>
      by_cases hhere : (kind, place) = s
      · rw [follow, if_pos hhere] at hs
        cases hs
      · rw [follow, if_neg hhere] at hs
        obtain rfl := Option.some.inj hs
        show (d.setEntry kind place none).entry s ≠ none
        rwa [setEntry_entry, if_neg hhere]
  | move kind src dest touch =>
      obtain ⟨hsrc, hdest⟩ := hallowed
      obtain ⟨value, hvalue⟩ := Option.ne_none_iff_exists'.mp hsrc
      obtain rfl := Option.some.inj hs
      show ((d.setEntry kind dest ((d.entries kind src).map touch)).setEntry kind src none).entry
        _ ≠ none
      rw [hvalue, setEntry_entry]
      by_cases hhere : (kind, src) = s
      · have hne : ¬ (kind, src) = (kind, dest) := by
          intro heq
          rw [(Prod.mk.inj heq).2] at hsrc
          exact hsrc (hdest kind)
        rw [if_pos hhere, if_neg hne, setEntry_entry, if_pos rfl]
        exact Option.some_ne_none _
      · rw [if_neg hhere, if_neg hhere]
        exact hset kind dest (touch value)

/-- An entry keeps its kind. -/
theorem follow_kind (h : c.follow s = some s') : s'.1 = s.1 := by
  cases c with
  | remove kind place =>
      rw [follow] at h
      split at h
      · cases h
      · rw [Option.some.inj h]
  | move kind src dest touch =>
      obtain rfl := Option.some.inj h
      split
      · next hhere => rw [← hhere]
      · rfl
  | _ => rw [Option.some.inj h]

omit [DecidablePred visible] in
/-- A change does not take two entries to one spot. -/
theorem follow_injective (hallowed : c.Allowed visible d) (h : d.Holds s) (ht : d.Holds t)
    (hs : c.follow s = some s') (ht' : c.follow t = some s') : s = t := by
  cases c with
  | remove kind place =>
      rw [follow] at hs ht'
      split at hs
      · cases hs
      · split at ht'
        · cases ht'
        · exact (Option.some.inj hs).trans (Option.some.inj ht').symm
  | move kind src dest touch =>
      -- Nothing was at the destination, so only the entry moved comes there.
      have hfree : ∀ {r}, d.Holds r → ¬ (kind, dest) = r := by
        rintro r hr rfl
        exact hr (hallowed.2 kind)
      have heq : (if (kind, src) = s then (kind, dest) else s) =
          if (kind, src) = t then (kind, dest) else t :=
        (Option.some.inj hs).trans (Option.some.inj ht').symm
      by_cases hhere : (kind, src) = s
      · by_cases hthere : (kind, src) = t
        · exact hhere.symm.trans hthere
        · rw [if_pos hhere, if_neg hthere] at heq
          exact absurd heq (hfree ht)
      · by_cases hthere : (kind, src) = t
        · rw [if_neg hhere, if_pos hthere] at heq
          exact absurd heq.symm (hfree h)
        · rwa [if_neg hhere, if_neg hthere] at heq
  | _ => exact (Option.some.inj hs).trans (Option.some.inj ht').symm

/-- What is there after a change was taken there by it, or made. -/
theorem origin (hallowed : c.Allowed visible d) (h : (c.apply visible d).Holds s') :
    (∃ s, d.Holds s ∧ c.follow s = some s') ∨ c.Makes s' := by
  have hset : ∀ (kind : K) (place : Address N) (value : Option V),
      (d.setEntry kind place value).Holds s' → (kind, place) = s' ∨ d.Holds s' := by
    intro kind place value hheld
    by_cases hhere : (kind, place) = s'
    · exact Or.inl hhere
    · rw [Holds, setEntry_entry, if_neg hhere] at hheld
      exact Or.inr hheld
  cases c with
  | makeFolder path value => exact Or.inl ⟨s', h, rfl⟩
  | setFolder path value => exact Or.inl ⟨s', h, rfl⟩
  | removeFolder path => exact Or.inl ⟨s', h, rfl⟩
  | draft place value => exact Or.inl ⟨s', h, rfl⟩
  | put kind place value => exact (hset _ _ _ h).symm.imp_left fun hold => ⟨s', hold, rfl⟩
  | adopt kind place value => exact (hset _ _ _ h).symm.imp_left fun hold => ⟨s', hold, rfl⟩
  | replace kind place expected value =>
      refine Or.inl ⟨s', ?_, rfl⟩
      rcases hset _ _ _ h with rfl | hold
      · have hsome : d.entries kind place = some expected := hallowed
        exact fun hnone => Option.some_ne_none expected (hsome.symm.trans hnone)
      · exact hold
  | remove kind place =>
      have hne : ¬ (kind, place) = s' := by
        rintro rfl
        exact h ((setEntry_entry d kind place none _).trans (if_pos rfl))
      exact Or.inl ⟨s', (hset _ _ _ h).resolve_left hne, by rw [follow, if_neg hne]⟩
  | move kind src dest touch =>
      have hne : ¬ (kind, src) = s' := by
        rintro rfl
        exact h ((setEntry_entry _ kind src none _).trans (if_pos rfl))
      have hmid : (d.setEntry kind dest ((d.entries kind src).map touch)).Holds s' := by
        have hheld : ((d.setEntry kind dest ((d.entries kind src).map touch)).setEntry kind src
          none).entry s' ≠ none := h
        rwa [setEntry_entry, if_neg hne] at hheld
      rcases hset _ _ _ hmid with rfl | hold
      · exact Or.inl ⟨(kind, src), hallowed.1, by rw [follow, if_pos rfl]⟩
      · exact Or.inl ⟨s', hold, by rw [follow, if_neg hne]⟩

end Change

variable {s s' t : Spot K N}

/-- The changes leave an entry where they take it. -/
theorem Ran.follow_holds (h : Ran visible cs d d') (hs : d.Holds s)
    (hfollow : follow cs s = some s') : d'.Holds s' := by
  induction cs generalizing d s with
  | nil =>
      obtain rfl := h
      obtain rfl := Option.some.inj hfollow
      exact hs
  | cons c cs ih =>
      obtain ⟨mid, hc, hcs⟩ := Option.bind_eq_some_iff.mp hfollow
      exact ih h.2 (c.follow_holds h.1 hs hc) hcs

theorem follow_kind (h : follow cs s = some s') : s'.1 = s.1 := by
  induction cs generalizing s with
  | nil => rw [Option.some.inj h]
  | cons c cs ih =>
      obtain ⟨mid, hc, hcs⟩ := Option.bind_eq_some_iff.mp h
      exact (ih hcs).trans (c.follow_kind hc)

/-- The changes do not take two entries to one spot. -/
theorem Ran.follow_injective (h : Ran visible cs d d') (hs : d.Holds s) (ht : d.Holds t)
    (hfollow : follow cs s = some s') (hfollow' : follow cs t = some s') : s = t := by
  induction cs generalizing d s t with
  | nil => exact (Option.some.inj hfollow).trans (Option.some.inj hfollow').symm
  | cons c cs ih =>
      obtain ⟨mid, hc, hcs⟩ := Option.bind_eq_some_iff.mp hfollow
      obtain ⟨mid', hc', hcs'⟩ := Option.bind_eq_some_iff.mp hfollow'
      obtain rfl := ih h.2 (c.follow_holds h.1 hs hc) (c.follow_holds h.1 ht hc') hcs hcs'
      exact c.follow_injective h.1 hs ht hc hc'

/-- What is there in the end the changes took there, from the start or from
where one of them made it. -/
theorem Ran.origin (h : Ran visible cs d d') (hs : d'.Holds s') :
    (∃ s, d.Holds s ∧ follow cs s = some s') ∨
      ∃ cs₁ c cs₂ s, cs = cs₁ ++ c :: cs₂ ∧ c.Makes s ∧ follow cs₂ s = some s' := by
  induction cs generalizing d with
  | nil =>
      obtain rfl := h
      exact Or.inl ⟨s', hs, rfl⟩
  | cons c cs ih =>
      rcases ih h.2 with ⟨mid, hmid, hcs⟩ | ⟨cs₁, c', cs₂, s, rfl, hmakes, hcs₂⟩
      · rcases c.origin h.1 hmid with ⟨s, hold, hc⟩ | hmakes
        · exact Or.inl ⟨s, hold, Option.bind_eq_some_iff.mpr ⟨mid, hc, hcs⟩⟩
        · exact Or.inr ⟨[], c, cs, mid, rfl, hmakes, hcs⟩
      · exact Or.inr ⟨c :: cs₁, c', cs₂, s, rfl, hmakes, hcs₂⟩

/-- An entry the changes take nowhere was removed by one of them, where it
stood by then. -/
theorem follow_eq_none (h : follow cs s = none) :
    ∃ cs₁ kind place cs₂, cs = cs₁ ++ .remove kind place :: cs₂ ∧
      follow cs₁ s = some (kind, place) := by
  induction cs generalizing s with
  | nil => cases h
  | cons c cs ih =>
      cases hc : c.follow s with
      | none =>
          cases c with
          | remove kind place =>
              by_cases hhere : (kind, place) = s
              · exact ⟨[], kind, place, cs, rfl, congrArg some hhere.symm⟩
              · rw [Change.follow, if_neg hhere] at hc
                cases hc
          | _ => cases hc
      | some mid =>
          rw [follow, hc, Option.bind_some] at h
          obtain ⟨cs₁, kind, place, cs₂, rfl, hcs₁⟩ := ih h
          exact ⟨c :: cs₁, kind, place, cs₂, rfl, Option.bind_eq_some_iff.mpr ⟨mid, hc, hcs₁⟩⟩

end

end Directory

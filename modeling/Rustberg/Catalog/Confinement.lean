import Rustberg.Base.Result
import Rustberg.Catalog.Storage

/-!
# Commits keep a table inside its storage

A commit is checked against where the table is when it is made, and an
earlier commit may have moved the table. What is inside a place the table
was moved to is inside the bound or inside where the table was before
(`Admits.of_keeps`), so by induction a whole run of accepted commits names
nothing outside the two (`commits_confined`).
-/

namespace Rustberg

/-- The files an update adds to a table. -/
def TableUpdate.files {S O : Type} : TableUpdate S O → List Text
  | .addSnapshot snapshot => [snapshot.manifestList]
  | .setStatistics statisticsPath _ => [statisticsPath]
  | .setPartitionStatistics statisticsPath _ => [statisticsPath]
  | _ => []

namespace LocationBound

variable {ib : Iceberg}

/-- `location` is inside the bound, or inside `current`. -/
def Admits (bound : LocationBound) (current location : Text) : Prop :=
  isWithin bound.root location = true ∨ isWithin current location = true

/-- A commit to a table at `base`, accepted against where the table is. -/
def Commits (bound : LocationBound) (base : ib.Metadata) (updates : List ib.Update)
    (metadata : ib.Metadata) : Prop :=
  bound.ensureCommit (ib.location base) updates = .ok () ∧
    ∃ file, Redb.applyUpdates base file updates = .ok metadata

/-- Commits to one table, each accepted against where the table is by then. -/
inductive Run (bound : LocationBound) : ib.Metadata → List (List ib.Update) → ib.Metadata → Prop
  | nil (base : ib.Metadata) : Run bound base [] base
  | cons {base metadata final : ib.Metadata} {updates : List ib.Update}
      {commits : List (List ib.Update)} (hcommit : bound.Commits base updates metadata)
      (hrest : Run bound metadata commits final) : Run bound base (updates :: commits) final

/-- What the catalog computes for a table is such a commit. -/
theorem Commits.of_compute {c : Catalog} {change : ib.TableChange}
    {expected : Option TabularRecord} {base metadata : ib.Metadata} {file : Text}
    (h : Redb.compute c change expected base file = .ok metadata) :
    (c.declaredBound change.ident).Commits base change.updates metadata := by
  obtain ⟨-, -, h⟩ := Except.bind_eq_ok.mp h
  obtain ⟨-, -, h⟩ := Except.bind_eq_ok.mp h
  obtain ⟨_, hbound, happly⟩ := Except.bind_eq_ok.mp h
  exact ⟨hbound, file, happly⟩

theorem ensureUpdate_of_mem {S O : Type} {bound : LocationBound} {current : Text}
    {updates : List (TableUpdate S O)} (h : bound.ensureCommit current updates = .ok ())
    {update : TableUpdate S O} (hmem : update ∈ updates) :
    bound.ensureUpdate current update = .ok () := by
  induction updates with
  | nil => cases hmem
  | cons first updates ih =>
      obtain ⟨_, hfirst, hrest⟩ := Except.bind_eq_ok.mp h
      rcases List.mem_cons.mp hmem with rfl | hmem
      · exact hfirst
      · exact ih hrest hmem

theorem ensureOwned_ok {current location : Text} (h : ensureOwned current location = .ok ()) :
    isWithin current location = true := by
  by_contra hout
  rw [ensureOwned, if_neg hout] at h
  cases h

theorem admits_of_setLocation {S O : Type} {bound : LocationBound} {current target : Text}
    (h : bound.ensureUpdate current (.setLocation target : TableUpdate S O) = .ok ()) :
    bound.Admits current target := by
  by_contra hout
  obtain ⟨hroot, hcurrent⟩ := not_or.mp hout
  simp [ensureUpdate, hroot, hcurrent] at h

theorem files_owned {S O : Type} {bound : LocationBound} {current path : Text}
    {update : TableUpdate S O} (h : bound.ensureUpdate current update = .ok ())
    (hpath : path ∈ update.files) : isWithin current path = true := by
  cases update with
  | addSnapshot snapshot =>
      rw [List.mem_singleton.mp hpath]
      exact ensureOwned_ok h
  | setStatistics statisticsPath rest =>
      rw [List.mem_singleton.mp hpath]
      exact ensureOwned_ok h
  | setPartitionStatistics statisticsPath rest =>
      rw [List.mem_singleton.mp hpath]
      exact ensureOwned_ok h
  | setLocation target => cases hpath
  | other update => cases hpath

/-- `location` is `current`, or somewhere a table at `current` may be moved to. -/
def Keeps (bound : LocationBound) (current location : Text) : Prop :=
  location = current ∨ bound.Admits current location

/-- What is admitted at a place the table was kept at was admitted before. -/
theorem Admits.of_keeps {bound : LocationBound} {current mid location : Text}
    (h : bound.Admits mid location) (hmid : bound.Keeps current mid) :
    bound.Admits current location := by
  rcases hmid with rfl | hroot | hcurrent
  · exact h
  · exact Or.inl (h.elim id (isWithin_trans hroot))
  · exact h.imp_right (isWithin_trans hcurrent)

theorem Keeps.trans {bound : LocationBound} {current mid location : Text}
    (hmid : bound.Keeps current mid) (h : bound.Keeps mid location) :
    bound.Keeps current location := by
  rcases h with rfl | h
  · exact hmid
  · exact Or.inr (h.of_keeps hmid)

theorem Commits.keeps (loc : ib.Locates) {bound : LocationBound} {base metadata : ib.Metadata}
    {updates : List ib.Update} (h : bound.Commits base updates metadata)
    (hnamed : ∀ target, .setLocation target ∈ updates → NamesPath target) :
    bound.Keeps (ib.location base) (ib.location metadata) := by
  obtain ⟨hcheck, file, happly⟩ := h
  rcases applyUpdates_location loc happly with hsame | ⟨target, hmem, htarget⟩
  · exact Or.inl hsame
  · have hadmits := admits_of_setLocation (ensureUpdate_of_mem hcheck hmem)
    have hpath := hnamed target hmem
    rw [htarget]
    exact Or.inr (hadmits.imp (isWithin_trimEnd hpath) (isWithin_trimEnd hpath))

end LocationBound

/-- After a run of accepted commits the table is where it was, or inside the
bound or where it was, and every file the run added is. -/
theorem commits_confined {ib : Iceberg} (loc : ib.Locates) {bound : LocationBound}
    {base final : ib.Metadata} {commits : List (List ib.Update)}
    (hrun : bound.Run base commits final)
    (hnamed : ∀ updates ∈ commits, ∀ target, .setLocation target ∈ updates → NamesPath target) :
    (ib.location final = ib.location base ∨ bound.Admits (ib.location base) (ib.location final)) ∧
      ∀ updates ∈ commits, ∀ update ∈ updates, ∀ path ∈ TableUpdate.files update,
        bound.Admits (ib.location base) path := by
  induction hrun with
  | nil base => exact ⟨Or.inl rfl, fun _ h => by cases h⟩
  | @cons base metadata final updates commits hcommit _ ih =>
      have hkeeps := hcommit.keeps loc (hnamed updates (List.mem_cons_self ..))
      obtain ⟨hfinal, hfiles⟩ := ih fun later hlater =>
        hnamed later (List.mem_cons_of_mem _ hlater)
      refine ⟨hkeeps.trans hfinal, fun later hlater update hupdate path hpath => ?_⟩
      rcases List.mem_cons.mp hlater with rfl | hlater
      · have hupdate' := LocationBound.ensureUpdate_of_mem hcommit.1 hupdate
        exact Or.inr (LocationBound.files_owned hupdate' hpath)
      · exact (hfiles later hlater update hupdate path hpath).of_keeps hkeeps

/-- A table moved below its bound, and a snapshot added there. -/
theorem commits_confined_move :
    let bound : LocationBound := ⟨"s3://wh/db/t".toList, .table⟩
    (("s3://wh/db/t/v2".toList : Iceberg.plain.Metadata) = "s3://wh/old".toList ∨
        bound.Admits "s3://wh/old".toList "s3://wh/db/t/v2".toList) ∧
      ∀ updates ∈ ([[.setLocation "s3://wh/db/t/v2/".toList],
          [.addSnapshot ⟨"s3://wh/db/t/v2/m.avro".toList, none, ()⟩]] :
          List (List Iceberg.plain.Update)),
        ∀ update ∈ updates, ∀ path ∈ TableUpdate.files update,
          bound.Admits "s3://wh/old".toList path :=
  @commits_confined _ Iceberg.plainLocates _ "s3://wh/old".toList _ _
    (.cons ⟨by decide, [], rfl⟩ (.cons ⟨by decide, [], rfl⟩ (.nil _)))
    (by
      intro updates hupdates target htarget
      rcases List.mem_cons.mp hupdates with rfl | hupdates
      · cases List.mem_singleton.mp htarget
        exact ⟨'w', by decide, by decide⟩
      · cases List.mem_singleton.mp hupdates
        cases List.mem_singleton.mp htarget)

/-- A table whose location climbs is inside no root, and the root of a store
loses its slash: what was `/` becomes the working directory. -/
theorem commits_not_confined :
    (@LocationBound.Run .plain ⟨"s3://wh/db/t".toList, .table⟩ "s3://wh/../t".toList [[]]
        "s3://wh/../t".toList ∧
      ¬ LocationBound.Admits ⟨"s3://wh/db/t".toList, .table⟩ "s3://wh/../t".toList
        "s3://wh/../t".toList) ∧
    @LocationBound.Run .plain ⟨['/'], .warehouse⟩ "/srv/t".toList
        [[.setLocation ['/']], [.addSnapshot ⟨"etc/m.avro".toList, none, ()⟩]] [] ∧
      ¬ LocationBound.Admits ⟨['/'], .warehouse⟩ "/srv/t".toList [] ∧
      ¬ LocationBound.Admits ⟨['/'], .warehouse⟩ "/srv/t".toList "etc/m.avro".toList := by
  refine ⟨⟨.cons ⟨rfl, [], rfl⟩ (.nil _), ?_⟩,
    .cons ⟨by decide, [], rfl⟩ (.cons ⟨by decide, [], rfl⟩ (.nil _)), ?_, ?_⟩
  all_goals
    unfold LocationBound.Admits
    decide

end Rustberg

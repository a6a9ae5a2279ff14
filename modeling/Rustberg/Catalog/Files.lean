import Rustberg.Catalog.Commit

/-!
# The registry and its metadata files

`Sem` leaves file storage open. Where it matters what a record's metadata
file says, the state is the registry together with the files, and `Does`
says what one effect does to both: a file that was written is read back
until it is deleted, and a write meets no file of its own name, because
every name carries a fresh UUID. Any access of storage may fail.

`Does` refines `Sem` (`Does.sem`), and `Stored.Extends` is the frame of
every effect that neither commits a transaction nor deletes a file.
-/

namespace Rustberg

open Process

variable {ib : Iceberg}

structure Stored (ib : Iceberg) where
  registry : Registry
  files : Relation ib.Metadata

/-- One effect, on the registry and the files. -/
def Does : (e : Effect ib) → Stored ib → e.Answer → Stored ib → Prop
  | .write tx, s, r, s' => Commits tx s.registry r s'.registry ∧ s'.files = s.files
  | .readMetadata location, s, r, s' =>
      s' = s ∧ ∀ metadata, r = .ok metadata → s.files[location]? = some metadata
  | .writeMetadata metadata location, s, r, s' =>
      (r = .ok () ∧ location ∉ s.files ∧
          s' = { s with files := s.files.insert location metadata }) ∨
        (∃ err, r = .error err) ∧ s' = s
  | .delete location, s, _, s' =>
      s'.registry = s.registry ∧ (s'.files = s.files ∨ s'.files = s.files.erase location)
  | e, s, r, s' => s' = s ∧ Sem e s.registry r s'.registry

/-- Forgetting the files, it is one of the effects of the shared registry. -/
theorem Does.sem {e : Effect ib} {s s' : Stored ib} {r : e.Answer} (h : Does e s r s') :
    Sem e s.registry r s'.registry := by
  cases e with
  | write tx => exact h.1
  | readMetadata location =>
      obtain ⟨rfl, -⟩ := h
      exact ⟨rfl, fun v hv => by cases hv⟩
  | writeMetadata metadata location =>
      refine ⟨?_, fun v hv => by cases hv⟩
      rcases h with ⟨-, -, rfl⟩ | ⟨-, rfl⟩ <;> rfl
  | delete location => exact ⟨h.1, fun v hv => by cases hv⟩
  | _ => exact h.2

/-! ## What stays -/

/-- The same registry, and at least the files of `s`. -/
structure Stored.Extends (s s' : Stored ib) : Prop where
  registry : s'.registry = s.registry
  files : ∀ {location : Text} {metadata : ib.Metadata},
    s.files[location]? = some metadata → s'.files[location]? = some metadata

theorem Stored.Extends.refl (s : Stored ib) : s.Extends s := ⟨rfl, id⟩

theorem Stored.Extends.trans {s₁ s₂ s₃ : Stored ib} (h₁ : s₁.Extends s₂) (h₂ : s₂.Extends s₃) :
    s₁.Extends s₃ := ⟨h₂.registry.trans h₁.registry, fun h => h₂.files (h₁.files h)⟩

theorem Stored.Extends.mem {s s' : Stored ib} (h : s.Extends s') {location : Text}
    (hmem : location ∈ s.files) : location ∈ s'.files := by
  obtain ⟨metadata, hfile⟩ := Option.ne_none_iff_exists'.mp
    (mt Relation.getElem?_eq_none_iff.mp (not_not.mpr hmem))
  exact Relation.mem_of_getElem? (h.files hfile)

/-- Adding a file of a new name. -/
theorem Stored.extends_insert {s : Stored ib} {location : Text} (metadata : ib.Metadata)
    (hnew : location ∉ s.files) :
    s.Extends { s with files := s.files.insert location metadata } := by
  refine ⟨rfl, fun {l m} hl => ?_⟩
  have hne : location ≠ l := fun heq => by
    subst heq
    exact hnew (Relation.mem_of_getElem? hl)
  rw [Relation.getElem?_insert, if_neg hne]
  exact hl

/-- The effect commits no transaction, and deletes no file of `s`. -/
def Effect.Spares (s : Stored ib) : (e : Effect ib) → e.Answer → Prop
  | .write _, r => r ≠ .ok ()
  | .delete location, _ => location ∉ s.files
  | _, _ => True

/-- A sparing effect keeps the registry and the files of `s`. -/
theorem Does.extends {s₀ s s' : Stored ib} {e : Effect ib} {r : e.Answer} (h : Does e s r s')
    (hspares : e.Spares s₀ r) (hext : s₀.Extends s) : s₀.Extends s' := by
  cases e with
  | write tx =>
      obtain ⟨hcommits, hfiles⟩ := h
      have hreg : s'.registry = s.registry := by
        generalize s'.registry = reg' at hcommits
        cases hcommits with
        | committed happly => exact absurd rfl hspares
        | aborted happly => rfl
        | failed hengine => rfl
      exact ⟨hreg.trans hext.registry, fun hloc => by rw [hfiles]; exact hext.files hloc⟩
  | delete location =>
      obtain ⟨hreg, hfiles⟩ := h
      refine ⟨hreg.trans hext.registry, fun {l m} hloc => ?_⟩
      rcases hfiles with hfiles | hfiles
      · rw [hfiles]; exact hext.files hloc
      · have hne : location ≠ l := fun heq => by
          subst heq
          exact hspares (Relation.mem_of_getElem? hloc)
        rw [hfiles, Relation.getElem?_erase, if_neg hne]
        exact hext.files hloc
  | writeMetadata metadata location =>
      rcases h with ⟨-, hnew, rfl⟩ | ⟨-, rfl⟩
      · exact hext.trans (Stored.extends_insert metadata hnew)
      · exact hext
  | _ => rw [h.1]; exact hext

/-- Sparing effects, one after the other. -/
theorem Steps.extends {s s' : Stored ib} {h : Path ib} (hsteps : Prog.Steps Does s h s')
    (hspares : ∀ x ∈ h, Effect.Spares s x.1 x.2) : s.Extends s' :=
  hsteps.keeps (I := s.Extends) (.refl s) fun x hx _ _ hext hdoes =>
    hdoes.extends (hspares x hx) hext

theorem Effect.ReadsOrAdds.spares {e : Effect ib} (h : e.ReadsOrAdds) (s : Stored ib)
    (r : e.Answer) : e.Spares s r := by
  cases e <;> first | exact h.elim | trivial

theorem Steps.extends_of_meets {α : Type} {op : Op ib α} {Q : Except Error α → Prop}
    (hop : Prog.Meets Effect.ReadsOrAdds Q op.run) {s s' : Stored ib} {h : Path ib}
    {p : Rest ib α} (hf : Prog.Follows op.run h p) (hsteps : Prog.Steps Does s h s') :
    s.Extends s' :=
  Steps.extends hsteps fun x hx => ((hop.of_follows hf).1 x hx).spares s x.2

/-! ## An operation that ends in one transaction -/

/-- Reading and adding files, then a transaction: it does not commit and
everything stays, or it commits on the registry the operation met. -/
theorem Exec.then_write {α β : Type} {op : Op ib α} {tx : α → Transaction} {g : α → β}
    {Q : Except Error α → Prop} (hop : Prog.Meets Effect.ReadsOrAdds Q op.run) {s s' : Stored ib}
    {r : Except Error β}
    (hexec : Prog.Exec Does (op >>= fun a => Op.write (tx a) >>= fun _ => pure (g a)).run s r s') :
    s.Extends s' ∨ ∃ a h mid, Prog.Follows op.run h (.done (.ok a)) ∧ Prog.Steps Does s h mid ∧
      s.Extends mid ∧ (tx a).apply mid.registry = .ok s'.registry ∧ s'.files = mid.files := by
  obtain ⟨h, hf, hsteps⟩ := hexec
  rcases Prog.Follows.bind_except_cases hf with
    ⟨e, k, -, hne⟩ | ⟨err, hf', -⟩ | ⟨h₁, h₂, a, rfl, hf', hwrite⟩
  · exact absurd rfl (hne _)
  · exact Or.inl (Steps.extends_of_meets hop hf' hsteps)
  · obtain ⟨mid, hsteps₁, hsteps₂⟩ := Prog.steps_append.mp hsteps
    have hmid := Steps.extends_of_meets hop hf' hsteps₁
    cases h₂ with
    | nil => cases (show _ = _ from hwrite)
    | cons x h₂ =>
        obtain ⟨answer, rfl, hend⟩ := hwrite
        obtain ⟨last, hdoes, hrest⟩ := hsteps₂
        cases answer with
        | error err =>
            obtain ⟨rfl, -⟩ := Prog.follows_done.mp hend
            obtain rfl := hrest
            exact Or.inl (hdoes.extends (e := .write (tx a)) (fun h => by cases h) hmid)
        | ok v =>
            obtain ⟨rfl, -⟩ := Prog.follows_done.mp hend
            obtain rfl := hrest
            obtain ⟨hcommits, hfiles⟩ := hdoes
            refine Or.inr ⟨a, h₁, mid, hf', hsteps₁, hmid, ?_, hfiles⟩
            generalize s'.registry = reg' at hcommits
            cases hcommits with
            | committed happly => exact happly

/-! ## A handler -/

/-- Storage that does not fail, and names files by how many there are. -/
def Stored.handle : (e : Effect ib) → Stored ib → e.Answer × Stored ib
  | .getNamespace key, s => (.ok s.registry.namespaces[key]?, s)
  | .getTabular kind key, s => (.ok (s.registry.tabulars kind)[key]?, s)
  | .getStaged key, s => (.ok s.registry.staged[key]?, s)
  | .scanNamespaces start stop depth probe, s =>
      (.ok (((Relation.keysIn s.registry.namespaces start stop).filter (depthOf · = depth)).take
        probe), s)
  | .scanTabulars kind start stop probe, s =>
      (.ok ((Relation.keysIn (s.registry.tabulars kind) start stop).take probe), s)
  | .write tx, s =>
      match tx.apply s.registry with
      | .ok reg => (.ok (), { s with registry := reg })
      | .error err => (.error err, s)
  | .readMetadata location, s =>
      match s.files[location]? with
      | some metadata => (.ok metadata, s)
      | none => (.error ⟨.dataInvalid, "no such file".toList⟩, s)
  | .writeMetadata metadata location, s =>
      if location ∈ s.files then (.error ⟨.unexpected, "exists".toList⟩, s)
      else (.ok (), { s with files := s.files.insert location metadata })
  | .readViewMetadata _, s => (.error ⟨.dataInvalid, "no such file".toList⟩, s)
  | .writeViewMetadata _ _, s => (.ok (), s)
  | .delete location, s => (.ok (), { s with files := s.files.erase location })
  | .newUuid, s => (.ok (Text.decimal s.files.size), s)

theorem Stored.handle_does (e : Effect ib) (s : Stored ib) :
    Does e s (Stored.handle e s).1 (Stored.handle e s).2 := by
  cases e with
  | write tx =>
      simp only [Stored.handle, Does]
      cases h : tx.apply s.registry with
      | ok reg => exact ⟨.committed h, rfl⟩
      | error err => exact ⟨.aborted h, rfl⟩
  | readMetadata location =>
      simp only [Stored.handle, Does]
      cases h : s.files[location]? <;> simp
  | writeMetadata metadata location =>
      simp only [Stored.handle, Does]
      split
      · exact Or.inr ⟨⟨_, rfl⟩, rfl⟩
      · next h => exact Or.inl ⟨rfl, h, rfl⟩
  | _ => simp [Stored.handle, Does, Sem, Registry.answer]

end Rustberg

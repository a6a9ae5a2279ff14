import Rustberg.V1.Granted

/-!
# Tags are sound validators

`etag_injective` carried to the handlers: a response with credentials has
no tag, and a `304` answers with the tag of what the caller would be shown
itself, so a tag handed out for other restrictions is never the one that
matched.
-/

namespace Rustberg.V1

open Process Auth Api

variable {ib : Iceberg} {d : Crates ib}

/-! ## Credentials come without a tag -/

/-- A response that carries credentials carries no tag. -/
def Untagged (reply : Reply d) : Prop :=
  ∀ response etag, reply = .loaded response etag → response.storageCredentials ≠ none → etag = none

theorem Meets.any {α : Type} (p : Served d α) :
    Prog.Meets (fun _ => True) (Prog.OrError fun _ => True) p.run :=
  Prog.Meets.mono (Prog.Meets.all p.run) fun r _ => by cases r <;> trivial

/-- Credentials are vended to who asked for them. -/
theorem vendTableCredentials_meets (app : AppState) (authorized : Authorized)
    (target : CredentialTarget) (delegation : AccessDelegation) :
    Prog.Meets (fun _ => True) (Prog.OrError fun delegated : Delegated d =>
        ∀ credentials, delegated = .granted credentials → delegation.vendedCredentials = true)
      (vendTableCredentials app authorized target delegation).run := by
  cases hvended : delegation.vendedCredentials with
  | true => exact Prog.Meets.mono (Meets.any _) fun r _ => by cases r <;> simp [Prog.OrError]
  | false =>
      rw [vendTableCredentials, hvended]
      exact fun credentials h => by cases h

theorem untagged_loaded {delegated : Delegated d} {delegation : AccessDelegation}
    {storageCredentials : Option (List d.Credential)} {metadataLocation : Option Text}
    {scope : SnapshotScope} {restrictions : Obligations}
    (hdelegated : ∀ credentials, delegated = .granted credentials →
      delegation.vendedCredentials = true)
    (h : delegated.intoResponseCredentials = .ok storageCredentials)
    (hne : storageCredentials ≠ none) :
    etagFor d.sha256 d.print metadataLocation scope delegation restrictions = none := by
  have hvended : delegation.vendedCredentials = true := by
    cases delegated with
    | granted credentials => exact hdelegated credentials rfl
    | none => exact absurd (Except.ok.inj h).symm hne
    | withheld reason => exact absurd (Except.ok.inj h).symm hne
    | failed reason => cases h
  cases metadataLocation with
  | none => rfl
  | some location => rw [etagFor, if_pos hvended]

section Handlers

variable (u : UnicodeData) (app : AppState) (principal : Principal) (request : RequestContext)

/-- What follows the vending of a response keeps it untagged. -/
theorem loaded_untagged (authorized : Authorized) (target : CredentialTarget)
    (delegation : AccessDelegation) (rest : Option (List d.Credential) → Served d (Reply d))
    (hrest : ∀ storageCredentials, (storageCredentials ≠ none →
        ∀ metadataLocation scope restrictions,
          etagFor d.sha256 d.print metadataLocation scope delegation restrictions = none) →
      Prog.Meets (fun _ => True) (Prog.OrError Untagged) (rest storageCredentials).run) :
    Prog.Meets (fun _ => True) (Prog.OrError Untagged)
      (vendTableCredentials app authorized target delegation >>= fun delegated =>
        check delegated.intoResponseCredentials >>= rest).run := by
  refine Prog.Meets.bind_except (vendTableCredentials_meets ..) fun delegated hdelegated => ?_
  cases hcredentials : delegated.intoResponseCredentials with
  | error e => exact True.intro
  | ok storageCredentials =>
      exact hrest storageCredentials fun hne metadataLocation scope restrictions =>
        untagged_loaded hdelegated hcredentials hne

theorem loadTable_untagged (table : TableIdent) (snapshots : Option Text) (headers : HeaderMap) :
    Prog.Meets (fun _ => True) (Prog.OrError Untagged)
      (loadTable app principal request table snapshots headers : Served d _).run := by
  refine Prog.Meets.bind_except (Meets.any _) fun scope _ => ?_
  refine Prog.Meets.bind_except (Meets.any _) fun authorized _ => ?_
  refine Prog.Meets.bind_except (Meets.any _) fun tag _ => ?_
  cases tag with
  | some tag =>
      intro response etag h
      cases h
  | none =>
      refine Prog.Meets.bind_except (Meets.any _) fun loaded _ => ?_
      refine loaded_untagged app authorized _ _ _ fun storageCredentials huntagged => ?_
      refine Prog.Meets.bind_except (Meets.any _) fun metadata _ => ?_
      refine Prog.Meets.bind_except (Meets.any _) fun readRestrictions _ => ?_
      intro response etag h hne
      cases h
      exact huntagged hne _ _ _

theorem createTable_untagged (ns : NamespaceIdent) (headers : HeaderMap) (cached : Option Text)
    (payload : CreateTablePayload d) :
    Prog.Meets (fun _ => True) (Prog.OrError Untagged)
      (createTable u app principal request ns headers cached payload).run := by
  refine Prog.Meets.bind_except (Meets.any _) fun _ _ => ?_
  refine Prog.Meets.bind_except (Meets.any _) fun _ _ => ?_
  refine Prog.Meets.bind_except (Meets.any _) fun _ _ => ?_
  refine Prog.Meets.bind_except (Meets.any _) fun authorized _ => ?_
  cases cached with
  | some body =>
      intro response etag h
      cases h
  | none =>
      refine Prog.Meets.bind_except (Meets.any _) fun rest _ => ?_
      refine Prog.Meets.bind_except (Meets.any _) fun table _ => ?_
      refine loaded_untagged app authorized _ _ _ fun storageCredentials huntagged => ?_
      refine Prog.Meets.bind_except (Meets.any _) fun readRestrictions _ => ?_
      intro response etag h hne
      cases h
      dsimp only at hne ⊢
      rw [huntagged hne]
      exact ite_self none

theorem registerTable_untagged (ns : NamespaceIdent) (headers : HeaderMap) (cached : Option Text)
    (payload : RegisterTablePayload) :
    Prog.Meets (fun _ => True) (Prog.OrError Untagged)
      (registerTable u app principal request ns headers cached payload : Served d _).run := by
  refine Prog.Meets.bind_except (Meets.any _) fun _ _ => ?_
  refine Prog.Meets.bind_except (Meets.any _) fun bound _ => ?_
  refine Prog.Meets.bind_except (Meets.any _) fun _ _ => ?_
  refine Prog.Meets.bind_except (Meets.any _) fun authorized _ => ?_
  cases cached with
  | some body =>
      intro response etag h
      cases h
  | none =>
      refine Prog.Meets.bind_except (Meets.any _) fun table _ => ?_
      refine Prog.Meets.bind_except (Meets.any _) fun delegated _ => ?_
      refine Prog.Meets.bind_except (Meets.any _) fun storageCredentials _ => ?_
      refine Prog.Meets.bind_except (Meets.any _) fun readRestrictions _ => ?_
      intro response etag h _
      cases h
      rfl

end Handlers

/-! ## What a `304` tells -/

/-- A conditional load is answered with the tag of what the pointer names now. -/
theorem revalidated_traced (table : TableIdent) (headers : HeaderMap) (scope : SnapshotScope)
    (delegation : AccessDelegation) (obligations : Obligations) (h : Past d) :
    Prog.Traced (fun _ _ => True) (fun h' r => ∀ tag, r = .ok (some tag) →
        ∃ pointer, ⟨.store (.metadataPointer table), .ok pointer⟩ ∈ h' ∧
          etagFor d.sha256 d.print pointer scope delegation obligations = some tag ∧
            matchesTag headers tag = true) h
      (revalidated table headers scope delegation obligations).run := by
  unfold revalidated
  split
  · refine ⟨True.intro, fun answer => ?_⟩
    cases answer with
    | error e =>
        intro tag hok
        cases hok
    | ok pointer =>
        intro tag hok
        obtain ⟨htag, hmatches⟩ := Option.filter_eq_some_iff.mp (Except.ok.inj hok)
        exact ⟨pointer, List.mem_append_right h (List.mem_singleton_self _), htag, hmatches⟩
  · intro tag hok
    cases hok

/-- What the caller would be shown, told a `304`. -/
structure Shown (app : AppState) (principal : Principal) (request : RequestContext)
    (table : TableIdent) (snapshots : Option Text) (headers : HeaderMap) (h : Past d)
    (own : Representation) : Prop where
  granted : ∃ authorized, Granted app principal request table.namespc (.table table.name) .read h
    authorized ∧ own.obligations = authorized.obligations
  delegation : own.delegation = AccessDelegation.fromHeaders headers
  scope : SnapshotScope.ofQuery snapshots = .ok own.scope
  pointer : ⟨.store (.metadataPointer table), .ok (some own.location)⟩ ∈ h

theorem loadTable_notModified (app : AppState) (principal : Principal) (request : RequestContext)
    (table : TableIdent) (snapshots : Option Text) (headers : HeaderMap) :
    Prog.Traced (fun _ _ => True) (fun h r => ∀ tag, r = .ok (.notModified tag) →
        ∃ own, Shown app principal request table snapshots headers h own ∧
          own.etag d.sha256 d.print = some tag ∧ matchesTag headers tag = true) []
      (loadTable app principal request table snapshots headers : Served d _).run := by
  refine Prog.Traced.bind_except (Q := fun _ r => ∀ scope, r = .ok scope →
      SnapshotScope.ofQuery snapshots = .ok scope) (fun scope hok => mapError_eq_ok hok)
    (fun h e _ tag hok => by cases hok) fun h scope hscope => ?_
  refine Prog.Traced.bind_except (authorize_traced True.intro (fun _ _ => True.intro) ..)
    (fun h e _ tag hok => by cases hok) fun h authorized hgranted => ?_
  refine Prog.Traced.bind_except (revalidated_traced ..).extends
    (fun h e _ tag hok => by cases hok) fun h' answer hanswer => ?_
  obtain ⟨hle, hanswer⟩ := hanswer
  cases answer with
  | some tag =>
      intro tag' hok
      cases hok
      obtain ⟨pointer, hpointer, htag, hmatches⟩ := hanswer tag rfl
      obtain ⟨location, rfl, -, -⟩ := etagFor_eq_some htag
      exact ⟨⟨location, scope, AccessDelegation.fromHeaders headers, authorized.obligations⟩,
        ⟨⟨authorized, (hgranted authorized rfl).mono hle, rfl⟩, rfl, hscope scope rfl, hpointer⟩,
        htag, hmatches⟩
  | none =>
      -- From here on the answer is the table itself.
      refine Prog.Meets.traced (P := fun _ => True)
        (Q := Prog.OrError fun reply : Reply d => ∀ tag, reply ≠ .notModified tag) ?_
        (fun _ _ _ => True.intro) fun h'' r hr tag hok => absurd rfl (by
          rw [hok] at hr
          exact hr tag)
      refine Prog.Meets.bind_except (Meets.any _) fun loaded _ => ?_
      refine Prog.Meets.bind_except (Meets.any _) fun delegated _ => ?_
      refine Prog.Meets.bind_except (Meets.any _) fun storageCredentials _ => ?_
      refine Prog.Meets.bind_except (Meets.any _) fun metadata _ => ?_
      refine Prog.Meets.bind_except (Meets.any _) fun readRestrictions _ => ?_
      intro tag hok
      cases hok

theorem stripWeak_etag {sha : List UInt8 → List UInt8} {print : Json → Text}
    {r : Representation} {tag : Text} (h : r.etag sha print = some tag) : stripWeak tag = tag := by
  obtain ⟨-, -, -, rfl⟩ := etagFor_eq_some h
  rfl

/-- A tag that a header matches is `*` or the client's own, weakened or not. -/
theorem exists_candidate {headers : HeaderMap} {tag : Text} (h : matchesTag headers tag = true)
    (htag : stripWeak tag = tag) (hany : "*".toList ∉ candidates headers) :
    ∃ candidate ∈ candidates headers, stripWeak candidate = tag := by
  obtain ⟨candidate, hmem, hmatch⟩ := List.any_eq_true.mp h
  rw [Bool.or_eq_true, beq_iff_eq, beq_iff_eq, htag] at hmatch
  rcases hmatch with rfl | hmatch
  · exact absurd hmem hany
  · exact ⟨candidate, hmem, hmatch⟩

theorem signingResponse_congr {r r' : Representation} (h : r.Same r') (app : AppState)
    (ns : NamespaceIdent) (tableName : Text) :
    signingResponse app r.delegation ns tableName r.obligations =
      signingResponse app r'.delegation ns tableName r'.obligations := by
  have hempty : r.obligations.isEmpty = r'.obligations.isEmpty := by
    rw [Bool.eq_iff_iff]
    simp only [Obligations.isEmpty, Bool.and_eq_true, List.isEmpty_iff,
      List.eq_nil_iff_forall_not_mem, h.filters, h.masks]
  simp only [signingResponse, hempty, h.signing]

/-- Equal tags are of the same location, scope, answer to signing and
restrictions; a response with credentials has none; and a `304` carries the
tag of what the caller itself would be shown, so that a candidate it is an
answer to was never the tag of anything else. -/
theorem etags_sound (d : Crates ib) (read : Text → Option Json) (R : Set Representation)
    (free : CollisionFree d.sha256 d.print read R) (plain : ∀ r ∈ R, r.Plain) :
    (∀ r ∈ R, ∀ r' ∈ R, ∀ tag, r.etag d.sha256 d.print = some tag →
        r'.etag d.sha256 d.print = some tag → r.Same r' ∧
          ∀ app ns tableName, signingResponse app r.delegation ns tableName r.obligations =
            signingResponse app r'.delegation ns tableName r'.obligations) ∧
      (∀ u app principal request, (∀ table snapshots headers,
          Prog.Meets (fun _ => True) (Prog.OrError Untagged)
            (loadTable app principal request table snapshots headers : Served d _).run) ∧
        (∀ ns headers cached payload, Prog.Meets (fun _ => True) (Prog.OrError Untagged)
            (createTable u app principal request ns headers cached payload : Served d _).run) ∧
        ∀ ns headers cached payload, Prog.Meets (fun _ => True) (Prog.OrError Untagged)
          (registerTable u app principal request ns headers cached payload : Served d _).run) ∧
      ∀ app principal request table snapshots headers (h : Past d) tag,
        Prog.Follows (loadTable app principal request table snapshots headers : Served d _).run h
            (.done (.ok (.notModified tag))) →
          ∃ own, Shown app principal request table snapshots headers h own ∧
            own.etag d.sha256 d.print = some tag ∧
            (own ∈ R → "*".toList ∉ candidates headers → ∃ candidate ∈ candidates headers,
              stripWeak candidate = tag ∧
                ∀ r ∈ R, r.etag d.sha256 d.print = some (stripWeak candidate) → own.Same r) := by
  refine ⟨fun r hr r' hr' tag h h' => ?_, fun u app principal request =>
    ⟨loadTable_untagged app principal request, createTable_untagged u app principal request,
      registerTable_untagged u app principal request⟩, ?_⟩
  · have hsame := etag_injective free hr hr' (plain r hr) (plain r' hr') h h'
    exact ⟨hsame, signingResponse_congr hsame⟩
  · intro app principal request table snapshots headers h tag hfollows
    obtain ⟨own, hshown, htag, hmatches⟩ := (loadTable_notModified app principal request table
      snapshots headers).of_follows hfollows tag rfl
    refine ⟨own, hshown, htag, fun hown hany => ?_⟩
    obtain ⟨candidate, hmem, hstrip⟩ := exists_candidate hmatches (stripWeak_etag htag) hany
    refine ⟨candidate, hmem, hstrip, fun r hr hr' => ?_⟩
    rw [hstrip] at hr'
    exact etag_injective free hown hr (plain own hown) (plain r hr) htag hr'

/-! A table read without restrictions, and the same table read through a filter. -/

def regionFilter : Json :=
  .object [("type".toList, .string "eq".toList), ("term".toList, .string "region".toList),
    ("value".toList, .string "EU".toList)]

def regionFilterText : Text :=
  "\x7b\"type\":\"eq\",\"term\":\"region\",\"value\":\"EU\"\x7d".toList

def eventsLocation : Text := "s3://lake/sales/events/metadata/00001.metadata.json".toList

def eventsOpen : Representation := ⟨eventsLocation, .all, .none, .none⟩

def eventsFiltered : Representation := ⟨eventsLocation, .all, .none, ⟨[regionFilter], []⟩⟩

/-- The digests of what is hashed for their two tags. -/
def eventsDigests (bytes : List UInt8) : List UInt8 :=
  if bytes = [1] then
    [75, 245, 18, 47, 52, 69, 84, 197, 59, 222, 46, 187, 140, 210, 183, 227, 209, 96, 10, 214, 49,
      195, 133, 165, 215, 204, 226, 60, 119, 133, 69, 154]
  else if bytes = Utf8.bytes regionFilterText ++ [0, 1] then
    [56, 252, 55, 215, 232, 249, 39, 165, 255, 34, 18, 138, 255, 154, 12, 192, 10, 64, 63, 64, 40,
      80, 48, 100, 252, 143, 205, 216, 156, 175, 136, 214]
  else if bytes = Utf8.bytes eventsLocation ++ Utf8.bytes
      "\x00all\x00plain\x004bf5122f344554c53bde2ebb8cd2b7e3".toList then
    [184, 159, 222, 193, 101, 136, 137, 124, 4, 245, 131, 216, 14, 42, 229, 211, 178, 241, 13, 181,
      172, 1, 130, 183, 103, 176, 131, 251, 13, 58, 13, 39]
  else
    [19, 105, 7, 162, 210, 237, 52, 12, 221, 231, 60, 42, 237, 83, 12, 204, 215, 53, 6, 81, 92, 252,
      225, 187, 52, 89, 110, 198, 206, 245, 217, 126]

def eventsCrates : Crates .plain where
  Credential := Unit
  ReadRestrictions := Unit
  OtherViewUpdate := Unit
  creationProperties _ := ∅
  properties _ := ∅
  viewProperties _ := ∅
  pruned metadata := .ok metadata
  readRestrictions _ _ := .ok none
  sha256 := eventsDigests
  print _ := regionFilterText

theorem events_collisionFree :
    CollisionFree eventsCrates.sha256 eventsCrates.print (fun _ => some regionFilter)
      {eventsOpen, eventsFiltered} where
  digests := by
    have hall : ∀ b ∈ eventsOpen.hashed eventsDigests (fun _ => regionFilterText) ++
        eventsFiltered.hashed eventsDigests (fun _ => regionFilterText),
        ∀ b' ∈ eventsOpen.hashed eventsDigests (fun _ => regionFilterText) ++
          eventsFiltered.hashed eventsDigests (fun _ => regionFilterText),
        (eventsDigests b).take 16 = (eventsDigests b').take 16 → b = b' := by
      -- the texts as characters first: reading them off their literals is what is slow
      have hfilter : regionFilterText = _ := String.toList_ofList
      have hlocation : eventsLocation = _ := String.toList_ofList
      rw [eventsOpen, eventsFiltered, hfilter, hlocation]
      unfold eventsDigests
      rw [hfilter, hlocation, String.toList_ofList]
      decide
    have hmem : ∀ bytes, (∃ r ∈ ({eventsOpen, eventsFiltered} : Set Representation),
        bytes ∈ r.hashed eventsDigests fun _ => regionFilterText) →
          bytes ∈ eventsOpen.hashed eventsDigests (fun _ => regionFilterText) ++
            eventsFiltered.hashed eventsDigests (fun _ => regionFilterText) := by
      rintro bytes ⟨r, rfl | rfl, hbytes⟩
      · exact List.mem_append_left _ hbytes
      · exact List.mem_append_right _ hbytes
    exact fun b hb b' hb' h => hall b (hmem b hb) b' (hmem b' hb') h
  reads := by
    rintro r (rfl | rfl) filter hfilter
    · cases hfilter
    · rw [List.mem_singleton.mp hfilter]
  escapes := by
    rintro r (rfl | rfl) filter hfilter
    · cases hfilter
    · have htext : regionFilterText = _ := String.toList_ofList
      have hall : (regionFilterText.all fun c => 32 ≤ c.toNat) = true := by
        rw [htext]
        decide
      exact fun c hc => of_decide_eq_true (List.all_eq_true.mp hall c hc)

theorem events_plain :
    ∀ r ∈ ({eventsOpen, eventsFiltered} : Set Representation), r.Plain := by
  have htext : eventsLocation = _ := String.toList_ofList
  have hlocation : Char.ofNat 0 ∉ eventsLocation := by
    rw [htext]
    decide
  rintro r (rfl | rfl)
  · exact ⟨hlocation, fun mask hmask => by cases hmask⟩
  · exact ⟨hlocation, fun mask hmask => by cases hmask⟩

/-- Whoever reads through the filter is never answered with the tag of the
unrestricted table, which there is. -/
theorem events_tags_differ :
    (eventsOpen.etag eventsCrates.sha256 eventsCrates.print).isSome ∧
      eventsOpen.etag eventsCrates.sha256 eventsCrates.print ≠
        eventsFiltered.etag eventsCrates.sha256 eventsCrates.print := by
  have hsome : (eventsOpen.etag eventsCrates.sha256 eventsCrates.print).isSome := by
    rfl
  refine ⟨hsome, fun h => ?_⟩
  obtain ⟨tag, htag⟩ := Option.isSome_iff_exists.mp hsome
  have hsound := (etags_sound eventsCrates _ _ events_collisionFree events_plain).1
  obtain ⟨hsame, -⟩ := hsound eventsOpen (Or.inl rfl) eventsFiltered (Or.inr rfl) tag htag
    (h ▸ htag)
  exact absurd ((hsame.filters regionFilter).mpr (List.mem_singleton_self _)) List.not_mem_nil

end Rustberg.V1

import Rustberg.Error

/-!
# What a namespace, table or view may be called

`validateName` of `names.rs`, with its messages. The two Unicode crates
it asks (general categories and NFC) enter as `UnicodeData`; of their
answers the proofs use only that control characters and the
noncharacters U+FFFE and U+FFFF lie in general category `C`.

`validName_iff` reads the whole check as a conjunction; the rest of the
development uses its consequences: no `/`, none of the two separators,
not empty, not `..`.
-/

namespace Rustberg

/-- The answers of `unicode_properties` and `unicode_normalization`. -/
structure UnicodeData where
  /-- `c.general_category_group() == GeneralCategoryGroup::Other` -/
  isOther : Char → Bool
  /-- `is_nfc_quick(name.chars()) == IsNormalized::Yes` -/
  isNfcQuick : Text → Bool
  /-- `name.nfc().collect()` -/
  nfc : Text → Text
  /-- Control characters are `Cc`. -/
  isOther_control : ∀ c : Char, c.toNat < 0x20 → isOther c = true
  /-- U+FFFE and U+FFFF are noncharacters, and so `Cn`. -/
  isOther_nonchar : ∀ c : Char, c.toNat = 0xFFFE ∨ c.toNat = 0xFFFF → isOther c = true

/-- Those answers for text of ASCII and pictographs: controls and
noncharacters are in category `C`, the rest is not and is in form NFC. -/
def UnicodeData.plain : UnicodeData where
  isOther c := decide (c.toNat < 0x20 ∨ (0x7F ≤ c.toNat ∧ c.toNat < 0xA0) ∨
    0xFFFE ≤ c.toNat % 0x10000)
  isNfcQuick _ := true
  nfc name := name
  isOther_control c h := by simp [h]
  isOther_nonchar c h := by rcases h with h | h <;> simp [h]

/-- Joins namespace parts. -/
def partSeparator : Char := Char.ofNat 0x1F

/-- Separates a namespace from a table or view name inside a stored key. -/
def nameSeparator : Char := Char.ofNat 0x1E

def maxNameLength : Nat := 255

def maxNamespaceDepth : Nat := 10

def forbiddenInName : List Char := ['/', '\\']

def validateName (u : UnicodeData) (name context : Text) : Except AppError Unit :=
  if name = [] then
    .error (.badRequest (context ++ " cannot be empty".toList))
  else if maxNameLength < name.length then
    .error (.badRequest (context ++ " exceeds maximum length of ".toList ++
      Text.decimal maxNameLength ++ " characters".toList))
  else match name.find? u.isOther with
  | some found =>
      .error (.badRequest (context ++ " contains U+".toList ++ Text.hex4 found.toNat ++
        (", which is a control, formatting, private-use or unassigned character. Names are " ++
          "compared byte for byte by the policy engine, so a character that renders as " ++
          "nothing would make two different resources look like one.").toList))
  | none =>
  -- The quick check settles most names; the definitive comparison decides the rest.
  if u.isNfcQuick name = false ∧ u.nfc name ≠ name then
    .error
      (.badRequest (context ++ " is not in Unicode normalization form NFC. Write it as '".toList ++
      u.nfc name ++ ("', which is the same text in the form this catalog stores and the policy " ++
        "engine compares.").toList))
  else match name.find? (forbiddenInName.contains ·) with
  | some found =>
      .error (.badRequest (context ++ " contains '".toList ++ [found] ++
        ("', which is a path separator in the storage location this name becomes part " ++
          "of").toList))
  | none =>
  if name = ".".toList ∨ name = "..".toList then
    .error (.badRequest (context ++ " cannot be '".toList ++ name ++
      "', which names a directory rather than a table".toList))
  else if name.trim ≠ name then
    .error (.badRequest (context ++ " has leading or trailing whitespace".toList))
  else .ok ()

/-- `validate_name` accepts `name`, whatever it is called in the message. -/
def ValidName (u : UnicodeData) (name : Text) : Prop :=
  ∀ context, validateName u name context = .ok ()

/-- The loop of `validate_namespace`, from segment `i`. -/
def validateSegments (u : UnicodeData) : Nat → List Text → Except AppError Unit
  | _, [] => .ok ()
  | i, segment :: rest => do
      validateName u segment ("Namespace segment ".toList ++ Text.decimal (i + 1))
      validateSegments u (i + 1) rest

def validateNamespace (u : UnicodeData) (namespc : List Text) : Except AppError Unit :=
  if namespc = [] then
    .error (.badRequest "Namespace cannot be empty".toList)
  else if maxNamespaceDepth < namespc.length then
    .error (.badRequest ("Namespace exceeds maximum depth of ".toList ++
      Text.decimal maxNamespaceDepth ++ " levels".toList))
  else validateSegments u 0 namespc

def validateTableName (u : UnicodeData) (name : Text) : Except AppError Unit :=
  validateName u name "Table name".toList

/-- A tenant id is the first segment of every entity id. -/
def validateTenantId (u : UnicodeData) (tenant : Text) : Except AppError Unit :=
  validateName u tenant "Tenant id".toList

/-- A principal id is never joined into a path, so it may hold `/`. -/
def validatePrincipalId (u : UnicodeData) (id : Text) : Except AppError Unit :=
  if id = [] then
    .error (.badRequest "Principal id cannot be empty".toList)
  else if maxNameLength < id.length then
    .error (.badRequest ("Principal id exceeds maximum length of ".toList ++
      Text.decimal maxNameLength ++ " characters".toList))
  else match id.find? u.isOther with
  | some found =>
      .error (.badRequest ("Principal id contains U+".toList ++ Text.hex4 found.toNat ++
        (", which is a control, formatting, private-use or unassigned character. Every audit " ++
          "record and log line names the principal, and a character that renders as nothing — " ++
          "or reverses what follows it — makes that record unreadable or misleading.").toList))
  | none =>
  if u.isNfcQuick id = false ∧ u.nfc id ≠ id then
    .error (.badRequest ("Principal id is not in Unicode normalization form NFC, so two " ++
      "spellings of one subject would be two principals in the audit trail.").toList)
  else if id.trim ≠ id then
    .error (.badRequest "Principal id has leading or trailing whitespace".toList)
  else .ok ()

/-- The character that keeps a role from being a Cedar group id. -/
def unusableRoleChar (u : UnicodeData) (role : Text) : Option Char :=
  if role = [] ∨ maxNameLength < role.length then some (Char.ofNat 0)
  else match role.find? u.isOther with
  | some found => some found
  | none =>
  if u.isNfcQuick role = false ∧ u.nfc role ≠ role then role.find? fun c => 0x80 ≤ c.toNat
  else if role.trim ≠ role then some ' '
  else none

/-- The roles claimed that can be group ids. -/
def usableRoles (u : UnicodeData) (claimed : List Text) : List Text :=
  claimed.filter fun role => (unusableRoleChar u role).isNone

def maxPropertiesCount : Nat := 100

def maxPropertyKeyLength : Nat := 255

def maxPropertyValueLength : Nat := 4096

/-- The source meets the pairs in the order its hash map yields them; here
they come in key order. -/
def validateProperties (properties : Std.ExtTreeMap Text Text) : Except AppError Unit :=
  if maxPropertiesCount < properties.size then
    .error (.badRequest ("Too many properties (max: ".toList ++ Text.decimal maxPropertiesCount ++
      [')']))
  else
    properties.toList.forM fun (key, value) =>
      if maxPropertyKeyLength < key.len then
        .error (.badRequest ("Property key '".toList ++ key ++
          "' exceeds maximum length of ".toList ++ Text.decimal maxPropertyKeyLength))
      else if maxPropertyValueLength < value.len then
        .error (.badRequest ("Property value for key '".toList ++ key ++
          "' exceeds maximum length of ".toList ++ Text.decimal maxPropertyValueLength))
      else .ok ()

/-! ## What an accepted name is -/

theorem validateName_eq_ok {u : UnicodeData} {name context : Text} :
    validateName u name context = .ok () ↔
      name ≠ [] ∧ name.length ≤ maxNameLength ∧ (∀ c ∈ name, u.isOther c = false) ∧
      (u.isNfcQuick name = true ∨ u.nfc name = name) ∧ (∀ c ∈ name, c ∉ forbiddenInName) ∧
      name ≠ ".".toList ∧ name ≠ "..".toList ∧ name.trim = name := by
  unfold validateName
  by_cases hempty : name = []
  · rw [if_pos hempty]
    exact iff_of_false (fun h => by cases h) fun h => h.1 hempty
  rw [if_neg hempty]
  by_cases hlong : maxNameLength < name.length
  · rw [if_pos hlong]
    exact iff_of_false (fun h => by cases h) fun h => absurd h.2.1 (Nat.not_le.mpr hlong)
  rw [if_neg hlong]
  cases hother : name.find? u.isOther with
  | some c =>
      refine iff_of_false (fun h => by cases h) fun ⟨_, _, hnone, _⟩ => ?_
      have hfound := List.find?_some hother
      rw [hnone c (List.mem_of_find?_eq_some hother)] at hfound
      cases hfound
  | none =>
  dsimp only
  by_cases hnfc : u.isNfcQuick name = false ∧ u.nfc name ≠ name
  · rw [if_pos hnfc]
    refine iff_of_false (fun h => by cases h) fun ⟨_, _, _, hquick, _⟩ => ?_
    rw [hnfc.1] at hquick
    exact hquick.elim (fun h => by cases h) hnfc.2
  rw [if_neg hnfc]
  cases hforbidden : name.find? (forbiddenInName.contains ·) with
  | some c =>
      refine iff_of_false (fun h => by cases h) fun ⟨_, _, _, _, hnone, _⟩ => ?_
      exact hnone c (List.mem_of_find?_eq_some hforbidden)
        (List.contains_iff_mem.mp (List.find?_some hforbidden))
  | none =>
  dsimp only
  by_cases hdots : name = ".".toList ∨ name = "..".toList
  · rw [if_pos hdots]
    exact iff_of_false (fun h => by cases h) fun ⟨_, _, _, _, _, hone, htwo, _⟩ =>
      hdots.elim hone htwo
  rw [if_neg hdots]
  by_cases htrim : name.trim ≠ name
  · rw [if_pos htrim]
    exact iff_of_false (fun h => by cases h) fun ⟨_, _, _, _, _, _, _, h⟩ => htrim h
  rw [if_neg htrim]
  refine iff_of_true rfl ⟨hempty, Nat.not_lt.mp hlong, fun c hc => ?_, ?_, fun c hc hmem => ?_,
    fun h => hdots (.inl h), fun h => hdots (.inr h), not_not.mp htrim⟩
  · exact Bool.eq_false_iff.mpr (List.find?_eq_none.mp hother c hc)
  · by_cases hquick : u.isNfcQuick name = true
    · exact .inl hquick
    · exact .inr (not_not.mp fun h => hnfc ⟨Bool.eq_false_iff.mpr hquick, h⟩)
  · exact List.find?_eq_none.mp hforbidden c hc (List.contains_iff_mem.mpr hmem)

theorem validName_iff {u : UnicodeData} {name context : Text} :
    validateName u name context = .ok () ↔ ValidName u name :=
  ⟨fun h _ => validateName_eq_ok.mpr (validateName_eq_ok.mp h), fun h => h context⟩

section

variable {u : UnicodeData} {name : Text}

theorem ValidName.of_check (h : validateName u name [] = .ok ()) : ValidName u name :=
  validName_iff.mp h

theorem ValidName.facts (h : ValidName u name) :
    name ≠ [] ∧ name.length ≤ maxNameLength ∧ (∀ c ∈ name, u.isOther c = false) ∧
      (u.isNfcQuick name = true ∨ u.nfc name = name) ∧ (∀ c ∈ name, c ∉ forbiddenInName) ∧
      name ≠ ".".toList ∧ name ≠ "..".toList ∧ name.trim = name :=
  validateName_eq_ok.mp (h [])

theorem ValidName.ne_nil (h : ValidName u name) : name ≠ [] := h.facts.1

theorem ValidName.slash_notMem (h : ValidName u name) : '/' ∉ name := fun hmem =>
  h.facts.2.2.2.2.1 '/' hmem (by decide)

theorem ValidName.ne_dotdot (h : ValidName u name) : name ≠ "..".toList :=
  h.facts.2.2.2.2.2.2.1

theorem ValidName.notMem_of_other (h : ValidName u name) {c : Char} (hc : u.isOther c = true) :
    c ∉ name := fun hmem => by
  have := h.facts.2.2.1 c hmem
  rw [hc] at this
  cases this

theorem ValidName.partSeparator_notMem (h : ValidName u name) : partSeparator ∉ name :=
  h.notMem_of_other (u.isOther_control _ (by decide))

theorem ValidName.nameSeparator_notMem (h : ValidName u name) : nameSeparator ∉ name :=
  h.notMem_of_other (u.isOther_control _ (by decide))

theorem ValidName.nul_notMem (h : ValidName u name) : Char.ofNat 0 ∉ name :=
  h.notMem_of_other (u.isOther_control _ (by decide))

theorem ValidName.nonchar_notMem (h : ValidName u name) : Char.ofNat 0xFFFF ∉ name :=
  h.notMem_of_other (u.isOther_nonchar _ (Or.inr (by decide)))

end

theorem validatePrincipalId_other {u : UnicodeData} {id : Text}
    (h : validatePrincipalId u id = .ok ()) {c : Char} (hc : u.isOther c = true) : c ∉ id := by
  intro hmem
  have hfound : id.find? u.isOther ≠ none := fun hnone =>
    List.find?_eq_none.mp hnone c hmem hc
  obtain ⟨found, hfound⟩ := Option.ne_none_iff_exists'.mp hfound
  unfold validatePrincipalId at h
  rw [hfound] at h
  split at h
  · cases h
  · split at h <;> cases h

theorem partSeparator_notMem_of_validatePrincipalId {u : UnicodeData} {id : Text}
    (h : validatePrincipalId u id = .ok ()) : partSeparator ∉ id :=
  validatePrincipalId_other h (u.isOther_control _ (by decide))

theorem partSeparator_notMem_of_validateTenantId {u : UnicodeData} {tenant : Text}
    (h : validateTenantId u tenant = .ok ()) : partSeparator ∉ tenant :=
  (validName_iff.mp h).partSeparator_notMem

theorem validateSegments_eq_ok {u : UnicodeData} {i : Nat} {segments : List Text} :
    validateSegments u i segments = .ok () ↔ ∀ s ∈ segments, ValidName u s := by
  induction segments generalizing i with
  | nil => simp [validateSegments]
  | cons s rest ih =>
      rw [validateSegments]
      cases hs : validateName u s ("Namespace segment ".toList ++ Text.decimal (i + 1)) with
      | error e =>
          refine iff_of_false (fun h => by cases h) fun h => ?_
          have := h s (List.mem_cons_self ..) ("Namespace segment ".toList ++ Text.decimal (i + 1))
          rw [hs] at this
          cases this
      | ok v =>
          have hval : ValidName u s := validName_iff.mp hs
          change validateSegments u (i + 1) rest = .ok () ↔ _
          simp [ih, hval]

/-- `validate_namespace` accepts exactly the nonempty paths of valid names
that are not too deep. -/
theorem validateNamespace_eq_ok {u : UnicodeData} {namespc : List Text} :
    validateNamespace u namespc = .ok () ↔
      namespc ≠ [] ∧ namespc.length ≤ maxNamespaceDepth ∧ ∀ s ∈ namespc, ValidName u s := by
  unfold validateNamespace
  split
  · simp_all
  · split
    · next h => simp [Nat.not_le.mpr h]
    · next hne h => simp [validateSegments_eq_ok, hne, Nat.not_lt.mp h]

end Rustberg

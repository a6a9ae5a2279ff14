import Rustberg.Base.Percent
import Rustberg.Names

/-!
# The chain of views a load came through

`parse_view_chain` of `names.rs` reads the `referenced-by` parameter: the
views a principal arrived through, as identifiers between commas, each of
them percent-encoded on its own. What it returns goes into audit records.

`view_chain_round_trip`: a chain survives the parameter, chains that differ
are recorded differently, and no record holds a character of category `C`.
-/

namespace Rustberg.ViewChain

/-- Decodes one component, where every escape is well formed and the bytes are UTF-8. -/
def percentDecode (component : Text) : Option Text :=
  (Percent.decode (Utf8.bytes component)).bind Utf8.text

/-- The last separator divides the namespace from the view name. -/
def render (segments : List Text) (name : Text) : Text := Text.join ['/'] segments ++ '/' :: name

/-- One identifier of a chain, as it is recorded. -/
def parseIdentifier (u : UnicodeData) (rawIdentifier : Text) : Option Text := do
  let decoded ← percentDecode rawIdentifier
  let segments := decoded.splitOn partSeparator
  if segments.length < 2 then none
  else if segments.any fun segment => !(validateName u segment "view chain".toList).isOk then none
  else
    let name ← segments.getLast?
    some (render segments.dropLast name)

/-- The raw parameter is split before any of it is decoded. -/
def parseViewChain (u : UnicodeData) (rawParameter : Text) : Option (List Text) :=
  if rawParameter = [] then none
  else do
    let chain ← (rawParameter.splitOn ',').mapM (parseIdentifier u)
    if chain = [] then none else some chain

/-! ## What a client writes -/

/-- The escape of a comma, a separator or a percent sign. -/
def escape (c : Char) : Text :=
  if c = ',' then "%2C".toList
  else if c = partSeparator then "%1F".toList
  else if c = '%' then "%25".toList
  else [c]

/-- A view: the levels of its namespace and its name. -/
abbrev Identifier := List Text

/-- At least a namespace of one level and a name, all of them valid. -/
def Identifier.Valid (u : UnicodeData) (ident : Identifier) : Prop :=
  2 ≤ ident.length ∧ ∀ segment ∈ ident, ValidName u segment

def encodeIdentifier (ident : Identifier) : Text := (Text.join [partSeparator] ident).flatMap escape

def encodeChain (chain : List Identifier) : Text := Text.join [','] (chain.map encodeIdentifier)

/-- The path a record names a view by. -/
def rendered (ident : Identifier) : Text := Text.join ['/'] ident

/-! ## One identifier -/

theorem decode_append {plain : List UInt8} (h : Percent.percent ∉ plain) (rest : List UInt8) :
    Percent.decode (plain ++ rest) = (Percent.decode rest).map (plain ++ ·) := by
  induction plain with
  | nil => simp
  | cons b plain ih =>
      have hb : b ≠ Percent.percent := fun heq => h (heq ▸ List.mem_cons_self)
      rw [List.cons_append, Percent.decode_cons hb, ih fun hmem => h (List.mem_cons_of_mem b hmem),
        Option.map_map]
      rfl

theorem decode_escape (c : Char) (rest : List UInt8) :
    Percent.decode (Utf8.bytes (escape c) ++ rest) =
      (Percent.decode rest).map (Utf8.bytes [c] ++ ·) := by
  rw [escape]
  split
  · next h => subst h; exact Percent.decode_percent 50 67 rest
  split
  · next h => subst h; exact Percent.decode_percent 49 70 rest
  split
  · next h => subst h; exact Percent.decode_percent 50 53 rest
  · next _ _ hc =>
      refine decode_append (fun hmem => hc ?_) rest
      obtain ⟨c', hc', hnat⟩ := Utf8.mem_bytes hmem (by decide)
      obtain rfl := List.mem_singleton.mp hc'
      exact Char.toNat_inj.mp hnat

theorem decode_flatMap_escape (s : Text) :
    Percent.decode (Utf8.bytes (s.flatMap escape)) = some (Utf8.bytes s) := by
  induction s with
  | nil => rfl
  | cons c s ih =>
      rw [List.flatMap_cons, Utf8.bytes_append, decode_escape, ih, Option.map_some,
        ← Utf8.bytes_append, List.singleton_append]

theorem percentDecode_flatMap_escape (s : Text) : percentDecode (s.flatMap escape) = some s := by
  rw [percentDecode, decode_flatMap_escape, Option.bind_some, Utf8.text_bytes]

theorem comma_notMem_escape (c : Char) : ',' ∉ escape c := by
  rw [escape]
  split
  · decide
  split
  · decide
  split
  · decide
  · next h _ _ => exact fun hmem => h (List.mem_singleton.mp hmem).symm

theorem comma_notMem_encodeIdentifier (ident : Identifier) : ',' ∉ encodeIdentifier ident := by
  intro hmem
  obtain ⟨c, -, hc⟩ := List.mem_flatMap.mp hmem
  exact comma_notMem_escape c hc

theorem render_eq (segments : List Text) (hne : segments ≠ []) (name : Text) :
    render segments name = rendered (segments ++ [name]) := by
  have hjoin : '/' :: rendered (segments ++ [name]) = '/' :: render segments name := by
    rw [rendered, Text.cons_join (by simp), Text.below, List.flatMap_append, render,
      ← List.cons_append, Text.cons_join hne]
    simp [Text.below]
  exact (List.cons.inj hjoin).2.symm

section

variable {u : UnicodeData} {ident : Identifier}

theorem Identifier.Valid.splitOn_join (h : ident.Valid u) {c : Char}
    (hc : ∀ segment ∈ ident, c ∉ segment) :
    (Text.join [c] ident).splitOn c = ident := by
  refine List.splitOn_intercalate c hc ?_
  rintro rfl
  exact absurd h.1 (by decide)

theorem encodeIdentifier_ne_nil (h : ident.Valid u) : encodeIdentifier ident ≠ [] := by
  intro hnil
  have hdecode := percentDecode_flatMap_escape (Text.join [partSeparator] ident)
  rw [show (Text.join [partSeparator] ident).flatMap escape = [] from hnil] at hdecode
  have hsplit := h.splitOn_join fun segment hmem => (h.2 segment hmem).partSeparator_notMem
  rw [← Option.some.inj (hdecode : some [] = _)] at hsplit
  have htwo := h.1
  rw [← hsplit] at htwo
  exact absurd htwo (by decide)

/-- What was encoded is recorded as it was meant. -/
theorem parseIdentifier_encodeIdentifier (h : ident.Valid u) :
    parseIdentifier u (encodeIdentifier ident) = some (rendered ident) := by
  obtain ⟨levels, name, rfl⟩ : ∃ levels name, ident = levels ++ [name] := by
    refine ⟨ident.dropLast, ident.getLast ?_, (List.dropLast_append_getLast _).symm⟩
    rintro rfl
    exact absurd h.1 (by decide)
  have hlevels : levels ≠ [] := by
    rintro rfl
    exact absurd (show 2 ≤ 1 from h.1) (by decide)
  have hsplit := h.splitOn_join fun segment hmem => (h.2 segment hmem).partSeparator_notMem
  have hvalid : (levels ++ [name]).any
      (fun segment => !(validateName u segment "view chain".toList).isOk) = false := by
    rw [List.any_eq_false]
    intro segment hmem
    rw [h.2 segment hmem "view chain".toList]
    decide
  rw [parseIdentifier, encodeIdentifier, percentDecode_flatMap_escape, Option.bind_eq_bind,
    Option.bind_some]
  dsimp only
  rw [hsplit, if_neg (Nat.not_lt.mpr h.1), hvalid, List.getLast?_concat, List.dropLast_concat]
  exact congrArg some (render_eq levels hlevels name)

/-- What is recorded is the path of valid names. -/
theorem parseIdentifier_eq_some {raw record : Text} (h : parseIdentifier u raw = some record) :
    ∃ ident : Identifier, ident.Valid u ∧ record = rendered ident := by
  obtain ⟨decoded, -, h⟩ := Option.bind_eq_some_iff.mp h
  dsimp only at h
  split at h
  · cases h
  next hlen =>
  split at h
  · cases h
  next hvalid =>
  obtain ⟨name, hname, h⟩ := Option.bind_eq_some_iff.mp h
  obtain rfl := Option.some.inj h
  have hsegments := List.dropLast_append_getLast? name hname
  refine ⟨decoded.splitOn partSeparator, ⟨Nat.not_lt.mp hlen, fun segment hmem => ?_⟩, ?_⟩
  · have hok : (validateName u segment "view chain".toList).isOk = true := by
      by_contra hno
      refine hvalid (List.any_eq_true.mpr ⟨segment, hmem, ?_⟩)
      rw [Bool.not_eq_true] at hno
      rw [hno]
      rfl
    cases hcheck : validateName u segment "view chain".toList with
    | ok v => exact validName_iff.mp hcheck
    | error e =>
        rw [hcheck] at hok
        cases hok
  · conv_rhs => rw [← hsegments]
    refine render_eq _ (fun hnil => hlen ?_) name
    rw [← hsegments, hnil]
    exact (by decide : 1 < 2)

end

/-! ## The chain -/

theorem mapM_eq_map {α β : Type} {f : α → Option β} {g : α → β} {as : List α}
    (h : ∀ a ∈ as, f a = some (g a)) : as.mapM f = some (as.map g) := by
  induction as with
  | nil => rfl
  | cons a as ih =>
      rw [List.mapM_cons, h a List.mem_cons_self, ih fun a ha => h a (List.mem_cons_of_mem _ ha)]
      rfl

theorem of_mem_mapM {α β : Type} {f : α → Option β} {as : List α} {bs : List β}
    (h : as.mapM f = some bs) : ∀ b ∈ bs, ∃ a, f a = some b := by
  induction as generalizing bs with
  | nil =>
      cases h
      exact fun b hb => by cases hb
  | cons a as ih =>
      rw [List.mapM_cons] at h
      obtain ⟨b, hb, h⟩ := Option.bind_eq_some_iff.mp h
      obtain ⟨bs', hbs, h⟩ := Option.bind_eq_some_iff.mp h
      cases h
      intro b' hb'
      rcases List.mem_cons.mp hb' with rfl | hb'
      · exact ⟨a, hb⟩
      · exact ih hbs b' hb'

section

variable {u : UnicodeData}

theorem parseViewChain_encodeChain {chain : List Identifier} (hne : chain ≠ [])
    (h : ∀ ident ∈ chain, ident.Valid u) :
    parseViewChain u (encodeChain chain) = some (chain.map rendered) := by
  have hsplit : (encodeChain chain).splitOn ',' = chain.map encodeIdentifier := by
    refine List.splitOn_intercalate ',' (fun piece hpiece => ?_) (by simpa using hne)
    obtain ⟨ident, -, rfl⟩ := List.mem_map.mp hpiece
    exact comma_notMem_encodeIdentifier ident
  have hraw : encodeChain chain ≠ [] := by
    intro hnil
    obtain ⟨ident, rest, rfl⟩ := List.exists_cons_of_ne_nil hne
    rw [hnil, List.map_cons] at hsplit
    have hhead : encodeIdentifier ident = [] := (List.cons.inj hsplit).1.symm
    exact encodeIdentifier_ne_nil (h ident List.mem_cons_self) hhead
  have hmap :
    (chain.map encodeIdentifier).mapM (parseIdentifier u) = some (chain.map rendered) := by
    rw [List.mapM_map]
    exact mapM_eq_map fun ident hmem => parseIdentifier_encodeIdentifier (h ident hmem)
  rw [parseViewChain, if_neg hraw, hsplit, hmap, Option.bind_eq_bind, Option.bind_some,
    if_neg (by simpa using hne)]

theorem rendered_inj {ident ident' : Identifier} (h : ident.Valid u) (h' : ident'.Valid u)
    (heq : rendered ident = rendered ident') : ident = ident' := by
  have hsplit := h.splitOn_join fun segment hmem => (h.2 segment hmem).slash_notMem
  have hsplit' := h'.splitOn_join fun segment hmem => (h'.2 segment hmem).slash_notMem
  rw [← hsplit, ← hsplit']
  exact congrArg (List.splitOn '/') heq

theorem chain_inj {chain chain' : List Identifier} (h : ∀ ident ∈ chain, ident.Valid u)
    (h' : ∀ ident ∈ chain', ident.Valid u) (heq : chain.map rendered = chain'.map rendered) :
    chain = chain' := by
  induction chain generalizing chain' with
  | nil => exact (List.map_eq_nil_iff.mp heq.symm).symm
  | cons ident chain ih =>
      obtain ⟨ident', chain', rfl, hident, hchain⟩ := List.map_eq_cons_iff.mp heq.symm
      rw [rendered_inj (h ident List.mem_cons_self) (h' ident' List.mem_cons_self) hident.symm,
        ih (fun i hi => h i (List.mem_cons_of_mem _ hi)) (fun i hi =>
          h' i (List.mem_cons_of_mem _ hi))
          hchain.symm]

theorem rendered_visible (hslash : u.isOther '/' = false) {ident : Identifier} (h : ident.Valid u)
    {c : Char} (hc : c ∈ rendered ident) : u.isOther c = false := by
  have hne : ident ≠ [] := by
    rintro rfl
    exact absurd h.1 (by decide)
  have hbelow : c ∈ Text.below '/' ident := by
    rw [← Text.cons_join hne]
    exact List.mem_cons_of_mem _ hc
  obtain ⟨segment, hsegment, hc⟩ := List.mem_flatMap.mp hbelow
  rcases List.mem_cons.mp hc with rfl | hc
  · exact hslash
  · exact (h.2 segment hsegment).facts.2.2.1 c hc

/-- A chain of views survives the parameter, chains that differ are recorded
differently, and whatever is accepted holds no character of category `C`;
`/`, which joins the segments, is in none of these. -/
theorem view_chain_round_trip (u : UnicodeData) (hslash : u.isOther '/' = false) :
    (∀ chain : List Identifier, chain ≠ [] → (∀ ident ∈ chain, ident.Valid u) →
      parseViewChain u (encodeChain chain) = some (chain.map rendered)) ∧
    (∀ chain chain' : List Identifier, (∀ ident ∈ chain, ident.Valid u) →
      (∀ ident ∈ chain', ident.Valid u) → chain.map rendered = chain'.map rendered →
        chain = chain') ∧
    ∀ (rawParameter : Text) (records : List Text), parseViewChain u rawParameter = some records →
      ∀ record ∈ records, ∀ c ∈ record, u.isOther c = false := by
  refine ⟨fun chain => parseViewChain_encodeChain, fun chain chain' => chain_inj,
    fun rawParameter records h record hrecord c hc => ?_⟩
  rw [parseViewChain] at h
  split at h
  · cases h
  obtain ⟨chain, hchain, h⟩ := Option.bind_eq_some_iff.mp h
  split at h
  · cases h
  obtain rfl := Option.some.inj h
  obtain ⟨raw, hraw⟩ := of_mem_mapM hchain record hrecord
  obtain ⟨ident, hident, rfl⟩ := parseIdentifier_eq_some hraw
  exact rendered_visible hslash hident hc

/-- A comma, a percent sign and an accented letter on the way through. -/
theorem view_chain_round_trip_summary :
    parseViewChain .plain (encodeChain [["finance".toList, "a,b".toList],
        ["hr".toList, "50%".toList, "café".toList]]) =
      some ["finance/a,b".toList, "hr/50%/café".toList] := by
  have hsummary : Identifier.Valid .plain ["finance".toList, "a,b".toList] :=
    ⟨le_refl 2, List.forall_mem_cons.mpr ⟨.of_check rfl, List.forall_mem_singleton.mpr
      (.of_check rfl)⟩⟩
  have hrate : Identifier.Valid .plain ["hr".toList, "50%".toList, "café".toList] :=
    ⟨by decide, List.forall_mem_cons.mpr ⟨.of_check rfl, List.forall_mem_cons.mpr
      ⟨.of_check rfl, List.forall_mem_singleton.mpr (.of_check rfl)⟩⟩⟩
  refine ((view_chain_round_trip .plain rfl).1 _ (by simp) ?_).trans ?_
  · exact List.forall_mem_cons.mpr ⟨hsummary, List.forall_mem_singleton.mpr hrate⟩
  · rfl

end

end Rustberg.ViewChain

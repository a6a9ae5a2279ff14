import Rustberg.RemoteIp
import Rustberg.V1.Freshness

/-!
# The caller's address, from header bytes

`extract_client_ip` of `auth/middleware.rs` hands `RemoteIp::resolve` the
forwarding lines that are text, and no others. The chain `resolve` is about
has every entry of every line, and one that is not text is a hop that does
not read (`counted`). A line that is dropped takes with it what a trusted
proxy wrote at its end: the two answers are the same as long as the last
line with a hop that is no proxy is text.
-/

namespace Rustberg.Auth

open Net V1

def xForwardedFor : Text := "x-forwarded-for".toList

def xRealIp : Text := "x-real-ip".toList

/-- `headers.get_all(X_FORWARDED_FOR)` -/
def forwardedLines (headers : HeaderMap) : List Text :=
  (headers.filter fun line => line.1 = xForwardedFor).map Prod.snd

def realIp (headers : HeaderMap) : Option Text := (headers.lookup xRealIp).bind headerStr

def extractClientIp (peer : Option IpAddr) (headers : HeaderMap) (resolver : RemoteIp) :
    Option IpAddr :=
  if resolver.trusted = [] then resolver.resolve peer [] none
  else resolver.resolve peer ((forwardedLines headers).filterMap headerStr) (realIp headers)

/-! ## The chain every entry counts in -/

/-- What a proxy writes for a hop it does not disclose, and what does not read. -/
def unknown : Text := "unknown".toList

/-- The line, with the entries that are not text as hops that do not read. -/
def counted (line : Text) : Text :=
  Text.join [','] ((line.splitOn ',').map fun entry => (headerStr entry).getD unknown)

/-- `RemoteIp::resolve` on the chain with every entry. -/
def countedClientIp (peer : Option IpAddr) (headers : HeaderMap) (resolver : RemoteIp) :
    Option IpAddr :=
  resolver.resolve peer ((forwardedLines headers).map counted) (realIp headers)

/-- The hop an entry stands for. -/
def hopOf (entry : Text) : Option IpAddr :=
  (headerStr entry).bind fun text => parseForwardedEntry text.trim

/-- The line has a hop that is no trusted proxy. -/
def Decides (r : RemoteIp) (line : Text) : Prop :=
  ∃ entry ∈ line.splitOn ',', ¬ r.Proxy (hopOf entry)

/-- Behind a trusted proxy, the last line with a hop that is none is text. -/
def LastReadable (r : RemoteIp) (peer : Option IpAddr) (lines : List Text) : Prop :=
  ∀ address left line right, peer = some address → r.Proxy (some address) →
    lines = left ++ line :: right → Decides r line → (∀ later ∈ right, ¬ Decides r later) →
      (headerStr line).isSome

/-! ## Lines and their entries -/

theorem headerStr_eq_some {value text : Text} (h : headerStr value = some text) : text = value := by
  unfold headerStr at h
  split at h
  · exact (Option.some.inj h).symm
  · cases h

theorem headerStr_isSome {value : Text} :
    (headerStr value).isSome ↔
      (value.all fun c => (32 ≤ c.toNat && c.toNat < 127) || c == '\t') = true := by
  unfold headerStr
  split <;> simp_all

/-- A line is text when its entries are. -/
theorem headerStr_of_entries {line : Text}
    (h : ∀ entry ∈ line.splitOn ',', (headerStr entry).isSome) : (headerStr line).isSome := by
  rw [headerStr_isSome, List.all_eq_true]
  intro c hc
  by_cases hcomma : c = ','
  · rw [hcomma]
    rfl
  · obtain ⟨entry, hentry, hmem⟩ := (Text.mem_splitOn hcomma).mpr hc
    exact List.all_eq_true.mp (headerStr_isSome.mp (h entry hentry)) c hmem

theorem headerStr_entry {line entry : Text} (h : (headerStr line).isSome)
    (hentry : entry ∈ line.splitOn ',') : headerStr entry = some entry := by
  have hall : (headerStr entry).isSome := by
    rw [headerStr_isSome, List.all_eq_true]
    intro c hc
    have hcomma : c ≠ ',' := fun heq => Text.notMem_of_mem_splitOn hentry (heq ▸ hc)
    exact List.all_eq_true.mp (headerStr_isSome.mp h) c
      ((Text.mem_splitOn hcomma).mp ⟨entry, hentry, hc⟩)
  obtain ⟨text, htext⟩ := Option.isSome_iff_exists.mp hall
  rw [htext, headerStr_eq_some htext]

/-- A line of text counts as it is. -/
theorem counted_of_isSome {line : Text} (h : (headerStr line).isSome) : counted line = line := by
  have hentries : (line.splitOn ',').map (fun entry => (headerStr entry).getD unknown) =
      line.splitOn ',' := by
    refine (List.map_congr_left fun entry hentry => ?_).trans (List.map_id _)
    rw [headerStr_entry h hentry]
    rfl
  rw [counted, hentries]
  exact List.intercalate_splitOn ','

theorem comma_notMem_counted {line entry : Text} (h : entry ∈ line.splitOn ',') :
    ',' ∉ (headerStr entry).getD unknown := by
  cases htext : headerStr entry with
  | none => exact (by decide : ',' ∉ unknown)
  | some text =>
      rw [Option.getD_some, headerStr_eq_some htext]
      exact Text.notMem_of_mem_splitOn h

theorem entries_counted (lines : List Text) :
    RemoteIp.entries (lines.map counted) =
      (RemoteIp.entries lines).map fun entry => (headerStr entry).getD unknown := by
  simp only [RemoteIp.entries, List.flatMap_map, List.map_flatMap]
  refine List.flatMap_congr fun line _ => ?_
  refine List.splitOn_intercalate ',' (fun piece hpiece => ?_) (by simp [List.splitOn_ne_nil])
  obtain ⟨entry, hentry, rfl⟩ := List.mem_map.mp hpiece
  exact comma_notMem_counted hentry

theorem parse_counted (entry : Text) :
    parseForwardedEntry ((headerStr entry).getD unknown).trim = hopOf entry := by
  unfold hopOf
  cases headerStr entry with
  | none => decide
  | some text => rfl

theorem hops_counted (lines : List Text) (peer : IpAddr) :
    RemoteIp.hops (RemoteIp.entries (lines.map counted)) peer =
      (RemoteIp.entries lines).map hopOf ++ [some peer] := by
  rw [RemoteIp.hops, entries_counted, List.map_map]
  simp only [Function.comp_def, parse_counted]

/-- The lines that are kept count as they are. -/
theorem map_counted_kept (lines : List Text) :
    (lines.filterMap headerStr).map counted = lines.filterMap headerStr := by
  refine (List.map_congr_left fun line hline => ?_).trans (List.map_id _)
  obtain ⟨value, -, hvalue⟩ := List.mem_filterMap.mp hline
  obtain rfl := headerStr_eq_some hvalue
  exact counted_of_isSome (by rw [hvalue]; rfl)

/-! ## The line that decides -/

section

variable {r : RemoteIp} {peer : IpAddr} {line : Text} {right : List Text}

/-- A line whose hops are proxies is text. -/
theorem headerStr_of_not_decides (h : ¬ Decides r line) : (headerStr line).isSome := by
  refine headerStr_of_entries fun entry hentry => ?_
  by_contra hnone
  refine h ⟨entry, hentry, ?_⟩
  rw [hopOf, Option.not_isSome_iff_eq_none.mp hnone]
  rintro ⟨address, haddress, -⟩
  cases haddress

/-- The lines after the one that decides leave the answer to it, whatever
stands before it. -/
theorem resolve_decided (hpeer : r.Proxy (some peer)) (hline : Decides r line)
    (hright : ∀ later ∈ right, ¬ Decides r later) :
    ∃ entry ∈ line.splitOn ',', ¬ r.Proxy (hopOf entry) ∧ ∀ left claim,
      r.resolve (some peer) ((left ++ line :: right).map counted) claim = hopOf entry := by
  obtain ⟨before, entry, after, hentries, hentry, hafter⟩ := exists_last hline
  refine ⟨entry, by rw [hentries]; simp, hentry, fun left claim => ?_⟩
  have hhops : RemoteIp.hops (RemoteIp.entries ((left ++ line :: right).map counted)) peer =
      ((RemoteIp.entries left ++ before).map hopOf) ++
        hopOf entry :: ((after ++ RemoteIp.entries right).map hopOf ++ [some peer]) := by
    rw [hops_counted, RemoteIp.entries_append, RemoteIp.entries, RemoteIp.entries,
      List.flatMap_cons, hentries, RemoteIp.entries]
    simp
  refine r.resolve_eq hhops hentry fun later hlater => ?_
  rcases List.mem_append.mp hlater with hlater | hlater
  · obtain ⟨other, hother, rfl⟩ := List.mem_map.mp hlater
    rcases List.mem_append.mp hother with hother | hother
    · exact not_not.mp (hafter other hother)
    · obtain ⟨value, hvalue, hin⟩ := List.mem_flatMap.mp hother
      by_contra hout
      exact hright value hvalue ⟨other, hin, hout⟩
  · rw [List.mem_singleton.mp hlater]
    exact hpeer

theorem filterMap_right (hright : ∀ later ∈ right, ¬ Decides r later) :
    right.filterMap headerStr = right := by
  have hsome : ∀ later ∈ right, headerStr later = some later := fun later hlater => by
    obtain ⟨text, htext⟩ := Option.isSome_iff_exists.mp
      (headerStr_of_not_decides (hright later hlater))
    rw [htext, headerStr_eq_some htext]
  rw [List.filterMap_congr hsome, List.filterMap_some]

end

/-! ## The two answers -/

theorem resolve_untrusted {r : RemoteIp} {peer : IpAddr} (hpeer : ¬ r.Proxy (some peer))
    (forwarded : List Text) (claim : Option Text) :
    r.resolve (some peer) forwarded claim = some peer := by
  have hhops : RemoteIp.hops (RemoteIp.entries forwarded) peer =
      ((RemoteIp.entries forwarded).map fun entry => parseForwardedEntry entry.trim) ++
        some peer :: [] := rfl
  exact r.resolve_eq hhops hpeer fun _ h => by cases h

theorem extract_eq_of_decided {r : RemoteIp} {peer : IpAddr} {headers : HeaderMap}
    {left right : List Text} {line : Text} (hpeer : r.Proxy (some peer)) (hline : Decides r line)
    (hright : ∀ later ∈ right, ¬ Decides r later) (hread : (headerStr line).isSome)
    (hlines : forwardedLines headers = left ++ line :: right) :
    extractClientIp (some peer) headers r = countedClientIp (some peer) headers r := by
  have htrusted : r.trusted ≠ [] := by
    obtain ⟨-, -, range, hrange, -⟩ := hpeer
    exact List.ne_nil_of_mem hrange
  obtain ⟨entry, -, -, hresolve⟩ := resolve_decided hpeer hline hright
  obtain ⟨text, htext⟩ := Option.isSome_iff_exists.mp hread
  have hkept : (forwardedLines headers).filterMap headerStr =
      left.filterMap headerStr ++ line :: right := by
    rw [hlines, List.filterMap_append, List.filterMap_cons, htext, headerStr_eq_some htext,
      filterMap_right hright]
  rw [extractClientIp, if_neg htrusted, countedClientIp, ← map_counted_kept, hkept, hlines,
    hresolve, hresolve]

/-- When the line that decides is text the two answers are the same. -/
theorem extractClientIp_of_readable {r : RemoteIp} {peer : Option IpAddr} {headers : HeaderMap}
    (h : LastReadable r peer (forwardedLines headers)) :
    extractClientIp peer headers r = countedClientIp peer headers r := by
  by_cases htrusted : r.trusted = []
  · rw [extractClientIp, if_pos htrusted, countedClientIp, r.resolve_direct htrusted,
      r.resolve_direct htrusted]
  cases peer with
  | none =>
      rw [extractClientIp, if_neg htrusted, countedClientIp, RemoteIp.resolve, RemoteIp.resolve,
        if_neg htrusted]
  | some address =>
      by_cases hpeer : r.Proxy (some address)
      · by_cases hexists : ∃ line ∈ forwardedLines headers, Decides r line
        · obtain ⟨left, line, right, hlines, hline, hright⟩ := exists_last hexists
          exact extract_eq_of_decided hpeer hline hright
            (h address left line right rfl hpeer hlines hline hright) hlines
        · have hkept := filterMap_right (r := r) fun line hline hdecides =>
            hexists ⟨line, hline, hdecides⟩
          rw [extractClientIp, if_neg htrusted, countedClientIp, ← map_counted_kept, hkept]
      · rw [extractClientIp, if_neg htrusted, countedClientIp, resolve_untrusted hpeer,
          resolve_untrusted hpeer]

/-- A chain of proxies is answered with its first hop. -/
theorem resolve_proxies {r : RemoteIp} {peer : IpAddr} {forwarded : List Text}
    {first : Option IpAddr} {rest : List (Option IpAddr)} (hpeer : r.Proxy (some peer))
    (hhops : RemoteIp.hops (RemoteIp.entries forwarded) peer = first :: rest)
    (hne : forwarded ≠ []) (hall : ∀ hop ∈ first :: rest, r.Proxy hop) (claim : Option Text) :
    r.resolve (some peer) forwarded claim = first := by
  have htrusted : r.trusted ≠ [] := by
    obtain ⟨-, -, range, hrange, -⟩ := hpeer
    exact List.ne_nil_of_mem hrange
  have hnone : rposition (fun address => !address.any r.isTrusted) (first :: rest) = none :=
    rposition_eq_none.mpr fun hop hhop => by
      rw [Bool.not_eq_false', r.any_isTrusted_iff]
      exact hall hop hhop
  rw [r.resolve_walk htrusted (Or.inl (RemoteIp.entries_ne_nil hne)), hhops, hnone]
  rfl

/-- A request with the given forwarding lines, and no other header. -/
def forwarding (lines : List Text) : HeaderMap := lines.map fun line => (xForwardedFor, line)

theorem forwardedLines_forwarding (lines : List Text) :
    forwardedLines (forwarding lines) = lines := by
  simp [forwardedLines, forwarding, List.filter_map, Function.comp_def]

/-- A client's line of one text entry, before a line that is dropped. -/
theorem extract_dropped {r : RemoteIp} {peer : IpAddr} {line claim : Text} {right : List Text}
    (hpeer : r.Proxy (some peer)) (hunread : headerStr line = none)
    (hright : ∀ later ∈ right, ¬ Decides r later) (hclaim : headerStr claim = some claim)
    (hentry : claim.splitOn ',' = [claim]) :
    extractClientIp (some peer) (forwarding ([claim] ++ line :: right)) r = hopOf claim := by
  have htrusted : r.trusted ≠ [] := by
    obtain ⟨-, -, range, hrange, -⟩ := hpeer
    exact List.ne_nil_of_mem hrange
  have hkept : (forwardedLines (forwarding ([claim] ++ line :: right))).filterMap headerStr =
      claim :: right := by
    rw [forwardedLines_forwarding, List.singleton_append, List.filterMap_cons_some hclaim,
      List.filterMap_cons_none hunread, filterMap_right hright]
  rw [extractClientIp, if_neg htrusted, ← map_counted_kept, hkept]
  by_cases hdecides : Decides r claim
  · obtain ⟨entry, hmem, -, hresolve⟩ := resolve_decided hpeer hdecides hright
    rw [hentry, List.mem_singleton] at hmem
    exact hmem ▸ hresolve [] _
  · -- Every hop that is left is a proxy, the claimed one first.
    have hentries : RemoteIp.entries (claim :: right) = claim :: RemoteIp.entries right := by
      rw [RemoteIp.entries, List.flatMap_cons, hentry]
      rfl
    have hhops := hops_counted (claim :: right) peer
    rw [hentries] at hhops
    refine resolve_proxies hpeer hhops (by simp) (fun hop hhop => ?_) _
    have hchain : hop ∈ (claim :: RemoteIp.entries right).map hopOf ++ [some peer] := hhop
    rcases List.mem_append.mp hchain with hhop | hhop
    · obtain ⟨entry, hmem, rfl⟩ := List.mem_map.mp hhop
      by_contra hout
      rcases List.mem_cons.mp hmem with rfl | hmem
      · exact hdecides ⟨entry, by rw [hentry]; exact List.mem_singleton_self _, hout⟩
      · obtain ⟨value, hvalue, hin⟩ := List.mem_flatMap.mp hmem
        exact hright value hvalue ⟨entry, hin, hout⟩
    · rw [List.mem_singleton.mp hhop]
      exact hpeer

/-- The caller is the same as on the chain with every entry whenever the last
line with a hop that is no proxy is text, and a deciding line that is not
text lets what stands before it change the answer. -/
theorem extractClientIp_exact (r : RemoteIp) :
    (∀ peer headers, LastReadable r peer (forwardedLines headers) →
      extractClientIp peer headers r = countedClientIp peer headers r) ∧
    ∀ peer line right, r.Proxy (some peer) → Decides r line → (∀ later ∈ right, ¬ Decides r later) →
      ((∀ headers left, forwardedLines headers = left ++ line :: right →
          extractClientIp (some peer) headers r = countedClientIp (some peer) headers r) ↔
        (headerStr line).isSome) := by
  refine ⟨fun peer headers => extractClientIp_of_readable, fun peer line right hpeer hline hright =>
    ⟨fun hsame => ?_, fun hread headers left hlines => ?_⟩⟩
  · obtain ⟨entry, -, -, hresolve⟩ := resolve_decided hpeer hline hright
    by_contra hunread
    rw [Option.not_isSome_iff_eq_none] at hunread
    have hanswer : ∀ claim, headerStr claim = some claim → claim.splitOn ',' = [claim] →
        hopOf claim = hopOf entry := fun claim htext hone => by
      have heq := hsame _ [claim] (forwardedLines_forwarding _)
      rw [extract_dropped hpeer hunread hright htext hone, countedClientIp,
        forwardedLines_forwarding, hresolve] at heq
      exact heq
    -- Two claims that read differently cannot both be the answer.
    have hunknown := hanswer unknown (by decide) (by decide)
    have hgiven := hanswer "10.0.0.1".toList (by decide) (by decide)
    rw [← hunknown] at hgiven
    exact absurd hgiven (by decide)
  · exact extract_eq_of_decided hpeer hline hright hread hlines

def proxied : RemoteIp := ⟨[⟨.v4 ⟨#v[10, 0, 0, 0]⟩, 8, by decide⟩]⟩

/-- A forged address to the left of what the proxy wrote. -/
theorem clientIp_read :
    extractClientIp (IpAddr.fromStr "10.0.0.7".toList)
        (forwarding ["198.51.100.1, 203.0.113.9".toList]) proxied =
      countedClientIp (IpAddr.fromStr "10.0.0.7".toList)
        (forwarding ["198.51.100.1, 203.0.113.9".toList]) proxied := by
  refine (extractClientIp_exact proxied).1 _ _ fun address left line right _ _ hlines _ _ => ?_
  have hmem : line ∈ ["198.51.100.1, 203.0.113.9".toList] := by
    rw [← forwardedLines_forwarding ["198.51.100.1, 203.0.113.9".toList], hlines]
    simp
  rw [List.mem_singleton.mp hmem]
  decide

/-! A client behind `10.0.0.7` sends a byte that is not text, and an address of its choice. -/

def hiddenClient : HeaderMap :=
  [(xForwardedFor, 'ÿ' :: ", 203.0.113.9".toList), (xRealIp, "198.51.100.1".toList)]

/-- The line the proxy wrote the caller's address on is dropped, and the
header the client wrote is believed. -/
theorem clientIp_hidden :
    ¬ ∀ (r : RemoteIp) (peer : Option IpAddr) (headers : HeaderMap),
      extractClientIp peer headers r = countedClientIp peer headers r := by
  intro h
  have hsame := h proxied (IpAddr.fromStr "10.0.0.7".toList) hiddenClient
  have hcode : extractClientIp (IpAddr.fromStr "10.0.0.7".toList) hiddenClient proxied =
      IpAddr.fromStr "198.51.100.1".toList := by decide
  have hchain : countedClientIp (IpAddr.fromStr "10.0.0.7".toList) hiddenClient proxied =
      IpAddr.fromStr "203.0.113.9".toList := by decide
  rw [hcode, hchain] at hsame
  exact absurd hsame (by decide)

end Rustberg.Auth

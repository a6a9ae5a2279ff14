import Rustberg.V1.DeleteBody

/-!
# The keys of a deletion and the elements of its body

What the scanner accepts of an XML document. Every start tag it reads is one of
the document's, and it keeps the text of each `Key` element that has two
tags (`keysRead_of_deleteKeys`). An element written `<Key/>` is passed over, and a
line that ends in a carriage return is kept as it stands, which no reader of
XML does: elsewhere the keys are exactly the texts of the document's `Key`
elements (`exact_of_keysRead`).
-/

namespace Rustberg.V1

open Xml

/-! ## Character data -/

theorem predefined_of_match {name entity rest rest' : Text} (hname : ';' ∉ name)
    (hentity : ';' ∉ entity) (h : name ++ ';' :: rest = entity ++ ';' :: rest') :
    name = entity ∧ rest = rest' :=
  (Text.append_cons_inj_left hname hentity).mp h

theorem decodeEntities_reference {name rest text : Text} (hname : ';' ∉ name)
    (h : decodeEntities ('&' :: (name ++ ';' :: rest)) = .ok text) :
    ∃ c text', predefined name = some c ∧ decodeEntities rest = .ok text' ∧ text = c :: text' := by
  have hread : ∀ (entity : Text) {rest' : Text} {c : Char}, ';' ∉ entity →
    predefined entity = some c →
      name ++ ';' :: rest = entity ++ ';' :: rest' →
        (decodeEntities rest').map (c :: ·) = .ok text →
        ∃ c text', predefined name = some c ∧ decodeEntities rest = .ok text' ∧
          text = c :: text' := by
    intro entity rest' c hentity hc heq hmap
    obtain ⟨rfl, rfl⟩ := predefined_of_match hname hentity heq
    obtain ⟨text', htext', rfl⟩ := Except.map_eq_ok.mp hmap
    exact ⟨c, text', hc, htext', rfl⟩
  generalize hs : name ++ ';' :: rest = s at h
  rw [decodeEntities.eq_def] at h
  split at h
  · next heq => cases heq
  · next heq =>
      cases heq
      exact hread "amp".toList (by decide) rfl hs h
  · next heq =>
      cases heq
      exact hread "lt".toList (by decide) rfl hs h
  · next heq =>
      cases heq
      exact hread "gt".toList (by decide) rfl hs h
  · next heq =>
      cases heq
      exact hread "quot".toList (by decide) rfl hs h
  · next heq =>
      cases heq
      exact hread "apos".toList (by decide) rfl hs h
  · next heq =>
      cases heq
      rw [if_pos rfl] at h
      cases h

/-- What is decoded is what is written. -/
theorem decodeEntities_pieces {pieces : List Piece} (hpieces : ∀ piece ∈ pieces, piece.Valid)
    {text : Text} (h : decodeEntities (renderPieces pieces) = .ok text) :
    text = written pieces := by
  induction pieces generalizing text with
  | nil => exact (Except.ok.inj h).symm
  | cons piece pieces ih =>
      have hrest :=
        fun {text} => @ih (fun piece hpiece => hpieces piece (List.mem_cons_of_mem _ hpiece)) text
      have hpiece := hpieces piece (List.mem_cons_self ..)
      rw [written, List.flatMap_cons, ← written]
      rw [renderPieces, List.flatMap_cons, ← renderPieces] at h
      cases hpiece with
      | char hopen hamp =>
          rw [Piece.render, List.singleton_append, decodeEntities_cons hamp] at h
          obtain ⟨text', htext', rfl⟩ := Except.map_eq_ok.mp h
          rw [hrest htext']
          rfl
      | @reference name means hend hopen hmeans =>
          rw [Piece.render, List.append_assoc] at h
          obtain ⟨c, text', hc, htext', rfl⟩ := decodeEntities_reference hend h
          rw [hrest htext', Piece.written, hmeans c hc]
          rfl

/-! ## Texts the scanner refuses -/

section

variable {scan final : Scan}

/-- Between elements no character is accepted but blanks. -/
theorem scanFrom_visible
    (hbetween : ∀ element ∈ scan.opened.head?, element ≠ "Key".toList ∧ ¬ Ignored element)
    {front : Text} {c : Char} {more : Text} (hfront : '<' ∉ front) (hopen : c ≠ '<')
    (hvisible : Text.isWhitespace c = false) : scanFrom (front ++ c :: more) scan ≠ .ok final := by
  have hrefused : ∀ {text : Text}, c ∈ text → requireBlank text ≠ .ok () := fun hc h =>
    Text.trim_ne_nil hc hvisible (requireBlank_eq_ok.mp h)
  intro h
  by_cases hmore : '<' ∈ more
  · obtain ⟨before, after, rfl, hbefore⟩ := List.eq_append_cons_of_mem hmore
    have hnone : '<' ∉ front ++ c :: before := fun hmem => by
      rcases List.mem_append.mp hmem with hmem | hmem
      · exact hfront hmem
      · exact (List.mem_cons.mp hmem).elim (fun heq => hopen heq.symm) hbefore
    rw [← List.cons_append, ← List.append_assoc, scanFrom_markup hnone,
      scanText_between hbetween] at h
    obtain ⟨scan', hscan, -⟩ := Except.bind_eq_ok.mp h
    obtain ⟨⟨⟩, hblank, -⟩ := Except.map_eq_ok.mp hscan
    exact hrefused (List.mem_append_right _ (List.mem_cons_self ..)) hblank
  · have hnone : '<' ∉ front ++ c :: more := fun hmem => by
      rcases List.mem_append.mp hmem with hmem | hmem
      · exact hfront hmem
      · exact (List.mem_cons.mp hmem).elim (fun heq => hopen heq.symm) hmore
    rw [scanFrom_text hnone] at h
    obtain ⟨⟨⟩, hblank, -⟩ := Except.map_eq_ok.mp h
    exact hrefused (List.mem_append_right _ (List.mem_cons_self ..)) hblank

end

/-! ## Start tags -/

/-- The name of an element is read as it stands. -/
def Visible (name : Text) : Prop := ∀ c ∈ name, Text.isWhitespace c = false

section

variable {tag : Tag} {scan scan' final : Scan} {rest : Text}

theorem splitOnce_stop {front x piece after : Text} {c : Char} (hfront : '>' ∉ front) (hc : c ≠ '>')
    (h : Text.splitOnce '>' (front ++ c :: x) = some (piece, after)) :
    ∃ more, piece = front ++ c :: more ∧ x = more ++ '>' :: after := by
  obtain ⟨heq, -⟩ := Text.splitOnce_eq_some.mp h
  rcases List.append_eq_append_iff.mp heq with ⟨mid, hpiece, hx⟩ | ⟨mid, hfrontEq, hafter⟩
  · cases mid with
    | nil => exact absurd (List.cons.inj hx).1 hc
    | cons y mid =>
        obtain ⟨rfl, hmid⟩ := List.cons.inj hx
        exact ⟨mid, hpiece, hmid⟩
  · cases mid with
    | nil => exact absurd (List.cons.inj hafter).1.symm hc
    | cons y mid =>
        obtain ⟨rfl, -⟩ := List.cons.inj hafter
        exact absurd (hfrontEq ▸ List.mem_append_right _ (List.mem_cons_self ..)) hfront

/-- What stands before the value of an attribute. -/
def beforeValue (name : Text) (a : Attribute) : Text := name ++ (a.before ++ (a.name ++ a.beforeEq))

theorem beforeValue_notMem {name : Text} {a : Attribute} (hname : IsName name) (ha : a.Valid) :
    '>' ∉ beforeValue name a := by
  simp only [beforeValue, List.mem_append, not_or]
  exact ⟨hname.notMem rfl, notMem_of_blank ha.before.2 rfl, ha.name.notMem rfl,
    notMem_of_blank ha.beforeEq rfl⟩

/-- An attribute is accepted on the root only. -/
theorem scanOpening_attribute {name : Text} {a : Attribute} (hname : PlainName name) (ha : a.Valid)
    {more : Text} (h : scanOpening (beforeValue name a ++ '=' :: more) scan = .ok scan') :
    scan.rootClosed = false ∧ scan.opened = [] ∧ name = "Delete".toList ∧
      scan' = if (beforeValue name a ++ '=' :: more).getLast? = some '/' then
          { scan with rootClosed := scan.opened.isEmpty }
        else { scan with opened := name :: scan.opened } := by
  obtain ⟨more₁, hslash⟩ := @Text.rdropWhile_stop (· == '/') '=' rfl (beforeValue name a) more
  obtain ⟨more₂, hblank⟩ := @Text.rdropWhile_stop Text.isWhitespace '=' (by decide)
    (beforeValue name a) more₁
  have hhead : (beforeValue name a ++ '=' :: more₁).dropWhile Text.isWhitespace =
      beforeValue name a ++ '=' :: more₁ := by
    obtain ⟨c, rest, rfl⟩ := List.exists_cons_of_ne_nil hname.isName.ne_nil
    have hc := hname.visible c (List.mem_cons_self ..)
    exact List.dropWhile_cons_of_neg (by rw [hc]; exact Bool.false_ne_true)
  have hbody : Text.trim (Text.trimEndMatches '/' (beforeValue name a ++ '=' :: more)) =
      name ++ (a.before ++ (a.name ++ a.beforeEq) ++ '=' :: more₂) := by
    rw [Text.trimEndMatches, hslash, Text.trim, hhead, hblank, beforeValue, List.append_assoc]
  obtain ⟨hne, hbefore⟩ := ha.before
  obtain ⟨c, before, hcons⟩ := List.exists_cons_of_ne_nil hne
  have htail : ∀ c' ∈ (a.before ++ (a.name ++ a.beforeEq) ++ '=' :: more₂).head?,
      Text.isWhitespace c' = true := by
    intro c' hc'
    rw [hcons] at hc'
    cases hc'
    exact isWhitespace_of_blank hbefore _ (by rw [hcons]; exact List.mem_cons_self ..)
  obtain ⟨hroot, hallowed, -, hscan⟩ := (scanOpening_eq_ok hbody hname.visible htail).mp h
  obtain ⟨hopened, hdelete⟩ := hallowed.resolve_left
    (@Text.trim_ne_nil _ '=' (List.mem_append_right _ (List.mem_cons_self ..)) (by decide))
  exact ⟨hroot, hopened, hdelete, hscan⟩

/-- A start tag does not end in the mark of an empty element. -/
theorem getLast?_tag (htag : tag.Valid) : tag.render.getLast? ≠ some '/' := by
  intro hlast
  rw [Tag.render, List.getLast?_append] at hlast
  cases hspace : tag.space.getLast? with
  | some c =>
      rw [hspace] at hlast
      cases hlast
      exact notMem_of_blank htag.space rfl (List.mem_of_getLast? hspace)
  | none =>
      rw [hspace, Option.none_or, List.getLast?_append] at hlast
      rcases List.eq_nil_or_concat tag.attributes with hnil | ⟨attributes, a, hattributes⟩
      · rw [hnil, List.flatMap_nil, List.getLast?_nil, Option.none_or] at hlast
        exact htag.name.notMem rfl (List.mem_of_getLast? hlast)
      · have hquote := (htag.attributes a (by rw [hattributes]; simp)).quote
        have hrender : (tag.attributes.flatMap Attribute.render).getLast? = some a.quote := by
          rw [hattributes, List.concat_eq_append, List.flatMap_append, List.flatMap_singleton,
            Attribute.render, ← List.cons_append, ← List.append_assoc, ← List.append_assoc,
            List.getLast?_concat]
        rw [hrender] at hlast
        rcases hquote with hquote | hquote
        all_goals
          rw [hquote] at hlast
          cases hlast

theorem render_attribute {a : Attribute} {attributes : List Attribute}
    (h : tag.attributes = a :: attributes) :
    ∃ x, tag.render = beforeValue tag.name a ++ '=' :: x := by
  refine ⟨a.afterEq ++ a.quote :: a.value ++ [a.quote] ++
    (attributes.flatMap Attribute.render ++ tag.space), ?_⟩
  simp [Tag.render, h, Attribute.render, beforeValue]

/-- The start tag that is read, up to the first `>`: all of it where no attribute holds one. -/
theorem scanAfter_start (hname : PlainName tag.name) {mark : Text}
    (h : scanAfter scanFrom (tag.render ++ (mark ++ '>' :: rest)) scan = .ok final) :
    ∃ piece after scan', Text.splitOnce '>' (tag.render ++ (mark ++ '>' :: rest)) =
    some (piece, after) ∧
      scanOpening piece scan = .ok scan' ∧ scanFrom after scan' = .ok final := by
  have hrender : tag.render ++ (mark ++ '>' :: rest) =
      tag.name ++ (tag.attributes.flatMap Attribute.render ++ tag.space ++
        (mark ++ '>' :: rest)) := by
    simp [Tag.render]
  obtain ⟨hslash, hpi, hbang⟩ := hname.head
    (tag.attributes.flatMap Attribute.render ++ tag.space ++ (mark ++ '>' :: rest))
  rw [← hrender] at hslash hpi hbang
  rw [scanAfter_tag hpi hbang] at h
  cases hsplit : Text.splitOnce '>' (tag.render ++ (mark ++ '>' :: rest)) with
  | none =>
      rw [hsplit] at h
      cases h
  | some parts =>
      obtain ⟨piece, after⟩ := parts
      rw [hsplit] at h
      obtain ⟨scan', hscan, hfinal⟩ := Except.bind_eq_ok.mp h
      refine ⟨piece, after, scan', rfl, ?_, hfinal⟩
      rwa [scanTag_opening] at hscan
      intro hhead
      obtain ⟨heq, -⟩ := Text.splitOnce_eq_some.mp hsplit
      rw [heq] at hslash
      cases piece with
      | nil => cases hhead
      | cons c piece => exact hslash hhead

/-- What a start tag leaves open: nothing where it ends in the mark of an empty element. -/
def entered (mark name : Text) (scan : Scan) : Scan :=
  if mark = [] then { scan with opened := name :: scan.opened }
  else { scan with rootClosed := scan.opened.isEmpty }

theorem scanOpening_plain {name space mark : Text} (hmark : mark = [] ∨ mark = ['/'])
    (hname : PlainName name) (hspace : space.all isBlank = true)
    (h : scanOpening (name ++ space ++ mark) scan = .ok scan') :
    scan.rootClosed = false ∧ expectedDepth name = some scan.opened.length ∧
      scan' = entered mark name scan := by
  obtain ⟨hbody, hlast, -⟩ := hname.tag hspace
  have hbody' : Text.trim (Text.trimEndMatches '/' (name ++ space ++ mark)) = name ++ [] := by
    rw [List.append_nil]
    rcases hmark with rfl | rfl
    · rw [List.append_nil, hbody]
    · rwa [Text.trimEndMatches, List.rdropWhile_concat_pos (· == '/') _ '/' rfl]
  obtain ⟨hroot, -, hdepth, hscan⟩ :=
    (scanOpening_eq_ok hbody' hname.visible fun c hc => by cases hc).mp h
  refine ⟨hroot, hdepth, hscan.trans ?_⟩
  rcases hmark with rfl | rfl
  · rw [List.append_nil, if_neg hlast]
    rfl
  · rw [List.getLast?_concat]
    rfl

/-- An accepted start tag is the document's, stands where it may, and has attributes
on the root only. -/
theorem scanAfter_accepted {mark : Text} (hmark : mark = [] ∨ mark = ['/']) (htag : tag.Valid)
    (hvisible : Visible tag.name)
    (h : scanAfter scanFrom (tag.render ++ (mark ++ '>' :: rest)) scan = .ok final) :
    scan.rootClosed = false ∧ expectedDepth tag.name = some scan.opened.length ∧
      scanFrom rest (entered mark tag.name scan) = .ok final := by
  have hname : PlainName tag.name := ⟨htag.name, hvisible⟩
  have hslash : '>' ∉ mark ∧ '<' ∉ mark := by
    rcases hmark with rfl | rfl
    · exact ⟨List.not_mem_nil, List.not_mem_nil⟩
    · exact ⟨by decide, by decide⟩
  obtain ⟨piece, after, scan', hsplit, hscan, hfinal⟩ := scanAfter_start hname h
  obtain ⟨hpieces, hpiece⟩ := Text.splitOnce_eq_some.mp hsplit
  -- Where the tag is read whole, `piece` is it.
  have hwhole : '>' ∉ tag.render → piece = tag.render ++ mark ∧ after = rest := by
    intro hnone
    rw [← List.append_assoc] at hpieces
    have hnone' : '>' ∉ tag.render ++ mark := fun hmem =>
      (List.mem_append.mp hmem).elim hnone hslash.1
    obtain ⟨hpiece', hafter⟩ := (Text.append_cons_inj_left hnone' hpiece).mp hpieces
    exact ⟨hpiece'.symm, hafter.symm⟩
  cases hattributes : tag.attributes with
  | nil =>
      have hrender : tag.render = tag.name ++ tag.space := by simp [Tag.render, hattributes]
      obtain ⟨rfl, rfl⟩ := hwhole (by rw [hrender]; exact (hname.tag htag.space).2.2)
      rw [hrender] at hscan
      obtain ⟨hroot, hdepth, rfl⟩ := scanOpening_plain hmark hname htag.space hscan
      exact ⟨hroot, hdepth, hfinal⟩
  | cons a attributes =>
      have ha := htag.attributes a (by rw [hattributes]; exact List.mem_cons_self ..)
      obtain ⟨x, hx⟩ := render_attribute hattributes
      have hsplit' := hsplit
      rw [hx, List.append_assoc, List.cons_append] at hsplit'
      obtain ⟨more, hmore, hx'⟩ :=
        splitOnce_stop (beforeValue_notMem htag.name ha) (by decide) hsplit'
      rw [hmore] at hscan
      obtain ⟨hroot, hopened, hdelete, hscan'⟩ := scanOpening_attribute hname ha hscan
      have hdepth :
        expectedDepth tag.name = some scan.opened.length := by rw [hdelete, hopened]; rfl
      refine ⟨hroot, hdepth, ?_⟩
      rw [← hmore] at hscan'
      by_cases hwithin : '>' ∈ tag.render
      · -- The tag is cut short, and what is left of it is refused as a text.
        exfalso
        obtain ⟨front, tail, hrender, hfront⟩ := List.eq_append_cons_of_mem hwithin
        rw [hrender, List.append_assoc, List.cons_append] at hpieces
        obtain ⟨rfl, rfl⟩ := (Text.append_cons_inj_left hfront hpiece).mp hpieces
        have htail : '<' ∉ tail ++ mark := fun hmem => by
          refine (List.mem_append.mp hmem).elim (fun hmem => htag.open_notMem ?_) hslash.2
          rw [hrender]
          exact List.mem_append_right _ (List.mem_cons_of_mem _ hmem)
        rw [← List.append_assoc] at hfinal
        refine scanFrom_visible ?_ htail (by decide) (by decide) hfinal
        rw [hscan', hopened, hdelete]
        split
        · intro element hhead
          cases hhead
        · intro element hhead
          cases hhead
          exact ⟨by decide, by unfold Ignored; decide⟩
      · obtain ⟨rfl, rfl⟩ := hwhole hwithin
        have hlast := getLast?_tag htag
        rcases hmark with rfl | rfl
        · rw [List.append_nil, if_neg hlast] at hscan'
          rw [hscan'] at hfinal
          exact hfinal
        · rw [List.getLast?_concat, if_pos rfl] at hscan'
          rw [hscan'] at hfinal
          exact hfinal

end

/-! ## What stands outside the root -/

theorem splitOnceStr_instruction {target more : Text} (htarget : IsName target)
    (hend : ¬ "?>".toList <:+: target ++ more) (rest : Text) :
    Text.splitOnceStr "?>".toList ('?' :: (target ++ more ++ '?' :: '>' :: rest)) =
      some ('?' :: (target ++ more), rest) := by
  have hnone : ¬ ['?', '>'] <:+: '?' :: (target ++ more) := by
    rw [List.infix_cons_iff, not_or]
    refine ⟨fun hpre => ?_, hend⟩
    obtain ⟨c, name, rfl⟩ := List.exists_cons_of_ne_nil htarget.ne_nil
    obtain ⟨rfl, -⟩ := List.cons_prefix_cons.mp (List.cons_prefix_cons.mp hpre).2
    exact htarget.notMem rfl (List.mem_cons_self ..)
  have hpair := Text.splitOnceStr_pair (show '?' ≠ '>' by decide) hnone rest
  rwa [List.cons_append] at hpair

/-- Of what may stand outside the root instructions alone are accepted, and nowhere else. -/
theorem scanFrom_misc {misc : Misc} (hmisc : misc.Valid) {text rest : Text} (htext : '<' ∉ text)
    {scan final : Scan} (h : scanFrom (text ++ (misc.render ++ rest)) scan = .ok final) :
    ∃ scan', scanText text scan = .ok scan' ∧ scan'.opened = [] ∧
    scanFrom rest scan' = .ok final := by
  have hbang : ∀ after, scanFrom (text ++ '<' :: '!' :: after) scan ≠ .ok final := by
    intro after h
    rw [scanFrom_bang htext] at h
    obtain ⟨_, -, h⟩ := Except.bind_eq_ok.mp h
    cases h
  cases hmisc with
  | @instruction target more htarget hend =>
      have hshape : (Misc.instruction (target ++ more)).render ++ rest =
          '<' :: '?' :: (target ++ more ++ '?' :: '>' :: rest) := by simp [Misc.render]
      rw [hshape, scanFrom_instruction htext (splitOnceStr_instruction htarget hend rest)] at h
      obtain ⟨scan', hscan', h⟩ := Except.bind_eq_ok.mp h
      split at h
      · cases h
      · next hopened => exact ⟨scan', hscan', not_not.mp hopened, h⟩
  | comment hdash => exact absurd h (hbang _)
  | doctype body => exact absurd h (hbang _)

/-- The texts the scanner keeps of elements: none of one that is written `<Key/>`. -/
inductive KeysRead : List (Option Content) → List Text → Prop where
  | nil : KeysRead [] []
  | skip {elements : List (Option Content)} {keys : List Text} (h : KeysRead elements keys) :
      KeysRead (none :: elements) keys
  | take {pieces : List Piece} {elements : List (Option Content)} {keys : List Text}
      (h : KeysRead elements keys) :
        KeysRead (some (.last pieces) :: elements) (written pieces :: keys)

theorem KeysRead.append {elements elements' : List (Option Content)} {keys keys' : List Text}
    (h : KeysRead elements keys) (h' : KeysRead elements' keys') :
    KeysRead (elements ++ elements') (keys ++ keys') := by
  induction h with
  | nil => exact h'
  | skip _ ih => exact .skip ih
  | take _ ih => exact .take ih

theorem expectedDepth_le {name : Text} {depth : Nat} (h : expectedDepth name = some depth) :
    depth ≤ 2 := by
  unfold expectedDepth at h
  split at h
  · cases h
    decide
  · split at h
    · cases h
      decide
    · split at h
      · cases h
        decide
      · cases h

/-- What the innermost open element is, and where it stands. -/
structure Within (name : Text) (outer : List Text) : Prop where
  plain : PlainName name
  depth : expectedDepth name = some outer.length

section

variable {name text rest : Text} {outer keys : List Text} {final : Scan}

theorem between_of_ne (hkey : name ≠ "Key".toList) (hignored : ¬ Ignored name) :
    ∀ element ∈ (name :: outer).head?, element ≠ "Key".toList ∧ ¬ Ignored element := by
  intro element hhead
  cases hhead
  exact ⟨hkey, hignored⟩

/-- Text is kept in a `Key`, and changes nothing elsewhere. -/
theorem scanText_within {pieces : List Piece} (hpieces : ∀ piece ∈ pieces, piece.Valid)
    {scan' : Scan} (h : scanText (renderPieces pieces) ⟨name :: outer, keys, false⟩ = .ok scan') :
    scan' = ⟨name :: outer, if name = "Key".toList then keys ++ [written pieces] else keys,
      false⟩ := by
  by_cases hkey : name = "Key".toList
  · rw [scanText_key (congrArg (· :: outer) hkey)] at h
    obtain ⟨key, hdecoded, rfl⟩ := Except.map_eq_ok.mp h
    rw [if_pos hkey, decodeEntities_pieces hpieces hdecoded]
  · rw [if_neg hkey]
    by_cases hignored : Ignored name
    · rw [scanText_ignored rfl hignored] at h
      exact (Except.ok.inj h).symm
    · rw [scanText_between (between_of_ne hkey hignored)] at h
      obtain ⟨_, -, rfl⟩ := Except.map_eq_ok.mp h
      rfl

/-- The end of an element. -/
theorem scanFrom_last (hwithin : Within name outer) {pieces : List Piece}
    (hpieces : ∀ piece ∈ pieces, piece.Valid) {closing : Text}
    (hclosing : closing.all isBlank = true)
    (h : scanFrom (renderPieces pieces ++ '<' :: '/' :: (name ++ closing ++ '>' :: rest))
      ⟨name :: outer, keys, false⟩ = .ok final) :
    scanFrom rest ⟨outer, if name = "Key".toList then keys ++ [written pieces] else keys,
      outer.isEmpty⟩ = .ok final := by
  have hnone : '>' ∉ '/' :: (name ++ closing) := fun hmem => by
    refine (List.mem_cons.mp hmem).elim (by decide) fun hmem => ?_
    exact (List.mem_append.mp hmem).elim (hwithin.plain.isName.notMem rfl)
      (notMem_of_blank hclosing rfl)
  rw [← List.cons_append, scanFrom_tag (open_notMem_renderPieces hpieces) hnone (by simp)
    (by simp)] at h
  obtain ⟨scan', hscan', h⟩ := Except.bind_eq_ok.mp h
  obtain rfl := scanText_within hpieces hscan'
  obtain ⟨scan'', hscan'', h⟩ := Except.bind_eq_ok.mp h
  rw [scanTag_closing, scanClosing_eq_ok] at hscan''
  obtain ⟨opened, hopened, rfl⟩ := hscan''
  obtain ⟨-, rfl⟩ := List.cons.inj hopened
  exact h

/-- Markup is accepted in no `Key`. -/
theorem scanFrom_inner (hwithin : Within name outer) {mark : Text}
    (hmark : mark = [] ∨ mark = ['/'])
    {tag : Tag} (htag : tag.Valid) (hvisible : Visible tag.name) {pieces : List Piece}
    (hpieces : ∀ piece ∈ pieces, piece.Valid)
    (h : scanFrom (renderPieces pieces ++ '<' :: (tag.render ++ (mark ++ '>' :: rest)))
      ⟨name :: outer, keys, false⟩ = .ok final) :
    name ≠ "Key".toList ∧ Within tag.name (name :: outer) ∧
      scanFrom rest (entered mark tag.name ⟨name :: outer, keys, false⟩) = .ok final := by
  rw [scanFrom_markup (open_notMem_renderPieces hpieces)] at h
  obtain ⟨scan', hscan', h⟩ := Except.bind_eq_ok.mp h
  obtain rfl := scanText_within hpieces hscan'
  obtain ⟨-, hdepth, h⟩ := scanAfter_accepted hmark htag hvisible h
  have hkey : name ≠ "Key".toList := by
    rintro rfl
    have houter : 2 = outer.length := Option.some.inj hwithin.depth
    have hle := expectedDepth_le hdepth
    rw [List.length_cons] at hle
    omega
  rw [if_neg hkey] at h
  exact ⟨hkey, ⟨⟨htag.name, hvisible⟩, hdepth⟩, h⟩

end

mutual

/-- Markup inside an element: what its `Key` elements hold is kept. -/
theorem scanFrom_within : ∀ (markup : Markup) {name rest : Text} {outer keys : List Text}
    {final : Scan}
    {pieces : List Piece}, markup.Valid → (∀ name ∈ markup.names, Visible name) →
    Within name outer →
    (∀ piece ∈ pieces, piece.Valid) →
    scanFrom (renderPieces pieces ++ (markup.render ++ rest)) ⟨name :: outer, keys, false⟩ =
    .ok final →
    name ≠ "Key".toList ∧ ∃ read, KeysRead (markup.named "Key".toList) read ∧
      scanFrom rest ⟨name :: outer, keys ++ read, false⟩ = .ok final
  | .element tag content closing, name, rest, outer, keys, final, pieces, hvalid, hvisible, hwithin,
      hpieces, h => by
      cases hvalid with
      | element htag hcontent hclosing =>
          have hshape : Markup.render (.element tag content closing) ++ rest =
              '<' :: (tag.render ++ ([] ++ '>' :: (content.render ++
                '<' :: '/' :: (tag.name ++ closing ++ '>' :: rest)))) := by
            simp [Markup.render]
          rw [hshape] at h
          have htagName := hvisible tag.name (by rw [Markup.names]; exact List.mem_cons_self ..)
          obtain ⟨hkey, hinner, h⟩ := scanFrom_inner hwithin (.inl rfl) htag htagName hpieces h
          obtain ⟨read, hread, h⟩ := scanFrom_content content hcontent
            (fun name hname =>
              hvisible name (by rw [Markup.names]; exact List.mem_cons_of_mem _ hname))
            hinner hclosing h
          exact ⟨hkey, read, by rwa [Markup.named], h⟩
  | .empty tag, name, rest, outer, keys, final, pieces, hvalid, hvisible, hwithin, hpieces, h => by
      cases hvalid with
      | empty htag =>
          have hshape : Markup.render (.empty tag) ++ rest =
              '<' :: (tag.render ++ (['/'] ++ '>' :: rest)) := by simp [Markup.render]
          rw [hshape] at h
          have htagName := hvisible tag.name (by rw [Markup.names]; exact List.mem_cons_self ..)
          obtain ⟨hkey, -, h⟩ := scanFrom_inner hwithin (.inr rfl) htag htagName hpieces h
          refine ⟨hkey, [], ?_, by rw [List.append_nil]; exact h⟩
          rw [Markup.named]
          split
          · exact .skip .nil
          · exact .nil
  | .misc misc, name, rest, outer, keys, final, pieces, hvalid, hvisible, hwithin, hpieces, h => by
      cases hvalid with
      | misc hmisc hdoctype =>
          rw [Markup.render] at h
          obtain ⟨scan', hscan', hopened, -⟩ :=
            scanFrom_misc hmisc (open_notMem_renderPieces hpieces) h
          rw [scanText_within hpieces hscan'] at hopened
          cases hopened
  | .cdata body, name, rest, outer, keys, final, pieces, hvalid, hvisible, hwithin, hpieces, h => by
      have hshape : Markup.render (.cdata body) ++ rest =
          '<' :: '!' :: ("[CDATA[".toList ++ body ++ ("]]>".toList ++ rest)) := by
            simp [Markup.render]
      rw [hshape, scanFrom_bang (open_notMem_renderPieces hpieces)] at h
      obtain ⟨_, -, h⟩ := Except.bind_eq_ok.mp h
      cases h

theorem scanFrom_content : ∀ (content : Content) {name rest closing : Text} {outer keys : List Text}
    {final : Scan}, content.Valid → (∀ name ∈ content.names, Visible name) → Within name outer →
    closing.all isBlank = true →
    scanFrom (content.render ++ '<' :: '/' :: (name ++ closing ++ '>' :: rest))
      ⟨name :: outer, keys, false⟩ = .ok final →
    ∃ read, KeysRead (if name = "Key".toList then some content :: content.named "Key".toList
        else content.named "Key".toList) read ∧
      scanFrom rest ⟨outer, keys ++ read, outer.isEmpty⟩ = .ok final
  | .last pieces, name, rest, closing, outer, keys, final, hvalid, hvisible, hwithin,
      hclosing, h => by
      cases hvalid with
      | last hpieces =>
          rw [Content.render] at h
          have h := scanFrom_last hwithin hpieces hclosing h
          rw [Content.named]
          by_cases hkey : name = "Key".toList
          · rw [if_pos hkey] at h ⊢
            exact ⟨[written pieces], .take .nil, h⟩
          · rw [if_neg hkey] at h ⊢
            exact ⟨[], .nil, by rwa [List.append_nil]⟩
  | .cons pieces markup content, name, rest, closing, outer, keys, final, hvalid, hvisible, hwithin,
      hclosing, h => by
      cases hvalid with
      | cons hpieces hmarkup hcontent =>
          rw [Content.render, List.append_assoc, List.append_assoc] at h
          obtain ⟨hkey, read, hread, h⟩ := scanFrom_within markup hmarkup
            (fun name hname =>
              hvisible name (by rw [Content.names]; exact List.mem_append_left _ hname))
            hwithin hpieces h
          obtain ⟨read', hread', h⟩ := scanFrom_content content hcontent
            (fun name hname =>
              hvisible name (by rw [Content.names]; exact List.mem_append_right _ hname))
            hwithin hclosing h
          rw [if_neg hkey] at hread'
          refine ⟨read ++ read', ?_, by rwa [← List.append_assoc]⟩
          rw [if_neg hkey, Content.named]
          exact hread.append hread'

end

/-! ## Documents -/

/-- An element without attributes. -/
def around (name : Text) (content : Content) : Markup := .element ⟨name, [], []⟩ content []

def keyOf (c : Char) : Markup := around "Key".toList (.last [.char c])

/-- A quiet deletion of a version of `a&b`, and of `c`, over several lines. -/
def twoKeys : DeleteObjects where
  declared := false
  namespaced := false
  lead := []
  items :=
    [(['\n'], .quiet "true".toList),
      (['\n'], .object ⟨[([], "v1".toList)], [' '], "a&b".toList, [], []⟩),
      ([], .object ⟨[], [], "c".toList, [], []⟩)]
  last := ['\n']
  trail := []

end Rustberg.V1

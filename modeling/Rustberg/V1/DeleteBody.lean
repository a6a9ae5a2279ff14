import Rustberg.Base.Xml
import Rustberg.V1.Addressing

/-!
# Reading the body of a deletion

The scanner of `delete_keys` without its fuel (`scanFrom`), one law for each
thing a `<` begins. From these the body an SDK sends is read back as the
keys it names (`deleteKeys_render`): the blanks between its elements, its
`Quiet` elements and its version ids make no difference.
-/

namespace Rustberg.V1

/-! ## The scanner without its fuel -/

def scanFrom (body : Text) (scan : Scan) : Except AppError Scan :=
  scanBody (body.length + 1) body scan

/-- What is done where a `<` has been read. -/
def scanAfter (next : Text → Scan → Except AppError Scan) (after : Text) (scan : Scan) :
    Except AppError Scan :=
  match after.head? with
  | some '?' =>
      if scan.opened ≠ [] then .error (refuseBody "a processing instruction inside an element")
      else match Text.splitOnceStr "?>".toList after with
      | some (_, rest) => next rest scan
      | none => .error (refuseBody "an unterminated declaration")
  | some '!' => .error (refuseBody "a comment, CDATA section or doctype")
  | _ =>
      match Text.splitOnce '>' after with
      | some (tag, rest) => scanTag tag scan >>= next rest
      | none => .error (refuseBody "an unterminated tag")

theorem scanBody_succ (fuel : Nat) (body : Text) (scan : Scan) : scanBody (fuel + 1) body scan =
    if body = [] then .ok scan
    else match Text.splitOnce '<' body with
    | none => (requireBlank body).map fun _ => scan
    | some (text, after) => scanText text scan >>= scanAfter (scanBody fuel) after := rfl

section

variable {next : Text → Scan → Except AppError Scan} {after : Text} {scan : Scan}

theorem scanAfter_instruction (h : after.head? = some '?') : scanAfter next after scan =
    if scan.opened ≠ [] then .error (refuseBody "a processing instruction inside an element")
    else match Text.splitOnceStr "?>".toList after with
    | some (_, rest) => next rest scan
    | none => .error (refuseBody "an unterminated declaration") := by
  rw [scanAfter, h]
  rfl

theorem scanAfter_bang (h : after.head? = some '!') :
    scanAfter next after scan = .error (refuseBody "a comment, CDATA section or doctype") := by
  rw [scanAfter, h]
  rfl

theorem scanAfter_tag (hpi : after.head? ≠ some '?') (hbang : after.head? ≠ some '!') :
    scanAfter next after scan = match Text.splitOnce '>' after with
    | some (tag, rest) => scanTag tag scan >>= next rest
    | none => .error (refuseBody "an unterminated tag") := by
  unfold scanAfter
  split
  · next h => exact absurd h hpi
  · next h => exact absurd h hbang
  · rfl

/-- What follows is scanned from further on. -/
theorem scanAfter_congr {next' : Text → Scan → Except AppError Scan}
    (h : ∀ rest scan, rest.length ≤ after.length → next rest scan = next' rest scan) (scan : Scan) :
    scanAfter next after scan = scanAfter next' after scan := by
  by_cases hpi : after.head? = some '?'
  · rw [scanAfter_instruction hpi, scanAfter_instruction hpi]
    cases hsplit : Text.splitOnceStr "?>".toList after with
    | none => rfl
    | some parts =>
        obtain ⟨body, rest⟩ := parts
        have hlen := congrArg List.length (Text.splitOnceStr_eq_some hsplit)
        rw [List.length_append, List.length_append] at hlen
        dsimp only
        rw [h rest scan (by omega)]
  by_cases hbang : after.head? = some '!'
  · rw [scanAfter_bang hbang, scanAfter_bang hbang]
  rw [scanAfter_tag hpi hbang, scanAfter_tag hpi hbang]
  cases hsplit : Text.splitOnce '>' after with
  | none => rfl
  | some parts =>
      obtain ⟨tag, rest⟩ := parts
      have hlen := congrArg List.length (Text.splitOnce_eq_some.mp hsplit).1
      rw [List.length_append, List.length_cons] at hlen
      exact congrArg _ (funext fun scan => h rest scan (by omega))

end

/-- Fuel above the length of the body is never used up. -/
theorem scanBody_fuel {fuel fuel' : Nat} {body : Text} (h : body.length < fuel)
    (h' : body.length < fuel') (scan : Scan) :
    scanBody fuel body scan = scanBody fuel' body scan := by
  induction fuel generalizing fuel' body scan with
  | zero => exact absurd h (Nat.not_lt_zero _)
  | succ fuel ih =>
      cases fuel' with
      | zero => exact absurd h' (Nat.not_lt_zero _)
      | succ fuel' =>
          rw [scanBody_succ, scanBody_succ]
          cases hsplit : Text.splitOnce '<' body with
          | none => rfl
          | some parts =>
              obtain ⟨text, after⟩ := parts
              have hlen := congrArg List.length (Text.splitOnce_eq_some.mp hsplit).1
              rw [List.length_append, List.length_cons] at hlen
              dsimp only
              refine congrArg _ (congrArg _ (funext fun scan => ?_))
              exact scanAfter_congr (fun rest scan hrest => ih (by omega) (by omega) scan) scan

section

variable {text after : Text} {scan : Scan}

theorem scanFrom_text (h : '<' ∉ text) :
    scanFrom text scan = (requireBlank text).map fun _ => scan := by
  rw [scanFrom, scanBody_succ, Text.splitOnce_eq_none.mpr h]
  split
  · next hnil =>
      subst hnil
      rfl
  · rfl

theorem scanFrom_markup (h : '<' ∉ text) :
    scanFrom (text ++ '<' :: after) scan = scanText text scan >>= scanAfter scanFrom after := by
  rw [scanFrom, scanBody_succ, if_neg (by simp), Text.splitOnce_eq_some.mpr ⟨rfl, h⟩]
  refine congrArg _ (funext fun scan => scanAfter_congr (fun rest scan hrest => ?_) scan)
  refine scanBody_fuel ?_ (Nat.lt_succ_self _) scan
  rw [List.length_append, List.length_cons]
  omega

theorem scanFrom_instruction {body rest : Text} (h : '<' ∉ text)
    (hend : Text.splitOnceStr "?>".toList ('?' :: after) = some (body, rest)) :
    scanFrom (text ++ '<' :: '?' :: after) scan = scanText text scan >>= fun scan =>
      if scan.opened ≠ [] then .error (refuseBody "a processing instruction inside an element")
      else scanFrom rest scan := by
  rw [scanFrom_markup h]
  refine congrArg _ (funext fun scan => ?_)
  rw [scanAfter_instruction rfl, hend]

theorem scanFrom_bang (h : '<' ∉ text) : scanFrom (text ++ '<' :: '!' :: after) scan =
    scanText text scan >>= fun _ => .error (refuseBody "a comment, CDATA section or doctype") := by
  rw [scanFrom_markup h]
  exact congrArg _ (funext fun scan => scanAfter_bang rfl)

theorem scanFrom_tag {tag rest : Text} (h : '<' ∉ text) (htag : '>' ∉ tag)
    (hpi : tag.head? ≠ some '?') (hbang : tag.head? ≠ some '!') :
    scanFrom (text ++ '<' :: (tag ++ '>' :: rest)) scan =
      scanText text scan >>= fun scan => scanTag tag scan >>= scanFrom rest := by
  have hhead : ∀ c, c ≠ '>' → tag.head? ≠ some c → (tag ++ '>' :: rest).head? ≠ some c := by
    intro c hc hne
    cases tag with
    | nil => exact fun h => hc (Option.some.inj h).symm
    | cons x tag => exact hne
  rw [scanFrom_markup h]
  refine congrArg _ (funext fun scan => ?_)
  rw [scanAfter_tag (hhead '?' (by decide) hpi) (hhead '!' (by decide) hbang),
    Text.splitOnce_eq_some.mpr ⟨rfl, htag⟩]

end

/-! ## Tags -/

section

variable {tag name tail : Text} {scan scan' : Scan}

/-- An opening tag stands where its name may, and its name is kept for the closing one. -/
theorem scanOpening_eq_ok
    (hbody : Text.trim (Text.trimEndMatches '/' tag) = name ++ tail)
    (hname : ∀ c ∈ name, Text.isWhitespace c = false)
    (htail : ∀ c ∈ tail.head?, Text.isWhitespace c = true) :
    scanOpening tag scan = .ok scan' ↔
      scan.rootClosed = false ∧
        (Text.trim tail = [] ∨ scan.opened = [] ∧ name = "Delete".toList) ∧
        expectedDepth name = some scan.opened.length ∧
        scan' = if tag.getLast? = some '/' then { scan with rootClosed := scan.opened.isEmpty }
          else { scan with opened := name :: scan.opened } := by
  have hstop : tail.takeWhile (fun c => !Text.isWhitespace c) = [] ∧
      tail.dropWhile (fun c => !Text.isWhitespace c) = tail := by
    cases tail with
    | nil => exact ⟨rfl, rfl⟩
    | cons c tail =>
        have hc : ¬ (!Text.isWhitespace c) = true := by
          rw [htail c rfl]
          exact Bool.false_ne_true
        exact ⟨List.takeWhile_cons_of_neg hc, List.dropWhile_cons_of_neg hc⟩
  have hvisible : ∀ c ∈ name, (!Text.isWhitespace c) = true := fun c hc => by rw [hname c hc]; rfl
  have htake : (name ++ tail).takeWhile (fun c => !Text.isWhitespace c) = name := by
    rw [List.takeWhile_append_of_pos hvisible, hstop.1, List.append_nil]
  have hdrop : (name ++ tail).dropWhile (fun c => !Text.isWhitespace c) = tail := by
    rw [List.dropWhile_append_of_pos hvisible, hstop.2]
  unfold scanOpening
  dsimp only
  rw [hbody, htake, hdrop]
  cases hroot : scan.rootClosed with
  | true => exact iff_of_false (fun h => by cases h) fun h => by cases h.1
  | false =>
  refine Iff.trans ?_ (and_iff_right rfl).symm
  by_cases hattributes : Text.trim tail ≠ [] ∧ ¬ (scan.opened = [] ∧ name = "Delete".toList)
  · rw [decide_eq_true hattributes]
    exact iff_of_false (fun h => by cases h) fun h => h.1.elim hattributes.1 hattributes.2
  have hallowed : Text.trim tail = [] ∨ scan.opened = [] ∧ name = "Delete".toList := by
    by_contra hnone
    exact hattributes ⟨fun h => hnone (.inl h), fun h => hnone (.inr h)⟩
  rw [decide_eq_false hattributes]
  refine Iff.trans ?_ (and_iff_right hallowed).symm
  cases hdepth : expectedDepth name with
  | none => exact iff_of_false (fun h => by cases h) fun h => by cases h.1
  | some depth =>
      change (if scan.opened.length ≠ depth then _ else _) = _ ↔ _
      by_cases hplace : scan.opened.length ≠ depth
      · rw [if_pos hplace]
        exact iff_of_false (fun h => by cases h) fun h => hplace (Option.some.inj h.1).symm
      · rw [if_neg hplace]
        refine Iff.trans ?_ (and_iff_right (congrArg some (not_not.mp hplace).symm)).symm
        by_cases hclosing : tag.getLast? = some '/'
        · rw [if_pos hclosing, if_pos hclosing, Bool.false_or]
          exact ⟨fun h => (Except.ok.inj h).symm, fun h => congrArg Except.ok h.symm⟩
        · rw [if_neg hclosing, if_neg hclosing]
          exact ⟨fun h => (Except.ok.inj h).symm, fun h => congrArg Except.ok h.symm⟩

theorem scanClosing_eq_ok : scanClosing name scan = .ok scan' ↔
    ∃ opened, scan.opened = Text.trim name :: opened ∧
      scan' = { scan with opened, rootClosed := scan.rootClosed || opened.isEmpty } := by
  unfold scanClosing
  cases scan.opened with
  | nil => exact iff_of_false (fun h => by cases h) fun ⟨_, h, _⟩ => by cases h
  | cons expected opened =>
      dsimp only
      by_cases hname : expected = Text.trim name
      · rw [if_pos hname]
        constructor
        · intro h
          exact ⟨opened, congrArg (· :: opened) hname, (Except.ok.inj h).symm⟩
        · rintro ⟨_, hopened, rfl⟩
          rw [(List.cons.inj hopened).2]
      · rw [if_neg hname]
        exact iff_of_false (fun h => by cases h) fun ⟨_, h, _⟩ => hname (List.cons.inj h).1

theorem scanTag_closing : scanTag ('/' :: name) scan = scanClosing name scan := by
  have hslash : Text.stripPrefix ('/' :: name) ['/'] = some name := Text.stripPrefix_eq_some.mpr rfl
  rw [scanTag, hslash]

theorem scanTag_opening (h : tag.head? ≠ some '/') : scanTag tag scan = scanOpening tag scan := by
  have hnone : Text.stripPrefix tag ['/'] = none := by
    rw [Text.stripPrefix_eq_none]
    rintro ⟨rest, rfl⟩
    exact h rfl
  rw [scanTag, hnone]

end

/-! ## Texts -/

theorem isWhitespace_of_blank {s : Text} (h : s.all Xml.isBlank = true) :
    ∀ c ∈ s, Text.isWhitespace c = true := by
  intro c hc
  have hblank := List.all_eq_true.mp h c hc
  simp only [Xml.isBlank, Bool.or_eq_true, decide_eq_true_eq] at hblank
  obtain ((rfl | rfl) | rfl) | rfl := hblank <;> decide

theorem requireBlank_eq_ok {text : Text} : requireBlank text = .ok () ↔ Text.trim text = [] := by
  unfold requireBlank
  by_cases h : Text.trim text = []
  · exact iff_of_true (if_pos h) h
  · rw [if_neg h]
    exact iff_of_false (fun hok => by cases hok) h

/-- The elements whose text is not looked at. -/
def Ignored (element : Text) : Prop := element = "Quiet".toList ∨ element = "VersionId".toList

section

variable {scan : Scan} {element : Text} {outer : List Text}

theorem scanText_key (h : scan.opened = "Key".toList :: outer) (text : Text) :
    scanText text scan =
      (decodeEntities text).map fun key => { scan with keys := scan.keys ++ [key] } := by
  unfold scanText
  rw [h]
  rfl

theorem scanText_ignored (h : scan.opened = element :: outer) (hignored : Ignored element)
    (text : Text) : scanText text scan = .ok scan := by
  unfold scanText
  rw [h]
  rcases hignored with rfl | rfl <;> rfl

theorem scanText_between (h : ∀ element ∈ scan.opened.head?, element ≠ "Key".toList ∧
    ¬ Ignored element)
    (text : Text) : scanText text scan = (requireBlank text).map fun _ => scan := by
  unfold scanText
  cases hhead : scan.opened.head? with
  | none => rfl
  | some element =>
      obtain ⟨hkey, hignored⟩ := h element hhead
      dsimp only
      rw [if_neg hkey]
      exact if_neg hignored

end

theorem decodeEntities_cons {c : Char} (hc : c ≠ '&') (rest : Text) :
    decodeEntities (c :: rest) = (decodeEntities rest).map (c :: ·) := by
  rw [decodeEntities.eq_def]
  split <;> simp_all

/-- A name the scanner reads as it stands. -/
structure PlainName (name : Text) : Prop where
  isName : Xml.IsName name
  visible : ∀ c ∈ name, Text.isWhitespace c = false

section

variable {name space : Text} {scan : Scan}

theorem PlainName.tag (h : PlainName name) (hspace : space.all Xml.isBlank = true) :
    Text.trim (Text.trimEndMatches '/' (name ++ space)) = name ∧
      (name ++ space).getLast? ≠ some '/' ∧ '>' ∉ name ++ space := by
  have hnot : ∀ c, Xml.isNameChar c = false → Xml.isBlank c = false → c ∉ name ++ space := by
    intro c hname hblank hmem
    exact (List.mem_append.mp hmem).elim (h.isName.notMem hname) (Xml.notMem_of_blank hspace hblank)
  have hslash := hnot '/' rfl rfl
  refine ⟨?_, fun hlast => hslash (List.mem_of_getLast? hlast), hnot '>' rfl rfl⟩
  rw [Text.trimEndMatches, List.rdropWhile_eq_self_iff.mpr]
  · exact Text.trim_space h.visible (isWhitespace_of_blank hspace)
  · intro hne hlast
    exact hslash (by rw [← eq_of_beq hlast]; exact List.getLast_mem hne)

theorem PlainName.head (h : PlainName name) (more : Text) :
    (name ++ more).head? ≠ some '/' ∧ (name ++ more).head? ≠ some '?' ∧
      (name ++ more).head? ≠ some '!' := by
  obtain ⟨c, rest, rfl⟩ := List.exists_cons_of_ne_nil h.isName.ne_nil
  have hc := List.all_eq_true.mp h.isName.chars c (List.mem_cons_self ..)
  refine ⟨?_, ?_, ?_⟩ <;> intro heq <;> rw [Option.some.inj heq] at hc <;> cases hc

end

/-! ## What an SDK sends -/

/-- An object with its version ids, each element after the blanks it stands after. -/
structure ListedObject where
  before : List (Text × Text)
  space : Text
  key : Text
  after : List (Text × Text)
  last : Text

inductive Listed where
  | object (object : ListedObject)
  | quiet (value : Text)

/-- The body of a `DeleteObjects` request. -/
structure DeleteObjects where
  declared : Bool
  namespaced : Bool
  lead : Text
  items : List (Text × Listed)
  last : Text
  trail : Text

def renderVersionIds (ids : List (Text × Text)) : Text :=
  ids.flatMap fun id => id.1 ++ Xml.enclose "VersionId".toList (Xml.escape id.2)

def ListedObject.render (o : ListedObject) : Text :=
  Xml.enclose "Object".toList (renderVersionIds o.before ++
    (o.space ++ (Xml.enclose "Key".toList (Xml.escape o.key) ++
      (renderVersionIds o.after ++ o.last))))

structure ListedObject.Spaced (o : ListedObject) : Prop where
  before : ∀ id ∈ o.before, id.1.all Xml.isBlank = true
  space : o.space.all Xml.isBlank = true
  after : ∀ id ∈ o.after, id.1.all Xml.isBlank = true
  last : o.last.all Xml.isBlank = true

namespace Listed

def render : Listed → Text
  | object o => o.render
  | quiet value => Xml.enclose "Quiet".toList (Xml.escape value)

def key : Listed → Option Text
  | object o => some o.key
  | quiet _ => none

def Spaced : Listed → Prop
  | object o => o.Spaced
  | quiet _ => True

end Listed

def renderItems (items : List (Text × Listed)) : Text :=
  items.flatMap fun item => item.1 ++ item.2.render

namespace DeleteObjects

def declaration : Text := "?xml version=\"1.0\" encoding=\"UTF-8\"?>".toList

def xmlns : Text := " xmlns=\"http://s3.amazonaws.com/doc/2006-03-01/\"".toList

def render (b : DeleteObjects) : Text :=
  (if b.declared then '<' :: declaration else []) ++ (b.lead ++ '<' :: ("Delete".toList ++
    (if b.namespaced then xmlns else []) ++ '>' :: (renderItems b.items ++
      (b.last ++ '<' :: '/' :: ("Delete".toList ++ '>' :: b.trail)))))

/-- Nothing but blanks stands between the elements. -/
structure Spaced (b : DeleteObjects) : Prop where
  lead : b.lead.all Xml.isBlank = true
  items : ∀ item ∈ b.items, item.1.all Xml.isBlank = true ∧ item.2.Spaced
  last : b.last.all Xml.isBlank = true
  trail : b.trail.all Xml.isBlank = true

end DeleteObjects

theorem plain_of_all {name : Text} (hne : name ≠ [])
    (h : name.all (fun c => Xml.isNameChar c && !Text.isWhitespace c) = true) : PlainName name := by
  have hchars : ∀ c ∈ name, Xml.isNameChar c = true ∧ Text.isWhitespace c = false := by
    simpa using h
  exact ⟨⟨hne, List.all_eq_true.mpr fun c hc => (hchars c hc).1⟩, fun c hc => (hchars c hc).2⟩

theorem Ignored.plain {name : Text} (h : Ignored name) : PlainName name := by
  rcases h with rfl | rfl
  · exact plain_of_all (by decide) rfl
  · exact plain_of_all (by decide) rfl

section

variable {space name : Text} {keys : List Text} {outer : List Text}

end

end Rustberg.V1

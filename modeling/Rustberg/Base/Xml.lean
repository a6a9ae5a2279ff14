import Rustberg.Base.Text

/-!
# XML documents

A document as the grammar of XML 1.0 derives it. It keeps the white space and
the quotes it is written with, so that `render` is its text, and says what a
reader makes of it: the elements of a name (`named`), in the order of
their start tags, and the text of one (`Content.value`), in which a line ends in
a line feed however it is written.

A name is any text without white space and delimiters, which covers the names
of every edition of the grammar.
-/

namespace Xml

/-! ## Characters and names -/

/-- `S` -/
def isBlank (c : Char) : Bool := c = ' ' || c = '\t' || c = '\r' || c = '\n'

def delimiters : List Char := "<>/=&\"'!?;#".toList

def isNameChar (c : Char) : Bool := !isBlank c && !delimiters.contains c

structure IsName (name : Text) : Prop where
  ne_nil : name ≠ []
  chars : name.all isNameChar = true

/-- The entities that every document has. -/
def predefined (name : Text) : Option Char :=
  if name = "amp".toList then some '&'
  else if name = "lt".toList then some '<'
  else if name = "gt".toList then some '>'
  else if name = "quot".toList then some '"'
  else if name = "apos".toList then some '\''
  else none

/-- A character as it stands, or a reference and what it means. -/
inductive Piece where
  | char (c : Char)
  | reference (name means : Text)

namespace Piece

def render : Piece → Text
  | char c => [c]
  | reference name _ => '&' :: name ++ [';']

inductive Valid : Piece → Prop where
  | char {c : Char} (hopen : c ≠ '<') (hamp : c ≠ '&') : Valid (.char c)
  | reference {name means : Text} (hend : ';' ∉ name) (hopen : '<' ∉ name)
      (hmeans : ∀ c, predefined name = some c → means = [c]) : Valid (.reference name means)

/-- What stands there, before the ends of lines are read. -/
def written : Piece → Text
  | char c => [c]
  | reference _ means => means

end Piece

def renderPieces (pieces : List Piece) : Text := pieces.flatMap Piece.render

def written (pieces : List Piece) : Text := pieces.flatMap Piece.written

/-- What a reader makes of character data. -/
def value : List Piece → Text
  | [] => []
  | .char c :: rest =>
      if c = '\r' then
        match rest with
        | .char '\n' :: rest => '\n' :: value rest
        | rest => '\n' :: value rest
      else c :: value rest
  | .reference _ means :: rest => means ++ value rest

/-! ## Markup -/

structure Attribute where
  before : Text
  name : Text
  beforeEq : Text
  afterEq : Text
  quote : Char
  value : Text

def Attribute.render (a : Attribute) : Text :=
  a.before ++ a.name ++ a.beforeEq ++ '=' :: (a.afterEq ++ a.quote :: a.value ++ [a.quote])

structure Attribute.Valid (a : Attribute) : Prop where
  before : a.before ≠ [] ∧ a.before.all isBlank = true
  name : IsName a.name
  beforeEq : a.beforeEq.all isBlank = true
  afterEq : a.afterEq.all isBlank = true
  quote : a.quote = '"' ∨ a.quote = '\''
  value : '<' ∉ a.value ∧ a.quote ∉ a.value

/-- What a start tag holds. -/
structure Tag where
  name : Text
  attributes : List Attribute
  space : Text

def Tag.render (t : Tag) : Text := t.name ++ t.attributes.flatMap Attribute.render ++ t.space

structure Tag.Valid (t : Tag) : Prop where
  name : IsName t.name
  attributes : ∀ a ∈ t.attributes, a.Valid
  space : t.space.all isBlank = true

/-- What may stand outside the root. -/
inductive Misc where
  | instruction (body : Text)
  | comment (body : Text)
  | doctype (body : Text)

namespace Misc

def render : Misc → Text
  | instruction body => '<' :: '?' :: body ++ "?>".toList
  | comment body => '<' :: '!' :: "--".toList ++ body ++ "-->".toList
  | doctype body => '<' :: '!' :: "DOCTYPE".toList ++ body ++ ['>']

/-- The target of an instruction is a name. -/
inductive Valid : Misc → Prop where
  | instruction {target rest : Text} (htarget : IsName target)
      (hend : ¬ "?>".toList <:+: target ++ rest) : Valid (.instruction (target ++ rest))
  | comment {body : Text} (hdash : ¬ "--".toList <:+: body ++ ['-']) : Valid (.comment body)
  | doctype (body : Text) : Valid (.doctype body)

end Misc

mutual

/-- An element keeps the white space of its end tag. -/
inductive Markup where
  | element (tag : Tag) (content : Content) (closing : Text)
  | empty (tag : Tag)
  | misc (misc : Misc)
  | cdata (body : Text)

/-- Character data and markup in turn. -/
inductive Content where
  | last (pieces : List Piece)
  | cons (pieces : List Piece) (markup : Markup) (rest : Content)

end

mutual

def Markup.render : Markup → Text
  | .element tag content closing =>
      '<' :: tag.render ++ '>' :: (content.render ++ '<' :: '/' :: (tag.name ++ closing ++ ['>']))
  | .empty tag => '<' :: tag.render ++ "/>".toList
  | .misc misc => misc.render
  | .cdata body => '<' :: '!' :: "[CDATA[".toList ++ body ++ "]]>".toList

def Content.render : Content → Text
  | .last pieces => renderPieces pieces
  | .cons pieces markup rest => renderPieces pieces ++ (markup.render ++ rest.render)

end

mutual

inductive Markup.Valid : Markup → Prop where
  | element {tag : Tag} {content : Content} {closing : Text} (htag : tag.Valid)
      (hcontent : content.Valid) (hclosing : closing.all isBlank = true) :
      Markup.Valid (.element tag content closing)
  | empty {tag : Tag} (htag : tag.Valid) : Markup.Valid (.empty tag)
  | misc {misc : Misc} (hmisc : misc.Valid) (hdoctype : ∀ body, misc ≠ .doctype body) :
      Markup.Valid (.misc misc)
  | cdata {body : Text} (hend : ¬ "]]>".toList <:+: body) : Markup.Valid (.cdata body)

inductive Content.Valid : Content → Prop where
  | last {pieces : List Piece} (hpieces : ∀ piece ∈ pieces, piece.Valid) :
      Content.Valid (.last pieces)
  | cons {pieces : List Piece} {markup : Markup} {rest : Content}
      (hpieces : ∀ piece ∈ pieces, piece.Valid) (hmarkup : markup.Valid) (hrest : rest.Valid) :
      Content.Valid (.cons pieces markup rest)

end

/-! ## What a reader makes of it -/

mutual

/-- The text of what is inside, the elements' included. -/
def Markup.value : Markup → Text
  | .element _ content _ => content.value
  | .empty _ => []
  | .misc _ => []
  | .cdata body => Xml.value (body.map Piece.char)

def Content.value : Content → Text
  | .last pieces => Xml.value pieces
  | .cons pieces markup rest => Xml.value pieces ++ (markup.value ++ rest.value)

end

mutual

/-- The elements of a name, and of each what is between its tags, where it has two. -/
def Markup.named (name : Text) : Markup → List (Option Content)
  | .element tag content _ =>
      if tag.name = name then some content :: content.named name else content.named name
  | .empty tag => if tag.name = name then [none] else []
  | .misc _ => []
  | .cdata _ => []

def Content.named (name : Text) : Content → List (Option Content)
  | .last _ => []
  | .cons _ markup rest => markup.named name ++ rest.named name

end

mutual

/-- The names of the elements. -/
def Markup.names : Markup → List Text
  | .element tag content _ => tag.name :: content.names
  | .empty tag => [tag.name]
  | .misc _ => []
  | .cdata _ => []

def Content.names : Content → List Text
  | .last _ => []
  | .cons _ markup rest => markup.names ++ rest.names

end

/-- The text of an element. -/
def textOf : Option Content → Text
  | some content => content.value
  | none => []

/-! ## Documents -/

def renderMisc (parts : List (Text × Misc)) : Text :=
  parts.flatMap fun part => part.1 ++ part.2.render

/-- The XML declaration is an instruction of the prolog. -/
structure Document where
  prolog : List (Text × Misc)
  before : Text
  root : Markup
  epilog : List (Text × Misc)
  after : Text

namespace Document

def render (d : Document) : Text :=
  renderMisc d.prolog ++ (d.before ++ (d.root.render ++ (renderMisc d.epilog ++ d.after)))

structure Valid (d : Document) : Prop where
  prolog : ∀ part ∈ d.prolog, part.1.all isBlank = true ∧ part.2.Valid
  before : d.before.all isBlank = true
  root : d.root.Valid
  isElement : d.root.names ≠ []
  epilog : ∀ part ∈ d.epilog, part.1.all isBlank = true ∧ part.2.Valid
  after : d.after.all isBlank = true

/-- The texts of the elements of a name. -/
def texts (d : Document) (name : Text) : List Text := (d.root.named name).map textOf

end Document

/-! ## Writing -/

/-- The five characters a text is not written with. -/
def escapeChar (c : Char) : Text :=
  if c = '&' then "&amp;".toList
  else if c = '<' then "&lt;".toList
  else if c = '>' then "&gt;".toList
  else if c = '"' then "&quot;".toList
  else if c = '\'' then "&apos;".toList
  else [c]

def escape (text : Text) : Text := text.flatMap escapeChar

/-- An element around what is written already. -/
def enclose (name content : Text) : Text :=
  '<' :: name ++ '>' :: (content ++ '<' :: '/' :: (name ++ ['>']))

/-! ## Lemmas -/

theorem isNameChar_delimiter {c : Char} (h : c ∈ delimiters) : isNameChar c = false := by
  rw [isNameChar, List.contains_eq_mem, decide_eq_true h, Bool.not_true, Bool.and_false]

theorem isNameChar_blank {c : Char} (h : isBlank c = true) : isNameChar c = false := by
  rw [isNameChar, h, Bool.not_true, Bool.false_and]

theorem IsName.notMem {name : Text} (h : IsName name) {c : Char} (hc : isNameChar c = false) :
    c ∉ name := fun hmem => by
  rw [List.all_eq_true.mp h.chars c hmem] at hc
  cases hc

theorem notMem_of_blank {s : Text} (h : s.all isBlank = true) {c : Char} (hc : isBlank c = false) :
    c ∉ s := fun hmem => by
  rw [List.all_eq_true.mp h c hmem] at hc
  cases hc

theorem open_notMem_renderPieces {pieces : List Piece} (h : ∀ piece ∈ pieces, piece.Valid) :
    '<' ∉ renderPieces pieces := by
  intro hmem
  obtain ⟨piece, hpiece, hc⟩ := List.mem_flatMap.mp hmem
  cases h piece hpiece with
  | char hopen hamp => exact hopen (List.mem_singleton.mp hc).symm
  | reference hend hopen hmeans =>
      rcases List.mem_append.mp hc with hc | hc
      · exact (List.mem_cons.mp hc).elim (by decide) hopen
      · exact absurd hc (by decide)

/-- Attribute values hold no tag. -/
theorem Attribute.Valid.open_notMem {a : Attribute} (h : a.Valid) : '<' ∉ a.render := by
  have hquote : a.quote ≠ '<' := by
    rcases h.quote with hquote | hquote <;> rw [hquote] <;> decide
  simp only [Attribute.render, List.mem_append, List.mem_cons, List.not_mem_nil, or_false, not_or]
  exact ⟨⟨⟨notMem_of_blank h.before.2 rfl, h.name.notMem rfl⟩, notMem_of_blank h.beforeEq rfl⟩,
    by decide, ⟨⟨notMem_of_blank h.afterEq rfl, hquote.symm, h.value.1⟩, hquote.symm⟩⟩

theorem Tag.Valid.open_notMem {t : Tag} (h : t.Valid) : '<' ∉ t.render := by
  simp only [Tag.render, List.mem_append, List.mem_flatMap, not_or, not_exists, not_and]
  exact ⟨⟨h.name.notMem rfl, fun a ha => (h.attributes a ha).open_notMem⟩,
    notMem_of_blank h.space rfl⟩

end Xml

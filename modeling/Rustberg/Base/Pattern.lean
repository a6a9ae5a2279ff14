import Rustberg.Base.Json

/-!
# Two pattern languages

`Iam` is the glob of an IAM policy: `*` is any string, `?` any one
character, and `${*}`, `${?}` and `${$}` are the characters themselves.
`Cel` is as much of CEL as an availability condition on an object's name
uses: a single-quoted literal with C escapes, and `startsWith`. Each comes
with what a document written in it permits.
-/

/-! ## IAM -/

namespace Iam

inductive Atom where
  | lit (c : Char)
  | any
  | one
  deriving DecidableEq

/-- The characters with a meaning of their own. -/
def special (c : Char) : Bool := c == '$' || c == '*' || c == '?'

/-- A pattern read from left to right. -/
def atoms : Text → List Atom
  | [] => []
  | '$' :: '{' :: c :: '}' :: rest =>
      if special c then .lit c :: atoms rest else .lit '$' :: atoms ('{' :: c :: '}' :: rest)
  | '*' :: rest => .any :: atoms rest
  | '?' :: rest => .one :: atoms rest
  | c :: rest => .lit c :: atoms rest

def matchesAtoms : List Atom → Text → Bool
  | [], text => text.isEmpty
  | .lit c :: pattern, text =>
      match text with
      | x :: rest => x == c && matchesAtoms pattern rest
      | [] => false
  | .one :: pattern, text =>
      match text with
      | _ :: rest => matchesAtoms pattern rest
      | [] => false
  | .any :: pattern, text => text.tails.any (matchesAtoms pattern)

/-- The text is an instance of the pattern. -/
def globMatches (pattern text : Text) : Bool := matchesAtoms (atoms pattern) text

/-- A character written so that it stands for itself. -/
def literal (c : Char) : Text := if special c then ['$', '{', c, '}'] else [c]

theorem atoms_literal (c : Char) (rest : Text) :
    atoms (literal c ++ rest) = .lit c :: atoms rest := by
  cases h : special c with
  | true => simp [literal, h, atoms]
  | false =>
      have hchar : c ≠ '$' ∧ c ≠ '*' ∧ c ≠ '?' := by simpa [special, and_assoc] using h
      simp [literal, h, atoms, hchar]

/-- A quoted text stands for itself, whatever follows. -/
theorem atoms_flatMap_literal (s rest : Text) :
    atoms (s.flatMap literal ++ rest) = s.map .lit ++ atoms rest := by
  induction s with
  | nil => rfl
  | cons c s ih => rw [List.flatMap_cons, List.append_assoc, atoms_literal, ih]; rfl

theorem matchesAtoms_lits {s : Text} {pattern : List Atom} {text : Text} :
    matchesAtoms (s.map .lit ++ pattern) text = true ↔
      ∃ rest, text = s ++ rest ∧ matchesAtoms pattern rest = true := by
  induction s generalizing text with
  | nil => simp
  | cons c s ih =>
      cases text with
      | nil => simp [matchesAtoms]
      | cons x text =>
          simp only [List.map_cons, List.cons_append, matchesAtoms, Bool.and_eq_true, beq_iff_eq,
            ih, List.cons.injEq]
          constructor
          · rintro ⟨rfl, rest, rfl, hrest⟩
            exact ⟨rest, ⟨rfl, rfl⟩, hrest⟩
          · rintro ⟨rest, ⟨rfl, rfl⟩, hrest⟩
            exact ⟨rfl, rest, rfl, hrest⟩

theorem matchesAtoms_any (text : Text) : matchesAtoms [.any] text = true := by
  simp only [matchesAtoms, List.any_eq_true, List.mem_tails]
  exact ⟨[], List.nil_suffix, rfl⟩

/-- A quoted text and a star match what begins with the text. -/
theorem globMatches_star {s text : Text} :
    globMatches (s.flatMap literal ++ ['*']) text = true ↔ s <+: text := by
  have hstar : atoms ['*'] = [.any] := rfl
  rw [globMatches, atoms_flatMap_literal, hstar, matchesAtoms_lits]
  constructor
  · rintro ⟨rest, rfl, -⟩
    exact List.prefix_append ..
  · rintro ⟨rest, rfl⟩
    exact ⟨rest, rfl, matchesAtoms_any rest⟩

/-- A string, or the strings of an array. -/
def strings : Json → List Text
  | .string s => [s]
  | .array items => items.filterMap Json.asStr
  | _ => []

/-- `StringLike` holds in a context: each key has a value like one of its patterns. -/
def holds (context : List (Text × Text)) (condition : Json) : Bool :=
  match (condition.asObject.bind (Json.get · "StringLike".toList)).bind Json.asObject with
  | some tests => tests.all fun (key, patterns) =>
      (context.lookup key).any fun value =>
        (strings patterns).any fun pattern => globMatches pattern value
  | none => false

/-- The statement allows an action on a resource. -/
def allowedBy (context : List (Text × Text)) (action resource : Text) (statement : Json) : Bool :=
  match statement with
  | .object members =>
      (Json.get members "Effect".toList).bind Json.asStr == some "Allow".toList &&
        ((Json.get members "Action".toList).any fun actions =>
          (strings actions).any fun pattern => globMatches pattern action) &&
        ((Json.get members "Resource".toList).any fun resources =>
          (strings resources).any fun pattern => globMatches pattern resource) &&
        (Json.get members "Condition".toList).all (holds context)
  | _ => false

/-- Some statement of the policy allows an action on a resource. -/
def allows (context : List (Text × Text)) (action resource : Text) (policy : Json) : Bool :=
  match (policy.asObject.bind (Json.get · "Statement".toList)).bind Json.asArray with
  | some statements => statements.any (allowedBy context action resource)
  | none => false

theorem allows_of (context : List (Text × Text)) (action resource : Text)
    (members : List (String × Json)) :
    allows context action resource (.of members) =
      match (members.lookup "Statement").bind Json.asArray with
      | some statements => statements.any (allowedBy context action resource)
      | none => false := by
  simp only [allows, Json.of, Json.asObject, Option.bind_some, Json.get_fields]

theorem allowedBy_of (context : List (Text × Text)) (action resource : Text)
    (members : List (String × Json)) :
    allowedBy context action resource (.of members) =
      ((members.lookup "Effect").bind Json.asStr == some "Allow".toList &&
        ((members.lookup "Action").any fun actions =>
          (strings actions).any fun pattern => globMatches pattern action) &&
        ((members.lookup "Resource").any fun resources =>
          (strings resources).any fun pattern => globMatches pattern resource) &&
        (members.lookup "Condition").all (holds context)) := by
  simp only [allowedBy, Json.of, Json.get_fields]

end Iam

/-! ## CEL -/

namespace Cel

/-- The character a backslash and `c` stand for. -/
def unescape (c : Char) : Option Char :=
  if c ∈ ['\\', '\'', '"', '`', '?'] then some c
  else match c with
    | 'a' => some (Char.ofNat 7)
    | 'b' => some (Char.ofNat 8)
    | 'f' => some (Char.ofNat 12)
    | 'n' => some '\n'
    | 'r' => some '\r'
    | 't' => some '\t'
    | 'v' => some (Char.ofNat 11)
    -- The numeric escapes are not read.
    | _ => none

def isLineBreak (c : Char) : Bool := c == '\n' || c == '\r'

/-- What a single-quoted literal holds, from after its opening quote, and what
follows its closing one. -/
def readLiteral : Text → Option (Text × Text)
  | [] => none
  | '\'' :: rest => some ([], rest)
  | '\\' :: c :: rest =>
      match unescape c, readLiteral rest with
      | some d, some (held, rest) => some (d :: held, rest)
      | _, _ => none
  | c :: rest =>
      if isLineBreak c || c == '\\' then none
      else (readLiteral rest).map fun (held, rest) => (c :: held, rest)

/-- `resource.name.startsWith('…')` on a name; nothing for any other expression. -/
def startsWith (expression name : Text) : Option Bool :=
  match (Text.stripPrefix expression "resource.name.startsWith('".toList).bind readLiteral with
  | some (held, [')']) => some (held.isPrefixOf name)
  | _ => none

/-- A character written inside a literal. -/
def quoted (c : Char) : Text := if c = '\\' ∨ c = '\'' then ['\\', c] else [c]

theorem readLiteral_quoted {c : Char} (h : isLineBreak c = false) (rest : Text) :
    readLiteral (quoted c ++ rest) =
      (readLiteral rest).map fun (held, rest) => (c :: held, rest) := by
  by_cases hslash : c = '\\'
  · subst hslash
    cases hrest : readLiteral rest <;> simp [quoted, readLiteral, unescape, hrest]
  · by_cases hquote : c = '\''
    · subst hquote
      cases hrest : readLiteral rest <;> simp [quoted, readLiteral, unescape, hrest]
    · simp [quoted, readLiteral, hslash, hquote, h]

/-- A quoted text is what the literal holds. -/
theorem readLiteral_flatMap_quoted {s : Text} (h : ∀ c ∈ s, isLineBreak c = false) (rest : Text) :
    readLiteral (s.flatMap quoted ++ '\'' :: rest) = some (s, rest) := by
  induction s with
  | nil => simp [readLiteral]
  | cons c s ih =>
      rw [List.flatMap_cons, List.append_assoc, readLiteral_quoted (h c (List.mem_cons_self ..)),
        ih fun d hd => h d (List.mem_cons_of_mem _ hd)]
      rfl

/-- A literal with a line break in it does not read. -/
theorem readLiteral_lineBreak {s : Text} (h : ∃ c ∈ s, isLineBreak c = true) (rest : Text) :
    readLiteral (s.flatMap quoted ++ rest) = none := by
  induction s with
  | nil =>
      obtain ⟨c, hc, -⟩ := h
      cases hc
  | cons c s ih =>
      rw [List.flatMap_cons, List.append_assoc]
      cases hc : isLineBreak c with
      | true =>
          have hplain : c ≠ '\\' ∧ c ≠ '\'' := by
            constructor <;> (rintro rfl; revert hc; decide)
          simp [quoted, readLiteral, hplain, hc]
      | false =>
          obtain ⟨d, hd, hbreak⟩ := h
          rcases List.mem_cons.mp hd with rfl | hd
          · rw [hc] at hbreak
            cases hbreak
          · rw [readLiteral_quoted hc, ih ⟨d, hd, hbreak⟩]
            rfl

end Cel

/-! ## Access boundaries -/

namespace AccessBoundary

def resource (bucket : Text) : Text :=
    "//storage.googleapis.com/projects/_/buckets/".toList ++ bucket

def objectName (bucket key : Text) : Text :=
  "projects/_/buckets/".toList ++ bucket ++ "/objects/".toList ++ key

/-- The rule leaves an object of a bucket available. -/
def availableBy (bucket key : Text) (rule : Json) : Bool :=
  match rule with
  | .object members =>
      (Json.get members "availableResource".toList).bind Json.asStr == some (resource bucket) &&
        (Json.get members "availabilityCondition".toList).all fun condition =>
          ((condition.asObject.bind (Json.get · "expression".toList)).bind Json.asStr).any
            fun expression => Cel.startsWith expression (objectName bucket key) == some true
  | _ => false

/-- Some rule of the boundary leaves an object of a bucket available. -/
def available (bucket key : Text) (boundary : Json) : Bool :=
  match ((boundary.asObject.bind (Json.get · "accessBoundary".toList)).bind Json.asObject).bind
      (fun members => (Json.get members "accessBoundaryRules".toList).bind Json.asArray) with
  | some rules => rules.any (availableBy bucket key)
  | none => false

theorem available_of (bucket key : Text) (rules : List Json) :
    available bucket key (.of [("accessBoundary", .of [("accessBoundaryRules", .array rules)])]) =
      rules.any (availableBy bucket key) := by
  simp only [available, Json.of, Json.asObject, Json.asArray, Json.get_fields, Option.bind_some,
    List.lookup_cons_self]

theorem availableBy_of (bucket key : Text) (members : List (String × Json)) :
    availableBy bucket key (.of members) =
      ((members.lookup "availableResource").bind Json.asStr == some (resource bucket) &&
        (members.lookup "availabilityCondition").all fun condition =>
          ((condition.asObject.bind (Json.get · "expression".toList)).bind Json.asStr).any
            fun expression => Cel.startsWith expression (objectName bucket key) == some true) := by
  simp only [availableBy, Json.of, Json.get_fields]

end AccessBoundary

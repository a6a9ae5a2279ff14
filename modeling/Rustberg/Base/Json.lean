import Rustberg.Base.Text

/-!
# JSON values

A parsed JSON document, as `serde_json::Value` holds it, with its
readers. An object keeps its members as a list of pairs; `Json.get` finds
the value of a key, and a value found is smaller than what holds it,
which is what recursion over an expression tree turns on.
-/

/-- `serde_json::Number`. A float is kept as its bits. -/
inductive JsonNumber where
  | posInt (n : UInt64)
  | negInt (n : Int64)
  | float (bits : UInt64)
  deriving DecidableEq

inductive Json where
  | null
  | bool (b : Bool)
  | number (n : JsonNumber)
  | string (s : Text)
  | array (items : List Json)
  | object (members : List (Text × Json))

namespace Json

/-- `Map::get`. -/
def get (members : List (Text × Json)) (key : Text) : Option Json := members.lookup key

def asBool : Json → Option Bool
  | bool b => some b
  | _ => none

def asStr : Json → Option Text
  | string s => some s
  | _ => none

def asObject : Json → Option (List (Text × Json))
  | object members => some members
  | _ => none

def asArray : Json → Option (List Json)
  | array items => some items
  | _ => none

def asNumber : Json → Option JsonNumber
  | number n => some n
  | _ => none

/-- `Value::as_i64`: an integer in the range of 64 bits, signed. -/
def asI64 : Json → Option Int
  | number (.posInt n) => if n.toNat < 2 ^ 63 then some n.toNat else none
  | number (.negInt n) => some n.toInt
  | _ => none

/-- `json!` of an `i32`. -/
def ofInt32 (n : Int32) : Json :=
  if 0 ≤ n.toInt then number (.posInt (UInt64.ofNat n.toInt.toNat))
  else number (.negInt (Int64.ofInt n.toInt))

theorem asI64_ofInt32 (n : Int32) : (ofInt32 n).asI64 = some n.toInt := by
  have hlower := n.le_toInt
  have hupper := n.toInt_lt
  unfold ofInt32
  split
  · next h =>
      have hsize : n.toInt.toNat < 2 ^ 63 := by omega
      have hnat : (UInt64.ofNat n.toInt.toNat).toNat = n.toInt.toNat := by
        rw [UInt64.toNat_ofNat']
        omega
      rw [asI64, hnat, if_pos hsize]
      exact congrArg some (by omega)
  · next h =>
      rw [asI64, Int64.toInt_ofInt_of_le (by omega) (by omega)]

theorem sizeOf_get {members : List (Text × Json)} {key : Text} {value : Json}
    (h : get members key = some value) : sizeOf value < sizeOf members := by
  unfold get at h
  induction members with
  | nil => cases h
  | cons member members ih =>
      obtain ⟨k, v⟩ := member
      rw [List.lookup_cons] at h
      split at h
      · cases h
        simp only [List.cons.sizeOf_spec, Prod.mk.sizeOf_spec]
        omega
      · have hlt := ih h
        simp only [List.cons.sizeOf_spec]
        omega

/-- A member, which is smaller than its object. -/
abbrev sized {members : List (Text × Json)} {key : Text} {value : Json}
    (h : get members key = some value) : { value : Json // sizeOf value < sizeOf members } :=
  ⟨value, sizeOf_get h⟩

/-- The members of an object, by key. -/
def fields (members : List (String × Json)) : List (Text × Json) :=
  members.map fun member => (member.1.toList, member.2)

/-- The object with the given members. -/
def of (members : List (String × Json)) : Json := object (fields members)

theorem get_fields (members : List (String × Json)) (key : String) :
    get (fields members) key.toList = members.lookup key := by
  unfold get fields
  induction members with
  | nil => rfl
  | cons member members ih =>
      obtain ⟨k, v⟩ := member
      rw [List.map_cons, List.lookup_cons, List.lookup_cons, ih]
      by_cases hkey : key = k
      · simp [hkey]
      · have hne : key.toList ≠ k.toList := fun h => hkey (String.toList_inj.mp h)
        rw [beq_eq_false_iff_ne.mpr hne, beq_eq_false_iff_ne.mpr hkey]

def str (s : String) : Json := string s.toList

end Json

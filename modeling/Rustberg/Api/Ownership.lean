import Rustberg.Catalog.Iceberg
import Rustberg.Base.Relation

/-!
# Namespace ownership

`catalog/v1/ownership.rs`. The tenant that owns a namespace is recorded in
its properties under a reserved key, which no client may write:
`rejectReserved` refuses it, and `preserveReserved` carries the recorded
values across a property update.
-/

namespace Rustberg.Api

def reservedPropertyPrefix : Text := "rustberg.internal.".toList

def tenantIdProperty : Text := "rustberg.internal.tenant-id".toList

def protectedProperty : Text := "rustberg.protected".toList

/-- `str::eq_ignore_ascii_case`. -/
def eqIgnoreAsciiCase (a b : Text) : Bool := a.toAsciiLowercase == b.toAsciiLowercase

def isProtected (properties : Properties) : Bool :=
  properties[protectedProperty]?.any fun value => eqIgnoreAsciiCase value.trim "true".toList

def rejectIfProtected (properties : Properties) (what : Text) : Except AppError Unit :=
  if isProtected properties then
    .error (.protected (what ++ " is protected from deletion. Clear the '".toList ++
      protectedProperty ++ "' property first, then retry.".toList))
  else .ok ()

def isReserved (key : Text) : Bool := reservedPropertyPrefix.isPrefixOf key

def rejectReserved (keys : List Text) : Except AppError Unit :=
  keys.forM fun key =>
    if isReserved key then
      .error (.badRequest ("Property key '".toList ++ key ++
        "' is reserved: keys starting with '".toList ++ reservedPropertyPrefix ++
        "' are managed by the server".toList))
    else .ok ()

def stripReserved (properties : Properties) : Properties :=
  properties.filter fun key _ => !isReserved key

/-- The server-managed properties of `current`, copied into `next`. -/
def preserveReserved (current next : Properties) : Properties :=
  (next.filter fun key _ => !isReserved key) ∪ current.filter fun key _ => isReserved key

def setOwner (properties : Properties) (tenantId : Text) : Properties :=
  properties.insert tenantIdProperty tenantId

/-- The owning tenant, absent for a namespace that records none. -/
def ownerOf (properties : Properties) : Option Text := properties[tenantIdProperty]?

theorem isReserved_tenantIdProperty : isReserved tenantIdProperty = true := by decide

theorem isReserved_of_mem_stripReserved {properties : Properties} {key : Text}
    (h : key ∈ stripReserved properties) : isReserved key = false := by
  obtain ⟨hmem, hkey⟩ := Std.ExtTreeMap.mem_filter.mp h
  rw [Std.ExtTreeMap.getKey_eq] at hkey
  exact Bool.not_eq_true' _ ▸ hkey

theorem getElem?_preserveReserved (current next : Properties) (key : Text) :
    (preserveReserved current next)[key]? =
      if isReserved key then current[key]? else next[key]? := by
  rw [preserveReserved, Std.ExtTreeMap.getElem?_union, Std.ExtTreeMap.getElem?_filter',
    Std.ExtTreeMap.getElem?_filter']
  by_cases hkey : isReserved key
  · cases current[key]? <;> cases next[key]? <;> simp [hkey]
  · cases current[key]? <;> cases next[key]? <;> simp [hkey]

/-- Whatever a client asked for, the owner stays. -/
@[simp] theorem ownerOf_preserveReserved (current next : Properties) :
    ownerOf (preserveReserved current next) = ownerOf current := by
  rw [ownerOf, getElem?_preserveReserved, if_pos isReserved_tenantIdProperty, ownerOf]

@[simp] theorem ownerOf_setOwner (properties : Properties) (tenantId : Text) :
    ownerOf (setOwner properties tenantId) = some tenantId := by
  rw [ownerOf, setOwner, Relation.getElem?_insert, if_pos rfl]

end Rustberg.Api

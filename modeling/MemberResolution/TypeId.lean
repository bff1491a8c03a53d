/-!
# Handles of types

A type is known by its position in the type table, kept in a 32-bit word. The
five builtin types come first and in a fixed order, so their handles are
constants; the first of them stands for a type that could not be resolved.
-/

namespace MemberResolution
set_option autoImplicit false

/-- The handle of a type: its position in the type table as a 32-bit word. -/
structure TypeId where
  index : UInt32
  deriving DecidableEq, Ord

namespace TypeId

/-- The placeholder that a failed resolution gives. -/
def unknown : TypeId := ⟨0⟩

def int : TypeId := ⟨1⟩

def boolean : TypeId := ⟨2⟩

/-- The result type of a method that returns nothing. -/
def void : TypeId := ⟨3⟩

def intArray : TypeId := ⟨4⟩

/-- The handle of the type at `position`; positions wrap at `2 ^ 32`. -/
def ofPosition (position : Nat) : TypeId := ⟨position.toUInt32⟩

/-- Where the type stands in the type table. -/
def position (id : TypeId) : Nat := id.index.toNat

def isUnknown (id : TypeId) : Bool := id == unknown

@[simp] theorem isUnknown_iff {id : TypeId} : id.isUnknown = true ↔ id = unknown := by
  simp [isUnknown]

@[simp] theorem ofPosition_position (id : TypeId) : ofPosition id.position = id := by
  cases id; simp [ofPosition, position]

theorem position_ofPosition {n : Nat} (small : n < UInt32.size) : (ofPosition n).position = n := by
  simpa [ofPosition, position] using small

theorem position_injective {a b : TypeId} (same : a.position = b.position) : a = b := by
  rw [← ofPosition_position a, ← ofPosition_position b, same]

end TypeId
end MemberResolution

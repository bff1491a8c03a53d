import MemberResolution.TypeId

/-!
# Fields and methods of a class

The records that a class keeps for its members once their types are known. A
method is identified inside a class by its key, its name with the types of its
parameters in order; its result type and the names of its parameters take no
part. `sameSignature_iff` says that comparing two methods name by name and type
by type is comparing their keys.
-/

namespace MemberResolution
set_option autoImplicit false

/-- A field, its type and the class that holds it. -/
structure Field where
  name : String
  type : TypeId
  owner : TypeId
  deriving DecidableEq

/-- A parameter of a method. `index` counts from 1: position 0 belongs to the receiver, which is not listed. -/
structure Parameter where
  name : String
  type : TypeId
  index : UInt32
  deriving DecidableEq

/-- What tells the methods of a class apart; ordered by name, then by the parameter types from left to right. -/
structure MethodKey where
  name : String
  params : List TypeId
  deriving DecidableEq, Ord

/-- The first key does not come after the second. -/
def MethodKey.le (a b : MethodKey) : Bool := (compare a b).isLE

/-- A method with its resolved signature and the class that holds it. -/
structure Method where
  name : String
  owner : TypeId
  isStatic : Bool
  returnType : TypeId := .unknown
  params : List Parameter := []
  deriving DecidableEq

namespace Method

def paramTypes (m : Method) : List TypeId := m.params.map Parameter.type

def key (m : Method) : MethodKey := ⟨m.name, m.paramTypes⟩

/-- Same name, same number of parameters and the same type at each position. -/
def sameSignature (a b : Method) : Bool :=
  a.name == b.name && a.params.length == b.params.length &&
    (a.paramTypes.zip b.paramTypes).all fun (s, t) => s == t

theorem sameSignature_iff {a b : Method} : a.sameSignature b = true ↔ a.key = b.key := by
  have pairwise : ∀ s t : List TypeId,
      (s.length = t.length ∧ (s.zip t).all (fun (x, y) => x == y) = true) ↔ s = t := by
    intro s
    induction s with
    | nil => intro t; cases t <;> simp
    | cons x s ih =>
      intro t
      cases t with
      | nil => simp
      | cons y t =>
        simp only [List.length_cons, Nat.succ.injEq, List.zip_cons_cons, List.all_cons,
          Bool.and_eq_true, beq_iff_eq, List.cons.injEq]
        rw [← ih t]
        constructor
        · rintro ⟨arity, same, rest⟩; exact ⟨same, arity, rest⟩
        · rintro ⟨same, arity, rest⟩; exact ⟨arity, same, rest⟩
  have types := pairwise a.paramTypes b.paramTypes
  simp only [paramTypes, List.length_map] at types
  simp only [sameSignature, key, paramTypes, Bool.and_eq_true, beq_iff_eq, MethodKey.mk.injEq, ← types,
    and_assoc]

end Method
end MemberResolution

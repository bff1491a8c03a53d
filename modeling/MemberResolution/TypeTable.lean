import MemberResolution.ClassType

/-!
# The type table

All types of a program in order of registration: the five builtin types, then
the classes. A type is found by its handle, which is its position, or by the
name under which it was registered. That name stays as it is when the class
entity itself is given another one. The unknown type has no name, so nothing
that a program writes can find it.
-/

namespace MemberResolution
set_option autoImplicit false

inductive PrimitiveType where
  | int
  | boolean
  | void
  deriving DecidableEq

def PrimitiveType.name : PrimitiveType → String
  | int => "int"
  | boolean => "boolean"
  | void => "void"

/-- A type that a handle can stand for. -/
inductive TypeEntity where
  /-- The placeholder for a type that could not be resolved. -/
  | unknown
  | primitive (type : PrimitiveType)
  | intArray
  | classType (type : ClassType)
  deriving DecidableEq

namespace TypeEntity

def class? : TypeEntity → Option ClassType
  | classType c => some c
  | _ => none

/-- Changes a class and leaves every other type alone. -/
def mapClass (f : ClassType → ClassType) : TypeEntity → TypeEntity
  | classType c => classType (f c)
  | entity => entity

/-- How the type is spelled in a program. -/
def spelling : TypeEntity → String
  | unknown => "<unknown>"
  | primitive p => p.name
  | intArray => "int[]"
  | classType c => c.name

/-- The same type, where classes are compared without regard to the order of their members. -/
def sameAs : TypeEntity → TypeEntity → Bool
  | classType a, classType b => a.sameAs b
  | a, b => a == b

@[simp] theorem class?_mapClass (f : ClassType → ClassType) (e : TypeEntity) :
    (e.mapClass f).class? = e.class?.map f := by
  cases e <;> rfl

end TypeEntity

/-- A type together with the name under which it can be looked up, if it has one. -/
structure Registration where
  name : Option String
  entity : TypeEntity
  deriving DecidableEq

/-- The types of a program; a handle is a position in this list. -/
structure TypeTable where
  registrations : List Registration
  deriving DecidableEq

/-- Why a class could not be declared. -/
inductive DeclarationError where
  | duplicateType (name : String)
  deriving DecidableEq

def DeclarationError.message : DeclarationError → String
  | duplicateType name => "type `" ++ name ++ "` is already declared"

namespace TypeTable

/-- The table that holds the builtin types and no class. -/
def builtins : TypeTable :=
  ⟨[⟨none, .unknown⟩,
    ⟨some "int", .primitive .int⟩,
    ⟨some "boolean", .primitive .boolean⟩,
    ⟨some "void", .primitive .void⟩,
    ⟨some "int[]", .intArray⟩]⟩

def size (t : TypeTable) : Nat := t.registrations.length

def isEmpty (t : TypeTable) : Bool := t.registrations.isEmpty

/-- The handle of the type registered under `name`. -/
def lookup (t : TypeTable) (name : String) : Option TypeId :=
  (t.registrations.findIdx? (·.name = some name)).map TypeId.ofPosition

def contains (t : TypeTable) (name : String) : Bool := (t.lookup name).isSome

def get? (t : TypeTable) (id : TypeId) : Option TypeEntity :=
  t.registrations[id.position]?.map Registration.entity

/-- The class with handle `id`, if that is a class of the table. -/
def class? (t : TypeTable) (id : TypeId) : Option ClassType := (t.get? id).bind TypeEntity.class?

/-- Like `lookup`, but finds classes only. -/
def lookupClass (t : TypeTable) (name : String) : Option TypeId :=
  (t.lookup name).filter fun id => (t.class? id).isSome

/-- The direct base of a class. -/
def base? (t : TypeTable) (id : TypeId) : Option TypeId := (t.class? id).bind ClassType.base

/-- Changes the class with handle `id`; the table stays as it is when there is none. -/
def modifyClass (t : TypeTable) (id : TypeId) (f : ClassType → ClassType) : TypeTable :=
  ⟨t.registrations.modify id.position fun r => { r with entity := r.entity.mapClass f }⟩

/-- Registers an empty class at the end of the table. -/
def declareClass (t : TypeTable) (name : String) (isStatic : Bool) :
    Except DeclarationError (TypeId × TypeTable) :=
  if t.contains name then .error (.duplicateType name)
  else .ok (.ofPosition t.size, ⟨t.registrations ++ [⟨some name, .classType { name, isStatic }⟩]⟩)

/-- The handles of all classes in declaration order. -/
def classIds (t : TypeTable) : List TypeId :=
  (t.registrations.zipIdx.filter fun (r, _) => r.entity.class?.isSome).map fun (_, n) => .ofPosition n

/-- How a type is spelled; a handle that the table does not hold reads as the unknown type. -/
def typeName (t : TypeTable) (id : TypeId) : String :=
  ((t.get? id).getD .unknown).spelling

/-- A method key as text, such as `put(int, Foo)`. -/
def signature (t : TypeTable) (key : MethodKey) : String :=
  key.name ++ "(" ++ ", ".intercalate (key.params.map t.typeName) ++ ")"

/-- Both handles stand for the same type, or neither stands for any. -/
def sameType (t : TypeTable) (a b : TypeId) : Bool :=
  match t.get? a, t.get? b with
  | some x, some y => x.sameAs y
  | none, none => true
  | _, _ => false

@[simp] theorem size_modifyClass (t : TypeTable) (id : TypeId) (f : ClassType → ClassType) :
    (t.modifyClass id f).size = t.size := by
  simp [modifyClass, size]

@[simp] theorem lookup_modifyClass (t : TypeTable) (id : TypeId) (f : ClassType → ClassType) (name : String) :
    (t.modifyClass id f).lookup name = t.lookup name := by
  unfold lookup modifyClass
  congr 1
  generalize id.position = n
  generalize t.registrations = rs
  induction rs generalizing n with
  | nil => cases n <;> rfl
  | cons r rs ih =>
    cases n with
    | zero => simp [List.findIdx?_cons]
    | succ n => simp [List.findIdx?_cons, ih]

theorem get?_modifyClass (t : TypeTable) (id other : TypeId) (f : ClassType → ClassType) :
    (t.modifyClass id f).get? other = if other = id then (t.get? id).map (·.mapClass f) else t.get? other := by
  unfold get? modifyClass
  rw [List.getElem?_modify]
  by_cases same : other = id
  · subst same
    simp only [if_true]
    cases t.registrations[other.position]? <;> rfl
  · have apart : id.position ≠ other.position := fun h => same (TypeId.position_injective h).symm
    simp [same, apart]

theorem class?_modifyClass (t : TypeTable) (id other : TypeId) (f : ClassType → ClassType) :
    (t.modifyClass id f).class? other = if other = id then (t.class? id).map f else t.class? other := by
  unfold class?
  rw [get?_modifyClass]
  by_cases same : other = id
  · subst same
    cases t.get? other <;> simp
  · simp [same]

@[simp] theorem isSome_class?_modifyClass (t : TypeTable) (id other : TypeId) (f : ClassType → ClassType) :
    ((t.modifyClass id f).class? other).isSome = (t.class? other).isSome := by
  rw [class?_modifyClass]
  by_cases same : other = id
  · simp [same]
  · simp [same]

@[simp] theorem lookupClass_modifyClass (t : TypeTable) (id : TypeId) (f : ClassType → ClassType)
    (name : String) : (t.modifyClass id f).lookupClass name = t.lookupClass name := by
  simp [lookupClass]

end TypeTable
end MemberResolution

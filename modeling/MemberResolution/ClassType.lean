import MemberResolution.Member
import MemberResolution.OrderedTable

/-!
# Classes and their member tables

A class has one table of fields, filed by name, and two tables of methods,
filed by key: one for instance methods and one for static ones. A method goes
to the table that its own flag names.
-/

namespace MemberResolution
set_option autoImplicit false

/-- A declared class with its member tables. -/
structure ClassType where
  name : String
  /-- A static class cannot be inherited from. -/
  isStatic : Bool
  /-- The class that this one extends, once its name has been resolved. -/
  base : Option TypeId := none
  fields : OrderedTable Field.name := ∅
  methods : OrderedTable Method.key := ∅
  staticMethods : OrderedTable Method.key := ∅
  deriving DecidableEq

namespace ClassType

/-- The static methods or the instance methods. -/
def methodTable (c : ClassType) (isStatic : Bool) : OrderedTable Method.key :=
  if isStatic then c.staticMethods else c.methods

def field? (c : ClassType) (name : String) : Option Field := c.fields.find? name

def hasField (c : ClassType) (name : String) : Bool := c.fields.contains name

def method? (c : ClassType) (key : MethodKey) : Option Method := c.methods.find? key

def staticMethod? (c : ClassType) (key : MethodKey) : Option Method := c.staticMethods.find? key

/-- The overloads of `name` in one of the two method tables, in table order. -/
def methodsNamed (c : ClassType) (name : String) (isStatic : Bool) : List Method :=
  (c.methodTable isStatic).toList.filter (·.name = name)

def insertField (c : ClassType) (field : Field) : ClassType :=
  { c with fields := c.fields.insert field }

def insertMethod (c : ClassType) (method : Method) : ClassType :=
  if method.isStatic then { c with staticMethods := c.staticMethods.insert method }
  else { c with methods := c.methods.insert method }

/-- Inserts a field and hands back the field that it replaces. -/
def getThenInsertField? (c : ClassType) (field : Field) : Option Field × ClassType :=
  (c.fields.getThenInsert? field).map id fun fields => { c with fields }

/-- Inserts a method and hands back the method that it replaces. -/
def getThenInsertMethod? (c : ClassType) (method : Method) : Option Method × ClassType :=
  if method.isStatic then (c.staticMethods.getThenInsert? method).map id fun staticMethods => { c with staticMethods }
  else (c.methods.getThenInsert? method).map id fun methods => { c with methods }

/-- Some method in the table for `method`'s flag has its name and parameter types. -/
def hasClash (c : ClassType) (method : Method) : Bool :=
  (c.methodsNamed method.name method.isStatic).any (·.sameSignature method)

/-- Both classes have the same name, flag and base and hold the same members, whatever their order. -/
def sameAs (a b : ClassType) : Bool :=
  a.name == b.name && a.isStatic == b.isStatic && a.base == b.base && a.fields.sameEntries b.fields &&
    a.methods.sameEntries b.methods && a.staticMethods.sameEntries b.staticMethods

theorem methodTable_insertMethod (c : ClassType) (method : Method) (isStatic : Bool) :
    (c.insertMethod method).methodTable isStatic =
      if isStatic = method.isStatic then (c.methodTable isStatic).insert method else c.methodTable isStatic := by
  cases isStatic <;> cases flag : method.isStatic <;> simp [insertMethod, methodTable, flag]

/-- The method that is handed back comes from the table for the new method's flag. -/
theorem getThenInsertMethod?_eq (c : ClassType) (method : Method) :
    c.getThenInsertMethod? method = ((c.methodTable method.isStatic).find? method.key, c.insertMethod method) := by
  cases flag : method.isStatic <;>
    simp [getThenInsertMethod?, OrderedTable.getThenInsert?, insertMethod, methodTable, flag]

@[simp] theorem fields_insertMethod (c : ClassType) (method : Method) :
    (c.insertMethod method).fields = c.fields := by
  unfold insertMethod; split <;> rfl

@[simp] theorem base_insertMethod (c : ClassType) (method : Method) :
    (c.insertMethod method).base = c.base := by
  unfold insertMethod; split <;> rfl

@[simp] theorem name_insertMethod (c : ClassType) (method : Method) :
    (c.insertMethod method).name = c.name := by
  unfold insertMethod; split <;> rfl

@[simp] theorem isStatic_insertMethod (c : ClassType) (method : Method) :
    (c.insertMethod method).isStatic = c.isStatic := by
  unfold insertMethod; split <;> rfl

@[simp] theorem methodTable_insertField (c : ClassType) (field : Field) (isStatic : Bool) :
    (c.insertField field).methodTable isStatic = c.methodTable isStatic := rfl

/-- Looking for a clash overload by overload is looking the key up. -/
theorem hasClash_iff {c : ClassType} {method : Method} :
    c.hasClash method = true ↔ (c.methodTable method.isStatic).contains method.key = true := by
  simp only [hasClash, methodsNamed, List.any_filter, List.any_eq_true, Bool.and_eq_true,
    decide_eq_true_eq, Method.sameSignature_iff, OrderedTable.contains]
  constructor
  · rintro ⟨other, mem, -, same⟩; exact ⟨other, mem, same⟩
  · rintro ⟨other, mem, same⟩; exact ⟨other, mem, congrArg MethodKey.name same, same⟩

end ClassType
end MemberResolution

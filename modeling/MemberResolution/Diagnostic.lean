import MemberResolution.Syntax

/-!
# Problems and how they are shown

A diagnostic is a problem and the place where it was noticed. Every kind of
problem has a stable number, a name, a fixed list of arguments and a sentence
that mentions them. A list of diagnostics is rendered one line each: the code,
its name and the arguments in parentheses.
-/

namespace MemberResolution
set_option autoImplicit false

/-- The kinds of problems. -/
inductive ErrorCode where
  | typeNameMissing
  | staticBaseType
  | cyclicBaseType
  | fieldDuplicates
  | methodDuplicates
  | parameterDuplicates
  deriving DecidableEq

namespace ErrorCode

def number : ErrorCode → Nat
  | typeNameMissing => 1
  | staticBaseType => 2
  | cyclicBaseType => 3
  | fieldDuplicates => 4
  | methodDuplicates => 5
  | parameterDuplicates => 6

/-- All kinds by number. -/
def all : List ErrorCode :=
  [typeNameMissing, staticBaseType, cyclicBaseType, fieldDuplicates, methodDuplicates, parameterDuplicates]

def name : ErrorCode → String
  | typeNameMissing => "TypeNameMissing"
  | staticBaseType => "StaticBaseType"
  | cyclicBaseType => "CyclicBaseType"
  | fieldDuplicates => "FieldDuplicates"
  | methodDuplicates => "MethodDuplicates"
  | parameterDuplicates => "ParameterDuplicates"

/-- The letter E and the number in four digits. -/
def text (code : ErrorCode) : String :=
  String.ofList ('E' :: (Nat.toDigits 10 code.number).leftpad 4 '0')

/-- The name under which tools know the kind of problem. -/
def toolName : ErrorCode → String
  | typeNameMissing => "mjc_resolve::type_name_missing"
  | staticBaseType => "mjc_resolve::static_base_type"
  | cyclicBaseType => "mjc_resolve::cyclic_base_type"
  | fieldDuplicates => "mjc_resolve::field_duplicates"
  | methodDuplicates => "mjc_resolve::method_duplicates"
  | parameterDuplicates => "mjc_resolve::parameter_duplicates"

/-- What is written at the place of the problem in the source text. -/
def label : ErrorCode → String
  | typeNameMissing => "referenced here"
  | staticBaseType => "static class used as a base"
  | cyclicBaseType => "inheritance cycle continues here"
  | fieldDuplicates => "redeclared here"
  | methodDuplicates => "redeclared here"
  | parameterDuplicates => "repeated here"

end ErrorCode

/-- What can be wrong with the member declarations of a program. -/
inductive Problem where
  /-- A name that stands for no type. -/
  | typeNameMissing (name : String)
  /-- A static class is extended. -/
  | staticBaseType (name : String)
  /-- The base links above `className`, the first of which names `base`, never reach a root. -/
  | cyclicBaseType (base className : String)
  | fieldDuplicates (className field : String)
  /-- Name and parameter types are those of a method that the class already has. -/
  | methodDuplicates (className method : String)
  | parameterDuplicates (method parameter : String)
  deriving DecidableEq

namespace Problem

def code : Problem → ErrorCode
  | typeNameMissing .. => .typeNameMissing
  | staticBaseType .. => .staticBaseType
  | cyclicBaseType .. => .cyclicBaseType
  | fieldDuplicates .. => .fieldDuplicates
  | methodDuplicates .. => .methodDuplicates
  | parameterDuplicates .. => .parameterDuplicates

/-- The names that the problem is about, in their fixed order. -/
def args : Problem → List String
  | typeNameMissing name => [name]
  | staticBaseType name => [name]
  | cyclicBaseType base className => [base, className]
  | fieldDuplicates className field => [className, field]
  | methodDuplicates className method => [className, method]
  | parameterDuplicates method parameter => [method, parameter]

private def quoted (name : String) : String := "`" ++ name ++ "`"

/-- The problem in a sentence. -/
def message : Problem → String
  | typeNameMissing name => "Type name missing: " ++ quoted name ++ " is not a declared type"
  | staticBaseType name => "Static base type: cannot inherit from static class " ++ quoted name
  | cyclicBaseType base className =>
    "Cyclic base type: " ++ quoted className ++ " inherits from itself through " ++ quoted base
  | fieldDuplicates className field =>
    "Duplicate field: " ++ quoted field ++ " is declared more than once in " ++ quoted className
  | methodDuplicates className method =>
    "Duplicate method: " ++ quoted method ++ " is already declared in " ++ quoted className ++
      " with the same parameter types"
  | parameterDuplicates method parameter =>
    "Duplicate parameter: " ++ quoted parameter ++ " appears more than once in " ++ quoted method

/-- The problem on a line of its own, such as `E0004 FieldDuplicates(Foo, bar)`. -/
def line (p : Problem) : String :=
  p.code.text ++ " " ++ p.code.name ++ "(" ++ ", ".intercalate p.args ++ ")\n"

theorem eq_of_code_of_args {p q : Problem} (code : p.code = q.code) (args : p.args = q.args) : p = q := by
  cases p <;> cases q <;> simp_all [Problem.code, Problem.args]

end Problem

/-- A problem and where it was noticed. -/
structure Diagnostic where
  problem : Problem
  span : Span
  deriving DecidableEq

namespace Diagnostic

def code (d : Diagnostic) : ErrorCode := d.problem.code

/-- How many diagnostics have a code. -/
def count (code : ErrorCode) (ds : List Diagnostic) : Nat := ds.countP (·.code = code)

/-- One line for each diagnostic. -/
def render (ds : List Diagnostic) : String := String.join (ds.map (·.problem.line))

/-- A name that stands for no type. -/
def typeNameMissing (ident : Ident) : Diagnostic := ⟨.typeNameMissing ident.name, ident.span⟩

end Diagnostic
end MemberResolution

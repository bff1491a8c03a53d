import MemberResolution.Resolution.TypeExpr

/-!
# Fields and methods

Every field of a class is entered, even one whose type is not known or whose
name is taken: the later field replaces the earlier one. A method is entered
only if all types of its signature are known and no parameter name is
repeated; one with the name and parameter types of an earlier method replaces
it. What is wrong with a member is reported in the order of the source text,
the clash with an earlier member first for a field and last for a method.
-/

namespace MemberResolution
set_option autoImplicit false

namespace FieldDecl

/-- The field that a declaration in the class `owner` describes. -/
def field (t : TypeTable) (owner : TypeId) (d : FieldDecl) : Field :=
  ⟨d.name.name, d.type.resolve t, owner⟩

/-- The class with the field that is declared. -/
def enter (t : TypeTable) (owner : TypeId) (d : FieldDecl) (c : ClassType) : ClassType :=
  c.insertField (d.field t owner)

/-- What is wrong with the declaration in a class with the members of `c`. -/
def problems (t : TypeTable) (c : ClassType) (d : FieldDecl) : List Diagnostic :=
  (if c.hasField d.name.name then [⟨.fieldDuplicates c.name d.name.name, d.name.span⟩] else []) ++
    d.type.problems t

def annotate (t : TypeTable) (d : FieldDecl) : FieldDecl := { d with type := d.type.annotate t }

end FieldDecl

namespace MethodDecl

/-- Every type that the signature mentions is known. -/
def typesKnown (t : TypeTable) (d : MethodDecl) : Bool := d.typeExprs.all fun e => !(e.resolve t).isUnknown

def paramNames (d : MethodDecl) : List String := d.params.map (·.name.name)

/-- The parameters with their types and positions, counted from 1. -/
def parameters (t : TypeTable) (d : MethodDecl) : List Parameter :=
  d.params.zipIdx.map fun (p, position) => ⟨p.name.name, p.type.resolve t, position.toUInt32 + 1⟩

/-- The method that a declaration in the class `owner` describes. -/
def described (t : TypeTable) (owner : TypeId) (d : MethodDecl) : Method :=
  { name := d.name.name
    owner
    isStatic := d.isStatic
    returnType := d.returnType.resolve t
    params := d.parameters t }

/-- The method that a declaration in the class `owner` describes, if its signature can be resolved. -/
def method? (t : TypeTable) (owner : TypeId) (d : MethodDecl) : Option Method :=
  if d.typesKnown t ∧ d.paramNames.Nodup then some (d.described t owner) else none

/-- The class with the method that is declared, if its signature can be resolved. -/
def enter (t : TypeTable) (owner : TypeId) (d : MethodDecl) (c : ClassType) : ClassType :=
  match d.method? t owner with
  | some method => c.insertMethod method
  | none => c

/-- What is wrong with parameters that follow parameters with the names `earlier`. -/
def paramProblems (t : TypeTable) (method : String) : (earlier : List String) → List ParamDecl → List Diagnostic
  | _, [] => []
  | earlier, p :: rest =>
    p.type.problems t ++
      (if p.name.name ∈ earlier then [⟨.parameterDuplicates method p.name.name, p.name.span⟩] else []) ++
      paramProblems t method (p.name.name :: earlier) rest

/-- What is wrong with the signature in itself. -/
def signatureProblems (t : TypeTable) (d : MethodDecl) : List Diagnostic :=
  d.returnType.problems t ++ paramProblems t d.name.name [] d.params

/-- The report of an earlier method in `c` with the same name and parameter types. -/
def clashProblems (t : TypeTable) (owner : TypeId) (c : ClassType) (d : MethodDecl) : List Diagnostic :=
  match d.method? t owner with
  | some method =>
    if c.hasClash method then [⟨.methodDuplicates c.name d.name.name, d.name.span⟩] else []
  | none => []

/-- What is wrong with the declaration in a class with the members of `c`. -/
def problems (t : TypeTable) (owner : TypeId) (c : ClassType) (d : MethodDecl) : List Diagnostic :=
  d.signatureProblems t ++ d.clashProblems t owner c

/-- The declaration with its types in their slots, and with the key of its method if that is entered. -/
def annotate (t : TypeTable) (owner : TypeId) (d : MethodDecl) : MethodDecl :=
  { d with
    returnType := d.returnType.annotate t
    params := d.params.map fun p => { p with type := p.type.annotate t }
    resolved := ((d.method? t owner).map Method.key).or d.resolved }

end MethodDecl
end MemberResolution

import MemberResolution.Member

/-!
# Declarations as written

The tree that member resolution reads: the main class and the other classes,
with their fields and method signatures, each with the place of the whole
declaration, which is taken to be that of its name where nothing else is said.
Type expressions, methods, classes and the main class have a slot each in which
a run of the resolution leaves what it found; a slot is empty until a run fills
it.
-/

namespace MemberResolution
set_option autoImplicit false

/-- A stretch of the source text. -/
structure Span where
  offset : Nat
  length : Nat
  deriving DecidableEq

/-- A name and where it is written. -/
structure Ident where
  name : String
  span : Span
  deriving DecidableEq

/-- The forms in which a type can be written. -/
inductive TypeForm where
  | named (ident : Ident)
  | intArray
  | int
  | boolean
  deriving DecidableEq

/-- A type as written in a declaration. -/
structure TypeExpr where
  form : TypeForm
  span : Span
  /-- What the type was resolved to; the unknown type when its name was not found. -/
  resolved : Option TypeId := none
  deriving DecidableEq

/-- The identifier that a type expression refers to, if it is written as a name. -/
def TypeExpr.ident? (e : TypeExpr) : Option Ident :=
  match e.form with
  | .named ident => some ident
  | _ => none

def TypeExpr.isNamed (e : TypeExpr) : Bool := e.ident?.isSome

structure FieldDecl where
  type : TypeExpr
  name : Ident
  span : Span := name.span
  deriving DecidableEq

structure ParamDecl where
  type : TypeExpr
  name : Ident
  span : Span := name.span
  deriving DecidableEq

structure MethodDecl where
  name : Ident
  isStatic : Bool := false
  returnType : TypeExpr
  params : List ParamDecl := []
  span : Span := name.span
  /-- The key under which the method was registered. -/
  resolved : Option MethodKey := none
  deriving DecidableEq

structure ClassDecl where
  name : Ident
  isStatic : Bool := false
  /-- The name of the class that this one extends. -/
  base : Option Ident := none
  fields : List FieldDecl := []
  methods : List MethodDecl := []
  span : Span := name.span
  /-- The class that the name of the base was resolved to. -/
  resolvedBase : Option TypeId := none
  deriving DecidableEq

/-- The class that holds the entry point. -/
structure MainClass where
  name : Ident
  span : Span := name.span
  /-- The key of the entry method. -/
  entry : Option MethodKey := none
  deriving DecidableEq

/-- The main class, then the other classes in source order. -/
structure Program where
  main : MainClass
  classes : List ClassDecl
  deriving DecidableEq

/-- The type expressions of a signature: the result type, then the types of the parameters. -/
def MethodDecl.typeExprs (m : MethodDecl) : List TypeExpr := m.returnType :: m.params.map (·.type)

/-- The type expressions of the fields, then those of the methods. -/
def ClassDecl.typeExprs (c : ClassDecl) : List TypeExpr :=
  c.fields.map (·.type) ++ c.methods.flatMap (·.typeExprs)

/-- All type expressions in source order. -/
def Program.typeExprs (p : Program) : List TypeExpr := p.classes.flatMap (·.typeExprs)

end MemberResolution

import MemberResolution.Resolution.Member

/-!
# Classes

A class declaration is entered into the class that is registered under its
name: first its base link, then its fields, then its methods. A base that is
not found leaves the base link as it is; a static base is reported and linked
all the same. A declaration whose own name stands for no class is reported and
otherwise passed over.
-/

namespace MemberResolution
set_option autoImplicit false

/-- The reports on the elements of a list, where `enter` takes each element in before the next one is looked at. -/
def reportsAlong {α σ : Type} (enter : σ → α → σ) (report : σ → α → List Diagnostic) : σ → List α → List Diagnostic
  | _, [] => []
  | s, a :: rest => report s a ++ reportsAlong enter report (enter s a) rest

namespace ClassDecl

/-- The class that the base clause names. -/
def base? (t : TypeTable) (d : ClassDecl) : Option TypeId := d.base.bind fun base => t.lookupClass base.name

/-- What is wrong with the base clause. -/
def baseProblems (t : TypeTable) (d : ClassDecl) : List Diagnostic :=
  match d.base with
  | none => []
  | some base =>
    match t.lookupClass base.name with
    | none => [.typeNameMissing base]
    | some id =>
      if (t.class? id).any (·.isStatic) then [⟨.staticBaseType base.name, base.span⟩] else []

/-- The class with the base that is declared, if there is one and it is found. -/
def linkBase (t : TypeTable) (d : ClassDecl) (c : ClassType) : ClassType :=
  { c with base := (d.base? t).or c.base }

/-- The class with the fields that are declared. -/
def enterFields (t : TypeTable) (id : TypeId) (d : ClassDecl) (c : ClassType) : ClassType :=
  d.fields.foldl (fun c field => field.enter t id c) c

/-- The class with the methods that are declared. -/
def enterMethods (t : TypeTable) (id : TypeId) (d : ClassDecl) (c : ClassType) : ClassType :=
  d.methods.foldl (fun c method => method.enter t id c) c

/-- The class `id` with all that is declared. -/
def enter (t : TypeTable) (id : TypeId) (d : ClassDecl) (c : ClassType) : ClassType :=
  d.enterMethods t id (d.enterFields t id (d.linkBase t c))

/-- What is wrong with a declaration of the class `id`, which has the members of `c` before it. -/
def problems (t : TypeTable) (id : TypeId) (c : ClassType) (d : ClassDecl) : List Diagnostic :=
  let linked := d.linkBase t c
  d.baseProblems t ++
    reportsAlong (fun c field => field.enter t id c) (fun c field => field.problems t c) linked d.fields ++
    reportsAlong (fun c method => method.enter t id c) (fun c method => method.problems t id c)
      (d.enterFields t id linked) d.methods

/-- The declaration with all slots filled, as far as what they stand for is found. -/
def annotateAs (t : TypeTable) (id : TypeId) (d : ClassDecl) : ClassDecl :=
  { d with
    fields := d.fields.map (·.annotate t)
    methods := d.methods.map (·.annotate t id)
    resolvedBase := (d.base? t).or d.resolvedBase }

/-- Like `annotateAs` for the class of that name; a declaration without such a class stays as it is. -/
def annotate (t : TypeTable) (d : ClassDecl) : ClassDecl :=
  match t.lookupClass d.name.name with
  | some id => d.annotateAs t id
  | none => d

/-- What is wrong with a declaration, given the table right before it is entered. -/
def report (t : TypeTable) (d : ClassDecl) : List Diagnostic :=
  match t.lookupClass d.name.name with
  | some id => (t.class? id).elim [] fun c => d.problems t id c
  | none => [.typeNameMissing d.name]

end ClassDecl

/-- Enters a declaration into the class of its name, if there is one. -/
def TypeTable.enterClass (t : TypeTable) (d : ClassDecl) : TypeTable :=
  match t.lookupClass d.name.name with
  | some id => t.modifyClass id (d.enter t id)
  | none => t

end MemberResolution

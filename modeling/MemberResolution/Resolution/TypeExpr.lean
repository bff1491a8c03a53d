import MemberResolution.Diagnostic
import MemberResolution.TypeTable

/-!
# Types as written and the types they stand for

A name stands for the type that is registered under it. A name that is not
registered is reported and stands for the unknown type, so that the resolution
can go on.
-/

namespace MemberResolution.TypeExpr
set_option autoImplicit false

/-- The type that an expression stands for. -/
def resolve (t : TypeTable) (e : TypeExpr) : TypeId :=
  match e.form with
  | .named ident => (t.lookup ident.name).getD .unknown
  | .intArray => .intArray
  | .int => .int
  | .boolean => .boolean

/-- The report of a name that is not registered. -/
def problems (t : TypeTable) (e : TypeExpr) : List Diagnostic :=
  match e.form with
  | .named ident => if t.contains ident.name then [] else [.typeNameMissing ident]
  | _ => []

/-- The expression with the type that it stands for in its slot. -/
def annotate (t : TypeTable) (e : TypeExpr) : TypeExpr := { e with resolved := some (e.resolve t) }

end MemberResolution.TypeExpr

import MemberResolution.Syntax
import MemberResolution.TypeTable

/-!
# The table that a program starts from

Before members are resolved, every class of the program is put into the type
table as an empty class: the main class first, then the others in source
order. Where a name is declared again, or is the name of a builtin type, the
earlier type stays.
-/

namespace MemberResolution
set_option autoImplicit false

/-- Declares a class unless its name is taken. -/
def TypeTable.declareIfNew (t : TypeTable) (name : String) (isStatic : Bool) : TypeTable :=
  match t.declareClass name isStatic with
  | .ok (_, t) => t
  | .error _ => t

/-- The names of the classes with their static flags; the main class comes first and is not static. -/
def Program.declared (p : Program) : List (String × Bool) :=
  (p.main.name.name, false) :: p.classes.map fun c => (c.name.name, c.isStatic)

/-- The builtin types and an empty class for each class name of the program. -/
def Program.seed (p : Program) : TypeTable :=
  p.declared.foldl (fun t (name, isStatic) => t.declareIfNew name isStatic) .builtins

end MemberResolution

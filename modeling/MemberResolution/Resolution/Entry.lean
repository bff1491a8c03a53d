import MemberResolution.Diagnostic
import MemberResolution.Settings
import MemberResolution.TypeTable

/-!
# The entry method

The main class is given a static method that takes nothing and returns
nothing, under the name that the settings choose. It goes straight into the
table of static methods.
-/

namespace MemberResolution
set_option autoImplicit false

/-- The entry method of the main class. -/
def Settings.entry (settings : Settings) (owner : TypeId) : Method :=
  { name := settings.entryMethod, owner, isStatic := true, returnType := .void }

namespace MainClass

/-- The table with the entry method in the main class, if there is such a class. -/
def enter (settings : Settings) (t : TypeTable) (m : MainClass) : TypeTable :=
  match t.lookupClass m.name.name with
  | some id => t.modifyClass id fun c => c.insertMethod (settings.entry id)
  | none => t

/-- The main class with the key of the entry method in its slot. -/
def annotate (settings : Settings) (t : TypeTable) (m : MainClass) : MainClass :=
  match t.lookupClass m.name.name with
  | some id => { m with entry := some (settings.entry id).key }
  | none => m

/-- The report of a main class that is not in the table. -/
def problems (t : TypeTable) (m : MainClass) : List Diagnostic :=
  match t.lookupClass m.name.name with
  | some _ => []
  | none => [.typeNameMissing m.name]

end MainClass
end MemberResolution

import MemberResolution.Ancestry
import MemberResolution.Diagnostic
import MemberResolution.Settings

/-!
# Cyclic inheritance

A class must not be among its own ancestors. A class whose ancestors only run
into a cycle further up is reported as well, unless the settings say
otherwise. Only declarations with a base clause are reported.
-/

namespace MemberResolution
set_option autoImplicit false

/-- The class `id` is to be reported: it is among its own ancestors, or the settings ask for classes below a
cycle as well and its base links run into one. -/
def TypeTable.reportsCycle (settings : Settings) (t : TypeTable) (id : TypeId) : Bool :=
  let (above, walk) := (AncestorWalk.start t id).finish t
  above.contains id || (settings.reportAncestorCycles && walk.revisited.isSome)

/-- The report of a cycle above the declared class, in a table with all base links. -/
def ClassDecl.cycleProblems (settings : Settings) (t : TypeTable) (d : ClassDecl) : List Diagnostic :=
  match d.base, t.lookupClass d.name.name with
  | some base, some id =>
    if t.reportsCycle settings id then [⟨.cyclicBaseType base.name d.name.name, base.span⟩] else []
  | _, _ => []

end MemberResolution

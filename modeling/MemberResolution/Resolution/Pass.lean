import MemberResolution.Resolution.ClassDecl
import MemberResolution.Resolution.Cycle
import MemberResolution.Resolution.Entry
import MemberResolution.Seeding

/-!
# Resolving the members of a program

A run gives the main class its entry method, enters every class declaration in
source order, and looks for cycles once all base links are set. It changes the
table, fills slots of the program and reports what is wrong, in the order in
which it comes upon it; nothing stops it early. Entering members never changes
under which names types are registered, so what the slots get depends only on
the table that the run starts from, and all are filled from that one here. A
run that fills each slot when it comes to it leaves the same
(`Program.sweep_eq_resolve`).
-/

namespace MemberResolution
set_option autoImplicit false

/-- What a run leaves behind. -/
structure Resolution where
  table : TypeTable
  program : Program
  diagnostics : List Diagnostic
  deriving DecidableEq

namespace Program

/-- The program with its slots filled from a table. -/
def annotate (settings : Settings) (t : TypeTable) (p : Program) : Program :=
  { main := p.main.annotate settings t, classes := p.classes.map (·.annotate t) }

/-- Resolves the members of the program in a table. -/
def resolve (settings : Settings) (t : TypeTable) (p : Program) : Resolution :=
  let entered := p.main.enter settings t
  let table := p.classes.foldl TypeTable.enterClass entered
  { table
    program := p.annotate settings t
    diagnostics :=
      p.main.problems t ++ reportsAlong TypeTable.enterClass (fun t d => d.report t) entered p.classes ++
        p.classes.flatMap (·.cycleProblems settings table) }

/-- Resolves the members of the program in the table that its own declarations give. -/
def resolveAlone (settings : Settings) (p : Program) : Resolution := p.resolve settings p.seed

end Program

namespace Resolution

def hasErrors (r : Resolution) : Bool := !r.diagnostics.isEmpty

def render (r : Resolution) : String := Diagnostic.render r.diagnostics

end Resolution
end MemberResolution

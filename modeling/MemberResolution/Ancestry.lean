import MemberResolution.TypeTable

/-!
# Walking up the base links

A walk starts at the direct base of a class and follows base links upward. It
passes each type once: when a link leads back to a type that the walk has
passed, the walk ends there and remembers that type. So it ends on every
graph of base links, after at most one step more than the table has classes
and one step for noticing the end.
-/

namespace MemberResolution
set_option autoImplicit false

/-- Where a walk stands: the type it comes to next, those it has passed, and the one it came back to. -/
structure AncestorWalk where
  next : Option TypeId
  passed : List TypeId := []
  revisited : Option TypeId := none
  deriving DecidableEq

namespace AncestorWalk

/-- The walk that starts at the direct base of `id`. -/
def start (t : TypeTable) (id : TypeId) : AncestorWalk := { next := t.base? id }

/-- One step: the type that the walk passes now, if it has not ended. -/
def step (t : TypeTable) (w : AncestorWalk) : Option TypeId × AncestorWalk :=
  match w.next with
  | none => (none, w)
  | some id =>
    if id ∈ w.passed then (none, { w with next := none, revisited := some id })
    else (some id, { w with next := t.base? id, passed := id :: w.passed })

/-- Up to `count` steps, stopping where the walk ends: the types passed, and where the walk stands. -/
def take (t : TypeTable) : Nat → AncestorWalk → List TypeId × AncestorWalk
  | 0, w => ([], w)
  | count + 1, w =>
    match w.step t with
    | (none, w) => ([], w)
    | (some id, w) =>
      let (ids, w) := take t count w
      (id :: ids, w)

/-- Enough steps for every walk in `t` to end. -/
def bound (t : TypeTable) : Nat := t.size + 2

/-- The rest of a walk. -/
def finish (t : TypeTable) (w : AncestorWalk) : List TypeId × AncestorWalk := w.take t (bound t)

end AncestorWalk

namespace TypeTable

/-- The types above a class, nearest first, each once. -/
def ancestors (t : TypeTable) (id : TypeId) : List TypeId := ((AncestorWalk.start t id).finish t).1

/-- The type at which the chain of base links above `id` closes on itself, if it does. -/
def revisited? (t : TypeTable) (id : TypeId) : Option TypeId :=
  ((AncestorWalk.start t id).finish t).2.revisited

end TypeTable
end MemberResolution

import Mathlib.Data.List.Nodup
import MemberResolution.Proofs.Distinct

/-!
# The order of the declarations

Where no two class declarations share a name, it does not matter in which order
they stand. Each is entered into a class that no other declaration is entered
into, and what it reads there or elsewhere is not changed by the others. So a
program and the same program in another order leave the same table, fill the
same slots and give the same reports (`resolve_reordered`).
-/

namespace MemberResolution
set_option autoImplicit false

/-- Both programs have the same main class and the same class declarations, in whatever order. -/
structure Program.Reordered (p q : Program) : Prop where
  main : p.main = q.main
  classes : p.classes.Perm q.classes

/-- A list of equal elements has no other order. -/
theorem eq_of_perm_of_forall_eq {α : Type} {as bs : List α} (perm : as.Perm bs)
    (alike : ∀ a ∈ as, ∀ b ∈ as, a = b) : as = bs := by
  cases as with
  | nil => exact perm.nil_eq
  | cons a rest =>
    have copies : a :: rest = List.replicate (a :: rest).length a :=
      List.eq_replicate_of_mem fun b mem => alike b mem a List.mem_cons_self
    rw [copies] at perm ⊢
    exact (List.perm_replicate.1 perm.symm).symm

namespace Program

variable {p q : Program} (settings : Settings) {t : TypeTable} (small : t.size < UInt32.size)
  (distinct : (p.classes.map (·.name.name)).Nodup) (same : p.Reordered q)
include small distinct same

/-- A class has at most one declaration, which is the same in both programs. -/
theorem declarationsOf_reordered (id : TypeId) : p.declarationsOf t id = q.declarationsOf t id := by
  apply eq_of_perm_of_forall_eq (same.classes.filter _)
  intro d memD e memE
  obtain ⟨memD, foundD⟩ := List.mem_filter.1 memD
  obtain ⟨memE, foundE⟩ := List.mem_filter.1 memE
  have name : d.name.name = e.name.name :=
    TypeTable.lookupClass_injective (Nat.le_of_lt small) (of_decide_eq_true foundD) (of_decide_eq_true foundE)
  exact List.inj_on_of_nodup_map distinct memD memE name

theorem entered_reordered (id : TypeId) : p.entered settings t id = q.entered settings t id := by
  funext c
  rw [entered, entered, declarationsOf_reordered small distinct same, entryFor, entryFor, same.main]

theorem table_resolve_reordered : (p.resolve settings t).table = (q.resolve settings t).table := by
  apply TypeTable.eq_of_get?
  · rw [(q.sameHeads_resolve settings t).size]
    exact Nat.le_of_lt small
  · rw [(p.sameHeads_resolve settings t).names, (q.sameHeads_resolve settings t).names]
  · intro id
    rw [get?_resolve, get?_resolve, entered_reordered settings small distinct same]

/-- Each declaration is reported on by itself, and the cycles are those of one table. -/
theorem diagnostics_resolve_reordered :
    (p.resolve settings t).diagnostics.Perm (q.resolve settings t).diagnostics := by
  have bound : (p.main.enter settings t).size ≤ UInt32.size := by
    rw [(p.main.sameHeads_enter settings t).size]
    exact Nat.le_of_lt small
  have distinctQ : (q.classes.map (·.name.name)).Nodup := (same.classes.map _).nodup_iff.1 distinct
  rw [diagnostics_resolve, diagnostics_resolve, ← table_resolve_reordered settings small distinct same, ← same.main,
    TypeTable.reportsAlong_of_distinct bound distinct, TypeTable.reportsAlong_of_distinct bound distinctQ]
  exact ((List.Perm.refl _).append (same.classes.flatMap_right _)).append (same.classes.flatMap_right _)

/-- **Declarations in another order.** A run leaves the same table and the same key of the entry method, annotates
each declaration alike wherever it stands, and reports the same. -/
theorem resolve_reordered :
    (p.resolve settings t).table = (q.resolve settings t).table ∧
      (∀ i j : Nat, p.classes[i]? = q.classes[j]? →
        (p.resolve settings t).program.classes[i]? = (q.resolve settings t).program.classes[j]?) ∧
      (p.resolve settings t).program.main.entry = (q.resolve settings t).program.main.entry ∧
      (p.resolve settings t).diagnostics.Perm (q.resolve settings t).diagnostics := by
  refine ⟨table_resolve_reordered settings small distinct same, ?_, ?_,
    diagnostics_resolve_reordered settings small distinct same⟩
  · intro i j here
    show (p.classes.map (·.annotate t))[i]? = (q.classes.map (·.annotate t))[j]?
    rw [List.getElem?_map, List.getElem?_map, here]
  · show (p.main.annotate settings t).entry = (q.main.annotate settings t).entry
    rw [same.main]

end Program

namespace Program

/-- Two classes that extend each other, the first of which repeats a field and has a method of the second, a class
with the main class's name that declares the entry method, and a class that the table does not have. -/
def scattered : Program :=
  let right : TypeExpr := ⟨.named ⟨"Right", ⟨30, 5⟩⟩, ⟨30, 5⟩, none⟩
  let size : FieldDecl := { type := ⟨.int, ⟨20, 3⟩, none⟩, name := ⟨"size", ⟨24, 4⟩⟩ }
  let turn : MethodDecl := { name := ⟨"turn", ⟨36, 4⟩⟩, returnType := right }
  let entry : MethodDecl := { name := ⟨"main", ⟨70, 4⟩⟩, isStatic := true, returnType := ⟨.int, ⟨66, 3⟩, none⟩ }
  { main := { name := ⟨"Main", ⟨6, 4⟩⟩ }
    classes := [
      { name := ⟨"Left", ⟨13, 4⟩⟩, base := some ⟨"Right", ⟨26, 5⟩⟩, fields := [size, size], methods := [turn] },
      { name := ⟨"Main", ⟨60, 4⟩⟩, methods := [entry] },
      { name := ⟨"Gone", ⟨80, 4⟩⟩, fields := [size] },
      { name := ⟨"Right", ⟨90, 5⟩⟩, base := some ⟨"Left", ⟨104, 4⟩⟩, methods := [turn] }] }

/-- Backwards it is resolved alike, in a table where the second of the two classes is static and has a base already. -/
theorem resolve_reordered_scattered :
    let declared := TypeTable.builtins.declareAll [("Right", true), ("Main", false), ("Left", false)]
    let t := declared.modifyClass (.ofPosition 5) fun c => { c with base := some (.ofPosition 6) }
    let backwards : Program := { scattered with classes := scattered.classes.reverse }
    t.size < UInt32.size ∧ (scattered.classes.map (·.name.name)).Nodup ∧ scattered.Reordered backwards ∧
      (scattered.resolve {} t).table = (backwards.resolve {} t).table ∧
      (scattered.resolve {} t).program.classes[1]? = (backwards.resolve {} t).program.classes[2]? ∧
      (scattered.resolve {} t).program.main.entry = (backwards.resolve {} t).program.main.entry ∧
      (scattered.resolve {} t).diagnostics.Perm (backwards.resolve {} t).diagnostics ∧
      (scattered.resolve {} t).diagnostics.length = 6 := by
  intro declared t backwards
  have small : t.size < UInt32.size := by decide +kernel
  have distinct : (scattered.classes.map (·.name.name)).Nodup := by decide +kernel
  have same : scattered.Reordered backwards := ⟨rfl, (List.reverse_perm scattered.classes).symm⟩
  obtain ⟨table, slots, entry, reports⟩ := resolve_reordered {} small distinct same
  exact ⟨small, distinct, same, table, slots 1 2 rfl, entry, reports, by decide +kernel⟩

end Program
end MemberResolution

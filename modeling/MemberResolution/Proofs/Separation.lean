import MemberResolution.Proofs.Entering
import MemberResolution.Proofs.NameIndex
import MemberResolution.Proofs.Reports
import MemberResolution.Proofs.Walk

/-!
# Tables that differ in the members of one class

Where two tables are equal except for the members of one class, a sweep over
the same declarations keeps them so (`SameButMembersOf.enterClasses`). What the
two sweeps report is the same as long as no declaration is entered into that
class (`SameButMembersOf.reportsAlong_eq`), and so are the cycles that are
found, whatever is declared (`SameButMembersOf.cycleProblems_eq`).
-/

namespace MemberResolution
set_option autoImplicit false

/-- Both tables are equal, except for the members of the class of one name. -/
structure TypeTable.SameButMembersOf (name : String) (s t : TypeTable) : Prop where
  heads : s.SameHeads t
  bases : ∀ id, s.base? id = t.base? id
  types : ∀ id, t.lookupClass name ≠ some id → s.get? id = t.get? id

namespace TypeTable.SameButMembersOf

variable {name : String} {r s t : TypeTable}

@[refl] theorem refl (name : String) (t : TypeTable) : t.SameButMembersOf name t :=
  ⟨.refl t, fun _ => rfl, fun _ _ => rfl⟩

@[symm] theorem symm (same : s.SameButMembersOf name t) : t.SameButMembersOf name s :=
  ⟨same.heads.symm, fun id => (same.bases id).symm, fun id apart =>
    (same.types id (same.heads.lookupClass name ▸ apart)).symm⟩

theorem trans (first : r.SameButMembersOf name s) (second : s.SameButMembersOf name t) : r.SameButMembersOf name t :=
  ⟨first.heads.trans second.heads, fun id => (first.bases id).trans (second.bases id), fun id apart =>
    (first.types id ((second.heads.lookupClass name).symm ▸ apart)).trans (second.types id apart)⟩

/-- A change of the members of the class. -/
theorem of_modifyClass {id : TypeId} (found : t.lookupClass name = some id) {f : ClassType → ClassType}
    (head : ∀ c, (f c).head = c.head) (base : ∀ c, (f c).base = c.base) :
    (t.modifyClass id f).SameButMembersOf name t := by
  refine ⟨sameHeads_modifyClass t id head, fun other => ?_, fun other apart => ?_⟩
  · rw [base?, base?, class?_modifyClass]
    split
    · next here =>
      rw [here, Option.bind_map]
      exact Option.bind_congr fun c _ => base c
    · rfl
  · rw [get?_modifyClass, if_neg]
    rintro rfl
    exact apart found

/-- Changes of one class keep the name, the flag and the base alike; they are the same if it is another class. -/
theorem modifyClass (same : s.SameButMembersOf name t) (id : TypeId) {f g : ClassType → ClassType}
    (headF : ∀ c, (f c).head = c.head) (headG : ∀ c, (g c).head = c.head)
    (base : ∀ c d, c.base = d.base → (f c).base = (g d).base) (alike : t.lookupClass name ≠ some id → f = g) :
    (s.modifyClass id f).SameButMembersOf name (t.modifyClass id g) := by
  refine ⟨?_, fun other => ?_, fun other apart => ?_⟩
  · exact (sameHeads_modifyClass s id headF).trans (same.heads.trans (sameHeads_modifyClass t id headG).symm)
  · have before := same.bases other
    have held := same.heads.isSome_class? other
    rw [base?, base?] at before ⊢
    rw [class?_modifyClass, class?_modifyClass]
    split
    · next here =>
      subst here
      cases left : s.class? other with
      | none =>
        rw [left, Option.isSome_none, Eq.comm, Option.isSome_eq_false_iff, Option.isNone_iff_eq_none] at held
        rw [held]
        rfl
      | some c =>
        rw [left, Option.isSome_some] at held
        obtain ⟨d, right⟩ := Option.isSome_iff_exists.1 held.symm
        rw [left, right] at before
        rw [right]
        exact base c d before
    · exact before
  · rw [lookupClass_modifyClass] at apart
    rw [get?_modifyClass, get?_modifyClass]
    split
    · next here =>
      subst here
      rw [alike apart, same.types other apart]
    · exact same.types other apart

/-- Two declarations of one name and base are entered, which are the same if the class is another one. -/
theorem enterClass (same : s.SameButMembersOf name t) {d e : ClassDecl} (sameName : d.name = e.name)
    (sameBase : d.base = e.base) (alike : d.name.name ≠ name → d = e) :
    (s.enterClass d).SameButMembersOf name (t.enterClass e) := by
  unfold TypeTable.enterClass
  rw [same.heads.lookupClass, ← sameName]
  cases found : t.lookupClass d.name.name with
  | none => exact same
  | some id =>
    refine same.modifyClass id (fun c => d.head_enter s id c) (fun c => e.head_enter t id c) ?_ ?_
    · intro c c' base
      have link : d.base? s = e.base? t := by
        rw [d.base?_congr same.heads, ClassDecl.base?, ClassDecl.base?, sameBase]
      rw [d.base_enter, e.base_enter, link, base]
    · intro apart
      have other : d.name.name ≠ name := fun here => apart (here ▸ found)
      rw [d.enter_congr same.heads, alike other]

theorem of_enterClass (t : TypeTable) {d e : ClassDecl} (sameName : d.name = e.name) (sameBase : d.base = e.base) :
    (t.enterClass d).SameButMembersOf d.name.name (t.enterClass e) :=
  (refl d.name.name t).enterClass sameName sameBase fun other => absurd rfl other

theorem enterClasses (same : s.SameButMembersOf name t) (ds : List ClassDecl) :
    (ds.foldl TypeTable.enterClass s).SameButMembersOf name (ds.foldl TypeTable.enterClass t) := by
  induction ds generalizing s t with
  | nil => exact same
  | cons d rest ih => exact ih (same.enterClass rfl rfl fun _ => rfl)

/-- Declarations of other classes are reported on alike. -/
theorem reportsAlong_eq (same : s.SameButMembersOf name t) (small : t.size ≤ UInt32.size) {ds : List ClassDecl}
    (others : ∀ d ∈ ds, d.name.name ≠ name) :
    reportsAlong TypeTable.enterClass (fun t d => d.report t) s ds =
      reportsAlong TypeTable.enterClass (fun t d => d.report t) t ds := by
  induction ds generalizing s t with
  | nil => rfl
  | cons d rest ih =>
    have members : ∀ id, t.lookupClass d.name.name = some id → s.class? id = t.class? id := by
      intro id found
      have apart : t.lookupClass name ≠ some id := fun here =>
        others d List.mem_cons_self (lookupClass_injective small found here)
      rw [class?, class?, same.types id apart]
    have bound : (t.enterClass d).size ≤ UInt32.size := (t.sameHeads_enterClass d).size ▸ small
    rw [reportsAlong_cons, reportsAlong_cons, d.report_congr same.heads members,
      ih (same.enterClass rfl rfl fun _ => rfl) bound fun e mem => others e (List.mem_cons_of_mem d mem)]

theorem cycleProblems_eq (same : s.SameButMembersOf name t) (settings : Settings) (d : ClassDecl) :
    d.cycleProblems settings s = d.cycleProblems settings t := by
  have reports : s.reportsCycle settings = t.reportsCycle settings := by
    funext id
    rw [Bool.eq_iff_iff, reportsCycle_iff, reportsCycle_iff, funext same.bases]
  simp only [ClassDecl.cycleProblems, same.heads.lookupClass, reports]

end TypeTable.SameButMembersOf

theorem MainClass.sameButMembersOf_enter (settings : Settings) (t : TypeTable) (m : MainClass) :
    (m.enter settings t).SameButMembersOf m.name.name t := by
  unfold enter
  cases found : t.lookupClass m.name.name with
  | none => exact .refl _ t
  | some id => exact .of_modifyClass found (fun c => c.head_insertMethod _) fun c => c.base_insertMethod _

end MemberResolution

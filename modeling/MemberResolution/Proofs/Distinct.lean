import MemberResolution.Proofs.Seeding
import MemberResolution.Proofs.Separation

/-!
# Declarations of distinct names

Where no two declarations share a name, each is entered into a class of its
own. So it is reported on as if it came first (`reportsAlong_of_distinct`), and
in the table of its own program its class ends up with what it declares and
nothing else (`class?_resolveAlone`).
-/

namespace MemberResolution
set_option autoImplicit false

/-! ## Reports -/

/-- Each declaration is reported on as if it came first. -/
theorem TypeTable.reportsAlong_of_distinct {t : TypeTable} (small : t.size ≤ UInt32.size) {ds : List ClassDecl}
    (distinct : (ds.map (·.name.name)).Nodup) :
    reportsAlong enterClass (fun t d => d.report t) t ds = ds.flatMap (·.report t) := by
  -- the classes of the declarations to come are as they were
  apply reportsAlong_eq_flatMap fun s rest => s.SameHeads t ∧ (rest.map (·.name.name)).Nodup ∧
    ∀ d ∈ rest, ∀ id, t.lookupClass d.name.name = some id → s.class? id = t.class? id
  · rintro s d rest ⟨same, distinct, untouched⟩
    obtain ⟨new, distinct⟩ := List.nodup_cons.1 distinct
    refine ⟨d.report_congr same (untouched d List.mem_cons_self), (s.sameHeads_enterClass d).trans same, distinct, ?_⟩
    intro e mem id found
    rw [← untouched e (List.mem_cons_of_mem d mem) id found, enterClass, same.lookupClass]
    cases here : t.lookupClass d.name.name with
    | none => rfl
    | some other =>
      have apart : id ≠ other := by
        rintro rfl
        have name : e.name.name = d.name.name := lookupClass_injective small found here
        exact new (List.mem_map.2 ⟨e, mem, name⟩)
      show (s.modifyClass other (d.enter s other)).class? id = _
      rw [class?_modifyClass, if_neg apart]
  · exact ⟨SameHeads.refl t, distinct, fun _ _ _ _ => rfl⟩

/-! ## Programs alone -/

namespace Program

variable {p : Program} (distinct : p.names.Nodup)
include distinct

theorem nodup_classNames : (p.classes.map (·.name.name)).Nodup := (List.nodup_cons.1 distinct).2

theorem main_ne_of_mem {d : ClassDecl} (mem : d ∈ p.classes) : p.main.name.name ≠ d.name.name := by
  intro same
  exact (List.nodup_cons.1 distinct).1 (List.mem_map.2 ⟨d, mem, same.symm⟩)

theorem find?_declared_of_mem {d : ClassDecl} (mem : d ∈ p.classes) :
    p.declared.find? (·.1 = d.name.name) = some (d.name.name, d.isStatic) := by
  have keys : (p.declared.map Prod.fst).Nodup := by rwa [map_fst_declared]
  exact find?_key_of_mem keys (List.mem_cons_of_mem _ (List.mem_map.2 ⟨d, mem, rfl⟩))

variable (small : p.classes.length < UInt32.size - 5) {id : TypeId}
include small

/-- In its own table a program has at most one declaration for each class. -/
theorem declarationsOf_seed {name : String} (found : p.seed.lookupClass name = some id) :
    p.declarationsOf p.seed id = (p.classes.find? (·.name.name = name)).toList := by
  rw [← filter_eq_toList_find? (nodup_classNames distinct)]
  exact p.declarationsOf_eq_filter (size_seed_le_of_few small) found

variable {d : ClassDecl} (mem : d ∈ p.classes) (found : p.seed.lookupClass d.name.name = some id)
include mem found

theorem class?_seed_of_mem : p.seed.class? id = some (.placeholder (d.name.name, d.isStatic)) := by
  obtain ⟨first, declared, held⟩ := class?_seed small found
  rw [find?_declared_of_mem distinct mem] at declared
  rw [held, ← Option.some.inj declared]

/-- **What a run alone leaves in the class of a declaration.** -/
theorem class?_resolveAlone (settings : Settings) : (p.resolveAlone settings).table.class? id =
    some (d.enter p.seed id (.placeholder (d.name.name, d.isStatic))) := by
  have bound := size_seed_le_of_few small
  have entryless : p.entryFor settings p.seed id = [] := by
    rw [entryFor, if_neg]
    intro main
    exact main_ne_of_mem distinct mem (TypeTable.lookupClass_injective bound main found)
  rw [resolveAlone, class?_resolve, class?_seed_of_mem distinct small mem found, Option.map_some, entered, entryless,
    declarationsOf_seed distinct small found, find?_key_of_mem (nodup_classNames distinct) mem]
  rfl

end Program

/-- What a run alone reports, declaration by declaration. -/
theorem Program.diagnostics_resolveAlone {p : Program} (settings : Settings) (distinct : p.names.Nodup)
    (small : p.classes.length < UInt32.size - 5) : (p.resolveAlone settings).diagnostics =
      p.main.problems p.seed ++ p.classes.flatMap (·.report p.seed) ++
        p.classes.flatMap (·.cycleProblems settings (p.resolveAlone settings).table) := by
  have seeded := size_seed_le_of_few small
  have others : ∀ d ∈ p.classes, d.name.name ≠ p.main.name.name := fun d mem => (main_ne_of_mem distinct mem).symm
  rw [resolveAlone, diagnostics_resolve, (p.main.sameButMembersOf_enter settings p.seed).reportsAlong_eq seeded others,
    TypeTable.reportsAlong_of_distinct seeded (nodup_classNames distinct)]

end MemberResolution

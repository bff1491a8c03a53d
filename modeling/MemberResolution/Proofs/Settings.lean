import MemberResolution.Proofs.Frame
import MemberResolution.Proofs.Separation

/-!
# What the settings can change

The settings name the entry method of the main class and say whether classes
below a cycle are reported. Where no other declaration has the name of the main
class, they change nothing but its static methods and its slot, and which of
the cycles are reported (`resolve_settings`). The name of the entry method
never gets into the reports; a report that is given up with the flag is one on
a class that is not among its own ancestors.
-/

namespace MemberResolution
set_option autoImplicit false

/-- Both tables are equal, except for the static methods of the class of one name. -/
def TypeTable.SameButStaticMethods (name : String) (s t : TypeTable) : Prop :=
  match t.lookupClass name with
  | some id => ∃ statics, s = t.modifyClass id fun c => { c with staticMethods := statics }
  | none => s = t

/-- A report of a cycle above a class that is not on it. -/
def Diagnostic.isBelowCycle (t : TypeTable) (x : Diagnostic) : Bool :=
  match x.problem with
  | .cyclicBaseType _ className => (t.lookupClass className).any fun id => !(t.ancestors id).contains id
  | _ => false

theorem Diagnostic.isBelowCycle_of_code (t : TypeTable) {x : Diagnostic} (other : x.code ≠ .cyclicBaseType) :
    x.isBelowCycle t = false := by
  obtain ⟨problem, span⟩ := x
  cases problem with
  | cyclicBaseType => exact absurd rfl other
  | _ => rfl

/-! ## Reports of cycles -/

namespace ClassDecl

variable {settings changed : Settings} (t : TypeTable) (d : ClassDecl)

theorem cycleProblems_of_flag (flag : settings.reportAncestorCycles = changed.reportAncestorCycles) :
    d.cycleProblems settings t = d.cycleProblems changed t := by
  have reports : t.reportsCycle settings = t.reportsCycle changed := by
    funext id
    rw [TypeTable.reportsCycle_eq, TypeTable.reportsCycle_eq, flag]
  simp only [cycleProblems, reports]

/-- Without the flag, the reports on classes below a cycle are gone and no others. -/
theorem cycleProblems_eq_filter (off : settings.reportAncestorCycles = false)
    (on : changed.reportAncestorCycles = true) :
    d.cycleProblems settings t = (d.cycleProblems changed t).filter (!·.isBelowCycle t) := by
  cases clause : d.base with
  | none => simp only [cycleProblems, clause, List.filter_nil]
  | some base =>
    cases found : t.lookupClass d.name.name with
    | none => simp only [cycleProblems, clause, found, List.filter_nil]
    | some id =>
      have below : Diagnostic.isBelowCycle t ⟨.cyclicBaseType base.name d.name.name, base.span⟩ =
          !(t.ancestors id).contains id := by
        simp only [Diagnostic.isBelowCycle, found, Option.any_some]
      have without : t.reportsCycle settings id = (t.ancestors id).contains id := by
        rw [TypeTable.reportsCycle_eq, off, Bool.false_and, Bool.or_false]
      have all : t.reportsCycle changed id = ((t.ancestors id).contains id || (t.revisited? id).isSome) := by
        rw [TypeTable.reportsCycle_eq, on, Bool.true_and]
      simp only [cycleProblems, clause, found, without, all]
      cases own : (t.ancestors id).contains id with
      | true =>
        rw [own, Bool.not_true] at below
        simp [below]
      | false =>
        rw [own, Bool.not_false] at below
        simp only [Bool.false_or, Bool.false_eq_true, if_false]
        split
        · simp [below]
        · rfl

end ClassDecl

/-! ## Whole runs -/

theorem TypeTable.get?_of_class? {t : TypeTable} {id : TypeId} {c : ClassType} (held : t.class? id = some c) :
    t.get? id = some (.classType c) := by
  obtain ⟨e, stored, asClass⟩ := Option.bind_eq_some_iff.1 held
  cases e with
  | classType d =>
    cases asClass
    exact stored
  | _ => cases asClass

namespace Program

variable (settings changed : Settings) {t : TypeTable} {p : Program}

section Apart

variable (small : t.size < UInt32.size) (apart : ∀ d ∈ p.classes, d.name.name ≠ p.main.name.name)
include small apart

theorem sameButStaticMethods_settings :
    (p.resolve settings t).table.SameButStaticMethods p.main.name.name (p.resolve changed t).table := by
  have heads := p.sameHeads_resolve settings t
  have headsChanged := p.sameHeads_resolve changed t
  have bound : (p.resolve changed t).table.size ≤ UInt32.size := headsChanged.size ▸ Nat.le_of_lt small
  have names : (p.resolve settings t).table.names = (p.resolve changed t).table.names :=
    heads.names.trans headsChanged.names.symm
  -- only the entry method depends on the settings, and only the main class has one
  have others : ∀ id, t.lookupClass p.main.name.name ≠ some id →
      (p.resolve settings t).table.get? id = (p.resolve changed t).table.get? id := by
    intro id other
    have same : p.entered settings t id = p.entered changed t id := by
      funext c
      rw [entered, entered, entryFor, entryFor, if_neg other, if_neg other]
    rw [get?_resolve, get?_resolve, same]
  unfold TypeTable.SameButStaticMethods
  rw [headsChanged.lookupClass]
  cases found : t.lookupClass p.main.name.name with
  | none =>
    refine TypeTable.eq_of_get? bound names fun id => others id ?_
    rw [found]
    exact (Option.some_ne_none id).symm
  | some main =>
    obtain ⟨c, held⟩ := TypeTable.exists_class?_of_lookupClass found
    refine ⟨c.staticMethods.insert (settings.entry main), TypeTable.eq_of_get? ?_ ?_ fun id => ?_⟩
    · rwa [TypeTable.size_modifyClass]
    · rw [TypeTable.names_modifyClass, names]
    · rw [TypeTable.get?_modifyClass]
      split
      · next here =>
        rw [here, get?_resolve, get?_resolve, TypeTable.get?_of_class? held, Option.map_some, Option.map_some,
          Option.map_some]
        simp only [TypeEntity.mapClass, entered_main _ small apart found]
      · next other => exact others id fun here => other (Option.some.inj (here.symm.trans found))

theorem diagnostics_settings : ∃ front, (∀ x ∈ front, x.code ≠ .cyclicBaseType) ∧
    (p.resolve settings t).diagnostics =
      front ++ p.classes.flatMap (·.cycleProblems settings (p.resolve changed t).table) ∧
    (p.resolve changed t).diagnostics =
      front ++ p.classes.flatMap (·.cycleProblems changed (p.resolve changed t).table) := by
  -- no declaration is entered into the main class, so its entry method is not met again during the sweep
  have main : (p.main.enter settings t).SameButMembersOf p.main.name.name (p.main.enter changed t) :=
    (p.main.sameButMembersOf_enter settings t).trans (p.main.sameButMembersOf_enter changed t).symm
  have tables : (p.resolve settings t).table.SameButMembersOf p.main.name.name (p.resolve changed t).table :=
    main.enterClasses p.classes
  have bound : (p.main.enter changed t).size ≤ UInt32.size := by
    rw [(p.main.sameHeads_enter changed t).size]
    exact Nat.le_of_lt small
  refine ⟨_, fun x mem => ?_, ?_, diagnostics_resolve changed t p⟩
  · rcases List.mem_append.1 mem with mem | mem
    · rw [MainClass.code_problems mem]
      decide
    · obtain ⟨s, d, -, mem⟩ := mem_reportsAlong mem
      exact ClassDecl.code_report mem
  · rw [diagnostics_resolve, main.reportsAlong_eq bound apart]
    simp only [tables.cycleProblems_eq settings]

end Apart

theorem annotate_settings (t : TypeTable) (p : Program) :
    p.annotate settings t = { p.annotate changed t with
      main := { (p.annotate changed t).main with entry := (p.annotate settings t).main.entry } } := by
  have main : p.main.annotate settings t =
      { p.main.annotate changed t with entry := (p.main.annotate settings t).entry } := by
    unfold MainClass.annotate
    cases t.lookupClass p.main.name.name <;> rfl
  exact congrArg (Program.mk · _) main

/-- **What the settings can change.** Where no other declaration has the name of the main class, two runs with
different settings leave the same table up to the static methods of the main class, the same program up to its slot,
and the same reports besides those of cycles. With the same flag, they report the same; without the flag, the reports
of cycles above classes that are not among their own ancestors are missing and no others. -/
theorem resolve_settings (small : t.size < UInt32.size) (apart : ∀ d ∈ p.classes, d.name.name ≠ p.main.name.name) :
    let r := p.resolve settings t
    let s := p.resolve changed t
    r.table.SameButStaticMethods p.main.name.name s.table ∧
      r.program = { s.program with main := { s.program.main with entry := r.program.main.entry } } ∧
      r.diagnostics.filter (·.code ≠ .cyclicBaseType) = s.diagnostics.filter (·.code ≠ .cyclicBaseType) ∧
      (settings.reportAncestorCycles = changed.reportAncestorCycles → r.diagnostics = s.diagnostics) ∧
      (settings.reportAncestorCycles = false → changed.reportAncestorCycles = true →
        r.diagnostics = s.diagnostics.filter (!·.isBelowCycle s.table)) := by
  intro r s
  obtain ⟨front, others, reports, reportsChanged⟩ := diagnostics_settings settings changed small apart
  refine ⟨sameButStaticMethods_settings settings changed small apart, annotate_settings settings changed t p,
    ?_, fun flag => ?_, fun off on => ?_⟩
  · have cycles : ∀ any : Settings, (p.classes.flatMap (·.cycleProblems any s.table)).filter
        (·.code ≠ .cyclicBaseType) = [] := by
      intro any
      apply List.filter_eq_nil_iff.2
      intro x mem
      simp [code_of_mem_cycles mem]
    rw [reports, reportsChanged, List.filter_append, List.filter_append, cycles, cycles]
  · rw [reports, reportsChanged]
    simp only [ClassDecl.cycleProblems_of_flag _ _ flag]
  · have kept : front.filter (!·.isBelowCycle s.table) = front := by
      apply List.filter_eq_self.2
      intro x mem
      rw [Diagnostic.isBelowCycle_of_code _ (others x mem), Bool.not_false]
    rw [reports, reportsChanged, List.filter_append, List.filter_flatMap, kept]
    simp only [ClassDecl.cycleProblems_eq_filter _ _ off on, s]

/-- Two classes that extend each other and one below them, with static methods that are named like entry methods. -/
def manyEntries : Program :=
  let run (name : String) (offset : Nat) : MethodDecl :=
    { name := ⟨name, ⟨offset, 5⟩⟩, isStatic := true, returnType := ⟨.boolean, ⟨offset - 8, 7⟩, none⟩ }
  { main := { name := ⟨"Main", ⟨6, 4⟩⟩ }
    classes := [
      { name := ⟨"Left", ⟨17, 4⟩⟩, base := some ⟨"Right", ⟨30, 5⟩⟩, methods := [run "main" 50] },
      { name := ⟨"Right", ⟨60, 5⟩⟩, base := some ⟨"Left", ⟨74, 4⟩⟩, methods := [run "start" 90] },
      { name := ⟨"Below", ⟨100, 5⟩⟩, base := some ⟨"Left", ⟨114, 4⟩⟩, methods := [run "main" 130, run "main" 150] }] }

/-- In a table that an earlier run has filled, the class below the cycle is reported with one setting only; the
methods that the table has already are reported with both, whatever the entry method is called. -/
theorem resolve_settings_manyEntries :
    let quiet : Settings := { entryMethod := "start", reportAncestorCycles := false }
    let t := (manyEntries.resolveAlone {}).table
    let r := manyEntries.resolve quiet t
    let s := manyEntries.resolve {} t
    t.size < UInt32.size ∧ (∀ d ∈ manyEntries.classes, d.name.name ≠ manyEntries.main.name.name) ∧
      r.table.SameButStaticMethods "Main" s.table ∧ r.table ≠ s.table ∧
      r.program = { s.program with main := { s.program.main with entry := some ⟨"start", []⟩ } } ∧
      r.diagnostics.filter (·.code ≠ .cyclicBaseType) = s.diagnostics.filter (·.code ≠ .cyclicBaseType) ∧
      r.diagnostics = s.diagnostics.filter (!·.isBelowCycle s.table) ∧
      s.diagnostics.map Diagnostic.problem =
        [.methodDuplicates "Left" "main", .methodDuplicates "Right" "start", .methodDuplicates "Below" "main",
          .methodDuplicates "Below" "main", .cyclicBaseType "Right" "Left", .cyclicBaseType "Left" "Right",
          .cyclicBaseType "Left" "Below"] ∧
      r.diagnostics.length = 6 := by
  intro quiet t r s
  have small : t.size < UInt32.size := by decide +kernel
  have apart : ∀ d ∈ manyEntries.classes, d.name.name ≠ manyEntries.main.name.name := by decide
  obtain ⟨tables, programs, others, -, reports⟩ := resolve_settings quiet {} small apart
  have slot : r.program.main.entry = some ⟨"start", []⟩ := by decide +kernel
  rw [slot] at programs
  exact ⟨small, apart, tables, by decide +kernel, programs, others, reports rfl rfl, by decide +kernel,
    by decide +kernel⟩

end Program
end MemberResolution

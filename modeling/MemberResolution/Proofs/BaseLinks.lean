import Mathlib.Data.List.Forall2
import MemberResolution.Proofs.Entering
import MemberResolution.Proofs.Placeholders
import MemberResolution.Proofs.Reports
import MemberResolution.Proofs.Slots

/-!
# Base links as written

A declaration is linked to the class that its `extends` clause names, if that
name and its own are names of classes; it does not matter where in the source
text that class is declared. Where several declarations have one name, their
class keeps the base of the last of them that is linked, since a clause that
leads nowhere leaves an earlier link as it is. A static class that is extended
is reported and linked all the same (`baseLinks_resolveAlone`).
-/

namespace MemberResolution
set_option autoImplicit false

/-- The report of a static class that is extended. -/
def Diagnostic.staticBaseType (base : Ident) : Diagnostic := ⟨.staticBaseType base.name, base.span⟩

/-- The clause that links a declaration to a class of the program. -/
def Program.linkedBase (p : Program) (d : ClassDecl) : Option Ident :=
  if d.name.name ∈ builtinNames then none
  else d.base.filter fun base => base.name ∈ p.names ∧ base.name ∉ builtinNames

/-- How a run fills the base slot of a declaration. -/
structure ClassDecl.BaseFilled (p : Program) (t : TypeTable) (written filled : ClassDecl) : Prop where
  name : filled.name = written.name
  linked : ∀ base ∈ p.linkedBase written, ∃ id c, filled.resolvedBase = some id ∧
    t.lookupClass base.name = some id ∧ t.class? id = some c ∧ c.name = base.name
  unlinked : p.linkedBase written = none → filled.resolvedBase = none

theorem ClassDecl.filter_map_annotate (t : TypeTable) (name : String) (ds : List ClassDecl) :
    (ds.map (·.annotate t)).filter (·.name.name = name) = (ds.filter (·.name.name = name)).map (·.annotate t) := by
  rw [List.filter_map]
  congr 1
  apply List.filter_congr
  intro d _
  rw [Function.comp_apply, d.name_annotate]

/-- The class that a clause names is static. -/
def TypeTable.isStaticBase (t : TypeTable) (base : Ident) : Bool :=
  ((t.lookupClass base.name).bind t.class?).any (·.isStatic)

theorem ClassDecl.static_baseProblems (t : TypeTable) (d : ClassDecl) :
    Diagnostic.withCode .staticBaseType (d.baseProblems t) =
      (d.base.filter t.isStaticBase).toList.map .staticBaseType := by
  unfold baseProblems
  cases d.base with
  | none => rfl
  | some base =>
    rw [Option.filter_some, TypeTable.isStaticBase]
    cases found : t.lookupClass base.name with
    | none => simp [found, Diagnostic.withCode, Diagnostic.code, Diagnostic.typeNameMissing, Problem.code]
    | some id =>
      simp only [found, Option.bind_some]
      split <;> rfl

/-- Of the reports on a declaration, only that on its clause can be about a static class. -/
theorem ClassDecl.static_ownProblems (t : TypeTable) (d : ClassDecl) :
    Diagnostic.withCode .staticBaseType (d.ownProblems t) =
      (d.base.filter t.isStaticBase).toList.map .staticBaseType := by
  have fields : Diagnostic.withCode .staticBaseType (d.fields.flatMap (·.type.problems t)) = [] := by
    apply Diagnostic.withCode_eq_nil
    intro x mem
    obtain ⟨f, -, mem⟩ := List.mem_flatMap.1 mem
    rw [TypeExpr.code_problems mem]
    decide
  have methods : Diagnostic.withCode .staticBaseType (d.methods.flatMap (·.signatureProblems t)) = [] := by
    apply Diagnostic.withCode_eq_nil
    intro x mem
    obtain ⟨m, -, mem⟩ := List.mem_flatMap.1 mem
    rcases MethodDecl.code_signatureProblems mem with code | code <;> rw [code] <;> decide
  rw [ownProblems, Diagnostic.withCode_append, Diagnostic.withCode_append, fields, methods, List.append_nil,
    List.append_nil, d.static_baseProblems]

/-! ## One declaration -/

namespace Program

variable {p : Program}

theorem known_of_linkedBase {d : ClassDecl} {base : Ident} (linked : p.linkedBase d = some base) :
    base.name ∈ p.names ∧ base.name ∉ builtinNames := by
  unfold linkedBase at linked
  split at linked
  · cases linked
  · exact of_decide_eq_true (Option.filter_eq_some_iff.1 linked).2

/-- A class is static after a run just when the first declaration of its name is. -/
theorem isStatic_of_class?_resolveAlone {settings : Settings} {id : TypeId} {c : ClassType}
    (held : (p.resolveAlone settings).table.class? id = some c) : c.isStatic = p.declaredStatic c.name := by
  have heads := (p.sameHeads_resolve settings p.seed).head id
  rw [show (p.resolve settings p.seed).table.class? id = some c from held, Option.map_some] at heads
  obtain ⟨seeded, before, head⟩ := Option.map_eq_some_iff.1 heads.symm
  have name : seeded.name = c.name := congrArg Prod.fst head
  have flag : seeded.isStatic = c.isStatic := congrArg Prod.snd head
  rw [← flag, ← name, p.isStatic_of_class?_seed before]

variable (small : p.classes.length < UInt32.size - 5)
include small

/-- The base of a declaration is the class of the clause that links it. -/
theorem base?_eq_bind_linkedBase {d : ClassDecl} (other : d.name.name ∉ builtinNames) :
    d.base? p.seed = (p.linkedBase d).bind fun base => p.seed.lookupClass base.name := by
  rw [linkedBase, if_neg other, ClassDecl.base?]
  exact (bind_lookupClass_filter small Ident.name d.base).symm

theorem isStaticBase_seed (base : Ident) : p.seed.isStaticBase base =
    (decide (base.name ∈ p.names ∧ base.name ∉ builtinNames) && p.declaredStatic base.name) := by
  rw [TypeTable.isStaticBase]
  by_cases known : base.name ∈ p.names ∧ base.name ∉ builtinNames
  · obtain ⟨id, found⟩ := exists_lookupClass_seed small known.1 known.2
    obtain ⟨c, held⟩ := TypeTable.exists_class?_of_lookupClass found
    have name : c.name = base.name :=
      TypeTable.lookupClass_injective (size_seed_le_of_few small) (p.finds_seed id c held) found
    rw [found, Option.bind_some, held, Option.any_some, p.isStatic_of_class?_seed held, name, decide_eq_true known,
      Bool.true_and]
  · rw [(lookupClass_seed_eq_none_iff small).2 known, decide_eq_false known]
    rfl

theorem resolvedBase_annotate {d : ClassDecl} (mem : d ∈ p.classes) (empty : d.resolvedBase = none) :
    (d.annotate p.seed).resolvedBase = (p.linkedBase d).bind fun base => p.seed.lookupClass base.name := by
  unfold ClassDecl.annotate
  cases found : p.seed.lookupClass d.name.name with
  | none =>
    rw [linkedBase, if_pos ((lookupClass_declaration_eq_none_iff small mem).1 found)]
    exact empty
  | some id =>
    have other : d.name.name ∉ builtinNames := (declared_of_lookupClass small found).2
    show (d.base? p.seed).or d.resolvedBase = _
    rw [empty, Option.or_none, base?_eq_bind_linkedBase small other]

/-- The static class that a declaration is reported for. -/
theorem static_ownReport {d : ClassDecl} (mem : d ∈ p.classes) :
    Diagnostic.withCode .staticBaseType (d.ownReport p.seed) =
      ((p.linkedBase d).filter fun base => p.declaredStatic base.name).toList.map .staticBaseType := by
  unfold ClassDecl.ownReport
  cases found : p.seed.lookupClass d.name.name with
  | none =>
    rw [linkedBase, if_pos ((lookupClass_declaration_eq_none_iff small mem).1 found)]
    rfl
  | some id =>
    have other : d.name.name ∉ builtinNames := (declared_of_lookupClass small found).2
    show Diagnostic.withCode _ (d.ownProblems p.seed) = _
    rw [ClassDecl.static_ownProblems, linkedBase, if_neg other, Option.filter_filter]
    congr 3
    exact funext fun base => isStaticBase_seed small base

/-! ## The whole program -/

/-- The static classes that a run reports. -/
theorem static_resolveAlone (settings : Settings) :
    Diagnostic.withCode .staticBaseType (p.resolveAlone settings).diagnostics =
      ((p.classes.filterMap p.linkedBase).filter fun base => p.declaredStatic base.name).map .staticBaseType := by
  have main : Diagnostic.withCode .staticBaseType (p.main.problems p.seed) = [] := by
    apply Diagnostic.withCode_eq_nil
    intro x mem
    rw [MainClass.code_problems mem]
    decide
  rw [resolveAlone, p.withCode_own_resolve settings p.seed (by decide) (by decide) (by decide), main, List.nil_append,
    List.flatMap_congr fun d mem => static_ownReport small mem, List.filter_filterMap, List.filterMap_eq_flatMap_toList,
    List.map_flatMap]

variable (slotless : p.erase = p)
include slotless

theorem baseFilled_annotate (settings : Settings) {d : ClassDecl} (mem : d ∈ p.classes) :
    d.BaseFilled p (p.resolveAlone settings).table (d.annotate p.seed) := by
  have slot := resolvedBase_annotate small mem (resolvedBase_eq_none slotless mem)
  refine ⟨d.name_annotate p.seed, ?_, ?_⟩
  · intro base linked
    obtain ⟨declared, other⟩ := known_of_linkedBase linked
    obtain ⟨id, c, found, held, name⟩ := exists_class?_resolveAlone settings small declared other
    have before := ((p.sameHeads_resolve settings p.seed).lookupClass base.name).symm.trans found
    exact ⟨id, c, by rw [slot, Option.mem_def.1 linked, Option.bind_some, before], found, held, name⟩
  · intro unlinked
    rw [slot, unlinked, Option.bind_none]

/-- What a declaration is linked to is what its slot has afterwards. -/
theorem base?_eq_resolvedBase {d : ClassDecl} (mem : d ∈ p.classes) (other : d.name.name ∉ builtinNames) :
    d.base? p.seed = (d.annotate p.seed).resolvedBase := by
  rw [resolvedBase_annotate small mem (resolvedBase_eq_none slotless mem), base?_eq_bind_linkedBase small other]

/-- A class has the base of the last declaration of its name that is linked. -/
theorem base_of_class?_resolveAlone {settings : Settings} {id : TypeId} {c : ClassType}
    (held : (p.resolveAlone settings).table.class? id = some c) : c.base =
      (((p.resolveAlone settings).program.classes.filter (·.name.name = c.name)).reverse.findSome?
        (·.resolvedBase)) := by
  obtain ⟨found, declaration, entered⟩ := exists_entered_of_class?_resolveAlone held
  have other : c.name ∉ builtinNames := (declared_of_lookupClass small found).2
  have linked : c.base = p.baseOf p.seed id := by
    rw [entered, base_entered]
    exact Option.or_none
  show c.base = ((p.classes.map (·.annotate p.seed)).filter (·.name.name = c.name)).reverse.findSome? (·.resolvedBase)
  rw [linked, baseOf, p.declarationsOf_eq_filter (size_seed_le_of_few small) found, ClassDecl.filter_map_annotate,
    ← List.map_reverse, List.findSome?_map, ← List.head?_filterMap, ← List.head?_filterMap]
  congr 1
  apply List.filterMap_congr
  intro d mem
  obtain ⟨mem, same⟩ := List.mem_filter.1 (List.mem_reverse.1 mem)
  exact base?_eq_resolvedBase small slotless mem (of_decide_eq_true same ▸ other)

/-- **Base links as written.** The slot of a declaration has the class of the clause that links it, and is empty where
no clause does. A class has the base of the last declaration of its name with a full slot, and the flag of the first.
One static class after the other is reported, in source order, where a clause links to it. -/
theorem baseLinks_resolveAlone (settings : Settings) :
    let r := p.resolveAlone settings
    List.Forall₂ (ClassDecl.BaseFilled p r.table) p.classes r.program.classes ∧
      (∀ id c, r.table.class? id = some c →
        c.base = (r.program.classes.filter (·.name.name = c.name)).reverse.findSome? (·.resolvedBase) ∧
          c.isStatic = p.declaredStatic c.name) ∧
      Diagnostic.withCode .staticBaseType r.diagnostics =
        ((p.classes.filterMap p.linkedBase).filter fun base => p.declaredStatic base.name).map .staticBaseType := by
  intro r
  refine ⟨?_, ?_, static_resolveAlone small settings⟩
  · show List.Forall₂ _ p.classes (p.classes.map (·.annotate p.seed))
    rw [List.forall₂_map_right_iff, List.forall₂_same]
    exact fun d mem => baseFilled_annotate small slotless settings mem
  · intro id c held
    exact ⟨base_of_class?_resolveAlone small slotless held, isStatic_of_class?_resolveAlone held⟩

end Program

namespace Program

/-- A static class that is extended before it is declared and extends itself, and is declared again below the main
class; a class with two further declarations whose clauses lead nowhere; a static one with the name of the main class;
and one with the name of a builtin type. -/
def farLinks : Program :=
  { main := { name := ⟨"Main", ⟨6, 4⟩⟩ }
    classes := [
      { name := ⟨"Left", ⟨17, 4⟩⟩, base := some ⟨"Tools", ⟨30, 5⟩⟩ },
      { name := ⟨"Tools", ⟨52, 5⟩⟩, isStatic := true, base := some ⟨"Tools", ⟨66, 5⟩⟩ },
      { name := ⟨"Left", ⟨81, 4⟩⟩, isStatic := true, base := some ⟨"int", ⟨94, 3⟩⟩ },
      { name := ⟨"Tools", ⟨107, 5⟩⟩, base := some ⟨"Main", ⟨121, 4⟩⟩ },
      { name := ⟨"Main", ⟨140, 4⟩⟩, isStatic := true, base := some ⟨"Left", ⟨153, 4⟩⟩ },
      { name := ⟨"void", ⟨167, 4⟩⟩, base := some ⟨"Tools", ⟨180, 5⟩⟩ },
      { name := ⟨"Left", ⟨195, 4⟩⟩, base := some ⟨"Gone", ⟨208, 4⟩⟩ }] }

/-- The static class is reported twice, and the class that extends it first keeps it as its base. -/
theorem baseLinks_farLinks :
    let r := farLinks.resolveAlone {}
    farLinks.classes.length < UInt32.size - 5 ∧ farLinks.erase = farLinks ∧
      List.Forall₂ (ClassDecl.BaseFilled farLinks r.table) farLinks.classes r.program.classes ∧
      r.program.classes.map (·.resolvedBase) = [some (.ofPosition 7), some (.ofPosition 7), none,
        some (.ofPosition 5), some (.ofPosition 6), none, none] ∧
      (∃ c, r.table.class? (.ofPosition 6) = some c ∧ c.name = "Left" ∧ c.base = some (.ofPosition 7)) ∧
      Diagnostic.withCode .staticBaseType r.diagnostics =
        [⟨.staticBaseType "Tools", ⟨30, 5⟩⟩, ⟨.staticBaseType "Tools", ⟨66, 5⟩⟩] := by
  intro r
  have small : farLinks.classes.length < UInt32.size - 5 := by decide
  have slotless : farLinks.erase = farLinks := by decide +kernel
  obtain ⟨slots, classes, reports⟩ := baseLinks_resolveAlone small slotless {}
  have filled : r.program.classes.map (·.resolvedBase) = [some (.ofPosition 7), some (.ofPosition 7), none,
      some (.ofPosition 5), some (.ofPosition 6), none, none] := by decide +kernel
  have left : (r.table.class? (.ofPosition 6)).map (·.name) = some "Left" := by decide +kernel
  obtain ⟨c, held, name⟩ := Option.map_eq_some_iff.1 left
  refine ⟨small, slotless, slots, filled, ⟨c, held, name, ?_⟩, reports.trans (by decide +kernel)⟩
  rw [(classes _ c held).1, name]
  decide +kernel

end Program
end MemberResolution

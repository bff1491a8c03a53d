import MemberResolution.Proofs.FieldTables
import MemberResolution.Proofs.Inheritance
import MemberResolution.Proofs.Slots
import MemberResolution.Proofs.SoundMethods

/-!
# Well-formed programs

What it takes for a program to be resolved without a report is said on the
program as written, class by class, and with no cycle among the names that the
classes extend. A run alone reports nothing on a program of distinct class
names just when it is well-formed (`diagnostics_eq_nil_iff`), and then it fills
every slot (`complete_of_wellFormed`).
-/

namespace MemberResolution
set_option autoImplicit false

/-- The declaration is in order, given the names that its program declares. -/
structure ClassDecl.WellFormedIn (p : Program) (d : ClassDecl) : Prop where
  base : ∀ base ∈ d.base, base.name ∈ p.names
  /-- No static class is extended. -/
  instantiable : ∀ base ∈ d.base, ∀ e ∈ p.classes, e.name.name = base.name → e.isStatic = false
  types : ∀ e ∈ d.typeExprs, ∀ ident ∈ e.ident?, ident.name ∈ p.names ∨ ident.name ∈ builtinNames
  fields : (d.fields.map (·.name.name)).Nodup
  params : ∀ m ∈ d.methods, m.paramNames.Nodup
  /-- No two methods have the same flag, the same name and the same parameter types. -/
  methods : (d.methods.map (·.outline)).Nodup

/-- The program is in order as written. -/
structure Program.WellFormed (p : Program) : Prop where
  names : ∀ name ∈ p.names, name ∉ builtinNames
  classes : ∀ d ∈ p.classes, d.WellFormedIn p
  /-- No class comes back to itself along the names that classes extend. -/
  acyclic : ∀ d ∈ p.classes, ∀ k, chain p.baseName d.name.name (k + 1) ≠ some d.name.name

/-- Every slot of the declaration is filled, and its class has each of its members. -/
structure ClassDecl.ResolvedIn (t : TypeTable) (d : ClassDecl) : Prop where
  types : ∀ e ∈ d.typeExprs, ∃ id, e.resolved = some id ∧ id ≠ .unknown ∧ t.lookup e.spelling = some id
  base : ∀ base ∈ d.base, ∃ id, d.resolvedBase = some id ∧ t.lookupClass base.name = some id
  members : ∃ id c, t.lookupClass d.name.name = some id ∧ t.class? id = some c ∧
    (∀ base ∈ d.base, c.base = d.resolvedBase) ∧
    (∀ f ∈ d.fields, ∃ field, f.Describes t id field ∧ c.field? f.name.name = some field) ∧
    ∀ m ∈ d.methods, ∃ method, m.Describes t id method ∧ m.resolved = some method.key ∧
      (c.methodTable m.isStatic).find? method.key = some method

/-- Every slot of the program is filled, and the main class has its entry method. -/
structure Resolution.Complete (settings : Settings) (r : Resolution) : Prop where
  classes : ∀ d ∈ r.program.classes, d.ResolvedIn r.table
  entry : ∃ id c, r.table.lookupClass r.program.main.name.name = some id ∧ r.table.class? id = some c ∧
    r.program.main.entry = some (settings.entry id).key ∧
    c.staticMethod? (settings.entry id).key = some (settings.entry id)

namespace Program

variable {p : Program}

/-! ## One declaration -/

theorem problems_seed_eq_nil_iff (e : TypeExpr) : e.problems p.seed = [] ↔
    ∀ ident ∈ e.ident?, ident.name ∈ p.names ∨ ident.name ∈ builtinNames := by
  unfold TypeExpr.problems TypeExpr.ident?
  cases e.form with
  | named ident => simp [← contains_seed_iff]
  | intArray => simp
  | int => simp
  | boolean => simp

/-- Where no declaration is reported, no name of a builtin type is taken. -/
theorem notMem_builtinNames_of_silent (small : p.classes.length < UInt32.size - 5)
    (main : p.main.problems p.seed = []) (classes : ∀ d ∈ p.classes, d.report p.seed = []) :
    ∀ name ∈ p.names, name ∉ builtinNames := by
  have found : ∀ name ∈ p.names, (p.seed.lookupClass name).isSome := by
    rw [names, List.forall_mem_cons]
    constructor
    · unfold MainClass.problems at main
      cases found : p.seed.lookupClass p.main.name.name with
      | none => rw [found] at main; cases main
      | some id => rfl
    · intro name declared
      obtain ⟨d, mem, rfl⟩ := List.mem_map.1 declared
      have silent := classes d mem
      unfold ClassDecl.report at silent
      cases found : p.seed.lookupClass d.name.name with
      | none => rw [found] at silent; cases silent
      | some id => rfl
  intro name mem
  exact ((isSome_lookupClass_seed_iff small).1 (found name mem)).2

end Program

/-- All types of a declaration in order are known. -/
theorem ClassDecl.WellFormedIn.problems_seed_eq_nil {p : Program} {d : ClassDecl} (inOrder : d.WellFormedIn p) :
    ∀ e ∈ d.typeExprs, e.problems p.seed = [] := by
  intro e expr
  exact (Program.problems_seed_eq_nil_iff e).2 (inOrder.types e expr)

namespace Program

variable {p : Program} (distinct : p.names.Nodup) (small : p.classes.length < UInt32.size - 5)
include distinct small

/-- A class of the table is static just when the declaration of its name is. -/
theorem isStatic_seed_iff {name : String} {id : TypeId} (found : p.seed.lookupClass name = some id) :
    (p.seed.class? id).any (·.isStatic) = true ↔ ∃ e ∈ p.classes, e.name.name = name ∧ e.isStatic = true := by
  obtain ⟨first, declared, held⟩ := class?_seed small found
  have key : first.1 = name := by simpa using List.find?_some declared
  have mem : first ∈ p.declared := List.mem_of_find?_eq_some declared
  rw [held, Option.any_some]
  show first.2 = true ↔ _
  constructor
  · intro static
    rcases List.mem_cons.1 mem with main | other
    · rw [main] at static
      cases static
    · obtain ⟨e, memE, rfl⟩ := List.mem_map.1 other
      exact ⟨e, memE, key, static⟩
  · rintro ⟨e, mem, rfl, static⟩
    rw [find?_declared_of_mem distinct mem] at declared
    rw [← Option.some.inj declared]
    exact static

theorem baseProblems_seed_eq_nil_iff (plain : ∀ name ∈ p.names, name ∉ builtinNames) (d : ClassDecl) :
    d.baseProblems p.seed = [] ↔ ∀ base ∈ d.base,
      base.name ∈ p.names ∧ ∀ e ∈ p.classes, e.name.name = base.name → e.isStatic = false := by
  unfold ClassDecl.baseProblems
  cases d.base with
  | none => simp
  | some base =>
    simp only [Option.mem_some_iff, forall_eq']
    have declared := isSome_lookupClass_seed_iff (n := base.name) small
    cases found : p.seed.lookupClass base.name with
    | none =>
      rw [found] at declared
      have missing : base.name ∉ p.names := fun mem => Bool.false_ne_true (declared.2 ⟨mem, plain _ mem⟩)
      simp [missing]
    | some id =>
      rw [found] at declared
      have static := isStatic_seed_iff distinct small found
      by_cases flag : (p.seed.class? id).any (·.isStatic) = true
      · obtain ⟨e, mem, same, flagE⟩ := static.1 flag
        simp only [flag, if_true, reduceCtorEq, false_iff]
        rintro ⟨-, free⟩
        rw [free e mem same] at flagE
        cases flagE
      · have free : ∀ e ∈ p.classes, e.name.name = base.name → e.isStatic = false := by
          intro e mem same
          by_contra flagE
          exact flag (static.2 ⟨e, mem, same, by simpa using flagE⟩)
        simp only [if_neg flag, true_iff]
        exact ⟨(declared.1 rfl).1, free⟩

/-- A declaration is not reported on just when it is in order. -/
theorem report_seed_eq_nil_iff (plain : ∀ name ∈ p.names, name ∉ builtinNames) {d : ClassDecl} (mem : d ∈ p.classes) :
    d.report p.seed = [] ↔ d.WellFormedIn p := by
  have bound := size_seed_le_of_few small
  have declared := mem_names_of_mem mem
  obtain ⟨id, found⟩ := exists_lookupClass_seed small declared (plain _ declared)
  have report : d.report p.seed = d.problems p.seed id (.placeholder (d.name.name, d.isStatic)) := by
    simp only [ClassDecl.report, found, class?_seed_of_mem distinct small mem found, Option.elim_some]
  rw [report, ClassDecl.problems_eq_nil_iff, baseProblems_seed_eq_nil_iff distinct small plain]
  constructor
  · rintro ⟨base, types, fields, params, places⟩
    have signatures := ClassDecl.signatureProblems_eq_nil p.seed types params
    have outlines := (d.nodup_places_iff p.hasBuiltins_seed bound id signatures).1 places
    exact
      { base := fun b clause => (base b clause).1
        instantiable := fun b clause => (base b clause).2
        types := fun e expr => (problems_seed_eq_nil_iff e).1 (types e expr)
        fields, params, methods := outlines }
  · intro inOrder
    have types := inOrder.problems_seed_eq_nil
    have signatures := ClassDecl.signatureProblems_eq_nil p.seed types inOrder.params
    have places := (d.nodup_places_iff p.hasBuiltins_seed bound id signatures).2 inOrder.methods
    exact ⟨fun b clause => ⟨inOrder.base b clause, inOrder.instantiable b clause⟩, types, inOrder.fields,
      inOrder.params, places⟩

end Program

/-! ## What a run fills in -/

namespace Program

variable {p : Program} (settings : Settings) (distinct : p.names.Nodup) (small : p.classes.length < UInt32.size - 5)
include small

/-- The name that a class in order extends stands for its base. -/
theorem exists_base?_seed (plain : ∀ name ∈ p.names, name ∉ builtinNames) {d : ClassDecl} (inOrder : d.WellFormedIn p)
    {base : Ident} (clause : base ∈ d.base) :
    ∃ b, d.base? p.seed = some b ∧ p.seed.lookupClass base.name = some b := by
  have known := inOrder.base base clause
  obtain ⟨b, found⟩ := exists_lookupClass_seed small known (plain _ known)
  exact ⟨b, by rw [ClassDecl.base?, clause, Option.bind_some, found], found⟩

/-- Every method of a class in order is entered and stays. -/
theorem method?_enter_seed (id : TypeId) {d : ClassDecl} (inOrder : d.WellFormedIn p) (c : ClassType)
    {m : MethodDecl} (mem : m ∈ d.methods) : m.method? p.seed id = some (m.described p.seed id) ∧
      ((d.enter p.seed id c).methodTable m.isStatic).find? (m.described p.seed id).key =
        some (m.described p.seed id) := by
  have bound := size_seed_le_of_few small
  have signatures := ClassDecl.signatureProblems_eq_nil p.seed inOrder.problems_seed_eq_nil inOrder.params
  have places := (d.nodup_places_iff p.hasBuiltins_seed bound id signatures).2 inOrder.methods
  have accepted := MethodDecl.method?_of_signatureProblems p.hasBuiltins_seed bound id (signatures m mem)
  exact ⟨accepted, d.method?_enter c places (List.mem_filterMap.2 ⟨m, mem, accepted⟩)⟩

include distinct

/-- A declaration in order has all its slots filled and all its members in the table. -/
theorem resolvedIn_annotate (plain : ∀ name ∈ p.names, name ∉ builtinNames) {d : ClassDecl} (mem : d ∈ p.classes)
    (inOrder : d.WellFormedIn p) : (d.annotate p.seed).ResolvedIn (p.resolveAlone settings).table := by
  have heads : (p.resolveAlone settings).table.SameHeads p.seed := p.sameHeads_resolve settings p.seed
  have declared := mem_names_of_mem mem
  obtain ⟨id, found⟩ := exists_lookupClass_seed small declared (plain _ declared)
  have filled : d.annotate p.seed = d.annotateAs p.seed id := by simp only [ClassDecl.annotate, found]
  rw [filled]
  refine ⟨?_, ?_, id, _, ?_, class?_resolveAlone distinct small mem found settings, ?_, ?_, ?_⟩
  · intro e expr
    rw [d.typeExprs_annotateAs] at expr
    obtain ⟨e, written, rfl⟩ := List.mem_map.1 expr
    have clean := inOrder.problems_seed_eq_nil e written
    refine ⟨e.resolve p.seed, rfl, e.resolve_ne_unknown p.hasBuiltins_seed (size_seed_le_of_few small) clean, ?_⟩
    rw [heads.lookup]
    exact e.lookup_spelling p.hasBuiltins_seed clean
  · intro b clause
    obtain ⟨base, known, found⟩ := exists_base?_seed small plain inOrder clause
    refine ⟨base, ?_, ?_⟩
    · rw [ClassDecl.annotateAs, known, Option.some_or]
    · rw [heads.lookupClass, found]
  · exact (heads.lookupClass d.name.name).trans found
  · intro b clause
    obtain ⟨base, known, -⟩ := exists_base?_seed small plain inOrder clause
    rw [d.base_enter, ClassDecl.annotateAs, known, Option.some_or, Option.some_or]
  · intro f field
    obtain ⟨f, written, rfl⟩ := List.mem_map.1 field
    have describes := (f.describes_field p.hasBuiltins_seed id).congr heads.symm
    have stays : (d.enter p.seed id (.placeholder (d.name.name, d.isStatic))).field? f.name.name =
        some (f.field p.seed id) := ClassDecl.field?_enter _ inOrder.fields written
    exact ⟨f.field p.seed id, ⟨describes.name, describes.type, describes.owner⟩, stays⟩
  · intro m method
    obtain ⟨m, written, rfl⟩ := List.mem_map.1 method
    obtain ⟨accepted, stays⟩ := method?_enter_seed small id inOrder (.placeholder (d.name.name, d.isStatic)) written
    have bound := size_seed_le_of_few small
    have known : m.typesKnown p.seed = true := (m.typesKnown_iff p.hasBuiltins_seed bound).2 fun e expr =>
      inOrder.problems_seed_eq_nil e (List.mem_append_right _ (List.mem_flatMap.2 ⟨m, written, expr⟩))
    have describes := m.describes_described p.hasBuiltins_seed bound id known
    refine ⟨m.described p.seed id, (describes.congr heads.symm).annotate, ?_, stays⟩
    rw [MethodDecl.annotate, accepted, Option.map_some, Option.some_or]

/-- A run fills every slot of a program in order. -/
theorem complete_of_wellFormed (inOrder : p.WellFormed) : (p.resolveAlone settings).Complete settings := by
  have heads : (p.resolveAlone settings).table.SameHeads p.seed := p.sameHeads_resolve settings p.seed
  have declared : p.main.name.name ∈ p.names := List.mem_cons_self
  obtain ⟨id, found⟩ := exists_lookupClass_seed small declared (inOrder.names _ declared)
  obtain ⟨c, held⟩ := TypeTable.exists_class?_of_lookupClass found
  have annotated : (p.resolveAlone settings).program.main =
      { p.main with entry := some (settings.entry id).key } := by
    show p.main.annotate settings p.seed = _
    rw [MainClass.annotate, found]
  have undeclared : p.classes.find? (·.name.name = p.main.name.name) = none := by
    rw [List.find?_eq_none]
    intro d mem
    simpa using Ne.symm (main_ne_of_mem distinct mem)
  have methods : p.methodsOf settings p.seed id = [settings.entry id] := by
    rw [methodsOf, entryFor, if_pos found, declarationsOf_seed distinct small found, undeclared]
    rfl
  refine ⟨?_, id, p.entered settings p.seed id c, ?_, ?_, ?_, ?_⟩
  · intro d mem
    obtain ⟨d, written, rfl⟩ := List.mem_map.1 mem
    exact resolvedIn_annotate settings distinct small inOrder.names written (inOrder.classes d written)
  · rw [heads.lookupClass, annotated]
    exact found
  · rw [resolveAlone, class?_resolve, held, Option.map_some]
  · rw [annotated]
  · show (ClassType.methodTable _ true).find? (settings.entry id).key = _
    rw [methodTable_entered, methods]
    exact OrderedTable.find?_insertMany_of_unique _ List.mem_cons_self fun b mem _ => List.mem_singleton.1 mem

theorem diagnostics_eq_nil_iff : (p.resolveAlone settings).diagnostics = [] ↔ p.WellFormed := by
  have silent : (p.resolveAlone settings).diagnostics = [] ↔ p.main.problems p.seed = [] ∧
      (∀ d ∈ p.classes, d.report p.seed = []) ∧
      ∀ d ∈ p.classes, d.cycleProblems settings (p.resolveAlone settings).table = [] := by
    rw [diagnostics_resolveAlone settings distinct small, List.append_eq_nil_iff, List.append_eq_nil_iff,
      List.flatMap_eq_nil_iff, List.flatMap_eq_nil_iff, and_assoc]
  rw [silent, no_cycleProblems_iff settings distinct small]
  -- the links are the names as written once all of these are known
  constructor
  · rintro ⟨main, classes, acyclic⟩
    have plain := notMem_builtinNames_of_silent small main classes
    have inOrder : ∀ d ∈ p.classes, d.WellFormedIn p := fun d mem =>
      (report_seed_eq_nil_iff distinct small plain mem).1 (classes d mem)
    rw [funext (link_eq_baseName plain fun d mem => (inOrder d mem).base)] at acyclic
    exact ⟨plain, inOrder, acyclic⟩
  · rintro ⟨plain, inOrder, acyclic⟩
    rw [funext (link_eq_baseName plain fun d mem => (inOrder d mem).base)]
    refine ⟨?_, fun d mem => (report_seed_eq_nil_iff distinct small plain mem).2 (inOrder d mem), acyclic⟩
    have declared : p.main.name.name ∈ p.names := List.mem_cons_self
    obtain ⟨id, found⟩ := exists_lookupClass_seed small declared (plain _ declared)
    rw [MainClass.problems, found]

/-- **Soundness and completeness of a run.** It reports nothing just when the program is well-formed, and then it has
filled every slot. -/
theorem noDiagnostics_iff_wellFormed :
    ((p.resolveAlone settings).diagnostics = [] ↔ p.WellFormed) ∧
      ((p.resolveAlone settings).diagnostics = [] → (p.resolveAlone settings).Complete settings) := by
  have silent := diagnostics_eq_nil_iff settings distinct small
  exact ⟨silent, fun clean => complete_of_wellFormed settings distinct small (silent.1 clean)⟩

end Program

namespace Program

/-- Two classes that mention each other, the first of which extends the second and overloads a method. -/
def crossing : Program :=
  let leaf : TypeExpr := ⟨.named ⟨"Leaf", ⟨30, 4⟩⟩, ⟨30, 4⟩, none⟩
  let node : TypeExpr := ⟨.named ⟨"Node", ⟨35, 4⟩⟩, ⟨35, 4⟩, none⟩
  let number : TypeExpr := ⟨.int, ⟨40, 3⟩, none⟩
  let put : Ident := ⟨"put", ⟨50, 3⟩⟩
  let key : Ident := ⟨"key", ⟨54, 3⟩⟩
  let next : Ident := ⟨"next", ⟨60, 4⟩⟩
  let putLeaf : MethodDecl := { name := put, returnType := number, params := [{ type := leaf, name := key }] }
  let putNode : MethodDecl := { name := put, returnType := leaf, params := [{ type := node, name := key }] }
  { main := { name := ⟨"Main", ⟨6, 4⟩⟩ }
    classes := [
      { name := ⟨"Leaf", ⟨13, 4⟩⟩, base := some ⟨"Node", ⟨26, 4⟩⟩,
        fields := [{ type := leaf, name := next }, { type := node, name := ⟨"up", ⟨65, 2⟩⟩ }],
        methods := [putLeaf, putNode, { putLeaf with isStatic := true }] },
      { name := ⟨"Node", ⟨80, 4⟩⟩, fields := [{ type := leaf, name := next }], methods := [putLeaf] }] }

/-- Its run reports nothing, so it is well-formed and all its slots are filled. -/
theorem wellFormed_crossing : crossing.names.Nodup ∧ crossing.classes.length < UInt32.size - 5 ∧
    (crossing.resolveAlone {}).diagnostics = [] ∧ crossing.WellFormed ∧ (crossing.resolveAlone {}).Complete {} := by
  have distinct : crossing.names.Nodup := by decide +kernel
  have small : crossing.classes.length < UInt32.size - 5 := by decide
  obtain ⟨silent, complete⟩ := noDiagnostics_iff_wellFormed {} distinct small
  have nothing : (crossing.resolveAlone {}).diagnostics = [] := by decide +kernel
  exact ⟨distinct, small, nothing, silent.1 nothing, complete nothing⟩

end Program
end MemberResolution

import Mathlib.Data.List.Forall2
import MemberResolution.Proofs.Session
import MemberResolution.Proofs.Slots
import MemberResolution.Proofs.SoundMethods

/-!
# Method tables

The method tables that a run alone leaves can be read off the program as
written (`methods_resolveAlone`). A table of a class holds the last of its
sound methods for each name and parameter types, in the order in which these
come up. A sound method that comes after one with the same name and parameter
types in the same table is reported. And a method has its key in its slot just
when it is sound.
-/

namespace MemberResolution
set_option autoImplicit false

/-- The report of a method that its class has already. -/
def ClassMethod.repeated (x : ClassMethod) : Diagnostic :=
  ⟨.methodDuplicates x.className x.decl.name.name, x.decl.name.span⟩

/-- How a run fills the slot of a method. -/
structure ClassMethod.SlotFilled (p : Program) (t : TypeTable) (x : ClassMethod) (filled : MethodDecl) : Prop where
  sound : x.SoundIn p → ∃ owner m,
    t.lookupClass x.className = some owner ∧ x.decl.Describes t owner m ∧ filled.resolved = some m.key
  unsound : ¬ x.SoundIn p → filled.resolved = none

/-! ## Tables -/

namespace Program

variable {p : Program} (settings : Settings) (small : p.classes.length < UInt32.size - 5)
include small

/-- The methods of a class in the order in which a run enters them. -/
theorem filter_methodsOf_seed {id : TypeId} {name : String} (found : p.seed.lookupClass name = some id)
    (isStatic : Bool) : (p.methodsOf settings p.seed id).filter (·.isStatic = isStatic) =
      (p.soundMethodsOf settings name isStatic).map (·.described p.seed id) := by
  rw [methodsOf_eq id p.hasBuiltins_seed, enteredMethods_seed settings small, soundMethodsOf, List.filter_map,
    List.filter_filter, List.map_map]
  congr 1
  apply List.filter_congr
  intro x _
  rw [Function.comp_apply, ← Bool.decide_and, decide_eq_decide,
    TypeTable.lookupClass_eq_iff (size_seed_le_of_few small) found, and_comm]
  rfl

theorem typesKnown_of_sound {name : String} {isStatic : Bool} {d : MethodDecl}
    (mem : d ∈ p.soundMethodsOf settings name isStatic) : d.typesKnown p.seed = true := by
  obtain ⟨x, listed, rfl⟩ := List.mem_map.1 mem
  have sound := List.mem_of_mem_filter listed
  rw [← enteredMethods_seed settings small] at sound
  exact ClassMethod.typesKnown_of_enteredIn (List.mem_filter.1 sound).2

/-- The keys of the methods in one table differ just where their outlines do. -/
theorem lastPerKey_soundMethodsOf (id : TypeId) (name : String) (isStatic : Bool) :
    lastPerKey (fun d => (d.described p.seed id).key) (p.soundMethodsOf settings name isStatic) =
      lastPerKey MethodDecl.outline (p.soundMethodsOf settings name isStatic) := by
  have flag : ∀ d ∈ p.soundMethodsOf settings name isStatic, d.isStatic = isStatic := by
    intro d mem
    obtain ⟨x, listed, rfl⟩ := List.mem_map.1 mem
    exact (of_decide_eq_true (List.mem_filter.1 listed).2).2
  have clean : ∀ d ∈ p.soundMethodsOf settings name isStatic, ∀ e ∈ d.typeExprs, e.problems p.seed = [] :=
    fun d mem => (d.typesKnown_iff p.hasBuiltins_seed (size_seed_le_of_few small)).1
      (typesKnown_of_sound settings small mem)
  apply lastPerKey_congr
  intro d memD e memE
  rw [d.key_described, e.key_described, MethodDecl.keyIn_eq_iff p.hasBuiltins_seed (size_seed_le_of_few small)
    (clean d memD) (clean e memE)]
  simp [MethodDecl.outline, flag d memD, flag e memE]

/-- The methods in a table of a class are those of the last sound declarations with their outlines. -/
theorem toList_methodTable_resolveAlone {id : TypeId} {c : ClassType}
    (held : (p.resolveAlone settings).table.class? id = some c) (isStatic : Bool) : (c.methodTable isStatic).toList =
      (lastPerKey MethodDecl.outline (p.soundMethodsOf settings c.name isStatic)).map (·.described p.seed id) := by
  obtain ⟨found, declaration, rfl⟩ := exists_entered_of_class?_resolveAlone held
  have empty : (ClassType.placeholder declaration).methodTable isStatic = ∅ := by cases isStatic <;> rfl
  rw [methodTable_entered, empty, OrderedTable.toList_insertMany_empty, filter_methodsOf_seed settings small found,
    lastPerKey_map, lastPerKey_soundMethodsOf settings small]

/-- **The tables of a class.** -/
theorem methodTable_resolveAlone {id : TypeId} {c : ClassType}
    (held : (p.resolveAlone settings).table.class? id = some c) (isStatic : Bool) :
    List.Forall₂ (MethodDecl.Describes (p.resolveAlone settings).table id)
      (lastPerKey MethodDecl.outline (p.soundMethodsOf settings c.name isStatic)) (c.methodTable isStatic).toList := by
  rw [toList_methodTable_resolveAlone settings small held, List.forall₂_map_right_iff, List.forall₂_same]
  intro d mem
  have sound := mem_of_mem_lastPerKey _ mem
  have describes := d.describes_described p.hasBuiltins_seed (size_seed_le_of_few small) id
    (typesKnown_of_sound settings small sound)
  exact describes.congr (p.sameHeads_resolve settings p.seed).symm

end Program

/-! ## Reports -/

section Reports

open Diagnostic

/-- The class `id`, whose tables have a method at just those of its places where `earlier` has one. -/
structure ClassType.Met (t : TypeTable) (id : TypeId) (c : ClassType) (earlier : List ClassMethod) : Prop where
  found : t.lookupClass c.name = some id
  places : ∀ isStatic key, (c.methodTable isStatic).contains key = true ↔
    (some id, isStatic, key) ∈ earlier.map (·.place t)

/-- All classes of the table `s`, which is read like `t`. -/
structure TypeTable.Met (t s : TypeTable) (earlier : List ClassMethod) : Prop where
  heads : s.SameHeads t
  classes : ∀ id c, s.class? id = some c → c.Met t id earlier

variable {t : TypeTable} {id : TypeId} {c : ClassType} {earlier : List ClassMethod}

/-- One method is reported just when its place is taken. -/
theorem MethodDecl.clashProblems_of_met (met : c.Met t id earlier) (m : MethodDecl) :
    m.clashProblems t id c =
        (repeatsAfter (·.place t) earlier ([⟨c.name, m⟩].filter (·.enteredIn t))).map ClassMethod.repeated ∧
      (m.enter t id c).Met t id (([⟨c.name, m⟩].filter (·.enteredIn t)).reverse ++ earlier) := by
  have name : (m.enter t id c).name = c.name := congrArg Prod.fst (m.head_enter t id c)
  have entered : ClassMethod.enteredIn t ⟨c.name, m⟩ = (m.typesKnown t && decide m.paramNames.Nodup) := by
    rw [ClassMethod.enteredIn, met.found, Option.isSome_some, Bool.true_and]
  have held := fun isStatic key => m.contains_enter t id c (isStatic, key)
  rw [List.filter_singleton, entered]
  cases sound : m.typesKnown t && decide m.paramNames.Nodup with
  | false =>
    have refused : m.method? t id = none := by rw [m.method?_eq, sound]; rfl
    rw [clashProblems, enter, refused]
    exact ⟨rfl, met⟩
  | true =>
    have accepted : m.method? t id = some (m.described t id) := by rw [m.method?_eq, sound]; rfl
    have place : ClassMethod.place t ⟨c.name, m⟩ = (some id, m.isStatic, m.keyIn t) := by
      rw [ClassMethod.place, met.found]
    have taken : c.hasClash (m.described t id) = true ↔
        ClassMethod.place t ⟨c.name, m⟩ ∈ earlier.map (·.place t) := by
      rw [ClassType.hasClash_iff, m.key_described, place]
      exact met.places m.isStatic (m.keyIn t)
    constructor
    · simp only [clashProblems, accepted, repeatsAfter, taken, Bool.cond_true]
      split <;> rfl
    · refine ⟨by rw [name, met.found], fun isStatic key => ?_⟩
      have flag : (m.described t id).isStatic = m.isStatic := rfl
      rw [held, met.places, accepted, Option.map_some, Option.mem_some_iff, Method.place, m.key_described, flag,
        List.map_append, List.mem_append, Bool.cond_true, List.reverse_singleton, List.map_singleton,
        List.mem_singleton, place, or_comm, eq_comm, Prod.mk.injEq (some id), and_iff_right rfl]

theorem MethodDecl.methodRepeats_problems (m : MethodDecl) :
    withCode .methodDuplicates (m.problems t id c) = m.clashProblems t id c := by
  have signature : withCode .methodDuplicates (m.signatureProblems t) = [] :=
    withCode_own (.inr rfl) (m.isRepeat_signatureProblems t)
  rw [problems, withCode_append, signature, withCode_eq_self fun x mem => code_clashProblems mem, List.nil_append]

/-- Of the reports on the methods of a class those of taken places are left. -/
theorem ClassDecl.methodRepeats_problems (d : ClassDecl) : withCode .methodDuplicates (d.problems t id c) =
    reportsAlong (fun c m => m.enter t id c) (fun c m => m.clashProblems t id c)
      (d.enterFields t id (d.linkBase t c)) d.methods := by
  have base : withCode .methodDuplicates (d.baseProblems t) = [] :=
    withCode_own (.inr rfl) (d.isRepeat_baseProblems t)
  have fields : ∀ c, withCode .methodDuplicates (reportsAlong (fun c f => f.enter t id c) (fun c f => f.problems t c) c
      d.fields) = [] := by
    intro c
    apply withCode_eq_nil
    intro x mem
    obtain ⟨c, f, -, mem⟩ := mem_reportsAlong mem
    rcases FieldDecl.code_problems mem with code | code <;> rw [code] <;> decide
  have methods : ∀ (c : ClassType) (m : MethodDecl),
      (m.problems t id c).filter (·.code = .methodDuplicates) = m.clashProblems t id c :=
    fun c m => m.methodRepeats_problems
  rw [problems, withCode_append, withCode_append, base, fields, withCode, filter_reportsAlong]
  simp only [methods]
  rfl

/-- The methods of one declaration are reported just where their places are taken. -/
theorem ClassDecl.methodRepeats_of_met {d : ClassDecl} (found : t.lookupClass d.name.name = some id)
    (small : t.size ≤ UInt32.size) (met : c.Met t id earlier) :
    withCode .methodDuplicates (d.problems t id c) =
        (repeatsAfter (·.place t) earlier (d.classMethods.filter (·.enteredIn t))).map ClassMethod.repeated ∧
      (d.enter t id c).Met t id ((d.classMethods.filter (·.enteredIn t)).reverse ++ earlier) := by
  have singles : d.classMethods.filter (·.enteredIn t) =
      d.methods.flatMap fun m => [(⟨d.name.name, m⟩ : ClassMethod)].filter (·.enteredIn t) := by
    rw [← List.filter_flatMap, ← List.map_eq_flatMap, classMethods]
  have linked : (d.enterFields t id (d.linkBase t c)).Met t id earlier := by
    rw [d.enterFields_eq]
    exact ⟨met.found, met.places⟩
  rw [d.methodRepeats_problems, singles]
  refine reportsAlong_eq_repeatsAfter (ClassMethod.place t) _ _ (ClassType.Met t id) ?_ d.methods linked
  intro c m earlier met
  have name : c.name = d.name.name := (TypeTable.lookupClass_eq_iff small found).1 met.found
  rw [← name]
  exact m.clashProblems_of_met met

/-- A class does not notice methods that are filed in others. -/
theorem ClassType.Met.skip (met : c.Met t id earlier) {later : List ClassMethod}
    (others : ∀ x ∈ later, t.lookupClass x.className ≠ some id) : c.Met t id (later ++ earlier) := by
  refine ⟨met.found, fun isStatic key => (met.places isStatic key).trans ?_⟩
  rw [List.map_append, List.mem_append, or_iff_right]
  intro mem
  obtain ⟨x, mem, place⟩ := List.mem_map.1 mem
  exact others x mem (congrArg Prod.fst place)

/-- Entering a declaration changes one class, and only this one has met its methods. -/
theorem TypeTable.Met.modifyClass {s : TypeTable} (met : t.Met s earlier) {d : ClassDecl}
    (found : t.lookupClass d.name.name = some id) (held : s.class? id = some c)
    (after : (d.enter t id c).Met t id ((d.classMethods.filter (·.enteredIn t)).reverse ++ earlier)) :
    t.Met (s.modifyClass id (d.enter s id)) ((d.classMethods.filter (·.enteredIn t)).reverse ++ earlier) where
  heads := (s.sameHeads_modifyClass id fun c => d.head_enter s id c).trans met.heads
  classes := by
    intro other c' held'
    rw [class?_modifyClass, d.enter_congr met.heads] at held'
    split at held'
    · next same =>
      rw [held, Option.map_some, Option.some.injEq] at held'
      rw [same, ← held']
      exact after
    · next apart =>
      apply (met.classes other c' held').skip
      intro x mem here
      rw [d.className_of_mem (List.mem_of_mem_filter (List.mem_reverse.1 mem)), found] at here
      exact apart (Option.some.inj here).symm

/-- One declaration is reported on just where the places of its methods are taken. -/
theorem TypeTable.methodRepeats_of_met (small : t.size ≤ UInt32.size) {s : TypeTable} (met : t.Met s earlier)
    (d : ClassDecl) :
    withCode .methodDuplicates (d.report s) =
        (repeatsAfter (·.place t) earlier (d.classMethods.filter (·.enteredIn t))).map ClassMethod.repeated ∧
      t.Met (s.enterClass d) ((d.classMethods.filter (·.enteredIn t)).reverse ++ earlier) := by
  rw [ClassDecl.report, enterClass, met.heads.lookupClass]
  cases found : t.lookupClass d.name.name with
  | none =>
    have noneEntered : d.classMethods.filter (·.enteredIn t) = [] := by
      rw [List.filter_eq_nil_iff]
      intro x mem
      rw [ClassMethod.enteredIn, d.className_of_mem mem, found]
      exact Bool.false_ne_true
    rw [noneEntered]
    exact ⟨rfl, met⟩
  | some id =>
    have there : s.lookupClass d.name.name = some id := (met.heads.lookupClass d.name.name).trans found
    obtain ⟨c, held⟩ := exists_class?_of_lookupClass there
    obtain ⟨reports, after⟩ := ClassDecl.methodRepeats_of_met found small (met.classes id c held)
    simp only [held, Option.elim_some, d.problems_congr met.heads]
    exact ⟨reports, met.modifyClass found held after⟩

/-- No method has been met in the classes of the table that a program starts from. -/
theorem Program.met_seed (p : Program) : p.seed.Met p.seed [] where
  heads := .refl p.seed
  classes := by
    intro id c held
    refine ⟨p.finds_seed id c held, fun isStatic key => ?_⟩
    obtain ⟨declaration, -, rfl⟩ := p.exists_declared_of_class?_seed held
    cases isStatic <;> exact iff_of_false Bool.false_ne_true List.not_mem_nil

/-- **The repeated methods of a program.** -/
theorem Program.methodRepeats_resolveAlone (settings : Settings) {p : Program}
    (small : p.classes.length < UInt32.size - 5) :
    withCode .methodDuplicates (p.resolveAlone settings).diagnostics =
      (repeatsAfter ClassMethod.outline [] (p.soundMethods settings)).map ClassMethod.repeated := by
  have bound := size_seed_le_of_few small
  have sweep := (reportsAlong_eq_repeatsAfter (ClassMethod.place p.seed) _ _ (TypeTable.Met p.seed)
    (fun s d earlier met => TypeTable.methodRepeats_of_met bound met d) (p.main.decl settings :: p.classes)
    p.met_seed).1
  -- nothing comes before the entry method
  have entry : withCode .methodDuplicates ((p.main.decl settings).report p.seed) = [] := by
    have one : (p.main.decl settings).classMethods = [⟨p.main.name.name, p.main.entryDecl settings⟩] := rfl
    rw [(TypeTable.methodRepeats_of_met bound p.met_seed _).1, one, List.filter_singleton]
    cases ClassMethod.enteredIn p.seed ⟨p.main.name.name, p.main.entryDecl settings⟩ <;> rfl
  have places : repeatsAfter (ClassMethod.place p.seed) [] (p.soundMethods settings) =
      repeatsAfter ClassMethod.outline [] (p.soundMethods settings) := by
    rw [← enteredMethods_seed settings small]
    apply repeatsAfter_congr
    intro x memX y memY
    exact ClassMethod.place_eq_iff p.hasBuiltins_seed bound (List.mem_filter.1 memX).2 (List.mem_filter.1 memY).2
  rw [reportsAlong_cons, entry, List.nil_append, ← p.main.enter_eq p.hasBuiltins_seed, ← List.filter_flatMap,
    ← classMethods, ← enteredMethods, enteredMethods_seed settings small, places] at sweep
  rw [resolveAlone, withCode_repeat_resolve settings p.seed p (.inr rfl)]
  exact sweep

end Reports

/-! ## Slots -/

namespace Program

variable {p : Program} (settings : Settings) (small : p.classes.length < UInt32.size - 5) (slotless : p.erase = p)
include small slotless

theorem slotsFilled_annotate {d : ClassDecl} (mem : d ∈ p.classes) :
    List.Forall₂ (fun m filled => ClassMethod.SlotFilled p (p.resolveAlone settings).table ⟨d.name.name, m⟩ filled)
      d.methods (d.annotate p.seed).methods := by
  have heads : (p.resolveAlone settings).table.SameHeads p.seed := p.sameHeads_resolve settings p.seed
  have declared := mem_names_of_mem mem
  unfold ClassDecl.annotate
  cases found : p.seed.lookupClass d.name.name with
  | none =>
    rw [List.forall₂_same]
    intro m method
    refine ⟨fun sound => ?_, fun _ => resolved_eq_none slotless mem method⟩
    have entered := (enteredIn_seed_iff small (x := ⟨d.name.name, m⟩) declared).2 sound
    rw [ClassMethod.enteredIn, found] at entered
    cases entered
  | some id =>
    show List.Forall₂ _ d.methods (d.methods.map (·.annotate p.seed id))
    rw [List.forall₂_map_right_iff, List.forall₂_same]
    intro m method
    have empty := resolved_eq_none slotless mem method
    have sound := enteredIn_seed_iff small (x := ⟨d.name.name, m⟩) declared
    rw [ClassMethod.enteredIn, found, Option.isSome_some, Bool.true_and] at sound
    constructor
    · intro here
      rw [← sound] at here
      refine ⟨id, m.described p.seed id, (heads.lookupClass _).trans found, ?_, ?_⟩
      · exact (m.describes_described p.hasBuiltins_seed (size_seed_le_of_few small) id
          (Bool.and_eq_true_iff.1 here).1).congr heads.symm
      · rw [MethodDecl.annotate, m.method?_eq, here]
        rfl
    · intro here
      rw [← sound, Bool.not_eq_true] at here
      rw [MethodDecl.annotate, m.method?_eq, here, empty]
      rfl

/-- **Methods as a function of the program.** A run alone leaves in each table of a class one method for each outline
among its sound methods, in the order in which the outlines come up, and each is what the last declaration with that
outline describes. It reports the sound methods whose outline comes up again in a class of the same name, and it fills
the slots of the sound methods only. -/
theorem methods_resolveAlone :
    (∀ id c, (p.resolveAlone settings).table.class? id = some c → ∀ isStatic,
      List.Forall₂ (MethodDecl.Describes (p.resolveAlone settings).table id)
        (lastPerKey MethodDecl.outline (p.soundMethodsOf settings c.name isStatic)) (c.methodTable isStatic).toList) ∧
      Diagnostic.withCode .methodDuplicates (p.resolveAlone settings).diagnostics =
        (repeatsAfter ClassMethod.outline [] (p.soundMethods settings)).map ClassMethod.repeated ∧
      List.Forall₂ (fun d filled => List.Forall₂
          (fun m slot => ClassMethod.SlotFilled p (p.resolveAlone settings).table ⟨d.name.name, m⟩ slot)
          d.methods filled.methods)
        p.classes (p.resolveAlone settings).program.classes := by
  refine ⟨fun id c held => methodTable_resolveAlone settings small held, methodRepeats_resolveAlone settings small, ?_⟩
  show List.Forall₂ _ p.classes (p.classes.map (·.annotate p.seed))
  rw [List.forall₂_map_right_iff, List.forall₂_same]
  exact fun d mem => slotsFilled_annotate settings small slotless mem

end Program

namespace Program

/-- A class with the main class's name that declares the entry method again, and a class that is declared twice, with
overloads, methods that are not sound, and a method that the second declaration replaces. -/
def overloaded : Program :=
  let int : TypeExpr := ⟨.int, ⟨40, 3⟩, none⟩
  let list : TypeExpr := ⟨.named ⟨"List", ⟨44, 4⟩⟩, ⟨44, 4⟩, none⟩
  let gone : TypeExpr := ⟨.named ⟨"Gone", ⟨50, 4⟩⟩, ⟨50, 4⟩, none⟩
  let key (type : TypeExpr) : ParamDecl := { type, name := ⟨"key", ⟨60, 3⟩⟩ }
  let put (offset : Nat) (isStatic : Bool) (returnType : TypeExpr) (params : List ParamDecl) : MethodDecl :=
    { name := ⟨"put", ⟨offset, 3⟩⟩, isStatic, returnType, params }
  let more : List MethodDecl := [put 140 false list [key int], put 150 true list [key int, key int]]
  { main := { name := ⟨"Main", ⟨6, 4⟩⟩ }
    classes := [
      { name := ⟨"Main", ⟨17, 4⟩⟩, methods := [{ name := ⟨"main", ⟨24, 4⟩⟩, isStatic := true, returnType := int }] },
      { name := ⟨"List", ⟨70, 4⟩⟩,
        methods := [put 80 false int [key int], put 90 false int [key gone], put 100 false int [key list],
          put 110 true int [key int], put 120 false gone [key list]] },
      { name := ⟨"List", ⟨130, 4⟩⟩, methods := more }] }

/-- The replacing method stands where the replaced one stood, before the other overload. -/
theorem methods_resolveAlone_overloaded :
    let r := overloaded.resolveAlone {}
    overloaded.classes.length < UInt32.size - 5 ∧ overloaded.erase = overloaded ∧
      (overloaded.soundMethodsOf {} "List" false).map (·.name.span.offset) = [80, 100, 140] ∧
      (lastPerKey MethodDecl.outline (overloaded.soundMethodsOf {} "List" false)).map (·.name.span.offset) =
        [140, 100] ∧
      (∃ c, r.table.class? (.ofPosition 6) = some c ∧
        List.Forall₂ (MethodDecl.Describes r.table (.ofPosition 6))
          (lastPerKey MethodDecl.outline (overloaded.soundMethodsOf {} "List" false)) (c.methodTable false).toList) ∧
      Diagnostic.withCode .methodDuplicates r.diagnostics =
        [⟨.methodDuplicates "Main" "main", ⟨24, 4⟩⟩, ⟨.methodDuplicates "List" "put", ⟨140, 3⟩⟩] ∧
      List.Forall₂ (fun d filled => List.Forall₂
          (fun m slot => ClassMethod.SlotFilled overloaded r.table ⟨d.name.name, m⟩ slot) d.methods filled.methods)
        overloaded.classes r.program.classes := by
  intro r
  have small : overloaded.classes.length < UInt32.size - 5 := by decide
  have slotless : overloaded.erase = overloaded := rfl
  obtain ⟨tables, reports, slots⟩ := methods_resolveAlone {} small slotless
  have named : (r.table.class? (.ofPosition 6)).map (·.name) = some "List" := by decide +kernel
  obtain ⟨c, held, name⟩ := Option.map_eq_some_iff.1 named
  have table := tables (.ofPosition 6) c held false
  rw [name] at table
  exact ⟨small, slotless, by decide +kernel, by decide +kernel, ⟨c, held, table⟩,
    reports.trans (by decide +kernel), slots⟩

end Program
end MemberResolution

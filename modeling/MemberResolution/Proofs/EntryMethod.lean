import MemberResolution.Proofs.MethodTables

/-!
# The entry method

A run files the entry method in the main class before anything else. It is not
safe there: a class declaration that has the name of the main class is entered
into the same class, and a static method of it that takes nothing and has the
name of the entry method replaces the entry method, as a later method replaces
any other. So under the key in the slot of the main class stands what the last
such method describes, and the entry method only where there is none
(`entry_resolveAlone`).
-/

namespace MemberResolution
set_option autoImplicit false

/-- The entry method in its class. -/
def MainClass.entryIn (settings : Settings) (m : MainClass) : ClassMethod := ⟨m.name.name, m.entryDecl settings⟩

namespace Program

/-- The sound methods of class declarations with the outline of the entry method. -/
def entryRivals (settings : Settings) (p : Program) : List MethodDecl :=
  ((p.classes.flatMap (·.classMethods)).filter fun x =>
    x.SoundIn p ∧ x.outline = (p.main.entryIn settings).outline).map (·.decl)

/-- The method that a run leaves as the entry method. -/
def lastEntry (settings : Settings) (p : Program) : MethodDecl :=
  (p.entryRivals settings).getLast?.getD (p.main.entryDecl settings)

variable {p : Program} (settings : Settings)

theorem soundIn_entryIn (named : p.main.name.name ∉ builtinNames) : (p.main.entryIn settings).SoundIn p := by
  refine ⟨named, ?_, List.nodup_nil⟩
  intro e mem
  rw [show e = (p.main.entryDecl settings).returnType from List.mem_singleton.1 mem]
  exact Or.inr (show "void" ∈ builtinNames by decide)

/-- Among the sound methods those with the outline of the entry method are the entry method itself and its rivals. -/
theorem filter_soundMethods (named : p.main.name.name ∉ builtinNames) :
    (((p.soundMethods settings).filter fun x => x.outline = (p.main.entryIn settings).outline).map (·.decl)) =
      p.main.entryDecl settings :: p.entryRivals settings := by
  have first : (p.main.decl settings).classMethods = [p.main.entryIn settings] := rfl
  have sound : decide ((p.main.entryIn settings).SoundIn p) = true := decide_eq_true (soundIn_entryIn settings named)
  rw [soundMethods, classMethods, List.flatMap_cons, first, List.singleton_append, List.filter_cons, if_pos sound,
    List.filter_cons, if_pos (decide_eq_true rfl), List.filter_filter, List.map_cons, entryRivals]
  congr 2
  apply List.filter_congr
  intro x _
  rw [← Bool.decide_and, decide_eq_decide, and_comm]

/-- The static methods of the main class that a run files under the key of the entry method. -/
theorem filter_soundMethodsOf_main (named : p.main.name.name ∉ builtinNames) (id : TypeId) :
    ((p.soundMethodsOf settings p.main.name.name true).filter fun d =>
      (d.described p.seed id).key = ⟨settings.entryMethod, []⟩) =
      p.main.entryDecl settings :: p.entryRivals settings := by
  have outlines : ∀ x : ClassMethod, ((x.decl.described p.seed id).key = ⟨settings.entryMethod, []⟩ ∧
      x.className = p.main.name.name ∧ x.decl.isStatic = true) ↔ x.outline = (p.main.entryIn settings).outline := by
    intro x
    rw [MethodDecl.key_described, MethodDecl.keyIn, ClassMethod.outline, MethodDecl.outline]
    show _ ↔ _ = (p.main.name.name, true, settings.entryMethod, [])
    simp only [MethodKey.mk.injEq, List.map_eq_nil_iff, Prod.mk.injEq]
    tauto
  rw [← filter_soundMethods settings named, soundMethodsOf, List.filter_map, List.filter_filter]
  congr 1
  apply List.filter_congr
  intro x _
  rw [Function.comp_apply, ← Bool.decide_and, decide_eq_decide]
  exact outlines x

section Last

variable (named : p.main.name.name ∉ builtinNames)
include named

theorem sound_lastEntry : (p.lastEntry settings).SoundIn p ∧
    (p.lastEntry settings).outline = (p.main.entryDecl settings).outline := by
  unfold lastEntry
  cases last : (p.entryRivals settings).getLast? with
  | none => exact ⟨(soundIn_entryIn settings named).2, rfl⟩
  | some d =>
    obtain ⟨x, listed, rfl⟩ := List.mem_map.1 (List.mem_of_getLast? last)
    obtain ⟨sound, outline⟩ := of_decide_eq_true (List.mem_filter.1 listed).2
    exact ⟨sound.2, congrArg Prod.snd outline⟩

theorem params_lastEntry : (p.lastEntry settings).params = [] := by
  have spellings := congrArg (·.2.2) (sound_lastEntry settings named).2
  exact List.map_eq_nil_iff.1 spellings

/-- What is left as the entry method differs from it in the result type alone. -/
theorem described_lastEntry (id : TypeId) : (p.lastEntry settings).described p.seed id =
    { settings.entry id with returnType := (p.lastEntry settings).returnType.resolve p.seed } := by
  obtain ⟨-, outline⟩ := sound_lastEntry settings named
  have flag : (p.lastEntry settings).isStatic = true := congrArg Prod.fst outline
  have name : (p.lastEntry settings).name.name = settings.entryMethod := congrArg (·.2.1) outline
  rw [MethodDecl.described, MethodDecl.parameters, params_lastEntry settings named, flag, name]
  rfl

end Last

variable (small : p.classes.length < UInt32.size - 5) (named : p.main.name.name ∉ builtinNames)
include small named

/-- What stands under the key of the entry method. -/
theorem staticMethod?_entry {id : TypeId} {c : ClassType}
    (found : p.seed.lookupClass p.main.name.name = some id)
    (held : (p.resolveAlone settings).table.class? id = some c) :
    c.staticMethod? ⟨settings.entryMethod, []⟩ = some ((p.lastEntry settings).described p.seed id) := by
  obtain ⟨-, declaration, rfl⟩ := exists_entered_of_class?_resolveAlone held
  have last : ((p.methodsOf settings p.seed id).filter (·.isStatic = true)).reverse.find?
      (·.key = ⟨settings.entryMethod, []⟩) = some ((p.lastEntry settings).described p.seed id) := by
    rw [filter_methodsOf_seed settings small found, ← List.map_reverse, List.find?_map, ← List.head?_filter,
      List.filter_reverse, List.head?_reverse]
    show ((p.soundMethodsOf settings p.main.name.name true).filter fun d =>
      (d.described p.seed id).key = ⟨settings.entryMethod, []⟩).getLast?.map _ = _
    rw [filter_soundMethodsOf_main settings named, List.getLast?_cons]
    rfl
  show ((p.entered settings p.seed id (.placeholder declaration)).methodTable true).find? _ = _
  rw [methodTable_entered, OrderedTable.find?_insertMany, last, Option.some_or]

/-- **What is left as the entry method.** The key in the slot of the main class is that of the entry method. Under it
stands the static method that the last rival describes, or the entry method if there is no rival; so it is the entry
method just when the last rival returns nothing as well. -/
theorem entry_resolveAlone :
    let r := p.resolveAlone settings
    let key : MethodKey := ⟨settings.entryMethod, []⟩
    ∃ id c m, r.program.main.entry = some key ∧ r.table.lookupClass p.main.name.name = some id ∧
      r.table.class? id = some c ∧ c.staticMethod? key = some m ∧ (p.lastEntry settings).Describes r.table id m ∧
      (m = settings.entry id ↔ ∀ d ∈ (p.entryRivals settings).getLast?, d.returnType.spelling = "void") := by
  intro r key
  obtain ⟨id, found⟩ := exists_lookupClass_seed small (n := p.main.name.name) List.mem_cons_self named
  have heads : r.table.SameHeads p.seed := p.sameHeads_resolve settings p.seed
  have there : r.table.lookupClass p.main.name.name = some id := (heads.lookupClass _).trans found
  obtain ⟨c, held⟩ := TypeTable.exists_class?_of_lookupClass there
  have slot : r.program.main.entry = some key := by
    show (p.main.annotate settings p.seed).entry = _
    rw [MainClass.annotate, found]
    rfl
  refine ⟨id, c, _, slot, there, held, staticMethod?_entry settings small named found held, ?_, ?_⟩
  · have entered : ClassMethod.enteredIn p.seed ⟨p.main.name.name, p.lastEntry settings⟩ = true :=
      (enteredIn_seed_iff small List.mem_cons_self).2 ⟨named, (sound_lastEntry settings named).1⟩
    exact ((p.lastEntry settings).describes_described p.hasBuiltins_seed (size_seed_le_of_few small) id
      (ClassMethod.typesKnown_of_enteredIn entered)).congr heads.symm
  · calc (p.lastEntry settings).described p.seed id = settings.entry id
      _ ↔ (p.lastEntry settings).returnType.resolve p.seed = .void := by
        rw [described_lastEntry settings named]
        exact ⟨fun same => congrArg Method.returnType same, fun void => by rw [void]; rfl⟩
      _ ↔ (p.lastEntry settings).returnType.spelling = "void" :=
        TypeExpr.resolve_eq_void_iff p.hasBuiltins_seed (size_seed_le_of_few small) _
      _ ↔ ∀ d ∈ (p.entryRivals settings).getLast?, d.returnType.spelling = "void" := by
        rw [lastEntry]
        cases (p.entryRivals settings).getLast? with
        | none =>
          refine iff_of_true rfl ?_
          intro d mem
          cases mem
        | some d => simp

end Program

namespace Program

/-- A class with the name of the main class and a static method with the name of the entry method, which returns a
number. -/
def ownEntry : Program :=
  let main : MethodDecl := { name := ⟨"main", ⟨35, 4⟩⟩, isStatic := true, returnType := ⟨.int, ⟨31, 3⟩, none⟩ }
  { main := { name := ⟨"Main", ⟨6, 4⟩⟩ }, classes := [{ name := ⟨"Main", ⟨17, 4⟩⟩, methods := [main] }] }

/-- The entry method does not survive: under its key stands the method that returns a number. -/
theorem entry_resolveAlone_ownEntry :
    let r := ownEntry.resolveAlone {}
    r.program.main.entry = some ⟨"main", []⟩ ∧
      ((r.table.class? (.ofPosition 5)).bind (·.staticMethod? ⟨"main", []⟩)) =
        some { name := "main", owner := .ofPosition 5, isStatic := true, returnType := .int } ∧
      r.diagnostics = [⟨.methodDuplicates "Main" "main", ⟨35, 4⟩⟩] := by
  decide +kernel

end Program
end MemberResolution

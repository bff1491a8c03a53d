import MemberResolution.Proofs.FirstDeclarations
import MemberResolution.Proofs.Registration

/-!
# The classes that a program starts with

The table that a program starts from holds the builtin types and after them an
empty class for each name that the program declares, in the order in which the
names come up and without those of builtin types (`registrations_seed`). So the
handle of a class can be read off the names as written, its flag is that of the
first declaration of the name, and declarations that are added to the program
later on do not move it (`seed_layout`).
-/

namespace MemberResolution
set_option autoImplicit false

/-- An empty class under its own name. -/
def Registration.placeholder (declaration : String × Bool) : Registration :=
  ⟨some declaration.1, .classType (.placeholder declaration)⟩

namespace TypeTable

variable (t : TypeTable) (declarations : List (String × Bool))

/-- The first declaration of each new name adds a class, and no other does. -/
theorem registrations_declareAll : (t.declareAll declarations).registrations = t.registrations ++
    ((firstPerKey Prod.fst declarations).filter fun d => !t.contains d.1).map Registration.placeholder := by
  induction declarations generalizing t with
  | nil => simp [declareAll, firstPerKey]
  | cons d rest ih =>
    have others : ∀ e ∈ firstPerKey Prod.fst rest,
        (!(t.declareIfNew d.1 d.2).contains e.1) = (!t.contains e.1 && decide (e.1 ≠ d.1)) := by
      intro e _
      rw [contains_declareIfNew, Bool.not_or, ← decide_not, decide_eq_decide.2 ne_comm]
    show ((t.declareIfNew d.1 d.2).declareAll rest).registrations = _
    rw [ih, List.filter_congr others, firstPerKey, List.filter_cons, List.filter_filter]
    cases known : t.contains d.1 with
    | true =>
      rw [t.declareIfNew_of_contains d.1 d.2 known]
      simp
    | false =>
      rw [t.declareIfNew_of_not_contains d.1 d.2 known]
      simp [Registration.placeholder, ClassType.placeholder]

theorem indexed_declareAll (indexed : t.Indexed) : (t.declareAll declarations).Indexed := by
  induction declarations generalizing t with
  | nil => exact indexed
  | cons d rest ih => exact ih _ (indexed.declareIfNew d.1 d.2)

/-- A name keeps its handle when further classes are declared. -/
theorem lookup_declareAll {n : String} {id : TypeId} (found : t.lookup n = some id) :
    (t.declareAll declarations).lookup n = some id := by
  induction declarations generalizing t with
  | nil => exact found
  | cons d rest ih => exact ih _ (t.lookup_declareIfNew d.1 d.2 found)

/-- A class stays as it is when further classes are declared. -/
theorem class?_declareAll_of_class? {id : TypeId} {c : ClassType} (held : t.class? id = some c) :
    (t.declareAll declarations).class? id = some c := by
  induction declarations generalizing t with
  | nil => exact held
  | cons d rest ih =>
    apply ih
    have known : (t.get? id).isSome := by
      obtain ⟨e, entry, -⟩ := Option.bind_eq_some_iff.1 held
      rw [entry]
      rfl
    rw [class?, t.get?_declareIfNew d.1 d.2 known]
    exact held

end TypeTable

namespace Program

/-- The names of the main class and of the class declarations, each where it comes up first, without those of builtin
types. -/
def classNames (p : Program) : List String := (firstPerKey id p.names).filter (· ∉ builtinNames)

/-- The first declaration of the name is static; the main class comes first and is not. -/
def declaredStatic (p : Program) (name : String) : Bool := (p.declared.find? (·.1 = name)).any (·.2)

variable (p : Program)

/-- **The table that a program starts from.** -/
theorem registrations_seed : p.seed.registrations = TypeTable.builtins.registrations ++
    p.classNames.map fun n => Registration.placeholder (n, p.declaredStatic n) := by
  have names : firstPerKey id p.names = (firstPerKey Prod.fst p.declared).map Prod.fst := by
    rw [← map_fst_declared, firstPerKey_map]
    rfl
  have builtin : ∀ n, (!TypeTable.builtins.contains n) = decide (n ∉ builtinNames) := by
    intro n
    rw [TypeTable.contains_eq_isSome_named, Option.not_isSome, Bool.eq_iff_iff, Option.isNone_iff_eq_none,
      decide_eq_true_iff]
    exact named_builtins_eq_none_iff
  have kept : ((firstPerKey Prod.fst p.declared).filter fun d => !TypeTable.builtins.contains d.1) =
      (firstPerKey Prod.fst p.declared).filter fun d => decide (d.1 ∉ builtinNames) :=
    List.filter_congr fun d _ => builtin d.1
  rw [seed_eq_declareAll, TypeTable.registrations_declareAll, kept, classNames, names, List.filter_map, List.map_map]
  congr 1
  apply List.map_congr_left
  intro d mem
  have first : p.declared.find? (·.1 = d.1) = some d :=
    find?_of_mem_firstPerKey Prod.fst (List.mem_of_mem_filter mem)
  rw [Function.comp_apply, declaredStatic, first]
  rfl

theorem indexed_seed : p.seed.Indexed := TypeTable.indexed_declareAll _ p.declared TypeTable.indexed_builtins

theorem size_seed : p.seed.size = 5 + p.classNames.length := by
  rw [TypeTable.size, registrations_seed, List.length_append, List.length_map]
  rfl

/-- The classes stand after the builtin types. -/
theorem getElem?_registrations_seed (i : Nat) : p.seed.registrations[5 + i]? =
    p.classNames[i]?.map fun n => Registration.placeholder (n, p.declaredStatic n) := by
  rw [registrations_seed, List.getElem?_append_right (Nat.le_add_right 5 i), List.getElem?_map]
  exact congrArg (fun j => p.classNames[j]?.map _) (Nat.add_sub_cancel_left 5 i)

/-- Declarations that are added to a program are declared after all others. -/
theorem seed_append (more : List ClassDecl) : { p with classes := p.classes ++ more }.seed =
    p.seed.declareAll (more.map fun d => (d.name.name, d.isStatic)) := by
  rw [seed_eq_declareAll, seed_eq_declareAll, declared, List.map_append, ← List.cons_append, TypeTable.declareAll,
    List.foldl_append]
  rfl

/-- A class of the table is the placeholder of the name at its place. -/
theorem class?_seed_iff {id : TypeId} {c : ClassType} : p.seed.class? id = some c ↔
    ∃ i n, id.position = 5 + i ∧ p.classNames[i]? = some n ∧ c = .placeholder (n, p.declaredStatic n) := by
  constructor
  · intro held
    have late : 5 ≤ id.position := (p.indexed_seed.isSome_class?_iff.1 (by rw [held]; rfl)).1
    obtain ⟨i, position⟩ := Nat.exists_eq_add_of_le late
    rw [TypeTable.class?, TypeTable.get?, position, getElem?_registrations_seed] at held
    cases name : p.classNames[i]? with
    | none => rw [name] at held; cases held
    | some n =>
      rw [name] at held
      exact ⟨i, n, position, name, (Option.some.inj held).symm⟩
  · rintro ⟨i, n, position, name, rfl⟩
    rw [TypeTable.class?, TypeTable.get?, position, getElem?_registrations_seed, name]
    rfl

/-- A class of the table is static just when the first declaration of its name is. -/
theorem isStatic_of_class?_seed {id : TypeId} {c : ClassType} (held : p.seed.class? id = some c) :
    c.isStatic = p.declaredStatic c.name := by
  obtain ⟨_, n, -, -, rfl⟩ := p.class?_seed_iff.1 held
  rfl

variable {p} (small : p.classes.length < UInt32.size - 5)
include small

/-- **The classes of a new table.** After the builtin types comes a class for each class name, in order, and these are
all classes. Each is empty, has the flag of the first declaration of its name and is found under its name, so a class
that is declared is found unless it has the name of a builtin type. Further declarations at the end change neither
handle nor class. -/
theorem seed_layout :
    p.seed.size = 5 + p.classNames.length ∧
      (∀ i n, p.classNames[i]? = some n → ∃ id, id.position = 5 + i ∧ p.seed.lookupClass n = some id ∧
        p.seed.class? id = some (.placeholder (n, p.declaredStatic n))) ∧
      (∀ id c, p.seed.class? id = some c → ∃ i n, id.position = 5 + i ∧ p.classNames[i]? = some n ∧
        c = .placeholder (n, p.declaredStatic n)) ∧
      (∀ n ∈ p.names, (p.seed.lookupClass n).isSome = true ↔ n ∉ builtinNames) ∧
      ∀ more n id, p.seed.lookupClass n = some id →
        let later := { p with classes := p.classes ++ more }.seed
        later.lookupClass n = some id ∧ later.class? id = p.seed.class? id := by
  refine ⟨p.size_seed, ?_, fun id c => p.class?_seed_iff.1, ?_, ?_⟩
  · intro i n name
    have inside : i < p.classNames.length := (List.getElem?_eq_some_iff.1 name).1
    have position : (TypeId.ofPosition (5 + i)).position = 5 + i := by
      have size := p.size_seed
      have bound := size_seed_le_of_few small
      exact TypeId.position_ofPosition (by omega)
    have held : p.seed.class? (.ofPosition (5 + i)) = some (.placeholder (n, p.declaredStatic n)) :=
      p.class?_seed_iff.2 ⟨i, n, position, name, rfl⟩
    exact ⟨_, position, p.finds_seed _ _ held, held⟩
  · intro n declared
    rw [isSome_lookupClass_seed_iff small, and_iff_right declared]
  · intro more n id found later
    obtain ⟨c, held⟩ := TypeTable.exists_class?_of_lookupClass found
    have kept : later.class? id = some c := by
      rw [show later = _ from p.seed_append more]
      exact p.seed.class?_declareAll_of_class? _ held
    have name : later.lookup n = some id := by
      rw [show later = _ from p.seed_append more]
      exact p.seed.lookup_declareAll _ (TypeTable.lookup_of_lookupClass found)
    exact ⟨Option.filter_eq_some_iff.2 ⟨name, by rw [kept]; rfl⟩, kept.trans held.symm⟩

end Program

namespace Program

/-- A name that is declared twice, a class with the name of the main class and one with that of a builtin type. -/
def namesakes : Program :=
  { main := { name := ⟨"Main", ⟨6, 4⟩⟩ }
    classes := [
      { name := ⟨"List", ⟨17, 4⟩⟩ },
      { name := ⟨"int[]", ⟨31, 5⟩⟩, isStatic := true },
      { name := ⟨"Main", ⟨53, 4⟩⟩, isStatic := true },
      { name := ⟨"List", ⟨74, 4⟩⟩, isStatic := true },
      { name := ⟨"Pair", ⟨95, 4⟩⟩, isStatic := true }] }

/-- Three classes remain, with the flags of the first declarations, and a fourth one does not move them. -/
theorem seed_layout_namesakes :
    let t := namesakes.seed
    let late : ClassDecl := { name := ⟨"Late", ⟨110, 4⟩⟩, isStatic := true }
    let later := { namesakes with classes := namesakes.classes ++ [late] }.seed
    namesakes.classes.length < UInt32.size - 5 ∧ namesakes.classNames = ["Main", "List", "Pair"] ∧ t.size = 8 ∧
      t.class? (.ofPosition 5) = some (.placeholder ("Main", false)) ∧
      t.class? (.ofPosition 6) = some (.placeholder ("List", false)) ∧
      t.lookupClass "Pair" = some (.ofPosition 7) ∧ (t.lookupClass "int[]").isSome = false ∧
      later.lookupClass "Pair" = some (.ofPosition 7) ∧
      later.class? (.ofPosition 7) = some (.placeholder ("Pair", true)) := by
  intro t late later
  have few : namesakes.classes.length < UInt32.size - 5 := by decide +kernel
  have names : namesakes.classNames = ["Main", "List", "Pair"] := by decide +kernel
  have flags : ["Main", "List", "Pair"].map namesakes.declaredStatic = [false, false, true] := by decide +kernel
  obtain ⟨main, list, pair⟩ := by simpa using flags
  obtain ⟨size, classes, -, found, added⟩ := seed_layout few
  rw [names] at size classes
  have here : ∀ i n, ["Main", "List", "Pair"][i]? = some n → t.lookupClass n = some (.ofPosition (5 + i)) ∧
      t.class? (.ofPosition (5 + i)) = some (.placeholder (n, namesakes.declaredStatic n)) := by
    intro i n name
    obtain ⟨id, position, found, held⟩ := classes i n name
    rw [← TypeId.ofPosition_position id, position] at found held
    exact ⟨found, held⟩
  have last : t.lookupClass "Pair" = some (.ofPosition 7) := (here 2 "Pair" rfl).1
  obtain ⟨still, same⟩ := added [late] "Pair" _ last
  refine ⟨few, names, size, ?_, ?_, last, ?_, still, ?_⟩
  · rw [← main]
    exact (here 0 "Main" rfl).2
  · rw [← list]
    exact (here 1 "List" rfl).2
  · rw [Bool.eq_false_iff, ne_eq, found "int[]" (by decide +kernel)]
    decide
  · rw [← pair]
    exact same.trans (here 2 "Pair" rfl).2

end Program
end MemberResolution

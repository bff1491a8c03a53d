import MemberResolution.Proofs.NameIndex
import MemberResolution.Seeding

/-!
# Declaring classes

A declaration of a new name puts an empty class at the end of the table, and a
declaration of a name that is taken changes nothing. So the table that a
program starts from has under each name the builtin type of that name, or else
an empty class with the flag of the first declaration (`named_seed`).
-/

namespace MemberResolution
set_option autoImplicit false

namespace TypeTable

variable (t : TypeTable) (name : String) (isStatic : Bool)

theorem declareIfNew_of_contains (taken : t.contains name = true) : t.declareIfNew name isStatic = t := by
  simp only [declareIfNew, declareClass, taken, if_true]

theorem declareIfNew_of_not_contains (new : t.contains name = false) : t.declareIfNew name isStatic =
    ⟨t.registrations ++ [⟨some name, .classType { name, isStatic }⟩]⟩ := by
  simp only [declareIfNew, declareClass, new, Bool.false_eq_true, if_false]

/-- What was registered first keeps its name. -/
theorem named_declareIfNew (m : String) : (t.declareIfNew name isStatic).named m =
    (t.named m).or (if name = m then some (.classType { name, isStatic }) else none) := by
  cases known : t.contains name with
  | true =>
    rw [t.declareIfNew_of_contains name isStatic known]
    by_cases same : name = m
    · rw [contains_eq_isSome_named] at known
      obtain ⟨e, held⟩ := Option.isSome_iff_exists.1 known
      rw [← same, held, Option.some_or]
    · rw [if_neg same, Option.or_none]
  | false =>
    rw [t.declareIfNew_of_not_contains name isStatic known, named, List.find?_append, named]
    cases t.registrations.find? (·.name = some m) with
    | some r => rfl
    | none =>
      by_cases same : name = m
      · simp [same]
      · simp [same]

theorem prefix_declareIfNew : t.registrations <+: (t.declareIfNew name isStatic).registrations := by
  cases known : t.contains name with
  | true =>
    refine ⟨[], ?_⟩
    rw [t.declareIfNew_of_contains name isStatic known, List.append_nil]
  | false =>
    rw [t.declareIfNew_of_not_contains name isStatic known]
    exact List.prefix_append _ _

theorem size_le_size_declareIfNew : t.size ≤ (t.declareIfNew name isStatic).size :=
  (t.prefix_declareIfNew name isStatic).length_le

theorem size_declareIfNew_le : (t.declareIfNew name isStatic).size ≤ t.size + 1 := by
  cases known : t.contains name with
  | true =>
    rw [t.declareIfNew_of_contains name isStatic known]
    omega
  | false =>
    rw [t.declareIfNew_of_not_contains name isStatic known]
    simp [size]

/-- A type keeps its handle when further classes are declared. -/
theorem get?_declareIfNew {id : TypeId} (held : (t.get? id).isSome) :
    (t.declareIfNew name isStatic).get? id = t.get? id := by
  have inside : id.position < t.registrations.length := isSome_get?_iff.1 held
  rw [get?, get?, List.getElem?_eq_getElem inside,
    List.prefix_iff_getElem?.1 (t.prefix_declareIfNew name isStatic) _ inside]

/-- A class of the table afterwards was there before or is the empty class that is declared. -/
theorem class?_declareIfNew {id : TypeId} {c : ClassType}
    (held : (t.declareIfNew name isStatic).class? id = some c) :
    t.class? id = some c ∨ t.contains name = false ∧ id = .ofPosition t.size ∧ c = { name, isStatic } := by
  cases old : (t.get? id).isSome with
  | true =>
    rw [class?, t.get?_declareIfNew name isStatic old] at held
    exact Or.inl held
  | false =>
    have outside : t.registrations.length ≤ id.position := by
      have none : ¬ id.position < t.size := fun inside => by
        rw [isSome_get?_iff.2 inside] at old
        cases old
      exact Nat.le_of_not_lt none
    cases known : t.contains name with
    | true =>
      rw [t.declareIfNew_of_contains name isStatic known] at held
      exact Or.inl held
    | false =>
      rw [t.declareIfNew_of_not_contains name isStatic known, class?, get?, List.getElem?_append_right outside,
        List.getElem?_singleton] at held
      split at held
      · next last =>
        have position : id.position = t.size := by
          unfold size
          omega
        exact Or.inr ⟨rfl, by rw [← position, TypeId.ofPosition_position], (Option.some.inj held).symm⟩
      · cases held

/-- A name keeps its handle when further classes are declared. -/
theorem lookup_declareIfNew {n : String} {id : TypeId} (found : t.lookup n = some id) :
    (t.declareIfNew name isStatic).lookup n = some id := by
  obtain ⟨i, first, rfl⟩ := Option.map_eq_some_iff.1 found
  rw [lookup, (t.prefix_declareIfNew name isStatic).findIdx?_eq_some first, Option.map_some]

theorem lookup_declareIfNew_self (new : t.contains name = false) :
    (t.declareIfNew name isStatic).lookup name = some (.ofPosition t.size) := by
  have missing : t.registrations.findIdx? (·.name = some name) = none := by
    rw [contains, lookup, Option.isSome_map, Option.isSome_eq_false_iff, Option.isNone_iff_eq_none] at new
    exact new
  rw [t.declareIfNew_of_not_contains name isStatic new, lookup, List.findIdx?_append, missing]
  simp [size, List.findIdx?_cons]

theorem HasBuiltins.declareIfNew {u : TypeTable} (whole : u.HasBuiltins) :
    (u.declareIfNew name isStatic).HasBuiltins :=
  List.IsPrefix.trans whole (u.prefix_declareIfNew name isStatic)

end TypeTable

/-- Every class of the table is found under its name. -/
def TypeTable.FindsClasses (t : TypeTable) : Prop := ∀ id c, t.class? id = some c → t.lookupClass c.name = some id

theorem TypeTable.FindsClasses.declareIfNew {t : TypeTable} (finds : t.FindsClasses) (name : String)
    (isStatic : Bool) : (t.declareIfNew name isStatic).FindsClasses := by
  intro id c held
  apply Option.filter_eq_some_iff.2
  refine ⟨?_, by rw [held]; rfl⟩
  rcases t.class?_declareIfNew name isStatic held with old | ⟨new, rfl, rfl⟩
  · exact t.lookup_declareIfNew name isStatic (lookup_of_lookupClass (finds id c old))
  · exact t.lookup_declareIfNew_self name isStatic new

/-- A table that is made from the builtin types by declaring classes and by changing classes in any way. -/
inductive TypeTable.Built : TypeTable → Prop where
  | builtins : Built .builtins
  | declare {t : TypeTable} (built : Built t) (name : String) (isStatic : Bool) : Built (t.declareIfNew name isStatic)
  | change {t : TypeTable} (built : Built t) (id : TypeId) (f : ClassType → ClassType) : Built (t.modifyClass id f)

theorem TypeTable.Built.hasBuiltins {t : TypeTable} (built : t.Built) : t.HasBuiltins := by
  induction built with
  | builtins => exact List.prefix_refl _
  | declare _ name isStatic whole => exact whole.declareIfNew name isStatic
  | change _ id f whole => exact whole.modifyClass id f

/-! ## The table of a program -/

/-- A class of the given name and flag without base and members. -/
def ClassType.placeholder (declaration : String × Bool) : ClassType :=
  { name := declaration.1, isStatic := declaration.2 }

/-- The table after declarations one after the other. -/
def TypeTable.declareAll (t : TypeTable) (declarations : List (String × Bool)) : TypeTable :=
  declarations.foldl (fun t (name, isStatic) => t.declareIfNew name isStatic) t

namespace TypeTable

variable (t : TypeTable) (declarations : List (String × Bool))

theorem named_declareAll (m : String) : (t.declareAll declarations).named m =
    (t.named m).or ((declarations.find? (·.1 = m)).map fun d => .classType (ClassType.placeholder d)) := by
  induction declarations generalizing t with
  | nil => simp [declareAll]
  | cons d rest ih =>
    show ((t.declareIfNew d.1 d.2).declareAll rest).named m = _
    rw [ih, t.named_declareIfNew, Option.or_assoc, List.find?_cons]
    by_cases same : d.1 = m
    · simp [same, ClassType.placeholder]
    · simp [same]

theorem size_declareAll_le : (t.declareAll declarations).size ≤ t.size + declarations.length := by
  induction declarations generalizing t with
  | nil => exact Nat.le_refl _
  | cons d rest ih =>
    have head := t.size_declareIfNew_le d.1 d.2
    have tail := ih (t.declareIfNew d.1 d.2)
    show ((t.declareIfNew d.1 d.2).declareAll rest).size ≤ _
    rw [List.length_cons]
    omega

theorem hasBuiltins_declareAll (whole : t.HasBuiltins) : (t.declareAll declarations).HasBuiltins := by
  induction declarations generalizing t with
  | nil => exact whole
  | cons d rest ih => exact ih _ (whole.declareIfNew d.1 d.2)

theorem finds_declareAll (finds : t.FindsClasses) : (t.declareAll declarations).FindsClasses := by
  induction declarations generalizing t with
  | nil => exact finds
  | cons d rest ih => exact ih _ (finds.declareIfNew d.1 d.2)

theorem class?_declareAll {id : TypeId} {c : ClassType} (held : (t.declareAll declarations).class? id = some c) :
    t.class? id = some c ∨ ∃ d ∈ declarations, c = .placeholder d := by
  induction declarations generalizing t with
  | nil => exact Or.inl held
  | cons d rest ih =>
    rcases ih (t.declareIfNew d.1 d.2) held with held | ⟨e, mem, same⟩
    · exact (t.class?_declareIfNew d.1 d.2 held).imp (fun old => old) fun new => ⟨d, List.mem_cons_self, new.2.2⟩
    · exact Or.inr ⟨e, List.mem_cons_of_mem d mem, same⟩

theorem class?_builtins (id : TypeId) : builtins.class? id = none := by
  have classless : ∀ r ∈ builtins.registrations, r.entity.class? = none := by decide
  rw [class?, get?]
  cases entry : builtins.registrations[id.position]? with
  | none => rfl
  | some r => exact classless r (List.mem_of_getElem? entry)

end TypeTable

namespace Program

/-- The names of the main class and of the other classes, in source order. -/
def names (p : Program) : List String := p.main.name.name :: p.classes.map (·.name.name)

theorem map_fst_declared (p : Program) : p.declared.map Prod.fst = p.names := by
  simp [declared, names]

theorem mem_names_of_mem {p : Program} {d : ClassDecl} (mem : d ∈ p.classes) : d.name.name ∈ p.names :=
  List.mem_cons_of_mem _ (List.mem_map.2 ⟨d, mem, rfl⟩)

theorem seed_eq_declareAll (p : Program) : p.seed = TypeTable.builtins.declareAll p.declared := rfl

variable (p : Program)

theorem hasBuiltins_seed : p.seed.HasBuiltins :=
  TypeTable.hasBuiltins_declareAll _ _ (List.prefix_refl _)

theorem finds_seed : p.seed.FindsClasses := by
  apply TypeTable.finds_declareAll
  intro id c held
  rw [TypeTable.class?_builtins] at held
  cases held

theorem size_seed_le : p.seed.size ≤ 6 + p.classes.length := by
  have bound := TypeTable.builtins.size_declareAll_le p.declared
  have count : p.declared.length = p.classes.length + 1 := by simp [declared]
  have five : TypeTable.builtins.size = 5 := rfl
  rw [seed_eq_declareAll]
  omega

/-- Under a name stands the builtin type of that name, or a placeholder for its first declaration. -/
theorem named_seed (n : String) : p.seed.named n =
    (TypeTable.builtins.named n).or ((p.declared.find? (·.1 = n)).map fun d => .classType (.placeholder d)) :=
  TypeTable.named_declareAll _ _ n

/-- All classes of the table are placeholders. -/
theorem exists_declared_of_class?_seed {id : TypeId} {c : ClassType} (held : p.seed.class? id = some c) :
    ∃ d ∈ p.declared, c = .placeholder d := by
  rcases TypeTable.class?_declareAll _ _ held with builtin | declared
  · rw [TypeTable.class?_builtins] at builtin
    cases builtin
  · exact declared

variable {p} {n : String}

theorem named_builtins_eq_none_iff : TypeTable.builtins.named n = none ↔ n ∉ builtinNames := by
  simp only [TypeTable.named, TypeTable.builtins, Option.map_eq_none_iff, List.find?_eq_none, builtinNames,
    List.mem_cons, List.not_mem_nil, or_false, forall_eq_or_imp, forall_eq, decide_eq_true_eq, not_or,
    Option.some.injEq, reduceCtorEq, not_false_eq_true, true_and]
  constructor <;> rintro ⟨a, b, c, d⟩ <;> exact ⟨Ne.symm a, Ne.symm b, Ne.symm c, Ne.symm d⟩

/-- A name is found just when it is a builtin or a declared one. -/
theorem contains_seed_iff : p.seed.contains n = true ↔ n ∈ p.names ∨ n ∈ builtinNames := by
  have declared : (p.declared.find? (·.1 = n)).isSome = true ↔ n ∈ p.names := by
    rw [List.find?_isSome, ← map_fst_declared, List.mem_map]
    simp
  have builtin : (TypeTable.builtins.named n).isSome = true ↔ n ∈ builtinNames := by
    rw [← not_iff_not, Option.not_isSome_iff_eq_none]
    exact named_builtins_eq_none_iff
  rw [TypeTable.contains_eq_isSome_named, named_seed, Option.isSome_or, Bool.or_eq_true, Option.isSome_map,
    declared, builtin, or_comm]

variable (small : p.classes.length < UInt32.size - 5)
include small

theorem size_seed_le_of_few : p.seed.size ≤ UInt32.size := by
  have bound := p.size_seed_le
  omega

/-- A name stands for a class just when it is declared and not the name of a builtin type. -/
theorem isSome_lookupClass_seed_iff : (p.seed.lookupClass n).isSome = true ↔ n ∈ p.names ∧ n ∉ builtinNames := by
  have bound := size_seed_le_of_few small
  constructor
  · intro found
    have other : n ∉ builtinNames := fun builtin => by
      rw [p.hasBuiltins_seed.lookupClass_eq_none bound builtin] at found
      cases found
    obtain ⟨id, found⟩ := Option.isSome_iff_exists.1 found
    have known : p.seed.contains n = true := by
      rw [TypeTable.contains, TypeTable.lookup_of_lookupClass found]
      rfl
    exact ⟨(contains_seed_iff.1 known).resolve_right other, other⟩
  · rintro ⟨declared, other⟩
    rw [← map_fst_declared, List.mem_map] at declared
    obtain ⟨d, mem, rfl⟩ := declared
    obtain ⟨first, found⟩ : ∃ first, p.declared.find? (·.1 = d.1) = some first := by
      rw [← Option.isSome_iff_exists, List.find?_isSome]
      exact ⟨d, mem, by simp⟩
    rw [TypeTable.isSome_lookupClass_iff bound, named_seed, named_builtins_eq_none_iff.2 other, found]
    exact ⟨.placeholder first, rfl⟩

/-- What leads to a class is declared and not the name of a builtin type. -/
theorem declared_of_lookupClass {id : TypeId} (found : p.seed.lookupClass n = some id) :
    n ∈ p.names ∧ n ∉ builtinNames := by
  rw [← isSome_lookupClass_seed_iff small, found]
  rfl

theorem exists_lookupClass_seed (declared : n ∈ p.names) (other : n ∉ builtinNames) :
    ∃ id, p.seed.lookupClass n = some id :=
  Option.isSome_iff_exists.1 ((isSome_lookupClass_seed_iff small).2 ⟨declared, other⟩)

theorem lookupClass_seed_eq_none_iff : p.seed.lookupClass n = none ↔ ¬ (n ∈ p.names ∧ n ∉ builtinNames) := by
  rw [← Option.not_isSome_iff_eq_none, isSome_lookupClass_seed_iff small]

/-- The declarations that stand for no class are those with names of builtin types. -/
theorem lookupClass_declaration_eq_none_iff {d : ClassDecl} (mem : d ∈ p.classes) :
    p.seed.lookupClass d.name.name = none ↔ d.name.name ∈ builtinNames := by
  rw [lookupClass_seed_eq_none_iff small, and_iff_right (mem_names_of_mem mem), not_not]

/-- Only a declared name that is not that of a builtin type can lead to a class. -/
theorem bind_lookupClass_filter {α : Type} (name : α → String) (given : Option α) :
    (given.filter fun a => name a ∈ p.names ∧ name a ∉ builtinNames).bind (fun a => p.seed.lookupClass (name a)) =
      given.bind fun a => p.seed.lookupClass (name a) := by
  cases given with
  | none => rfl
  | some a =>
    by_cases known : name a ∈ p.names ∧ name a ∉ builtinNames
    · rw [Option.filter_some, if_pos (decide_eq_true known)]
    · rw [Option.filter_some, if_neg (by simpa using known), Option.bind_some,
        (lookupClass_seed_eq_none_iff small).2 known]
      rfl

/-- A class of the table is the placeholder for the first declaration of its name. -/
theorem class?_seed {id : TypeId} (found : p.seed.lookupClass n = some id) :
    ∃ d, p.declared.find? (·.1 = n) = some d ∧ p.seed.class? id = some (.placeholder d) := by
  have bound := size_seed_le_of_few small
  have registered := TypeTable.class?_of_lookupClass bound found
  have other : n ∉ builtinNames := (declared_of_lookupClass small found).2
  rw [named_seed, named_builtins_eq_none_iff.2 other, Option.none_or] at registered
  obtain ⟨c, held⟩ := TypeTable.exists_class?_of_lookupClass found
  rw [held] at registered
  cases first : p.declared.find? (·.1 = n) with
  | none => rw [first] at registered; cases registered
  | some d =>
    rw [first] at registered
    exact ⟨d, rfl, held.trans registered⟩

end Program
end MemberResolution

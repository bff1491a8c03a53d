import MemberResolution.Proofs.Entering
import MemberResolution.Proofs.KeyedLists
import MemberResolution.Proofs.Seeding

/-!
# Repeated class declarations

Where class names are repeated, the table that a program starts from depends on
the first declaration of each name alone (`seed_firstDeclarations`). A run does
not leave it at that: it looks each declaration up by name, so what a repeat
declares is entered into the class of the first declaration. A run alone leaves
the table that it leaves for the first declarations, with the repeats entered
after them (`table_resolveAlone_repeated`).
-/

namespace MemberResolution
set_option autoImplicit false

/-- The main class as a declaration without members. -/
def MainClass.bare (m : MainClass) : ClassDecl :=
  { name := m.name, isStatic := false, base := none, fields := [], methods := [] }

namespace Program

/-- The program without the declarations of a name that the main class or an earlier declaration has. -/
def firstDeclarations (p : Program) : Program :=
  { p with classes := (firstPerKey (·.name.name) p.classes).filter (·.name.name ≠ p.main.name.name) }

/-- The declarations of a name that the main class or an earlier declaration has. -/
def repeatedDeclarations (p : Program) : List ClassDecl := repeatsAfter (·.name.name) [p.main.bare] p.classes

end Program

/-! ## The table that a program starts from -/

namespace TypeTable

theorem contains_declareIfNew (t : TypeTable) (name : String) (isStatic : Bool) (n : String) :
    (t.declareIfNew name isStatic).contains n = (t.contains n || decide (name = n)) := by
  rw [contains_eq_isSome_named, contains_eq_isSome_named, named_declareIfNew, Option.isSome_or]
  by_cases same : name = n
  · simp [same]
  · simp [same]

/-- Declarations of a name that is taken can be left out. -/
theorem declareAll_filter_ne {t : TypeTable} {n : String} (taken : t.contains n = true)
    (declarations : List (String × Bool)) :
    t.declareAll (declarations.filter (·.1 ≠ n)) = t.declareAll declarations := by
  induction declarations generalizing t with
  | nil => rfl
  | cons d rest ih =>
    have still : (t.declareIfNew d.1 d.2).contains n = true := by rw [contains_declareIfNew, taken, Bool.true_or]
    show _ = (t.declareIfNew d.1 d.2).declareAll rest
    by_cases same : d.1 = n
    · rw [List.filter_cons_of_neg (by simpa using same), ih taken,
        t.declareIfNew_of_contains d.1 d.2 (by rwa [same])]
    · rw [List.filter_cons_of_pos (by simpa using same)]
      exact ih still

/-- The first declaration of each name decides. -/
theorem declareAll_firstPerKey (t : TypeTable) (declarations : List (String × Bool)) :
    t.declareAll (firstPerKey Prod.fst declarations) = t.declareAll declarations := by
  induction declarations generalizing t with
  | nil => rfl
  | cons d rest ih =>
    have taken : (t.declareIfNew d.1 d.2).contains d.1 = true := by simp [contains_declareIfNew]
    show (t.declareIfNew d.1 d.2).declareAll ((firstPerKey Prod.fst rest).filter (·.1 ≠ d.1)) =
      (t.declareIfNew d.1 d.2).declareAll rest
    rw [declareAll_filter_ne taken, ih]

end TypeTable

namespace Program

variable (p : Program)

theorem seed_firstDeclarations : p.firstDeclarations.seed = p.seed := by
  have declared : p.firstDeclarations.declared = firstPerKey Prod.fst p.declared := by
    have classes : firstPerKey Prod.fst (p.classes.map fun d => (d.name.name, d.isStatic)) =
        (firstPerKey (·.name.name) p.classes).map fun d => (d.name.name, d.isStatic) :=
      firstPerKey_map _ p.classes
    rw [Program.declared, Program.declared, firstPerKey, classes, List.filter_map]
    rfl
  rw [seed_eq_declareAll, declared, TypeTable.declareAll_firstPerKey, ← seed_eq_declareAll]

end Program

/-! ## The table that a run leaves -/

/-- Entering a declaration without base and members changes nothing. -/
theorem TypeTable.enterClass_of_bare (t : TypeTable) {d : ClassDecl} (base : d.base = none) (fields : d.fields = [])
    (methods : d.methods = []) : t.enterClass d = t := by
  have same : ∀ id, d.enter t id = fun c => c := by
    intro id
    funext c
    simp only [ClassDecl.enter, ClassDecl.enterMethods, ClassDecl.enterFields, ClassDecl.linkBase, ClassDecl.base?,
      base, fields, methods, List.foldl_nil, Option.bind_none, Option.none_or]
  unfold enterClass
  split
  · rw [same, modifyClass_id]
  · rfl

namespace Program

variable (p : Program)

/-- The declarations of one name are the first one and its repeats. -/
theorem filter_firstDeclarations_append (name : String) :
    p.firstDeclarations.classes.filter (·.name.name = name) ++ p.repeatedDeclarations.filter (·.name.name = name) =
      p.classes.filter (·.name.name = name) := by
  have met : name ∈ [p.main.bare].map (·.name.name) ↔ name = p.main.name.name := List.mem_singleton
  rw [firstDeclarations, repeatedDeclarations, filter_repeatsAfter, List.filter_filter]
  by_cases main : name = p.main.name.name
  · have nothingNew : (firstPerKey (·.name.name) p.classes).filter
        (fun d => decide (d.name.name = name) && decide (d.name.name ≠ p.main.name.name)) = [] := by
      rw [List.filter_eq_nil_iff]
      intro d _
      simp [main]
    rw [nothingNew, if_pos (met.2 main), List.nil_append]
  · have other : (firstPerKey (·.name.name) p.classes).filter
        (fun d => decide (d.name.name = name) && decide (d.name.name ≠ p.main.name.name)) =
          (firstPerKey (·.name.name) p.classes).filter (·.name.name = name) := by
      apply List.filter_congr
      intro d _
      by_cases same : d.name.name = name
      · simp [same, main]
      · simp [same]
    rw [other, filter_firstPerKey, if_neg fun mem => main (met.1 mem), List.take_append_drop]

variable {p} (settings : Settings) (small : p.classes.length < UInt32.size - 5)
include small

theorem declarationsOf_eq_append (id : TypeId) : p.declarationsOf p.seed id =
    p.firstDeclarations.declarationsOf p.seed id ++
      p.repeatedDeclarations.filter fun d => p.seed.lookupClass d.name.name = some id := by
  rw [declarationsOf, declarationsOf]
  by_cases known : ∃ name, p.seed.lookupClass name = some id
  · obtain ⟨name, found⟩ := known
    simp only [TypeTable.lookupClass_eq_iff (size_seed_le_of_few small) found, filter_firstDeclarations_append]
  · have noDeclarations : ∀ ds : List ClassDecl,
        (ds.filter fun d => p.seed.lookupClass d.name.name = some id) = [] := by
      intro ds
      rw [List.filter_eq_nil_iff]
      intro d _ found
      exact known ⟨d.name.name, of_decide_eq_true found⟩
    rw [noDeclarations, noDeclarations, noDeclarations, List.append_nil]

/-- What is entered into a class is what its first declaration has, then what the repeats have. -/
theorem entered_eq_repeated (id : TypeId) (c : ClassType) : p.entered settings p.seed id c =
    (p.repeatedDeclarations.filter fun d => p.seed.lookupClass d.name.name = some id).foldl
      (fun c d => d.enter p.seed id c) (p.firstDeclarations.entered settings p.seed id c) := by
  rw [entered, declarationsOf_eq_append small, List.foldl_append]
  rfl

/-- **Repeats are entered after the first declarations.** -/
theorem table_resolveAlone_repeated : (p.resolveAlone settings).table =
    p.repeatedDeclarations.foldl TypeTable.enterClass (p.firstDeclarations.resolveAlone settings).table := by
  have heads : (p.firstDeclarations.resolveAlone settings).table.SameHeads p.seed := by
    rw [resolveAlone, seed_firstDeclarations]
    exact sameHeads_resolve settings p.seed _
  apply TypeTable.eq_of_get?
  · rw [((TypeTable.sameHeads_enterClasses _ _).trans heads).size]
    exact size_seed_le_of_few small
  · rw [((TypeTable.sameHeads_enterClasses _ _).trans heads).names]
    exact (p.sameHeads_resolve settings p.seed).names
  · intro id
    rw [TypeTable.get?_enterClasses heads, resolveAlone, resolveAlone, seed_firstDeclarations, get?_resolve,
      get?_resolve, Option.map_map]
    apply Option.map_congr
    intro e _
    rw [Function.comp_apply, TypeEntity.mapClass_mapClass, funext (entered_eq_repeated settings small id)]

/-- A repeat that declares nothing adds nothing. -/
theorem table_resolveAlone_of_bare
    (bare : ∀ d ∈ p.repeatedDeclarations, d.base = none ∧ d.fields = [] ∧ d.methods = []) :
    (p.resolveAlone settings).table = (p.firstDeclarations.resolveAlone settings).table := by
  have unchanged : ∀ (ds : List ClassDecl), (∀ d ∈ ds, d.base = none ∧ d.fields = [] ∧ d.methods = []) →
      ∀ t : TypeTable, ds.foldl TypeTable.enterClass t = t := by
    intro ds
    induction ds with
    | nil => exact fun _ t => rfl
    | cons d rest ih =>
      intro all t
      obtain ⟨base, fields, methods⟩ := all d List.mem_cons_self
      rw [List.foldl_cons, t.enterClass_of_bare base fields methods]
      exact ih (fun e mem => all e (List.mem_cons_of_mem d mem)) t
  rw [table_resolveAlone_repeated settings small, unchanged _ bare]

end Program

namespace Program

/-- A class without base and members whose name is declared again, with a base and a field. -/
def extendedLater : Program :=
  { main := { name := ⟨"Main", ⟨6, 4⟩⟩ }
    classes := [
      { name := ⟨"List", ⟨17, 4⟩⟩ },
      { name := ⟨"List", ⟨40, 4⟩⟩, base := some ⟨"Main", ⟨53, 4⟩⟩,
        fields := [{ type := ⟨.int, ⟨60, 3⟩, none⟩, name := ⟨"size", ⟨64, 4⟩⟩ }] }] }

/-- The first declaration does not win: its class gets the base and the field of the repeat. -/
theorem table_resolveAlone_extendedLater :
    let whole := (extendedLater.resolveAlone {}).table
    let first := (extendedLater.firstDeclarations.resolveAlone {}).table
    whole ≠ first ∧ whole.base? (.ofPosition 6) = some (.ofPosition 5) ∧ first.base? (.ofPosition 6) = none := by
  decide +kernel

end Program
end MemberResolution

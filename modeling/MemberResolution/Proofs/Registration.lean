import Mathlib.Data.List.Nodup
import Mathlib.Data.List.Range
import MemberResolution.Proofs.Session

/-!
# Names and the types they stand for

In the table of a session every type but the placeholder is registered under
its own spelling, and no name twice (`indexed_session`). So looking a name up
and reading a type's name are inverse to each other, the types from the fifth
on are the classes, and a declaration fails just when its name is taken
(`index_session`). A map from names to handles that is filled as the types are
registered finds the same (`lookup_nameMap_session`).
-/

namespace MemberResolution
set_option autoImplicit false

namespace TypeTable

/-- The builtin types come first, classes follow under names of their own, and no name is registered twice. -/
structure Indexed (t : TypeTable) : Prop where
  whole : t.HasBuiltins
  classes : ∀ i r, 5 ≤ i → t.registrations[i]? = some r → ∃ c, r = ⟨some c.name, .classType c⟩
  distinct : t.names.Nodup

/-- A declaration of `name` has put an empty class at the end of the table, and nothing else has changed. -/
structure Declared (name : String) (isStatic : Bool) (id : TypeId) (before after : TypeTable) : Prop where
  position : id.position = before.size
  size : after.size = before.size + 1
  placeholder : after.get? id = some (.classType { name, isStatic })
  others : ∀ other, other ≠ id → after.get? other = before.get? other
  found : after.lookup name = some id
  names : ∀ n, n ≠ name → after.lookup n = before.lookup n

variable {t : TypeTable}

/-! ## One step -/

theorem names_declareIfNew_of_not_contains {name : String} (isStatic : Bool) (new : t.contains name = false) :
    (t.declareIfNew name isStatic).names = t.names ++ [some name] := by
  rw [t.declareIfNew_of_not_contains name isStatic new, names, List.map_append]
  rfl

theorem some_mem_names_iff {name : String} : some name ∈ t.names ↔ t.contains name = true := by
  rw [names, contains, lookup, Option.isSome_map, List.findIdx?_isSome, List.any_eq_true]
  simp

theorem Indexed.declareIfNew (indexed : t.Indexed) (name : String) (isStatic : Bool) :
    (t.declareIfNew name isStatic).Indexed := by
  cases known : t.contains name with
  | true =>
    rw [t.declareIfNew_of_contains name isStatic known]
    exact indexed
  | false =>
    refine ⟨indexed.whole.declareIfNew name isStatic, ?_, ?_⟩
    · intro i r late entry
      rw [t.declareIfNew_of_not_contains name isStatic known, List.getElem?_append] at entry
      split at entry
      · exact indexed.classes i r late entry
      · rw [List.getElem?_singleton] at entry
        split at entry
        · exact ⟨{ name, isStatic }, (Option.some.inj entry).symm⟩
        · cases entry
    · have new : some name ∉ t.names := by
        rw [some_mem_names_iff, known]
        exact Bool.false_ne_true
      rw [names_declareIfNew_of_not_contains isStatic known, List.nodup_append]
      refine ⟨indexed.distinct, List.nodup_singleton _, ?_⟩
      intro a mem b last same
      rw [List.mem_singleton.1 last] at same
      exact new (same ▸ mem)

/-- Changes of a class that keep its name keep it under that name. -/
theorem Indexed.modifyClass (indexed : t.Indexed) (id : TypeId) {f : ClassType → ClassType}
    (keeps : ∀ c, (f c).head = c.head) : (t.modifyClass id f).Indexed := by
  refine ⟨indexed.whole.modifyClass id f, ?_, ?_⟩
  · intro i r late entry
    rw [TypeTable.modifyClass, List.getElem?_modify] at entry
    obtain ⟨old, here, rfl⟩ := Option.map_eq_some_iff.1 entry
    obtain ⟨c, rfl⟩ := indexed.classes i old late here
    have name : (f c).name = c.name := congrArg Prod.fst (keeps c)
    split
    · exact ⟨f c, by rw [name]; rfl⟩
    · exact ⟨c, rfl⟩
  · rw [names_modifyClass]
    exact indexed.distinct

theorem Indexed.apply (indexed : t.Indexed) (step : SessionStep) : (step.apply t).Indexed := by
  cases step with
  | declare name isStatic => exact indexed.declareIfNew name isStatic
  | resolve settings program =>
    exact program.resolve_invariant (fun _ id _ keeps held => held.modifyClass id keeps) indexed settings

/-! ## Whole sessions -/

theorem indexed_builtins : builtins.Indexed where
  whole := List.prefix_refl _
  classes := by
    intro i r late entry
    have none : builtins.registrations[i]? = none := List.getElem?_eq_none late
    rw [none] at entry
    cases entry
  distinct := by decide

/-- **Every table of a session is indexed.** -/
theorem indexed_session (steps : List SessionStep) : (session steps).Indexed := by
  have run : ∀ (steps : List SessionStep) (t : TypeTable), t.Indexed → (steps.foldl SessionStep.apply t).Indexed := by
    intro steps
    induction steps with
    | nil => exact fun t indexed => indexed
    | cons step rest ih => exact fun t indexed => ih (step.apply t) (indexed.apply step)
  exact run steps builtins indexed_builtins

/-! ## The names as a map -/

/-- Names put into a map one after the other, each with the handle of its position. -/
def handlesByName (names : List (Option String)) : List (String × TypeId) :=
  names.zipIdx.foldl (fun filed q => q.1.elim filed fun name => putUnder name (.ofPosition q.2) filed) []

/-- The map from names to handles that is filled as the types are registered. -/
def nameMap (t : TypeTable) : List (String × TypeId) := handlesByName t.names

theorem handlesByName_concat (names : List (Option String)) (last : Option String) :
    handlesByName (names ++ [last]) =
      last.elim (handlesByName names) fun name => putUnder name (.ofPosition names.length) (handlesByName names) := by
  rw [handlesByName, List.zipIdx_append, List.foldl_append, ← handlesByName]
  simp

/-- Under a name the map holds the handle of the one position where it is registered. -/
theorem lookup_handlesByName {names : List (Option String)} (distinct : names.Nodup) (n : String) :
    (handlesByName names).lookup n = (names.findIdx? (· = some n)).map TypeId.ofPosition := by
  induction names using List.reverseRecOn with
  | nil => rfl
  | append_singleton names last ih =>
    obtain ⟨earlier, -, apart⟩ := List.nodup_append.1 distinct
    rw [handlesByName_concat, List.findIdx?_append]
    cases last with
    | none => simpa [List.findIdx?_cons] using ih earlier
    | some name =>
      rw [Option.elim_some, lookup_putUnder, ih earlier]
      by_cases same : n = name
      · subst same
        have new : names.findIdx? (· = some n) = none := by
          rw [List.findIdx?_eq_none_iff]
          exact fun a mem => decide_eq_false fun taken => apart a mem (some n) List.mem_cons_self taken
        simp [new, List.findIdx?_cons]
      · simp [same, Ne.symm same, List.findIdx?_cons]

theorem nameMap_modifyClass (t : TypeTable) (id : TypeId) (f : ClassType → ClassType) :
    (t.modifyClass id f).nameMap = t.nameMap := by
  rw [nameMap, names_modifyClass, nameMap]

/-- A declaration of a new name puts its handle under it. -/
theorem nameMap_declareIfNew {name : String} (isStatic : Bool) (new : t.contains name = false) :
    (t.declareIfNew name isStatic).nameMap = putUnder name (.ofPosition t.size) t.nameMap := by
  rw [nameMap, names_declareIfNew_of_not_contains isStatic new, handlesByName_concat, names, List.length_map]
  rfl

/-- **Looking a name up in a session's table finds what the map holds under it.** -/
theorem lookup_nameMap_session (steps : List SessionStep) (n : String) :
    (session steps).nameMap.lookup n = (session steps).lookup n := by
  rw [nameMap, lookup_handlesByName (indexed_session steps).distinct, lookup_eq_findIdx?_names]

/-! ## What an indexed table finds -/

/-- The name of a type is the spelling of what stands at its position. -/
theorem typeName_of_getElem? {id : TypeId} {r : Registration} (entry : t.registrations[id.position]? = some r) :
    t.typeName id = r.entity.spelling := by
  rw [typeName, get?, entry]
  rfl

namespace Indexed

variable (indexed : t.Indexed)
include indexed

/-- A type is a builtin one in its place or a class under its own name. -/
theorem builtin_or_class {i : Nat} {r : Registration} (entry : t.registrations[i]? = some r) :
    (i < 5 ∧ r ∈ builtins.registrations[i]?) ∨ (5 ≤ i ∧ ∃ c, r = ⟨some c.name, .classType c⟩) := by
  by_cases late : 5 ≤ i
  · exact .inr ⟨late, indexed.classes i r late entry⟩
  · rw [indexed.whole.getElem? (by omega)] at entry
    exact .inl ⟨by omega, entry⟩

/-- A type is registered under its spelling, and the placeholder under no name. -/
theorem name_eq {i : Nat} {r : Registration} (entry : t.registrations[i]? = some r) :
    r.name = if i = 0 then none else some r.entity.spelling := by
  have builtin : ∀ i < 5, ∀ r ∈ builtins.registrations[i]?,
      r.name = if i = 0 then none else some r.entity.spelling := by decide
  obtain ⟨early, here⟩ | ⟨late, c, rfl⟩ := indexed.builtin_or_class entry
  · exact builtin i early r here
  · rw [if_neg (by omega)]
    rfl

/-- The types from the fifth on are the classes. -/
theorem isSome_class?_iff {id : TypeId} : (t.class? id).isSome ↔ 5 ≤ id.position ∧ id.position < t.size := by
  rw [class?, get?]
  constructor
  · intro held
    cases entry : t.registrations[id.position]? with
    | none => rw [entry] at held; cases held
    | some r =>
      refine ⟨?_, (List.getElem?_eq_some_iff.1 entry).1⟩
      have builtin : ∀ i < 5, ∀ r ∈ builtins.registrations[i]?, r.entity.class? = none := by decide
      rw [entry, Option.map_some, Option.bind_some] at held
      obtain ⟨early, here⟩ | ⟨late, -⟩ := indexed.builtin_or_class entry
      · rw [builtin id.position early r here] at held
        cases held
      · exact late
  · rintro ⟨late, inside⟩
    obtain ⟨c, entry⟩ := indexed.classes _ _ late (List.getElem?_eq_getElem inside)
    rw [List.getElem?_eq_getElem inside, entry]
    rfl

variable (small : t.size ≤ UInt32.size)
include small

/-- **Looking up is the inverse of reading the name.** -/
theorem lookup_eq_some_iff {n : String} {id : TypeId} :
    t.lookup n = some id ↔ (t.get? id).isSome ∧ id ≠ .unknown ∧ t.typeName id = n := by
  constructor
  · intro found
    obtain ⟨e, entry, -⟩ := getElem?_of_lookup small found
    have known : id ≠ .unknown := by
      rintro rfl
      exact indexed.whole.lookup_ne_unknown small found
    have position : id.position ≠ 0 := fun first => known (TypeId.position_injective first)
    have name := indexed.name_eq entry
    rw [if_neg position] at name
    refine ⟨isSome_get?_iff.2 (List.getElem?_eq_some_iff.1 entry).1, known, ?_⟩
    rw [typeName_of_getElem? entry]
    exact (Option.some.inj name).symm
  · rintro ⟨held, known, rfl⟩
    have inside : id.position < t.registrations.length := isSome_get?_iff.1 held
    have position : id.position ≠ 0 := fun first => known (TypeId.position_injective first)
    have name := indexed.name_eq (List.getElem?_eq_getElem inside)
    rw [if_neg position] at name
    have first : t.registrations.findIdx? (·.name = some (t.typeName id)) = some id.position := by
      rw [List.findIdx?_eq_some_iff_getElem]
      have spelled := typeName_of_getElem? (List.getElem?_eq_getElem inside)
      refine ⟨inside, by rw [spelled, name, decide_eq_true_eq], ?_⟩
      intro j before same
      -- two registrations of one name stand at one position
      have earlier : j < t.registrations.length := Nat.lt_trans before inside
      have here : t.names[id.position]? = some (some (t.typeName id)) := by
        rw [TypeTable.names, List.getElem?_map, List.getElem?_eq_getElem inside, Option.map_some, name, ← spelled]
      have there : t.names[j]? = some (some (t.typeName id)) := by
        rw [TypeTable.names, List.getElem?_map, List.getElem?_eq_getElem earlier, Option.map_some,
          of_decide_eq_true same]
      have bound : j < t.names.length := by rwa [TypeTable.names, List.length_map]
      exact Nat.ne_of_lt before ((List.getElem?_inj bound indexed.distinct).1 (there.trans here.symm))
    rw [lookup, first, Option.map_some, TypeId.ofPosition_position]

theorem lookupClass_eq_some_iff {n : String} {id : TypeId} :
    t.lookupClass n = some id ↔ t.lookup n = some id ∧ 5 ≤ id.position := by
  rw [lookupClass, Option.filter_eq_some_iff, indexed.isSome_class?_iff]
  constructor
  · rintro ⟨found, late, -⟩
    exact ⟨found, late⟩
  · rintro ⟨found, late⟩
    obtain ⟨e, entry, -⟩ := getElem?_of_lookup small found
    exact ⟨found, late, (List.getElem?_eq_some_iff.1 entry).1⟩

/-- The handles of the classes are all those from the fifth on, in order. -/
theorem map_position_classIds : t.classIds.map TypeId.position = List.range' 5 (t.size - 5) := by
  obtain ⟨rest, split⟩ := indexed.whole
  have classes : ∀ r ∈ rest, r.entity.class?.isSome = true := by
    intro r mem
    obtain ⟨i, entry⟩ := List.getElem?_of_mem mem
    have late : t.registrations[5 + i]? = some r := by
      rw [← split, List.getElem?_append_right (by exact Nat.le_add_right 5 i), ← entry]
      exact congrArg (rest[·]?) (Nat.add_sub_cancel_left 5 i)
    obtain ⟨c, rfl⟩ := indexed.classes (5 + i) r (Nat.le_add_right 5 i) late
    rfl
  have length : t.size = 5 + rest.length := by
    rw [size, ← split, List.length_append]
    rfl
  have kept : t.registrations.zipIdx.filter (fun q => q.1.entity.class?.isSome) = rest.zipIdx 5 := by
    rw [← split, List.zipIdx_append, List.filter_append]
    have none : builtins.registrations.zipIdx.filter (fun q => q.1.entity.class?.isSome) = [] := by decide
    have all : (rest.zipIdx 5).filter (fun q => q.1.entity.class?.isSome) = rest.zipIdx 5 :=
      List.filter_eq_self.2 fun q mem => classes q.1 (List.fst_mem_of_mem_zipIdx mem)
    exact (congrArg₂ (· ++ ·) none all).trans (List.nil_append _)
  have positions : ∀ q ∈ rest.zipIdx 5, (TypeId.ofPosition q.2).position = q.2 := by
    intro q mem
    have inside := List.snd_lt_add_of_mem_zipIdx mem
    exact TypeId.position_ofPosition (by omega)
  have numbers : (rest.zipIdx 5).map Prod.snd = List.range' 5 (t.size - 5) := by
    rw [List.zipIdx_map_snd, length, Nat.add_sub_cancel_left]
  rw [← numbers, classIds, List.map_map]
  exact (congrArg _ kept).trans (List.map_congr_left positions)

end Indexed

/-! ## What a declaration does -/

section Declaration

variable {name : String} {isStatic : Bool}

theorem declareClass_of_contains (taken : t.contains name = true) :
    t.declareClass name isStatic = .error (.duplicateType name) := by
  rw [declareClass, if_pos taken]

theorem lookup_declareIfNew_of_ne (t : TypeTable) {n : String} (other : n ≠ name) :
    (t.declareIfNew name isStatic).lookup n = t.lookup n := by
  cases known : t.contains name with
  | true => rw [t.declareIfNew_of_contains name isStatic known]
  | false =>
    have last : [(⟨some name, .classType { name, isStatic }⟩ : Registration)].findIdx? (·.name = some n) = none := by
      simp [List.findIdx?_cons, Ne.symm other]
    rw [t.declareIfNew_of_not_contains name isStatic known, lookup, List.findIdx?_append, last, Option.map_none,
      Option.or_none, lookup]

/-- A declaration of a new name. -/
theorem declareClass_of_not_contains (small : t.size < UInt32.size) (new : t.contains name = false) :
    t.declareClass name isStatic = .ok (.ofPosition t.size, t.declareIfNew name isStatic) ∧
      Declared name isStatic (.ofPosition t.size) t (t.declareIfNew name isStatic) := by
  have position : (TypeId.ofPosition t.size).position = t.size := TypeId.position_ofPosition small
  have after := t.declareIfNew_of_not_contains name isStatic new
  have entries : ∀ id, (t.declareIfNew name isStatic).get? id =
      if id.position < t.size then t.get? id
      else ([.classType { name, isStatic }] : List TypeEntity)[id.position - t.size]? := by
    intro id
    rw [after, get?, List.getElem?_append]
    split
    · next inside => exact (if_pos inside).symm
    · next outside => exact (List.getElem?_map.symm).trans (if_neg outside).symm
  refine ⟨?_, ⟨position, ?_, ?_, ?_, t.lookup_declareIfNew_self name isStatic new,
    fun n other => t.lookup_declareIfNew_of_ne other⟩⟩
  · rw [declareClass, if_neg (by rw [new]; exact Bool.false_ne_true), after]
  · rw [after, size, List.length_append]
    rfl
  · rw [entries, position, if_neg (Nat.lt_irrefl _), Nat.sub_self]
    rfl
  · intro other apart
    rw [entries]
    split
    · rfl
    · next outside =>
      have beyond : t.size < other.position := by
        refine Nat.lt_of_le_of_ne (Nat.le_of_not_lt outside) fun same => apart ?_
        rw [same, TypeId.ofPosition_position]
      have nothing : t.get? other = none := by
        rw [← Option.not_isSome_iff_eq_none, isSome_get?_iff]
        exact outside
      rw [nothing, List.getElem?_eq_none]
      show 1 ≤ _
      omega

end Declaration

/-- **Names and types of a session's table.** A name leads to a type just when the type is in the table, is not the
placeholder and has that name. The builtin types come first, and the classes are all others in order. A declaration
fails just when its name is taken; otherwise it adds an empty class at the end and changes nothing else. -/
theorem index_session (steps : List SessionStep) (small : (session steps).size < UInt32.size) :
    let t := session steps
    (∀ n id, t.lookup n = some id ↔ (t.get? id).isSome ∧ id ≠ .unknown ∧ t.typeName id = n) ∧
      (List.range 5).map (fun i => t.get? (.ofPosition i)) = [some .unknown, some (.primitive .int),
        some (.primitive .boolean), some (.primitive .void), some .intArray] ∧
      t.classIds.map TypeId.position = List.range' 5 (t.size - 5) ∧
      (∀ n id, t.lookupClass n = some id ↔ t.lookup n = some id ∧ 5 ≤ id.position) ∧
      ∀ name isStatic,
        ((∃ e, t.declareClass name isStatic = .error e) ↔ t.contains name = true) ∧
        (t.contains name = true → t.declareIfNew name isStatic = t) ∧
        (t.contains name = false → ∃ id after, t.declareClass name isStatic = .ok (id, after) ∧
          Declared name isStatic id t after) := by
  intro t
  have indexed : t.Indexed := indexed_session steps
  have bound : t.size ≤ UInt32.size := Nat.le_of_lt small
  refine ⟨fun n id => indexed.lookup_eq_some_iff bound, ?_, indexed.map_position_classIds bound,
    fun n id => indexed.lookupClass_eq_some_iff bound, fun name isStatic => ⟨?_, ?_, ?_⟩⟩
  · have builtin : ∀ i < 5, t.get? (.ofPosition i) = builtins.get? (.ofPosition i) := by
      intro i first
      have position : (TypeId.ofPosition i).position = i := TypeId.position_ofPosition (Nat.lt_trans first (by decide))
      rw [get?, get?, position, indexed.whole.getElem? first]
    rw [List.map_congr_left fun i mem => builtin i (List.mem_range.1 mem)]
    decide
  · constructor
    · rintro ⟨e, failed⟩
      by_contra new
      rw [(declareClass_of_not_contains small (Bool.eq_false_iff.2 new)).1] at failed
      cases failed
    · exact fun taken => ⟨_, declareClass_of_contains taken⟩
  · exact t.declareIfNew_of_contains name isStatic
  · exact fun new => ⟨_, _, declareClass_of_not_contains small new⟩

end TypeTable

/-- Classes named like nothing and like the placeholder, a name that is declared twice, and runs over a program with
a class of a builtin name and one that is declared only afterwards. -/
def SessionStep.oddlyNamed : List SessionStep :=
  let size : FieldDecl := { type := ⟨.named ⟨"<unknown>", ⟨40, 9⟩⟩, ⟨40, 9⟩, none⟩, name := ⟨"size", ⟨50, 4⟩⟩ }
  let program : Program :=
    { main := { name := ⟨"", ⟨6, 0⟩⟩ }
      classes := [
        { name := ⟨"<unknown>", ⟨13, 9⟩⟩, base := some ⟨"", ⟨30, 0⟩⟩, fields := [size] },
        { name := ⟨"int", ⟨60, 3⟩⟩, fields := [size] },
        { name := ⟨"Later", ⟨80, 5⟩⟩, fields := [size] }] }
  [.declare "<unknown>" true, .declare "" false, .declare "" true, .resolve {} program, .declare "Later" false,
    .resolve {} program]

/-- The three classes are found under their names, and the name of the placeholder leads to a class. -/
theorem TypeTable.index_session_oddlyNamed :
    let t := session SessionStep.oddlyNamed
    t.size < UInt32.size ∧ t.lookup "<unknown>" = some (.ofPosition 5) ∧ t.typeName .unknown = "<unknown>" ∧
      t.lookupClass "" = some (.ofPosition 6) ∧ t.lookupClass "int" = none ∧
      t.classIds.map TypeId.position = [5, 6, 7] ∧ (∃ e, t.declareClass "" true = .error e) ∧
      ∃ id after, t.declareClass "List" true = .ok (id, after) ∧ Declared "List" true id t after := by
  intro t
  have small : t.size < UInt32.size := by decide +kernel
  have size : t.size = 8 := by decide +kernel
  obtain ⟨lookup, -, classes, lookupClass, declares⟩ := index_session SessionStep.oddlyNamed small
  have unknown : t.lookup "<unknown>" = some (.ofPosition 5) :=
    (lookup _ _).2 ⟨by decide +kernel, by decide, by decide +kernel⟩
  have nameless : t.lookup "" = some (.ofPosition 6) :=
    (lookup _ _).2 ⟨by decide +kernel, by decide, by decide +kernel⟩
  have int : t.lookup "int" = some .int := (lookup _ _).2 ⟨by decide +kernel, by decide, by decide +kernel⟩
  refine ⟨small, unknown, by decide +kernel, (lookupClass _ _).2 ⟨nameless, by decide⟩, ?_, ?_, ?_, ?_⟩
  · by_contra found
    obtain ⟨id, found⟩ := Option.ne_none_iff_exists'.1 found
    obtain ⟨found, late⟩ := (lookupClass _ _).1 found
    rw [show id = .int from Option.some.inj (found.symm.trans int)] at late
    exact absurd late (by decide)
  · rw [show t.classIds.map TypeId.position = List.range' 5 (t.size - 5) from classes, size]
    rfl
  · refine (declares "" true).1.2 ?_
    show (t.lookup "").isSome = true
    rw [nameless]
    rfl
  · exact (declares "List" true).2.2 (by decide +kernel)

end MemberResolution

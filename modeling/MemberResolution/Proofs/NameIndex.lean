import Mathlib.Data.List.Basic
import MemberResolution.TypeTable

/-!
# Names and handles

A table of at most `2 ^ 32` types gives each type a handle of its own, so a
name leads to the type that is registered under it (`get?_of_lookup`) and two
names never lead to the same handle (`lookup_injective`). A table that starts
with the builtin types finds them under their names, and no name leads to the
unknown type.
-/

namespace MemberResolution
set_option autoImplicit false

/-- The names of the types that every table holds. -/
def builtinNames : List String := ["int", "boolean", "void", "int[]"]

namespace TypeTable

/-- The type registered under a name. -/
def named (t : TypeTable) (name : String) : Option TypeEntity :=
  (t.registrations.find? (·.name = some name)).map Registration.entity

/-- The table starts with the builtin types. -/
def HasBuiltins (t : TypeTable) : Prop := builtins.registrations <+: t.registrations

variable {t : TypeTable} {m n : String} {id : TypeId}

theorem contains_eq_isSome_named (t : TypeTable) (n : String) : t.contains n = (t.named n).isSome := by
  simp only [contains, lookup, named, Option.isSome_map, List.findIdx?_isSome, List.isSome_find?]

/-- The handle of a name is the position of the type registered under it. -/
theorem getElem?_of_lookup (small : t.size ≤ UInt32.size) (found : t.lookup n = some id) :
    ∃ e, t.registrations[id.position]? = some ⟨some n, e⟩ ∧ t.named n = some e := by
  obtain ⟨i, first, rfl⟩ := Option.map_eq_some_iff.1 found
  obtain ⟨inside, name, -⟩ := List.findIdx?_eq_some_iff_getElem.1 first
  have position : (TypeId.ofPosition i).position = i := TypeId.position_ofPosition (by
    unfold size at small
    omega)
  have entry : t.registrations[i] = ⟨some n, t.registrations[i].entity⟩ := by
    rw [← of_decide_eq_true name]
  refine ⟨t.registrations[i].entity, ?_, ?_⟩
  · rw [position, List.getElem?_eq_getElem inside, ← entry]
  · rw [named, List.find?_eq_bind_findIdx?_getElem?, first, Option.bind_some,
      List.getElem?_eq_getElem inside, Option.map_some]

theorem get?_of_lookup (small : t.size ≤ UInt32.size) (found : t.lookup n = some id) :
    t.get? id = t.named n := by
  obtain ⟨e, entry, named⟩ := getElem?_of_lookup small found
  rw [get?, entry, named, Option.map_some]

/-- The handles of the table are those whose positions are in it. -/
theorem isSome_get?_iff : (t.get? id).isSome ↔ id.position < t.size := by
  simp [get?, size]

/-- Two names do not share a handle. -/
theorem lookup_injective (small : t.size ≤ UInt32.size) (first : t.lookup m = some id)
    (second : t.lookup n = some id) : m = n := by
  obtain ⟨e, entry, -⟩ := getElem?_of_lookup small first
  obtain ⟨e', entry', -⟩ := getElem?_of_lookup small second
  have same := Option.some.inj (entry.symm.trans entry')
  exact Option.some.inj (congrArg Registration.name same)

theorem lookup_of_lookupClass (found : t.lookupClass n = some id) : t.lookup n = some id :=
  (Option.filter_eq_some_iff.1 found).1

theorem isSome_class?_of_lookupClass (found : t.lookupClass n = some id) : (t.class? id).isSome = true :=
  (Option.filter_eq_some_iff.1 found).2

theorem exists_class?_of_lookupClass (found : t.lookupClass n = some id) : ∃ c, t.class? id = some c :=
  Option.isSome_iff_exists.1 (isSome_class?_of_lookupClass found)

theorem lookupClass_injective (small : t.size ≤ UInt32.size) (first : t.lookupClass m = some id)
    (second : t.lookupClass n = some id) : m = n :=
  lookup_injective small (lookup_of_lookupClass first) (lookup_of_lookupClass second)

theorem lookupClass_eq_iff (small : t.size ≤ UInt32.size) (found : t.lookupClass n = some id) :
    t.lookupClass m = some id ↔ m = n :=
  ⟨fun other => lookupClass_injective small other found, fun same => same ▸ found⟩

/-- A name stands for a class just when a class is registered under it. -/
theorem isSome_lookupClass_iff (small : t.size ≤ UInt32.size) :
    (t.lookupClass n).isSome ↔ ∃ c, t.named n = some (.classType c) := by
  cases found : t.lookup n with
  | none =>
    have unnamed : t.named n = none := by
      rw [← Option.not_isSome_iff_eq_none, ← contains_eq_isSome_named, contains, found]
      exact Bool.false_ne_true
    simp [lookupClass, found, unnamed]
  | some id =>
    rw [lookupClass, found, Option.filter_some, class?, get?_of_lookup small found]
    cases t.named n with
    | none => simp
    | some e => cases e <;> simp [TypeEntity.class?]

theorem class?_of_lookupClass (small : t.size ≤ UInt32.size) (found : t.lookupClass n = some id) :
    t.class? id = (t.named n).bind TypeEntity.class? := by
  rw [class?, get?_of_lookup small (lookup_of_lookupClass found)]

section Builtins

variable (whole : t.HasBuiltins)
include whole

theorem HasBuiltins.lookup (found : builtins.lookup n = some id) : t.lookup n = some id := by
  obtain ⟨i, first, rfl⟩ := Option.map_eq_some_iff.1 found
  rw [TypeTable.lookup, whole.findIdx?_eq_some first, Option.map_some]

theorem HasBuiltins.named (e : TypeEntity) (found : builtins.named n = some e) : t.named n = some e := by
  obtain ⟨r, first, rfl⟩ := Option.map_eq_some_iff.1 found
  rw [TypeTable.named, whole.find?_eq_some first, Option.map_some]

theorem HasBuiltins.getElem? {i : Nat} (inside : i < 5) :
    t.registrations[i]? = builtins.registrations[i]? :=
  (List.prefix_iff_getElem?.1 whole i inside).trans (List.getElem?_eq_getElem inside).symm

theorem HasBuiltins.five_le_size : 5 ≤ t.size := whole.length_le

/-- No name leads to the placeholder. -/
theorem HasBuiltins.lookup_ne_unknown (small : t.size ≤ UInt32.size) : t.lookup n ≠ some .unknown := by
  intro found
  obtain ⟨e, entry, -⟩ := getElem?_of_lookup small found
  have first : t.registrations[0]? = some ⟨none, .unknown⟩ := whole.getElem? (by decide)
  have same := Option.some.inj (first.symm.trans entry)
  cases congrArg Registration.name same

/-- The names of builtin types stand for no class. -/
theorem HasBuiltins.lookupClass_eq_none (small : t.size ≤ UInt32.size) (builtin : n ∈ builtinNames) :
    t.lookupClass n = none := by
  rw [← Option.not_isSome_iff_eq_none, isSome_lookupClass_iff small]
  rintro ⟨c, named⟩
  have known : builtins.named n = some (.primitive .int) ∨ builtins.named n = some (.primitive .boolean) ∨
      builtins.named n = some (.primitive .void) ∨ builtins.named n = some .intArray := by
    simp only [builtinNames, List.mem_cons, List.not_mem_nil, or_false] at builtin
    rcases builtin with rfl | rfl | rfl | rfl <;> decide
  rcases known with known | known | known | known <;>
    exact absurd ((whole.named _ known).symm.trans named) (by simp)

/-- Changing a class leaves the builtin types as they are. -/
theorem HasBuiltins.modifyClass (id : TypeId) (f : ClassType → ClassType) : (t.modifyClass id f).HasBuiltins := by
  have unchanged : ∀ r ∈ builtins.registrations, { r with entity := r.entity.mapClass f } = r := by
    intro r mem
    simp only [builtins, List.mem_cons, List.not_mem_nil, or_false] at mem
    rcases mem with rfl | rfl | rfl | rfl | rfl <;> rfl
  apply List.prefix_iff_getElem?.2
  intro i inside
  have held := List.prefix_iff_getElem?.1 whole i inside
  show (t.registrations.modify _ _)[i]? = _
  rw [List.getElem?_modify, held]
  split
  · exact congrArg some (unchanged _ (List.getElem_mem inside))
  · rfl

end Builtins
end TypeTable
end MemberResolution

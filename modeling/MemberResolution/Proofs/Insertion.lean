import Mathlib.Data.List.Basic
import MemberResolution.OrderedTable
import MemberResolution.Proofs.KeyedLists

/-!
# Insertions into an ordered table

An ordered table is known by its keys in order and by the entry under each of
them (`eq_of_keys_of_find?`). A sequence of insertions leaves under a key the
last entry that has it (`find?_insertMany`), and it moves no key that is in the
table already (`keys_insertMany_of_contains`). Together: making the same
insertions again changes nothing (`insertMany_again`), and an empty table is
left with the last entry for each key, in the order in which the keys come up
(`toList_insertMany_empty`).
-/

namespace MemberResolution.OrderedTable
set_option autoImplicit false

universe u v

variable {α : Type u} {κ : Type v} {key : α → κ} [DecidableEq κ]

theorem find?_key {t : OrderedTable key} {a : α} (mem : a ∈ t.toList) : t.find? (key a) = some a :=
  find?_eq_some_iff.2 ⟨mem, rfl⟩

/-- The entries are what the keys lead to, in order. -/
theorem filterMap_find?_keys (t : OrderedTable key) : t.keys.filterMap t.find? = t.toList := by
  have each : ∀ a ∈ t.toList, (t.find? ∘ key) a = some a := fun a mem => find?_key mem
  rw [keys, List.filterMap_map, List.filterMap_congr each, List.filterMap_some]

/-- A table is known by its keys in order and by the entry under each. -/
theorem eq_of_keys_of_find? {s t : OrderedTable key} (keys : s.keys = t.keys)
    (entries : ∀ k, s.find? k = t.find? k) : s = t := by
  apply ext
  rw [← filterMap_find?_keys s, ← filterMap_find?_keys t, keys, funext entries]

@[simp] theorem insertMany_nil (t : OrderedTable key) : t.insertMany [] = t := rfl

@[simp] theorem insertMany_cons (t : OrderedTable key) (a : α) (rest : List α) :
    t.insertMany (a :: rest) = (t.insert a).insertMany rest := rfl

theorem insertMany_append (t : OrderedTable key) (as bs : List α) :
    t.insertMany (as ++ bs) = (t.insertMany as).insertMany bs :=
  List.foldl_append

theorem contains_insert (t : OrderedTable key) (a : α) (k : κ) :
    (t.insert a).contains k = (t.contains k || decide (key a = k)) := by
  rw [← isSome_find?, ← isSome_find?, find?_insert]
  by_cases same : key a = k
  · simp [same]
  · simp [same]

/-- A key is in the table afterwards if it was before or an inserted entry has it. -/
theorem contains_insertMany (t : OrderedTable key) (entries : List α) (k : κ) :
    (t.insertMany entries).contains k = (t.contains k || entries.any (key · = k)) := by
  induction entries generalizing t with
  | nil => simp
  | cons a rest ih => rw [insertMany_cons, ih, contains_insert, List.any_cons, Bool.or_assoc]

theorem contains_insertMany_of_contains {t : OrderedTable key} {k : κ} (held : t.contains k = true)
    (entries : List α) : (t.insertMany entries).contains k = true := by
  rw [contains_insertMany, held, Bool.true_or]

theorem contains_insertMany_of_mem (t : OrderedTable key) {entries : List α} {a : α} (mem : a ∈ entries) :
    (t.insertMany entries).contains (key a) = true := by
  have some : entries.any (key · = key a) = true := List.any_eq_true.2 ⟨a, mem, by simp⟩
  rw [contains_insertMany, some, Bool.or_true]

/-- Under a key stands the last inserted entry that has it, or what stood there before. -/
theorem find?_insertMany (t : OrderedTable key) (entries : List α) (k : κ) :
    (t.insertMany entries).find? k = (entries.reverse.find? (key · = k)).or (t.find? k) := by
  induction entries generalizing t with
  | nil => simp
  | cons a rest ih =>
    rw [insertMany_cons, ih, find?_insert, List.reverse_cons, List.find?_append, Option.or_assoc]
    by_cases same : key a = k
    · simp [same]
    · simp [same]

/-- An inserted entry stays when it is the only one with its key. -/
theorem find?_insertMany_of_unique (t : OrderedTable key) {entries : List α} {a : α} (mem : a ∈ entries)
    (unique : ∀ b ∈ entries, key b = key a → b = a) : (t.insertMany entries).find? (key a) = some a := by
  have last : (entries.reverse.find? (key · = key a)).isSome :=
    List.find?_isSome.2 ⟨a, List.mem_reverse.2 mem, by simp⟩
  obtain ⟨b, found⟩ := Option.isSome_iff_exists.1 last
  have same : key b = key a := by simpa using List.find?_some found
  rw [find?_insertMany, found, unique b (List.mem_reverse.1 (List.mem_of_find?_eq_some found)) same, Option.some_or]

/-- Nothing but the inserted entries is new. -/
theorem mem_of_mem_insertMany {t : OrderedTable key} {entries : List α} {b : α}
    (mem : b ∈ (t.insertMany entries).toList) : b ∈ t.toList ∨ b ∈ entries := by
  have found := find?_key mem
  rw [find?_insertMany, Option.or_eq_some_iff] at found
  rcases found with found | ⟨-, found⟩
  · exact Or.inr (List.mem_reverse.1 (List.mem_of_find?_eq_some found))
  · exact Or.inl (find?_eq_some_iff.1 found).1

/-- New keys go to the end in the order in which they come up. -/
theorem keys_insertMany (t : OrderedTable key) (entries : List α) : (t.insertMany entries).keys =
    t.keys ++ ((firstPerKey key entries).filter fun a => !t.contains (key a)).map key := by
  induction entries generalizing t with
  | nil => simp [firstPerKey]
  | cons a rest ih =>
    have others : ∀ b ∈ firstPerKey key rest,
        (!(t.insert a).contains (key b)) = (!t.contains (key b) && decide (key b ≠ key a)) := by
      intro b _
      rw [contains_insert, Bool.not_or, ← decide_not, decide_eq_decide.2 ne_comm]
    rw [insertMany_cons, ih, keys_insert, List.filter_congr others, firstPerKey, List.filter_cons, List.filter_filter]
    by_cases taken : t.contains (key a) = true
    · simp [taken]
    · simp [taken]

theorem prefix_keys_insertMany (t : OrderedTable key) (entries : List α) : t.keys <+: (t.insertMany entries).keys :=
  ⟨_, (keys_insertMany t entries).symm⟩

/-- Entries whose keys are all taken leave the keys where they are. -/
theorem keys_insertMany_of_contains (t : OrderedTable key) (entries : List α)
    (taken : ∀ a ∈ entries, t.contains (key a) = true) : (t.insertMany entries).keys = t.keys := by
  have nothingNew : (firstPerKey key entries).filter (fun a => !t.contains (key a)) = [] := by
    rw [List.filter_eq_nil_iff]
    intro a mem
    rw [taken a (mem_of_mem_firstPerKey key mem)]
    exact Bool.false_ne_true
  rw [keys_insertMany, nothingNew, List.map_nil, List.append_nil]

/-- A table that was empty holds the last entry for each key. -/
theorem toList_insertMany_empty (entries : List α) :
    ((∅ : OrderedTable key).insertMany entries).toList = lastPerKey key entries := by
  have keys : ((∅ : OrderedTable key).insertMany entries).keys = (firstPerKey key entries).map key := by
    rw [keys_insertMany]
    simp [OrderedTable.keys, contains]
  have last : ∀ k, ((∅ : OrderedTable key).insertMany entries).find? k = entries.reverse.find? (key · = k) := by
    intro k
    rw [find?_insertMany]
    exact Option.or_none
  rw [← filterMap_find?_keys, keys, List.filterMap_map, funext last]
  rfl

/-- Making the same insertions again changes neither entries nor order. -/
theorem insertMany_again (t : OrderedTable key) (entries : List α) :
    (t.insertMany entries).insertMany entries = t.insertMany entries := by
  apply eq_of_keys_of_find?
  · exact keys_insertMany_of_contains _ _ fun a mem => contains_insertMany_of_mem t mem
  · intro k
    rw [find?_insertMany (t.insertMany entries), find?_insertMany t, ← Option.or_assoc, Option.or_self]

end MemberResolution.OrderedTable

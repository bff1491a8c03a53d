/-!
# Tables in order of first insertion

A table files each entry under a key that the entry itself carries. An entry
with a new key goes to the end; one whose key is taken replaces the entry that
held it, at that entry's place. Keys are distinct in every table, so a key
names at most one entry: `find?_eq_some_iff` reads a look-up off the list of
entries.
-/

namespace MemberResolution
set_option autoImplicit false

universe u v

/-- Entries with distinct keys, in the order in which their keys were first inserted. -/
structure OrderedTable {α : Type u} {κ : Type v} (key : α → κ) where
  toList : List α
  distinct : (toList.map key).Nodup

namespace OrderedTable

variable {α : Type u} {κ : Type v} {key : α → κ}

@[ext] theorem ext {s t : OrderedTable key} (same : s.toList = t.toList) : s = t := by
  cases s; cases t; cases same; rfl

instance [DecidableEq α] : DecidableEq (OrderedTable key) := fun s t =>
  decidable_of_iff (s.toList = t.toList) ⟨ext, congrArg toList⟩

/-- The table without entries. -/
def empty : OrderedTable key := ⟨[], by simp⟩

instance : EmptyCollection (OrderedTable key) := ⟨empty⟩

@[simp] theorem toList_empty : (∅ : OrderedTable key).toList = [] := rfl

def size (t : OrderedTable key) : Nat := t.toList.length

/-- The keys in table order. -/
def keys (t : OrderedTable key) : List κ := t.toList.map key

variable [DecidableEq κ]

/-- `a` in the place of the entry with its key, or at the end when there is none. -/
def place (key : α → κ) (a : α) : List α → List α
  | [] => [a]
  | b :: rest => if key b = key a then a :: rest else b :: place key a rest

theorem place_of_notMem {a : α} {entries : List α} (new : key a ∉ entries.map key) :
    place key a entries = entries ++ [a] := by
  induction entries with
  | nil => rfl
  | cons b rest ih =>
    simp only [List.map_cons, List.mem_cons, not_or] at new
    simp [place, Ne.symm new.1, ih new.2]

theorem map_place_of_mem {a : α} {entries : List α} (taken : key a ∈ entries.map key) :
    (place key a entries).map key = entries.map key := by
  induction entries with
  | nil => simp at taken
  | cons b rest ih =>
    by_cases same : key b = key a
    · simp [place, same]
    · simp only [List.map_cons, List.mem_cons, Ne.symm same, false_or] at taken
      simp [place, same, ih taken]

theorem nodup_place {a : α} {entries : List α} (distinct : (entries.map key).Nodup) :
    ((place key a entries).map key).Nodup := by
  by_cases taken : key a ∈ entries.map key
  · rwa [map_place_of_mem taken]
  · rw [place_of_notMem taken, List.map_append, List.nodup_append]
    refine ⟨distinct, by simp, ?_⟩
    intro k mem l last
    obtain rfl : l = key a := by simpa using last
    rintro rfl
    exact taken mem

/-- Files `a` under its key: in the place of the entry with that key, or at the end. -/
def insert (t : OrderedTable key) (a : α) : OrderedTable key :=
  ⟨place key a t.toList, nodup_place t.distinct⟩

/-- The entry filed under `k`. -/
def find? (t : OrderedTable key) (k : κ) : Option α := t.toList.find? (key · = k)

def contains (t : OrderedTable key) (k : κ) : Bool := t.toList.any (key · = k)

/-- Inserts `a` and hands back the entry that it replaces, if there is one. -/
def getThenInsert? (t : OrderedTable key) (a : α) : Option α × OrderedTable key :=
  (t.find? (key a), t.insert a)

/-- The table after inserting the entries of a list one after the other. -/
def insertMany (t : OrderedTable key) (entries : List α) : OrderedTable key :=
  entries.foldl insert t

/-- Both tables hold the same entries, in whatever order. -/
def sameEntries [DecidableEq α] (s t : OrderedTable key) : Bool := s.toList.isPerm t.toList

theorem contains_iff {t : OrderedTable key} {k : κ} : t.contains k = true ↔ k ∈ t.keys := by
  simp [contains, keys]

theorem isSome_find? (t : OrderedTable key) (k : κ) : (t.find? k).isSome = t.contains k := by
  simp [find?, contains, List.isSome_find?]

theorem find?_eq_some_iff {t : OrderedTable key} {k : κ} {a : α} :
    t.find? k = some a ↔ a ∈ t.toList ∧ key a = k := by
  obtain ⟨entries, distinct⟩ := t
  simp only [find?]
  induction entries with
  | nil => simp
  | cons b rest ih =>
    simp only [List.map_cons, List.nodup_cons, List.mem_map, not_exists, not_and] at distinct
    by_cases same : key b = k
    · simp only [List.find?_cons, same, decide_true, Option.some.injEq, List.mem_cons]
      constructor
      · rintro rfl; exact ⟨Or.inl rfl, same⟩
      · rintro ⟨rfl | mem, held⟩
        · rfl
        · exact absurd (held.trans same.symm) (distinct.1 a mem)
    · simp only [List.find?_cons, same, decide_false, List.mem_cons, ih distinct.2]
      constructor
      · rintro ⟨mem, held⟩; exact ⟨Or.inr mem, held⟩
      · rintro ⟨rfl | mem, held⟩
        · exact absurd held same
        · exact ⟨mem, held⟩

theorem keys_insert (t : OrderedTable key) (a : α) :
    (t.insert a).keys = if t.contains (key a) then t.keys else t.keys ++ [key a] := by
  by_cases taken : t.contains (key a) = true
  · rw [if_pos taken]
    exact map_place_of_mem (contains_iff.1 taken)
  · rw [if_neg taken]
    have new : key a ∉ t.toList.map key := fun mem => taken (contains_iff.2 mem)
    simp [insert, keys, place_of_notMem new]

theorem mem_toList_insert {t : OrderedTable key} {a b : α} :
    b ∈ (t.insert a).toList ↔ b = a ∨ b ∈ t.toList ∧ key b ≠ key a := by
  obtain ⟨entries, distinct⟩ := t
  simp only [insert]
  induction entries with
  | nil => simp [place]
  | cons c rest ih =>
    simp only [List.map_cons, List.nodup_cons, List.mem_map, not_exists, not_and] at distinct
    by_cases same : key c = key a
    · have apart : ∀ d ∈ rest, key d ≠ key a := fun d mem held => distinct.1 d mem (held.trans same.symm)
      simp only [place, same, if_true, List.mem_cons]
      constructor
      · rintro (rfl | mem)
        · exact Or.inl rfl
        · exact Or.inr ⟨Or.inr mem, apart b mem⟩
      · rintro (rfl | ⟨rfl | mem, other⟩)
        · exact Or.inl rfl
        · exact absurd same other
        · exact Or.inr mem
    · simp only [place, same, if_false, List.mem_cons, ih distinct.2]
      constructor
      · rintro (rfl | rfl | ⟨mem, other⟩)
        · exact Or.inr ⟨Or.inl rfl, same⟩
        · exact Or.inl rfl
        · exact Or.inr ⟨Or.inr mem, other⟩
      · rintro (rfl | ⟨rfl | mem, other⟩)
        · exact Or.inr (Or.inl rfl)
        · exact Or.inl rfl
        · exact Or.inr (Or.inr ⟨mem, other⟩)

theorem find?_insert (t : OrderedTable key) (a : α) (k : κ) :
    (t.insert a).find? k = if key a = k then some a else t.find? k := by
  by_cases same : key a = k
  · rw [if_pos same, find?_eq_some_iff]
    exact ⟨mem_toList_insert.2 (Or.inl rfl), same⟩
  · rw [if_neg same]
    apply Option.ext
    intro b
    rw [find?_eq_some_iff, find?_eq_some_iff, mem_toList_insert]
    constructor
    · rintro ⟨rfl | ⟨mem, _⟩, held⟩
      · exact absurd held same
      · exact ⟨mem, held⟩
    · rintro ⟨mem, held⟩
      exact ⟨Or.inr ⟨mem, fun clash => same (clash.symm.trans held)⟩, held⟩

end OrderedTable
end MemberResolution

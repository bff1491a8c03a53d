import Mathlib.Data.List.Basic

/-!
# Lists of elements with keys

Where elements with equal keys stand for the same thing, a list of them says
three things: which keys there are, in the order in which they come up
(`firstPerKey`), what stands for each of them in the end (`lastPerKey`), and
which elements come too late (`repeatsAfter`). All three depend only on which
elements have equal keys, so one key can take the place of another that tells
the same elements apart. A list can also keep the keys beside the elements
(`putUnder`).
-/

namespace MemberResolution
set_option autoImplicit false

section Keyed

universe u v w

variable {α : Type u} {κ : Type v} [DecidableEq κ] (key : α → κ)

/-- The elements whose key no earlier element has. -/
def firstPerKey : List α → List α
  | [] => []
  | a :: rest => a :: (firstPerKey rest).filter (key · ≠ key a)

/-- The last element with each key, in the order in which the keys come up. -/
def lastPerKey (as : List α) : List α :=
  (firstPerKey key as).filterMap fun a => as.reverse.find? (key · = key a)

/-- The elements whose key an earlier element has, where those of `earlier` came before the list. -/
def repeatsAfter : (earlier : List α) → List α → List α
  | _, [] => []
  | earlier, a :: rest => (if key a ∈ earlier.map key then [a] else []) ++ repeatsAfter (a :: earlier) rest

theorem mem_of_mem_firstPerKey {as : List α} {a : α} (mem : a ∈ firstPerKey key as) : a ∈ as := by
  induction as with
  | nil => exact mem
  | cons b rest ih =>
    rcases List.mem_cons.1 mem with rfl | later
    · exact List.mem_cons_self
    · exact List.mem_cons_of_mem b (ih (List.mem_of_mem_filter later))

theorem mem_of_mem_lastPerKey {as : List α} {a : α} (mem : a ∈ lastPerKey key as) : a ∈ as := by
  obtain ⟨b, -, found⟩ := List.mem_filterMap.1 mem
  exact List.mem_reverse.1 (List.mem_of_find?_eq_some found)

theorem repeatsAfter_append (earlier as bs : List α) : repeatsAfter key earlier (as ++ bs) =
    repeatsAfter key earlier as ++ repeatsAfter key (as.reverse ++ earlier) bs := by
  induction as generalizing earlier with
  | nil => rfl
  | cons a rest ih =>
    rw [List.cons_append, repeatsAfter, repeatsAfter, ih, List.reverse_cons, List.append_assoc, List.append_assoc,
      List.singleton_append]

/-! ## The elements with one key -/

theorem filter_firstPerKey (k : κ) (as : List α) :
    (firstPerKey key as).filter (key · = k) = (as.filter (key · = k)).take 1 := by
  induction as with
  | nil => rfl
  | cons a rest ih =>
    rw [firstPerKey, List.filter_cons, List.filter_cons, List.filter_filter]
    by_cases here : key a = k
    · have others : (firstPerKey key rest).filter (fun b => decide (key b = k) && decide (key b ≠ key a)) = [] := by
        rw [List.filter_eq_nil_iff]
        intro b _
        simp [here]
      rw [if_pos (by simpa using here), if_pos (by simpa using here), others, List.take_succ_cons, List.take_zero]
    · have others : (firstPerKey key rest).filter (fun b => decide (key b = k) && decide (key b ≠ key a)) =
          (firstPerKey key rest).filter (key · = k) := by
        apply List.filter_congr
        intro b _
        by_cases same : key b = k
        · simp [same, Ne.symm here]
        · simp [same]
      rw [if_neg (by simpa using here), if_neg (by simpa using here), others, ih]

/-- An element that is kept is the first one with its key. -/
theorem find?_of_mem_firstPerKey {as : List α} {a : α} (mem : a ∈ firstPerKey key as) :
    as.find? (key · = key a) = some a := by
  have first : a ∈ (as.filter (key · = key a)).take 1 := by
    rw [← filter_firstPerKey]
    exact List.mem_filter.2 ⟨mem, by simp⟩
  rw [← List.head?_filter, ← Option.mem_toList, ← List.take_one]
  exact first

/-- Of the elements with one key an element is kept. -/
theorem exists_mem_lastPerKey {as : List α} {a : α} (mem : a ∈ as) : ∃ b ∈ lastPerKey key as, key b = key a := by
  have here : a ∈ as.filter (key · = key a) := List.mem_filter.2 ⟨mem, by simp⟩
  obtain ⟨first, rest, split⟩ := List.exists_cons_of_ne_nil (List.ne_nil_of_mem here)
  have kept : first ∈ (firstPerKey key as).filter (key · = key a) := by
    rw [filter_firstPerKey, split]
    exact List.mem_singleton_self first
  obtain ⟨kept, same⟩ := List.mem_filter.1 kept
  have last : (as.reverse.find? (key · = key first)).isSome :=
    List.find?_isSome.2 ⟨first, List.mem_reverse.2 (mem_of_mem_firstPerKey key kept), by simp⟩
  obtain ⟨b, found⟩ := Option.isSome_iff_exists.1 last
  have keys : key b = key first := by simpa using List.find?_some found
  exact ⟨b, List.mem_filterMap.2 ⟨first, kept, found⟩, keys.trans (of_decide_eq_true same)⟩

theorem filter_repeatsAfter (k : κ) (earlier as : List α) : (repeatsAfter key earlier as).filter (key · = k) =
    if k ∈ earlier.map key then as.filter (key · = k) else (as.filter (key · = k)).drop 1 := by
  induction as generalizing earlier with
  | nil => simp [repeatsAfter]
  | cons a rest ih =>
    rw [repeatsAfter, List.filter_append, ih, List.map_cons]
    by_cases here : key a = k
    · by_cases met : k ∈ earlier.map key
      · simp [here, met]
      · simp [here, met]
    · have apart : ¬ k = key a := Ne.symm here
      by_cases met : key a ∈ earlier.map key
      · simp [here, met, apart]
      · simp [here, met, apart]

variable {key}

/-! ## Distinct keys -/

/-- At most one element has a key. -/
theorem filter_eq_toList_find? {as : List α} (distinct : (as.map key).Nodup) (k : κ) :
    as.filter (key · = k) = (as.find? (key · = k)).toList := by
  induction as with
  | nil => rfl
  | cons a rest ih =>
    obtain ⟨new, distinct⟩ := List.nodup_cons.1 distinct
    by_cases here : key a = k
    · have others : rest.filter (key · = k) = [] := by
        rw [List.filter_eq_nil_iff]
        intro b mem same
        exact new (List.mem_map.2 ⟨b, mem, (of_decide_eq_true same).trans here.symm⟩)
      rw [List.filter_cons_of_pos (by simpa using here), List.find?_cons_of_pos (by simpa using here), others]
      rfl
    · rw [List.filter_cons_of_neg (by simpa using here), List.find?_cons_of_neg (by simpa using here), ih distinct]

theorem find?_key_of_mem {as : List α} (distinct : (as.map key).Nodup) {a : α} (mem : a ∈ as) :
    as.find? (key · = key a) = some a := by
  have here : a ∈ as.filter (key · = key a) := List.mem_filter.2 ⟨mem, by simp⟩
  rw [filter_eq_toList_find? distinct] at here
  exact Option.mem_toList.1 here

/-! ## Other elements and other keys -/

theorem firstPerKey_map {β : Type w} (f : β → α) (bs : List β) :
    firstPerKey key (bs.map f) = (firstPerKey (fun b => key (f b)) bs).map f := by
  induction bs with
  | nil => rfl
  | cons b rest ih => rw [List.map_cons, firstPerKey, firstPerKey, ih, List.filter_map, List.map_cons]; rfl

theorem lastPerKey_map {β : Type w} (f : β → α) (bs : List β) :
    lastPerKey key (bs.map f) = (lastPerKey (fun b => key (f b)) bs).map f := by
  rw [lastPerKey, lastPerKey, firstPerKey_map, List.filterMap_map, List.map_filterMap]
  apply List.filterMap_congr
  intro b _
  rw [Function.comp_apply, ← List.map_reverse, List.find?_map]
  rfl

variable {κ' : Type w} [DecidableEq κ'] {key' : α → κ'} {as : List α}

theorem firstPerKey_congr (same : ∀ a ∈ as, ∀ b ∈ as, key a = key b ↔ key' a = key' b) :
    firstPerKey key as = firstPerKey key' as := by
  induction as with
  | nil => rfl
  | cons a rest ih =>
    have tail : firstPerKey key rest = firstPerKey key' rest :=
      ih fun b memB c memC => same b (List.mem_cons_of_mem a memB) c (List.mem_cons_of_mem a memC)
    rw [firstPerKey, firstPerKey, tail]
    congr 1
    apply List.filter_congr
    intro b mem
    have member : b ∈ a :: rest := List.mem_cons_of_mem a (mem_of_mem_firstPerKey key' mem)
    rw [decide_eq_decide, ne_eq, same b member a List.mem_cons_self]

/-- Keys that tell the same elements apart pick the same elements. -/
theorem lastPerKey_congr (same : ∀ a ∈ as, ∀ b ∈ as, key a = key b ↔ key' a = key' b) :
    lastPerKey key as = lastPerKey key' as := by
  rw [lastPerKey, lastPerKey, firstPerKey_congr same]
  apply List.filterMap_congr
  intro a mem
  rw [← List.head?_filter, ← List.head?_filter]
  congr 1
  apply List.filter_congr
  intro b memB
  rw [decide_eq_decide]
  exact same b (List.mem_reverse.1 memB) a (mem_of_mem_firstPerKey key' mem)

theorem repeatsAfter_congr {earlier : List α}
    (same : ∀ a ∈ earlier ++ as, ∀ b ∈ earlier ++ as, key a = key b ↔ key' a = key' b) :
    repeatsAfter key earlier as = repeatsAfter key' earlier as := by
  induction as generalizing earlier with
  | nil => rfl
  | cons a rest ih =>
    have met : key a ∈ earlier.map key ↔ key' a ∈ earlier.map key' := by
      rw [List.mem_map, List.mem_map]
      apply exists_congr
      intro b
      rw [and_congr_right_iff]
      intro mem
      exact same b (List.mem_append_left _ mem) a (List.mem_append_right _ List.mem_cons_self)
    have tail : repeatsAfter key (a :: earlier) rest = repeatsAfter key' (a :: earlier) rest := by
      have moved : ∀ b, b ∈ a :: earlier ++ rest → b ∈ earlier ++ a :: rest := by
        intro b
        simp only [List.cons_append, List.mem_cons, List.mem_append]
        tauto
      exact ih fun b memB c memC => same b (moved b memB) c (moved c memC)
    simp only [repeatsAfter, met, tail]

/-! ## Keys kept beside the elements -/

/-- Puts `a` under the key `k` into a list that keeps the keys beside the entries: in the place of what stands under
that key, or at the end. -/
def putUnder (k : κ) (a : α) : List (κ × α) → List (κ × α)
  | [] => [(k, a)]
  | b :: rest => if b.1 = k then (k, a) :: rest else b :: putUnder k a rest

theorem lookup_putUnder (k other : κ) (a : α) (filed : List (κ × α)) :
    (putUnder k a filed).lookup other = if other = k then some a else filed.lookup other := by
  have cons : ∀ (b : κ × α) (rest : List (κ × α)),
      (b :: rest).lookup other = if other = b.1 then some b.2 else rest.lookup other := by
    intro b rest
    rw [List.lookup_cons]
    by_cases same : other = b.1
    · simp [same]
    · simp [same, beq_false_of_ne same]
  induction filed with
  | nil => exact cons (k, a) []
  | cons b rest ih =>
    rw [putUnder]
    split
    · next here => rw [cons, cons, here]; split <;> rfl
    · next there => rw [cons, cons, ih]; grind

end Keyed
end MemberResolution

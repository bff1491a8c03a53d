import Mathlib.Data.List.Nodup
import Mathlib.Data.Option.Basic
import Mathlib.Data.List.Perm.Subperm
import MemberResolution.Ancestry
import MemberResolution.Resolution.Cycle

/-!
# Chains and walks

A partial function leads from a start along a chain, which ends, or comes back
to an earlier point and never ends. A walk up the base links passes the chain
above a class up to the point where it ends or comes back (`exists_walk`). So
it passes all types of the chain (`mem_ancestors_iff`), and it comes back
somewhere just when the chain never ends (`isSome_revisited?_iff`).
-/

namespace MemberResolution
set_option autoImplicit false

/-! ## Chains of a partial function -/

/-- Where `n` steps of `f` lead from `a`. -/
def chain {α : Type} (f : α → Option α) (a : α) : Nat → Option α
  | 0 => some a
  | n + 1 => (chain f a n).bind f

section Chain

variable {α : Type} {f : α → Option α} {a : α}

theorem chain_add (i j : Nat) : chain f a (i + j) = (chain f a i).bind fun b => chain f b j := by
  induction j with
  | zero => simp [chain]
  | succ j ih =>
    show (chain f a (i + j)).bind f = _
    rw [ih, Option.bind_assoc]
    rfl

theorem isSome_chain_of_le {i j : Nat} (le : i ≤ j) (held : (chain f a j).isSome) : (chain f a i).isSome := by
  obtain ⟨k, rfl⟩ := Nat.exists_eq_add_of_le le
  rw [chain_add] at held
  cases here : chain f a i with
  | none => rw [here] at held; cases held
  | some b => rfl

/-- A chain that comes back to where it was after `j` steps goes on among the points from there on. -/
theorem exists_chain_eq_of_return {j n : Nat} (before : j < n) (back : chain f a j = chain f a n) :
    ∀ k, j ≤ k → ∃ i, j ≤ i ∧ i < n ∧ chain f a k = chain f a i := by
  intro k
  induction k using Nat.strongRecOn with
  | ind k ih =>
    intro le
    by_cases early : k < n
    · exact ⟨k, le, early, rfl⟩
    · -- the stretch from `j` to `n` is skipped once
      obtain ⟨r, rfl⟩ := Nat.exists_eq_add_of_le (Nat.le_of_not_lt early)
      have skip : chain f a (n + r) = chain f a (j + r) := by rw [chain_add, chain_add, back]
      obtain ⟨i, lower, upto, same⟩ := ih (j + r) (by omega) (by omega)
      exact ⟨i, lower, upto, skip.trans same⟩

/-- A chain that comes back never ends. -/
theorem isSome_chain_of_return {j n : Nat} (before : j < n) (back : chain f a j = chain f a n)
    (held : (chain f a n).isSome) (k : Nat) : (chain f a k).isSome := by
  by_cases early : k ≤ n
  · exact isSome_chain_of_le early held
  · obtain ⟨i, -, upto, same⟩ := exists_chain_eq_of_return before back k (by omega)
    rw [same]
    exact isSome_chain_of_le (Nat.le_of_lt upto) held

/-- One chain follows another where each step does. -/
theorem chain_eq_bind_of_step {β : Type} {g : β → Option β} {h : α → Option β}
    (step : ∀ a b, h a = some b → g b = (f a).bind h) (total : ∀ a c, f a = some c → (h c).isSome) {b : β}
    (start : h a = some b) (n : Nat) : chain g b n = (chain f a n).bind h := by
  have defined : ∀ n c, chain f a n = some c → (h c).isSome := by
    intro n c here
    cases n with
    | zero => cases here; rw [start]; rfl
    | succ n =>
      obtain ⟨c', -, last⟩ := Option.bind_eq_some_iff.1 here
      exact total c' c last
  induction n with
  | zero => exact start.symm
  | succ n ih =>
    show (chain g b n).bind g = ((chain f a n).bind f).bind h
    rw [ih]
    cases here : chain f a n with
    | none => rfl
    | some c =>
      obtain ⟨d, image⟩ := Option.isSome_iff_exists.1 (defined n c here)
      rw [Option.bind_some, Option.bind_some, image, Option.bind_some, step c d image]

end Chain

/-! ## Walks -/

namespace AncestorWalk

variable (t : TypeTable) (id : TypeId)

/-- The walk above `id` after its first `n` types. -/
def after (n : Nat) : AncestorWalk :=
  { next := chain t.base? id (n + 1)
    passed := ((List.range n).filterMap fun i => chain t.base? id (i + 1)).reverse }

/-- The chain above `id` goes on after `n` steps, to a type that it has not come to before. -/
def GoesOn (n : Nat) : Prop := ∃ x, chain t.base? id (n + 1) = some x ∧ ∀ i < n, chain t.base? id (i + 1) ≠ some x

/-- How a walk stands that has ended after `n` types. -/
inductive Ended (n : Nat) : AncestorWalk → Prop where
  | root (next : chain t.base? id (n + 1) = none) : Ended n (after t id n)
  | back (x : TypeId) (i : Nat) (before : i < n) (next : chain t.base? id (n + 1) = some x)
      (met : chain t.base? id (i + 1) = some x) : Ended n { after t id n with next := none, revisited := some x }

variable {t id} {n : Nat}

theorem mem_passed_after {x : TypeId} :
    x ∈ (after t id n).passed ↔ ∃ i < n, chain t.base? id (i + 1) = some x := by
  simp [after]

theorem step_after_of_goesOn {x : TypeId} (next : chain t.base? id (n + 1) = some x)
    (new : ∀ i < n, chain t.base? id (i + 1) ≠ some x) : (after t id n).step t = (some x, after t id (n + 1)) := by
  have fresh : x ∉ (after t id n).passed := by
    rw [mem_passed_after]
    rintro ⟨i, before, met⟩
    exact new i before met
  have above : chain t.base? id (n + 1 + 1) = t.base? x := by
    show (chain t.base? id (n + 1)).bind t.base? = _
    rw [next, Option.bind_some]
  simp only [after] at fresh
  simp [step, after, next, fresh, above, List.range_succ]

/-- While the chain goes on, it comes to no point twice. -/
theorem eq_of_chain_of_goesOn {m : Nat} (goesOn : ∀ k < m, GoesOn t id k) {i j : Nat} (hi : i < m) (hj : j < m)
    (same : chain t.base? id (i + 1) = chain t.base? id (j + 1)) : i = j := by
  have apart : ∀ i j, i < j → j < m → chain t.base? id (i + 1) ≠ chain t.base? id (j + 1) := by
    intro i j before inside same
    obtain ⟨x, next, new⟩ := goesOn j inside
    exact new i before (same.trans next)
  rcases Nat.lt_trichotomy i j with before | here | before
  · exact absurd same (apart i j before hj)
  · exact here
  · exact absurd same.symm (apart j i before hi)

/-- A walk goes on while the chain does, and ends as `Ended` says. -/
theorem take_after (t : TypeTable) (id : TypeId) (count : Nat) : ∀ n, ∃ m, n ≤ m ∧ m ≤ n + count ∧
    (∀ k, n ≤ k → k < m → GoesOn t id k) ∧
    ((after t id n).take t count).1.map some = (List.range' n (m - n)).map (fun i => chain t.base? id (i + 1)) ∧
    (m = n + count ∨ Ended t id m ((after t id n).take t count).2) := by
  induction count with
  | zero => exact fun n => ⟨n, Nat.le_refl n, Nat.le_refl n, fun k _ _ => by omega, by simp [take], Or.inl rfl⟩
  | succ count ih =>
    intro n
    cases next : chain t.base? id (n + 1) with
    | none =>
      have stop : (after t id n).step t = (none, after t id n) := by simp [step, after, next]
      refine ⟨n, Nat.le_refl n, by omega, fun k _ _ => by omega, ?_, Or.inr ?_⟩
      · simp [take, stop]
      · simp only [take, stop]
        exact Ended.root next
    | some x =>
      by_cases met : ∃ i < n, chain t.base? id (i + 1) = some x
      · have passed : x ∈ (after t id n).passed := mem_passed_after.2 met
        have stop : (after t id n).step t = (none, { after t id n with next := none, revisited := some x }) := by
          simp only [after] at passed
          simp [step, after, next, passed]
        obtain ⟨i, before, met⟩ := met
        refine ⟨n, Nat.le_refl n, by omega, fun k _ _ => by omega, ?_, Or.inr ?_⟩
        · simp [take, stop]
        · simp only [take, stop]
          exact Ended.back x i before next met
      · have new : ∀ i < n, chain t.base? id (i + 1) ≠ some x := fun i before here => met ⟨i, before, here⟩
        obtain ⟨m, le, bound, goesOn, ids, ended⟩ := ih (n + 1)
        have pass := step_after_of_goesOn next new
        have rest : m - n = m - (n + 1) + 1 := by omega
        refine ⟨m, by omega, by omega, ?_, ?_, ?_⟩
        · intro k lower upto
          by_cases here : k = n
          · rw [here]
            exact ⟨x, next, new⟩
          · exact goesOn k (by omega) upto
        · simp only [take, pass, List.map_cons, ids]
          rw [rest, List.range'_succ, List.map_cons, next]
        · simp only [take, pass]
          exact ended.imp (by omega) fun done => done

end AncestorWalk

/-! ## The ancestors of a class -/

namespace TypeTable

open AncestorWalk

variable {t : TypeTable} {id : TypeId}

theorem mem_classIds_of_class? (held : (t.class? id).isSome) : id ∈ t.classIds := by
  rw [class?, get?] at held
  cases entry : t.registrations[id.position]? with
  | none => rw [entry] at held; cases held
  | some r =>
    rw [entry] at held
    have listed : (r, id.position) ∈ t.registrations.zipIdx := List.mem_zipIdx_iff_getElem?.2 entry
    rw [classIds, List.mem_map]
    exact ⟨(r, id.position), List.mem_filter.2 ⟨listed, held⟩, TypeId.ofPosition_position id⟩

theorem length_classIds_le (t : TypeTable) : t.classIds.length ≤ t.size := by
  rw [classIds, List.length_map]
  exact Nat.le_trans (List.length_filter_le _ _) (Nat.le_of_eq List.length_zipIdx)

theorem class?_of_base? {b : TypeId} (linked : t.base? id = some b) : (t.class? id).isSome := by
  rw [base?] at linked
  cases held : t.class? id with
  | none => rw [held] at linked; cases linked
  | some c => rfl

variable (t id)

/-- The points of a chain that goes on are distinct, and all but the last are classes. -/
theorem length_le_of_goesOn {m : Nat} (goesOn : ∀ k < m, GoesOn t id k) : m ≤ t.classIds.length + 1 := by
  cases m with
  | zero => omega
  | succ m =>
    -- the points before the last, each of which has a base
    let points := (List.range m).map fun i => (chain t.base? id (i + 1)).getD .unknown
    have point : ∀ i < m + 1, ∃ x, chain t.base? id (i + 1) = some x := by
      intro i inside
      obtain ⟨x, next, -⟩ := goesOn i inside
      exact ⟨x, next⟩
    have distinct : points.Nodup := by
      apply List.Nodup.map_on _ List.nodup_range
      intro i hi j hj same
      rw [List.mem_range] at hi hj
      obtain ⟨x, first⟩ := point i (by omega)
      obtain ⟨y, second⟩ := point j (by omega)
      rw [first, second, Option.getD_some, Option.getD_some] at same
      exact eq_of_chain_of_goesOn goesOn (by omega) (by omega) (by rw [first, second, same])
    have classes : points ⊆ t.classIds := by
      intro x mem
      obtain ⟨i, inside, rfl⟩ := List.mem_map.1 mem
      rw [List.mem_range] at inside
      obtain ⟨x, first⟩ := point i (by omega)
      obtain ⟨y, next⟩ := point (i + 1) (by omega)
      have above : t.base? x = some y := by
        rw [← next]
        show _ = (chain t.base? id (i + 1)).bind t.base?
        rw [first, Option.bind_some]
      rw [first]
      exact mem_classIds_of_class? (class?_of_base? above)
    have bound := (List.subperm_of_subset distinct classes).length_le
    rw [List.length_map, List.length_range] at bound
    omega

/-- **The whole walk.** It passes the chain of base links in order, and ends as `Ended` says. -/
theorem exists_walk : ∃ m, m ≤ t.classIds.length + 1 ∧ (∀ k < m, GoesOn t id k) ∧
    (t.ancestors id).map some = (List.range m).map (fun i => chain t.base? id (i + 1)) ∧
    Ended t id m ((start t id).finish t).2 := by
  obtain ⟨m, -, -, goesOn, ids, ended⟩ := take_after t id (bound t) 0
  have all : ∀ k < m, GoesOn t id k := fun k => goesOn k (Nat.zero_le k)
  have short := length_le_of_goesOn t id all
  have classes := t.length_classIds_le
  refine ⟨m, short, all, ?_, ended.resolve_left ?_⟩
  · rw [List.range_eq_range']
    exact ids
  · unfold bound
    omega

variable {t id}

/-- A walk passes all types that the base links lead to. -/
theorem mem_ancestors_iff {x : TypeId} : x ∈ t.ancestors id ↔ ∃ k, chain t.base? id (k + 1) = some x := by
  obtain ⟨m, -, -, ids, ended⟩ := exists_walk t id
  have passed : x ∈ t.ancestors id ↔ ∃ i < m, chain t.base? id (i + 1) = some x := by
    rw [← List.mem_map_of_injective (Option.some_injective _), ids]
    simp
  rw [passed]
  constructor
  · rintro ⟨i, -, here⟩
    exact ⟨i, here⟩
  · rintro ⟨k, here⟩
    by_cases early : k < m
    · exact ⟨k, early, here⟩
    · generalize ((start t id).finish t).2 = walk at ended
      cases ended with
      | root next =>
        have later := isSome_chain_of_le (f := t.base?) (a := id) (show m + 1 ≤ k + 1 by omega) (by rw [here]; rfl)
        rw [next] at later
        cases later
      | back y j before next met =>
        obtain ⟨i, lower, upto, same⟩ :=
          exists_chain_eq_of_return (show j + 1 < m + 1 by omega) (met.trans next.symm) (k + 1) (by omega)
        refine ⟨i - 1, by omega, ?_⟩
        rw [show i - 1 + 1 = i by omega, ← same, here]

/-- A walk comes back to a type just when the base links never end. -/
theorem isSome_revisited?_iff : (t.revisited? id).isSome ↔ ∀ k, (chain t.base? id k).isSome := by
  obtain ⟨m, -, -, -, ended⟩ := exists_walk t id
  rw [revisited?]
  generalize ((start t id).finish t).2 = walk at ended ⊢
  cases ended with
  | root next =>
    constructor
    · intro held; cases held
    · intro endless
      have held := endless (m + 1)
      rw [next] at held
      cases held
  | back y j before next met =>
    constructor
    · intro _ k
      exact isSome_chain_of_return (show j + 1 < m + 1 by omega) (met.trans next.symm) (by rw [next]; rfl) k
    · intro _; rfl

/-- Every walk ends. -/
theorem next_finish_start (t : TypeTable) (id : TypeId) : ((start t id).finish t).2.next = none := by
  obtain ⟨m, -, -, -, ended⟩ := exists_walk t id
  generalize ((start t id).finish t).2 = walk at ended ⊢
  cases ended with
  | root next => exact next
  | back => rfl

/-- Where base links never end, they come back to a type that is above itself. -/
theorem exists_cycle_of_revisited (back : (t.revisited? id).isSome) : ∃ x k, chain t.base? x (k + 1) = some x := by
  obtain ⟨m, -, -, -, ended⟩ := exists_walk t id
  rw [revisited?] at back
  generalize ((start t id).finish t).2 = walk at ended back
  cases ended with
  | root next => cases back
  | back x j before next met =>
    obtain ⟨k, rfl⟩ := Nat.exists_eq_add_of_lt before
    refine ⟨x, k, ?_⟩
    rw [show j + k + 1 + 1 = j + 1 + (k + 1) by omega, chain_add, met, Option.bind_some] at next
    exact next

/-- A class is reported if it is above itself, or if asked for, if its base links never end. -/
theorem reportsCycle_eq (settings : Settings) (t : TypeTable) (id : TypeId) : t.reportsCycle settings id =
    ((t.ancestors id).contains id || (settings.reportAncestorCycles && (t.revisited? id).isSome)) := rfl

theorem reportsCycle_iff (settings : Settings) : t.reportsCycle settings id = true ↔
    (∃ k, chain t.base? id (k + 1) = some id) ∨
      settings.reportAncestorCycles = true ∧ ∀ k, (chain t.base? id k).isSome := by
  have above : (t.ancestors id).contains id = true ↔ ∃ k, chain t.base? id (k + 1) = some id := by
    rw [List.contains_iff_mem, mem_ancestors_iff]
  rw [reportsCycle_eq, Bool.or_eq_true, Bool.and_eq_true, above, isSome_revisited?_iff]

end TypeTable
end MemberResolution

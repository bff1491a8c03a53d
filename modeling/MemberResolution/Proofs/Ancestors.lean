import Mathlib.Data.List.Nodup
import MemberResolution.Proofs.Walk
import MemberResolution.Seeding

/-!
# Walking step by step

Whatever the base links are, the steps of a walk give the longest beginning of
the chain above a class in which nothing comes twice, and from then on nothing
(`ancestors_stepwise`). The step that gives nothing for the first time settles
where the walk came back, and no later step changes that.
-/

namespace MemberResolution
set_option autoImplicit false

/-! ## Chains that come back -/

/-- The list is the beginning of the chain above `a`. -/
def BeginsChain {α : Type} (f : α → Option α) (a : α) (as : List α) : Prop :=
  as.map some = (List.range as.length).map fun i => chain f a (i + 1)

/-- `b` is the first point of the chain above `a` that the chain has come to before. -/
def FirstReturn {α : Type} (f : α → Option α) (a b : α) : Prop :=
  ∃ n, chain f a (n + 1) = some b ∧ (∃ i < n, chain f a (i + 1) = some b) ∧
    ∀ j < n, ∀ i < j, chain f a (i + 1) ≠ chain f a (j + 1)

section Chain

variable {α : Type} {f : α → Option α} {a b c : α} {as : List α}

theorem BeginsChain.chain_eq (begins : BeginsChain f a as) {i : Nat} (inside : i < as.length) :
    chain f a (i + 1) = some as[i] := by
  have entry := congrArg (·[i]?) begins
  simpa [inside] using entry.symm

theorem FirstReturn.unique (first : FirstReturn f a b) (other : FirstReturn f a c) : b = c := by
  obtain ⟨m, here, ⟨i, before, back⟩, new⟩ := first
  obtain ⟨n, there, ⟨j, earlier, met⟩, fresh⟩ := other
  rcases Nat.lt_trichotomy m n with sooner | rfl | sooner
  · exact absurd (back.trans here.symm) (fresh m sooner i before)
  · exact Option.some.inj (here.symm.trans there)
  · exact absurd (met.trans there.symm) (new n sooner j earlier)

end Chain

/-! ## Steps -/

namespace AncestorWalk

/-- How the walk above `id` stands after `n` steps. -/
def afterSteps (t : TypeTable) (id : TypeId) : Nat → AncestorWalk
  | 0 => start t id
  | n + 1 => ((afterSteps t id n).step t).2

/-- What the step after the first `n` gives. -/
def given (t : TypeTable) (id : TypeId) (n : Nat) : Option TypeId := ((afterSteps t id n).step t).1

variable {t : TypeTable} {id : TypeId} {m n : Nat} {w : AncestorWalk}

theorem afterSteps_of_goesOn (goesOn : ∀ k < m, GoesOn t id k) (le : n ≤ m) : afterSteps t id n = after t id n := by
  induction n with
  | zero => rfl
  | succ n ih =>
    obtain ⟨x, next, new⟩ := goesOn n le
    rw [afterSteps, ih (Nat.le_of_succ_le le), step_after_of_goesOn next new]

theorem step_after_of_ended (ended : Ended t id m w) : (after t id m).step t = (none, w) := by
  cases ended with
  | root next => simp [step, after, next]
  | back x i before next met =>
    have passed : x ∈ (after t id m).passed := mem_passed_after.2 ⟨i, before, met⟩
    simp only [after] at passed
    simp [step, after, next, passed]

/-- A walk that has ended stays as it is. -/
theorem step_of_ended (ended : Ended t id m w) : w.step t = (none, w) := by
  cases ended with
  | root next => simp [step, after, next]
  | back => rfl

theorem afterSteps_of_ended (goesOn : ∀ k < m, GoesOn t id k) (ended : Ended t id m w) (late : m < n) :
    afterSteps t id n = w := by
  obtain ⟨k, rfl⟩ := Nat.exists_eq_add_of_lt late
  induction k with
  | zero => rw [afterSteps, afterSteps_of_goesOn goesOn (Nat.le_refl m), step_after_of_ended ended]
  | succ k ih => rw [← Nat.add_assoc, afterSteps, ih (by omega), step_of_ended ended]

theorem given_of_ended (goesOn : ∀ k < m, GoesOn t id k) (ended : Ended t id m w) (late : m ≤ n) :
    given t id n = none := by
  rcases Nat.eq_or_lt_of_le late with rfl | beyond
  · rw [given, afterSteps_of_goesOn goesOn (Nat.le_refl m), step_after_of_ended ended]
  · rw [given, afterSteps_of_ended goesOn ended beyond, step_of_ended ended]

end AncestorWalk

/-! ## What the steps give -/

namespace TypeTable

open AncestorWalk

variable (t : TypeTable) (id : TypeId)

/-- The number of types that a walk gives. -/
theorem exists_walk_length : (∀ k < (t.ancestors id).length, GoesOn t id k) ∧ BeginsChain t.base? id (t.ancestors id) ∧
    (t.ancestors id).length ≤ t.classIds.length + 1 ∧
    Ended t id (t.ancestors id).length ((start t id).finish t).2 := by
  obtain ⟨m, bound, goesOn, ids, ended⟩ := exists_walk t id
  have length : (t.ancestors id).length = m := by simpa using congrArg List.length ids
  rw [BeginsChain, length]
  exact ⟨goesOn, ids, bound, ended⟩

theorem nodup_ancestors : (t.ancestors id).Nodup := by
  obtain ⟨goesOn, begins, -, -⟩ := t.exists_walk_length id
  apply List.Nodup.of_map some
  rw [begins]
  apply List.Nodup.map_on _ List.nodup_range
  intro i hi j hj same
  exact eq_of_chain_of_goesOn goesOn (List.mem_range.1 hi) (List.mem_range.1 hj) same

variable {t id} {as : List TypeId}

/-- A beginning of the chain in which nothing comes twice is not longer than the walk. -/
theorem length_le_of_beginsChain (distinct : as.Nodup) (begins : BeginsChain t.base? id as) :
    as.length ≤ (t.ancestors id).length := by
  obtain ⟨goesOn, -, -, ended⟩ := t.exists_walk_length id
  by_contra longer
  have inside : (t.ancestors id).length < as.length := Nat.lt_of_not_le longer
  have last := begins.chain_eq inside
  generalize ((start t id).finish t).2 = walk at ended
  cases ended with
  | root next =>
    rw [next] at last
    cases last
  | back x i before next met =>
    have early := begins.chain_eq (Nat.lt_trans before inside)
    have same : as[i] = as[(t.ancestors id).length] :=
      Option.some.inj (early.symm.trans (met.trans (next.symm.trans last)))
    exact absurd (distinct.getElem_inj_iff.1 same) (Nat.ne_of_lt before)

/-- **The ancestors are the longest beginning of the chain in which nothing comes twice.** -/
theorem prefix_ancestors_iff : as <+: t.ancestors id ↔ as.Nodup ∧ BeginsChain t.base? id as := by
  obtain ⟨-, all, -, -⟩ := t.exists_walk_length id
  -- a beginning of the chain is known by its length
  have cut : ∀ n ≤ (t.ancestors id).length, ((t.ancestors id).take n).map some =
      (List.range n).map fun i => chain t.base? id (i + 1) := by
    intro n le
    rw [List.map_take, all, ← List.map_take, List.take_range, Nat.min_eq_left le]
  constructor
  · intro first
    have le := first.length_le
    have begins := cut as.length le
    rw [← List.prefix_iff_eq_take.1 first] at begins
    exact ⟨first.sublist.nodup (t.nodup_ancestors id), begins⟩
  · rintro ⟨distinct, begins⟩
    rw [List.prefix_iff_eq_take]
    apply List.map_injective_iff.2 (Option.some_injective _)
    rw [cut as.length (length_le_of_beginsChain distinct begins)]
    exact begins

/-- A walk that comes back comes back at the first return of an endless chain. -/
theorem revisited?_eq_some_iff {x : TypeId} : t.revisited? id = some x ↔
    (∀ k, (chain t.base? id k).isSome) ∧ FirstReturn t.base? id x := by
  have first : ∀ y, t.revisited? id = some y → FirstReturn t.base? id y := by
    intro y back
    obtain ⟨goesOn, -, -, ended⟩ := t.exists_walk_length id
    rw [revisited?] at back
    generalize ((start t id).finish t).2 = walk at ended back
    cases ended with
    | root next => cases back
    | back y i before next met =>
      cases back
      refine ⟨_, next, ⟨i, before, met⟩, fun j inside i earlier same => ?_⟩
      exact Nat.ne_of_lt earlier (eq_of_chain_of_goesOn goesOn (Nat.lt_trans earlier inside) inside same)
  constructor
  · intro back
    exact ⟨isSome_revisited?_iff.1 (by rw [back]; rfl), first x back⟩
  · rintro ⟨endless, returns⟩
    obtain ⟨y, back⟩ := Option.isSome_iff_exists.1 (isSome_revisited?_iff.2 endless)
    rw [back, returns.unique (first y back)]

theorem revisited?_eq_none_iff : t.revisited? id = none ↔ ∃ k, chain t.base? id k = none := by
  rw [← Option.not_isSome_iff_eq_none, isSome_revisited?_iff, not_forall]
  simp only [Option.not_isSome_iff_eq_none]

/-- **Walking step by step.** The steps give the ancestors in order and then nothing; the ancestors are the longest
beginning of the chain of base links in which nothing comes twice, and at most one more than there are classes. The
walk has not come back while it gives something. From the step on that gives nothing it has come back just when the
chain is endless, and to the first return; nothing changes after that. A type is above itself just when its base
links lead back to it. -/
theorem ancestors_stepwise (t : TypeTable) (id : TypeId) :
    (∀ n, given t id n = (t.ancestors id)[n]?) ∧
      (∀ as, as <+: t.ancestors id ↔ as.Nodup ∧ BeginsChain t.base? id as) ∧
      (t.ancestors id).length ≤ t.classIds.length + 1 ∧
      (∀ n, (afterSteps t id n).revisited = if n ≤ (t.ancestors id).length then none else t.revisited? id) ∧
      (∀ x, t.revisited? id = some x ↔ (∀ k, (chain t.base? id k).isSome) ∧ FirstReturn t.base? id x) ∧
      (t.revisited? id = none ↔ ∃ k, chain t.base? id k = none) ∧
      (id ∈ t.ancestors id ↔ ∃ k, chain t.base? id (k + 1) = some id) := by
  obtain ⟨goesOn, begins, bound, ended⟩ := t.exists_walk_length id
  refine ⟨fun n => ?_, fun as => prefix_ancestors_iff, bound, fun n => ?_, fun x => revisited?_eq_some_iff,
    revisited?_eq_none_iff, mem_ancestors_iff⟩
  · by_cases inside : n < (t.ancestors id).length
    · obtain ⟨x, next, new⟩ := goesOn n inside
      rw [given, afterSteps_of_goesOn goesOn (Nat.le_of_lt inside), step_after_of_goesOn next new,
        List.getElem?_eq_getElem inside, ← begins.chain_eq inside, next]
    · rw [given_of_ended goesOn ended (Nat.le_of_not_lt inside), List.getElem?_eq_none (Nat.le_of_not_lt inside)]
  · split
    · next le => rw [afterSteps_of_goesOn goesOn le]; rfl
    · next late => rw [afterSteps_of_ended goesOn ended (Nat.lt_of_not_le late)]; rfl

/-- A class below a ring of two, and a class whose base is not in the table. -/
example :
    let linked (base : Nat) (c : ClassType) : ClassType := { c with base := some (.ofPosition base) }
    let link (t : TypeTable) (q : Nat × Nat) : TypeTable := t.modifyClass (.ofPosition q.1) (linked q.2)
    let declared := ((builtins.declareIfNew "Below" false).declareIfNew "Left" false).declareIfNew "Right" false
    let ring := [(5, 6), (6, 7), (7, 6)].foldl link declared
    let adrift := link declared (5, 40)
    ring.ancestors (.ofPosition 5) = [.ofPosition 6, .ofPosition 7] ∧
      ring.revisited? (.ofPosition 5) = some (.ofPosition 6) ∧
      adrift.ancestors (.ofPosition 5) = [.ofPosition 40] ∧ adrift.revisited? (.ofPosition 5) = none := by
  decide +kernel

end TypeTable
end MemberResolution

import MemberResolution.Proofs.Distinct
import MemberResolution.Proofs.Walk

/-!
# Inheritance as written

The links of a program are read off its `extends` clauses: a class of a name
that is not a builtin one is linked to the class it extends, if that is
declared under such a name. The base links that a run sets in the table of the
program are these links (`base?_resolveAlone`), so what is reported as cyclic
can be said on the clauses alone (`cycleProblems_resolveAlone`).
-/

namespace MemberResolution
set_option autoImplicit false

namespace Program

/-- The name that the class of the given name extends. -/
def baseName (p : Program) (name : String) : Option String :=
  ((p.classes.find? (·.name.name = name)).bind (·.base)).map (·.name)

/-- The name of the class that the class of the given name is linked to. -/
def link (p : Program) (name : String) : Option String :=
  if name ∈ builtinNames then none
  else (p.baseName name).filter fun base => base ∈ p.names ∧ base ∉ builtinNames

/-- The class is on a cycle of links, or the settings ask for more and its links never end. -/
def Cyclic (settings : Settings) (p : Program) (name : String) : Prop :=
  (∃ k, chain p.link name (k + 1) = some name) ∨
    settings.reportAncestorCycles = true ∧ ∀ k, (chain p.link name k).isSome

theorem exists_declaration_of_baseName {p : Program} {name base : String} (link : p.baseName name = some base) :
    ∃ d ∈ p.classes, d.name.name = name ∧ ∃ b ∈ d.base, b.name = base := by
  obtain ⟨b, clause, rfl⟩ := Option.map_eq_some_iff.1 link
  obtain ⟨d, first, clause⟩ := Option.bind_eq_some_iff.1 clause
  exact ⟨d, List.mem_of_find?_eq_some first, by simpa using List.find?_some first, b, clause, rfl⟩

/-- Where every name that a class extends is the name of a class, the links are the names as written. -/
theorem link_eq_baseName {p : Program} (plain : ∀ name ∈ p.names, name ∉ builtinNames)
    (bases : ∀ d ∈ p.classes, ∀ base ∈ d.base, base.name ∈ p.names) (name : String) :
    p.link name = p.baseName name := by
  unfold link
  cases clause : p.baseName name with
  | none => split <;> rfl
  | some base =>
    obtain ⟨d, mem, rfl, b, written, rfl⟩ := exists_declaration_of_baseName clause
    have known := bases d mem b written
    rw [if_neg (plain _ (mem_names_of_mem mem)), Option.filter_some, if_pos (decide_eq_true ⟨known, plain _ known⟩)]

/-- A class whose links end somewhere is not cyclic. -/
theorem not_cyclic_of_chain {settings : Settings} {p : Program} {name : String} {n : Nat}
    (ended : chain p.link name n = none) : ¬ p.Cyclic settings name := by
  have endless : ¬ ∀ k, (chain p.link name k).isSome := by
    intro endless
    have held := endless n
    rw [ended] at held
    cases held
  rintro (⟨k, back⟩ | ⟨-, never⟩)
  · have start : chain p.link name 0 = chain p.link name (k + 1) := back.symm
    exact endless (isSome_chain_of_return (Nat.succ_pos k) start (by rw [back]; rfl))
  · exact endless never

theorem not_cyclic_of_link {settings : Settings} {p : Program} {name : String} (root : p.link name = none) :
    ¬ p.Cyclic settings name :=
  not_cyclic_of_chain (show chain p.link name 1 = none from root)

end Program

/-- The report of a cycle, placed at the name that the declaration extends. -/
def ClassDecl.cycleReport (d : ClassDecl) : Option Diagnostic :=
  d.base.map fun base => ⟨.cyclicBaseType base.name d.name.name, base.span⟩

/-- One element for each element that has the property. -/
theorem map_some_flatMap_toList {α β : Type} {P : α → Prop} [DecidablePred P] {f : α → Option β} {as : List α}
    (held : ∀ a ∈ as, P a → (f a).isSome) :
    (as.flatMap fun a => if P a then (f a).toList else []).map some = (as.filter P).map f := by
  induction as with
  | nil => rfl
  | cons a rest ih =>
    have tail := ih fun b mem => held b (List.mem_cons_of_mem a mem)
    rw [List.flatMap_cons, List.map_append, tail, List.filter_cons]
    by_cases here : P a
    · obtain ⟨b, image⟩ := Option.isSome_iff_exists.1 (held a List.mem_cons_self here)
      simp [here, image]
    · simp [here]

namespace Program

variable {p : Program} (distinct : p.names.Nodup)
include distinct

theorem link_eq_none_of_base {d : ClassDecl} (mem : d ∈ p.classes) (root : d.base = none) :
    p.link d.name.name = none := by
  rw [link, baseName, find?_key_of_mem (nodup_classNames distinct) mem, Option.bind_some, root]
  split <;> rfl

/-- A cyclic class has a name that it extends. -/
theorem isSome_cycleReport {settings : Settings} {d : ClassDecl} (mem : d ∈ p.classes)
    (cyclic : p.Cyclic settings d.name.name) : d.cycleReport.isSome := by
  rw [ClassDecl.cycleReport, Option.isSome_map, ← Option.not_isNone, Bool.not_eq_true', Option.isNone_eq_false_iff]
  by_contra root
  exact not_cyclic_of_link (link_eq_none_of_base distinct mem (Option.not_isSome_iff_eq_none.1 root)) cyclic

end Program

/-! ## Links of a table and links as written -/

namespace Program

variable (p : Program)

/-- The classes that a program starts from have no base. -/
theorem base?_seed (id : TypeId) : p.seed.base? id = none := by
  rw [TypeTable.base?]
  cases held : p.seed.class? id with
  | none => rfl
  | some c =>
    obtain ⟨d, -, rfl⟩ := p.exists_declared_of_class?_seed held
    rfl

theorem base?_resolve (settings : Settings) (t : TypeTable) (id : TypeId) :
    (p.resolve settings t).table.base? id = (t.class? id).bind fun c => (p.baseOf t id).or c.base := by
  rw [TypeTable.base?, class?_resolve, Option.bind_map]
  apply Option.bind_congr
  intro c _
  exact p.base_entered settings t id c

/-- A class that has a base after a run has a declaration in the program. -/
theorem exists_declaration_of_base? {settings : Settings} {id base : TypeId}
    (linked : (p.resolveAlone settings).table.base? id = some base) :
    ∃ d ∈ p.classes, p.seed.lookupClass d.name.name = some id := by
  rw [resolveAlone, base?_resolve] at linked
  obtain ⟨c, held, linked⟩ := Option.bind_eq_some_iff.1 linked
  have rootless : c.base = none := by
    have seeded := p.base?_seed id
    rwa [TypeTable.base?, held] at seeded
  rw [rootless, Option.or_none] at linked
  obtain ⟨d, mem, -⟩ := List.exists_of_findSome?_eq_some linked
  obtain ⟨mem, found⟩ := List.mem_filter.1 (List.mem_reverse.1 mem)
  exact ⟨d, mem, of_decide_eq_true found⟩

variable {p} (settings : Settings) (distinct : p.names.Nodup) (small : p.classes.length < UInt32.size - 5)
include small

/-- A link leads to a class of the table. -/
theorem isSome_lookupClass_of_link {m n : String} (linked : p.link m = some n) : (p.seed.lookupClass n).isSome := by
  unfold link at linked
  split at linked
  · cases linked
  · have known := (Option.filter_eq_some_iff.1 linked).2
    exact (isSome_lookupClass_seed_iff small).2 (of_decide_eq_true known)

/-- A base is found just when it is a linked one. -/
theorem bind_lookupClass_link {name : String} (other : name ∉ builtinNames) :
    (p.link name).bind p.seed.lookupClass = (p.baseName name).bind p.seed.lookupClass := by
  rw [link, if_neg other]
  exact bind_lookupClass_filter small (fun base => base) (p.baseName name)

include distinct

/-- **The base links of the table are the links as written.** -/
theorem base?_resolveAlone {name : String} {id : TypeId} (found : p.seed.lookupClass name = some id) :
    (p.resolveAlone settings).table.base? id = (p.link name).bind p.seed.lookupClass := by
  have other : name ∉ builtinNames := (declared_of_lookupClass small found).2
  obtain ⟨first, -, held⟩ := class?_seed small found
  rw [resolveAlone, base?_resolve, held, Option.bind_some, bind_lookupClass_link small other, baseOf,
    declarationsOf_seed distinct small found, baseName]
  cases p.classes.find? (·.name.name = name) with
  | none => rfl
  | some d =>
    show (([d].findSome? fun d => d.base? p.seed).or none) = _
    rw [List.findSome?_singleton, Option.or_none, ClassDecl.base?, Option.bind_some, Option.bind_map]
    rfl

theorem chain_base?_resolveAlone {name : String} {id : TypeId} (found : p.seed.lookupClass name = some id) (k : Nat) :
    chain (p.resolveAlone settings).table.base? id k = (chain p.link name k).bind p.seed.lookupClass :=
  chain_eq_bind_of_step (fun _ _ found => base?_resolveAlone settings distinct small found)
    (fun _ _ linked => isSome_lookupClass_of_link small linked) found k

theorem chain_base?_eq_self_iff {name : String} {id : TypeId} (found : p.seed.lookupClass name = some id) (k : Nat) :
    chain (p.resolveAlone settings).table.base? id k = some id ↔ chain p.link name k = some name := by
  rw [chain_base?_resolveAlone settings distinct small found, Option.bind_eq_some_iff]
  constructor
  · rintro ⟨m, here, lookup⟩
    rw [here, TypeTable.lookupClass_injective (size_seed_le_of_few small) lookup found]
  · intro here
    exact ⟨name, here, found⟩

theorem isSome_chain_base?_resolveAlone {name : String} {id : TypeId} (found : p.seed.lookupClass name = some id)
    (k : Nat) : (chain (p.resolveAlone settings).table.base? id k).isSome = (chain p.link name k).isSome := by
  rw [chain_base?_resolveAlone settings distinct small found]
  cases k with
  | zero => exact congrArg Option.isSome found
  | succ k =>
    cases here : chain p.link name (k + 1) with
    | none => rfl
    | some m =>
      obtain ⟨m', -, last⟩ := Option.bind_eq_some_iff.1 here
      exact isSome_lookupClass_of_link small last

/-- A class is to be reported in the table just when it is cyclic as written. -/
theorem reportsCycle_resolveAlone {name : String} {id : TypeId} (found : p.seed.lookupClass name = some id) :
    (p.resolveAlone settings).table.reportsCycle settings id = true ↔ p.Cyclic settings name := by
  rw [TypeTable.reportsCycle_iff, Cyclic]
  simp only [chain_base?_eq_self_iff settings distinct small found,
    isSome_chain_base?_resolveAlone settings distinct small found]

/-- A walk that comes back somewhere has come upon a class on a cycle of links. -/
theorem exists_cycle_of_revisited {id : TypeId} (back : ((p.resolveAlone settings).table.revisited? id).isSome) :
    ∃ d ∈ p.classes, ∃ k, chain p.link d.name.name (k + 1) = some d.name.name := by
  obtain ⟨x, k, cycle⟩ := TypeTable.exists_cycle_of_revisited back
  have linked : (chain (p.resolveAlone settings).table.base? x 1).isSome :=
    isSome_chain_of_le (show 1 ≤ k + 1 by omega) (by rw [cycle]; rfl)
  obtain ⟨base, linked⟩ := Option.isSome_iff_exists.1 linked
  obtain ⟨d, mem, found⟩ := p.exists_declaration_of_base? linked
  exact ⟨d, mem, k, (chain_base?_eq_self_iff settings distinct small found (k + 1)).1 cycle⟩

/-! ## The reports of cycles -/

/-- What the last sweep reports on a declaration. -/
theorem cycleProblems_resolveAlone [DecidablePred (p.Cyclic settings)] {d : ClassDecl} (mem : d ∈ p.classes) :
    d.cycleProblems settings (p.resolveAlone settings).table =
      if p.Cyclic settings d.name.name then d.cycleReport.toList else [] := by
  have lookup := (p.sameHeads_resolve settings p.seed).lookupClass d.name.name
  unfold ClassDecl.cycleProblems
  rw [show (p.resolveAlone settings).table = (p.resolve settings p.seed).table from rfl, lookup]
  cases written : d.base with
  | none => rw [if_neg (not_cyclic_of_link (link_eq_none_of_base distinct mem written))]
  | some base =>
    cases found : p.seed.lookupClass d.name.name with
    | none =>
      have builtin : d.name.name ∈ builtinNames := (lookupClass_declaration_eq_none_iff small mem).1 found
      rw [if_neg (not_cyclic_of_link (if_pos builtin))]
    | some id =>
      have cyclic := reportsCycle_resolveAlone settings distinct small found
      simp only [ClassDecl.cycleReport, written, ← cyclic]
      rfl

theorem cycleProblems_eq_nil_iff {d : ClassDecl} (mem : d ∈ p.classes) :
    d.cycleProblems settings (p.resolveAlone settings).table = [] ↔ ¬ p.Cyclic settings d.name.name := by
  classical
  rw [cycleProblems_resolveAlone settings distinct small mem]
  by_cases cyclic : p.Cyclic settings d.name.name
  · obtain ⟨x, report⟩ := Option.isSome_iff_exists.1 (isSome_cycleReport distinct mem cyclic)
    simp [cyclic, report]
  · simp [cyclic]

/-- Links that never end come to a class that is on a cycle of links. -/
theorem exists_cycle_of_cyclic {d : ClassDecl} (mem : d ∈ p.classes) (cyclic : p.Cyclic settings d.name.name) :
    ∃ e ∈ p.classes, ∃ k, chain p.link e.name.name (k + 1) = some e.name.name := by
  rcases cyclic with back | ⟨flag, endless⟩
  · exact ⟨d, mem, back⟩
  · have other : d.name.name ∉ builtinNames := by
      intro builtin
      exact not_cyclic_of_link (if_pos builtin) (Or.inr ⟨flag, endless⟩)
    obtain ⟨id, found⟩ := exists_lookupClass_seed small (mem_names_of_mem mem) other
    have back : ((p.resolveAlone settings).table.revisited? id).isSome := by
      rw [TypeTable.isSome_revisited?_iff]
      intro k
      rw [isSome_chain_base?_resolveAlone settings distinct small found]
      exact endless k
    exact exists_cycle_of_revisited settings distinct small back

/-- Whatever the settings, cycles are reported just when there are any. -/
theorem no_cycleProblems_iff :
    (∀ d ∈ p.classes, d.cycleProblems settings (p.resolveAlone settings).table = []) ↔
      ∀ d ∈ p.classes, ∀ k, chain p.link d.name.name (k + 1) ≠ some d.name.name := by
  constructor
  · intro silent d mem k back
    exact (cycleProblems_eq_nil_iff settings distinct small mem).1 (silent d mem) (Or.inl ⟨k, back⟩)
  · intro acyclic d mem
    rw [cycleProblems_eq_nil_iff settings distinct small mem]
    intro cyclic
    obtain ⟨e, memE, k, back⟩ := exists_cycle_of_cyclic settings distinct small mem cyclic
    exact acyclic e memE k back

/-- **Which cycles are reported.** The reports of cycles come last, one for each cyclic class in source order, and
placed at the name that it extends. Where there is none, no walk up the base links comes back anywhere. -/
theorem cyclic_reports_resolveAlone [DecidablePred (p.Cyclic settings)] :
    ∃ front tail, (p.resolveAlone settings).diagnostics = front ++ tail ∧
      (∀ x ∈ front, x.code ≠ .cyclicBaseType) ∧
      tail.map some = (p.classes.filter fun d => p.Cyclic settings d.name.name).map ClassDecl.cycleReport ∧
      ((∀ x ∈ (p.resolveAlone settings).diagnostics, x.code ≠ .cyclicBaseType) →
        ∀ id, ((AncestorWalk.start (p.resolveAlone settings).table id).finish (p.resolveAlone settings).table).2.next
            = none ∧
          (p.resolveAlone settings).table.revisited? id = none) := by
  have sweep : p.classes.flatMap (·.cycleProblems settings (p.resolveAlone settings).table) =
      p.classes.flatMap fun d => if p.Cyclic settings d.name.name then d.cycleReport.toList else [] :=
    List.flatMap_congr fun d mem => cycleProblems_resolveAlone settings distinct small mem
  have reports := map_some_flatMap_toList (P := fun d : ClassDecl => p.Cyclic settings d.name.name)
    fun d mem cyclic => isSome_cycleReport distinct mem cyclic
  refine ⟨_, _, p.diagnostics_resolve settings p.seed, ?_, ?_, ?_⟩
  · intro x mem
    rcases List.mem_append.1 mem with mem | mem
    · rw [MainClass.code_problems mem]
      decide
    · obtain ⟨t, d, -, mem⟩ := mem_reportsAlong mem
      exact ClassDecl.code_report mem
  · exact (congrArg (List.map some) sweep).trans reports
  · intro silent id
    refine ⟨TypeTable.next_finish_start _ id, ?_⟩
    rw [← Option.not_isSome_iff_eq_none]
    intro back
    obtain ⟨d, mem, cycle⟩ := exists_cycle_of_revisited settings distinct small back
    -- a class on a cycle is reported whatever the settings
    have cyclic : p.Cyclic settings d.name.name := Or.inl cycle
    obtain ⟨x, report⟩ := Option.isSome_iff_exists.1 (isSome_cycleReport distinct mem cyclic)
    have reported : x ∈ p.classes.flatMap (·.cycleProblems settings (p.resolveAlone settings).table) := by
      rw [sweep]
      refine List.mem_flatMap.2 ⟨d, mem, ?_⟩
      rw [if_pos cyclic, report]
      exact List.mem_singleton_self x
    refine silent x (List.mem_append_right _ reported) ?_
    obtain ⟨d', -, mem'⟩ := List.mem_flatMap.1 reported
    exact ClassDecl.code_cycleProblems mem'

end Program

namespace Program

/-- Two classes that extend each other, one below them, one that extends the main class, and one that extends a
name that is not declared. -/
def ring : Program :=
  { main := { name := ⟨"Main", ⟨6, 4⟩⟩ }
    classes := [
      { name := ⟨"Left", ⟨13, 4⟩⟩, base := some ⟨"Right", ⟨26, 5⟩⟩ },
      { name := ⟨"Right", ⟨40, 5⟩⟩, base := some ⟨"Left", ⟨54, 4⟩⟩ },
      { name := ⟨"Below", ⟨67, 5⟩⟩, base := some ⟨"Left", ⟨81, 4⟩⟩ },
      { name := ⟨"Aside", ⟨94, 5⟩⟩, base := some ⟨"Main", ⟨108, 4⟩⟩ },
      { name := ⟨"Adrift", ⟨121, 6⟩⟩, base := some ⟨"Gone", ⟨136, 4⟩⟩ }] }

/-- The two classes of the ring and the one below them are reported, at the names that they extend. -/
theorem cyclic_reports_ring : ring.names.Nodup ∧ ring.classes.length < UInt32.size - 5 ∧
    ∃ front tail, (ring.resolveAlone {}).diagnostics = front ++ tail ∧ (∀ x ∈ front, x.code ≠ .cyclicBaseType) ∧
      tail = [⟨.cyclicBaseType "Right" "Left", ⟨26, 5⟩⟩, ⟨.cyclicBaseType "Left" "Right", ⟨54, 4⟩⟩,
        ⟨.cyclicBaseType "Left" "Below", ⟨81, 4⟩⟩] := by
  classical
  have distinct : ring.names.Nodup := by decide +kernel
  have small : ring.classes.length < UInt32.size - 5 := by decide
  obtain ⟨front, tail, all, first, reports, -⟩ := cyclic_reports_resolveAlone {} distinct small
  have left : ring.Cyclic {} "Left" := Or.inl ⟨1, by decide +kernel⟩
  have right : ring.Cyclic {} "Right" := Or.inl ⟨1, by decide +kernel⟩
  have below : ring.Cyclic {} "Below" := by
    have back : chain ring.link "Below" 1 = chain ring.link "Below" 3 := by decide +kernel
    exact Or.inr ⟨rfl, isSome_chain_of_return (by decide) back (by decide +kernel)⟩
  have aside : ¬ ring.Cyclic {} "Aside" :=
    not_cyclic_of_chain (show chain ring.link "Aside" 2 = none by decide +kernel)
  have adrift : ¬ ring.Cyclic {} "Adrift" := not_cyclic_of_link (by decide +kernel)
  have cyclic : ring.classes.filter (fun d => ring.Cyclic {} d.name.name) =
      ring.classes.filter fun d => d.name.name ∈ ["Left", "Right", "Below"] := by
    apply List.filter_congr
    intro d mem
    rw [decide_eq_decide]
    simp only [ring, List.mem_cons, List.not_mem_nil, or_false] at mem
    rcases mem with rfl | rfl | rfl | rfl | rfl
    · exact iff_of_true left (by decide)
    · exact iff_of_true right (by decide)
    · exact iff_of_true below (by decide)
    · exact iff_of_false aside (by decide)
    · exact iff_of_false adrift (by decide)
  refine ⟨distinct, small, front, tail, all, first, ?_⟩
  apply List.map_injective_iff.2 (Option.some_injective _)
  rw [reports, cyclic]
  decide +kernel

end Program
end MemberResolution

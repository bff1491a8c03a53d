import MemberResolution.Proofs.NoReports
import MemberResolution.Proofs.Slots

/-!
# Slots from an earlier run

A run fills the slots for what it finds and passes over the others, where the
values of an earlier run stay: each slot holds what the run leaves in the
program with empty slots, or else what it held before (`slots_resolve`). So a
program that is resolved in one table and then in another can keep handles of
the first one (`slots_resolve_elsewhere`). Nothing old is left where the run
misses no name and meets no repeated parameter (`slots_resolve_of_clean`).
-/

namespace MemberResolution
set_option autoImplicit false

/-! ## Slots filled over others -/

/-- The expression with its own slot, or that of `old` where its own is empty. -/
def TypeExpr.orOld (e old : TypeExpr) : TypeExpr := { e with resolved := e.resolved.or old.resolved }

def FieldDecl.orOld (d old : FieldDecl) : FieldDecl := { d with type := d.type.orOld old.type }

def ParamDecl.orOld (d old : ParamDecl) : ParamDecl := { d with type := d.type.orOld old.type }

def MethodDecl.orOld (d old : MethodDecl) : MethodDecl :=
  { d with
    returnType := d.returnType.orOld old.returnType
    params := List.zipWith ParamDecl.orOld d.params old.params
    resolved := d.resolved.or old.resolved }

def ClassDecl.orOld (d old : ClassDecl) : ClassDecl :=
  { d with
    fields := List.zipWith FieldDecl.orOld d.fields old.fields
    methods := List.zipWith MethodDecl.orOld d.methods old.methods
    resolvedBase := d.resolvedBase.or old.resolvedBase }

def MainClass.orOld (m old : MainClass) : MainClass := { m with entry := m.entry.or old.entry }

/-- The program with its own slots, and those of `old` where its own are empty. -/
def Program.orOld (p old : Program) : Program :=
  { main := p.main.orOld old.main, classes := List.zipWith ClassDecl.orOld p.classes old.classes }

/-! ## Slots of a run over the old ones -/

/-- Elements that are changed and then joined with the list they come from. -/
theorem zipWith_map_self {α β γ : Type} {f : β → α → γ} {g : α → β} {k : α → γ} (each : ∀ a, f (g a) a = k a)
    (as : List α) : List.zipWith f (as.map g) as = as.map k := by
  rw [List.zipWith_map_left, List.zipWith_self, funext each]

section OrOld

variable (t : TypeTable) (id : TypeId)

theorem MethodDecl.erase_orOld (d : MethodDecl) : d.erase.orOld d = d := by
  have params : List.zipWith ParamDecl.orOld (d.params.map (·.erase)) d.params = d.params :=
    (zipWith_map_self (fun _ => rfl) d.params).trans (List.map_id _)
  simp only [orOld, erase, params]
  rfl

theorem ClassDecl.erase_orOld (d : ClassDecl) : d.erase.orOld d = d := by
  have fields : List.zipWith FieldDecl.orOld (d.fields.map (·.erase)) d.fields = d.fields :=
    (zipWith_map_self (fun _ => rfl) d.fields).trans (List.map_id _)
  have methods : List.zipWith MethodDecl.orOld (d.methods.map (·.erase)) d.methods = d.methods :=
    (zipWith_map_self MethodDecl.erase_orOld d.methods).trans (List.map_id _)
  simp only [orOld, erase, fields, methods]
  rfl

theorem MethodDecl.annotate_orOld (d : MethodDecl) : (d.erase.annotate t id).orOld d = d.annotate t id := by
  have params : List.zipWith ParamDecl.orOld (d.erase.annotate t id).params d.params = (d.annotate t id).params := by
    simp only [annotate, erase, List.map_map]
    exact zipWith_map_self (fun _ => rfl) d.params
  have key : (d.erase.annotate t id).resolved.or d.resolved = (d.annotate t id).resolved := by
    simp only [annotate, d.method?_erase]
    exact congrArg (Option.or · d.resolved) Option.or_none
  simp only [orOld, params, key]
  rfl

theorem ClassDecl.annotate_orOld (d : ClassDecl) : (d.erase.annotate t).orOld d = d.annotate t := by
  have name : d.erase.name = d.name := rfl
  rw [annotate, annotate, name]
  cases t.lookupClass d.name.name with
  | none => exact d.erase_orOld
  | some id =>
    have fields : List.zipWith FieldDecl.orOld (d.erase.annotateAs t id).fields d.fields =
        (d.annotateAs t id).fields := by
      simp only [annotateAs, erase, List.map_map]
      exact zipWith_map_self (fun _ => rfl) d.fields
    have methods : List.zipWith MethodDecl.orOld (d.erase.annotateAs t id).methods d.methods =
        (d.annotateAs t id).methods := by
      simp only [annotateAs, erase, List.map_map]
      exact zipWith_map_self (fun m => m.annotate_orOld t id) d.methods
    have base : (d.erase.annotateAs t id).resolvedBase.or d.resolvedBase = (d.annotateAs t id).resolvedBase :=
      congrArg (Option.or · d.resolvedBase) Option.or_none
    simp only [orOld, fields, methods, base]
    rfl

theorem MainClass.annotate_orOld (settings : Settings) (m : MainClass) :
    (m.erase.annotate settings t).orOld m = m.annotate settings t := by
  have name : m.erase.name = m.name := rfl
  rw [annotate, annotate, name]
  cases t.lookupClass m.name.name with
  | none => rfl
  | some id => rfl

end OrOld

/-- **What a run leaves in the slots.** Each slot holds what the run leaves in the program with empty slots, or else
what it held before. -/
theorem Program.slots_resolve (settings : Settings) (t : TypeTable) (p : Program) :
    (p.resolve settings t).program = (p.erase.resolve settings t).program.orOld p := by
  have classes : List.zipWith ClassDecl.orOld (p.erase.annotate settings t).classes p.classes =
      (p.annotate settings t).classes := by
    simp only [annotate, erase, List.map_map]
    exact zipWith_map_self (fun d => d.annotate_orOld t) p.classes
  show p.annotate settings t = (p.erase.annotate settings t).orOld p
  rw [orOld, classes]
  exact congrArg (Program.mk · _) (p.main.annotate_orOld t settings).symm

namespace Program

/-- A class that extends another one and mentions it in the signature of a method. -/
def boxed : Program :=
  let box (offset : Nat) : Ident := ⟨"Box", ⟨offset, 3⟩⟩
  let item : ParamDecl := { type := ⟨.named (box 59), ⟨59, 3⟩, none⟩, name := ⟨"item", ⟨63, 4⟩⟩ }
  let wrap : MethodDecl :=
    { name := ⟨"wrap", ⟨54, 4⟩⟩, returnType := ⟨.named (box 50), ⟨50, 3⟩, none⟩, params := [item] }
  { main := { name := ⟨"Main", ⟨6, 4⟩⟩ }
    classes := [{ name := box 17 }, { name := ⟨"List", ⟨30, 4⟩⟩, base := some (box 43), methods := [wrap] }] }

/-- In a table without the other class nothing is found for the base and the method. Resolved there after it has been
resolved alone, the program still has the old handle and the old key in these slots, and the handle is now that of
the class itself. -/
theorem slots_resolve_elsewhere :
    let t := (TypeTable.builtins.declareIfNew "Main" false).declareIfNew "List" false
    let first := (boxed.resolveAlone {}).program
    let slots (p : Program) : List (Option TypeId × List (Option MethodKey)) :=
      p.classes.map fun d => (d.resolvedBase, d.methods.map (·.resolved))
    first.erase = boxed.erase ∧ t.lookupClass "List" = some (.ofPosition 6) ∧
      slots (boxed.resolve {} t).program = [(none, []), (none, [none])] ∧
      slots (first.resolve {} t).program =
        [(none, []), (some (.ofPosition 6), [some ⟨"wrap", [.ofPosition 6]⟩])] := by
  decide +kernel

end Program

/-! ## Runs that leave nothing old -/

section Clean

variable {t : TypeTable}

theorem MethodDecl.annotate_erase {id : TypeId} {d : MethodDecl} {m : Method} (found : d.method? t id = some m) :
    d.erase.annotate t id = d.annotate t id := by
  simp only [annotate, d.method?_erase, found, Option.map_some, Option.some_or]
  simp only [erase, List.map_map]
  rfl

variable (whole : t.HasBuiltins) (small : t.size ≤ UInt32.size)
include whole small

/-- A declaration gets all its slots filled if no missing name and no repeated parameter is reported in it. -/
theorem ClassDecl.annotate_erase {d : ClassDecl} (rootless : d.base = none → d.resolvedBase = none)
    (clean : ∀ x ∈ d.ownReport t, x.code ≠ .typeNameMissing ∧ x.code ≠ .parameterDuplicates) :
    d.erase.annotate t = d.annotate t := by
  unfold ownReport at clean
  cases found : t.lookupClass d.name.name with
  | none =>
    rw [found] at clean
    exact absurd rfl (clean _ List.mem_cons_self).1
  | some id =>
    rw [found] at clean
    have base : (d.base? t).or d.resolvedBase = d.base? t := by
      cases clause : d.base with
      | none => rw [rootless clause, Option.or_none]
      | some base =>
        cases linked : t.lookupClass base.name with
        | some other => rw [base?, clause, Option.bind_some, linked, Option.some_or]
        | none =>
          have missing : Diagnostic.typeNameMissing base ∈ d.baseProblems t := by
            simp only [baseProblems, clause, linked, List.mem_singleton]
          exact absurd rfl (clean _ (List.mem_append_left _ (List.mem_append_left _ missing))).1
    have methods : ∀ m ∈ d.methods, m.erase.annotate t id = m.annotate t id := by
      intro m mem
      apply m.annotate_erase
      apply m.method?_of_signatureProblems whole small id
      rw [List.eq_nil_iff_forall_not_mem]
      intro x problem
      obtain ⟨known, distinct⟩ := clean x (List.mem_append_right _ (List.mem_flatMap.2 ⟨m, mem, problem⟩))
      rcases MethodDecl.code_signatureProblems problem with code | code
      · exact known code
      · exact distinct code
    have filled : d.annotate t = d.annotateAs t id := by rw [annotate, found]
    have erased : d.erase.annotate t = d.erase.annotateAs t id := by
      rw [annotate, show d.erase.name = d.name from rfl, found]
    have mapped : (d.methods.map (·.erase)).map (·.annotate t id) = d.methods.map (·.annotate t id) := by
      rw [List.map_map]
      exact List.map_congr_left methods
    rw [filled, erased, annotateAs, annotateAs, base]
    simp only [erase, mapped, List.map_map, Option.or_none]
    rfl

omit whole small in
/-- What a run reports on a declaration, whatever members its class has, it reports. -/
theorem Program.mem_diagnostics_of_ownReport (settings : Settings) {p : Program} {d : ClassDecl} (mem : d ∈ p.classes)
    {x : Diagnostic} (reported : x ∈ d.ownReport t) : x ∈ (p.resolve settings t).diagnostics := by
  have own : x ∈ (p.resolve settings t).diagnostics.filter (!·.isRepeat) := by
    rw [filter_own_resolve, List.mem_append, List.mem_append]
    exact Or.inl (Or.inr (List.mem_flatMap.2 ⟨d, mem, reported⟩))
  exact List.mem_of_mem_filter own

theorem Program.annotate_erase (settings : Settings) {p : Program}
    (rootless : ∀ d ∈ p.classes, d.base = none → d.resolvedBase = none)
    (clean : ∀ x ∈ (p.resolve settings t).diagnostics, x.code ≠ .typeNameMissing ∧ x.code ≠ .parameterDuplicates) :
    p.erase.annotate settings t = p.annotate settings t := by
  have main : p.main.erase.annotate settings t = p.main.annotate settings t := by
    have name : p.main.erase.name = p.main.name := rfl
    rw [MainClass.annotate, MainClass.annotate, name]
    cases found : t.lookupClass p.main.name.name with
    | some id => rfl
    | none =>
      have missing : Diagnostic.typeNameMissing p.main.name ∈ (p.resolve settings t).diagnostics := by
        rw [diagnostics_resolve, MainClass.problems, found]
        exact List.mem_append_left _ (List.mem_append_left _ List.mem_cons_self)
      exact absurd rfl (clean _ missing).1
  have classes : (p.classes.map (·.erase)).map (·.annotate t) = p.classes.map (·.annotate t) := by
    rw [List.map_map]
    apply List.map_congr_left
    intro d mem
    exact ClassDecl.annotate_erase whole small (rootless d mem) fun x reported =>
      clean x (mem_diagnostics_of_ownReport settings mem reported)
  simp only [annotate, erase, main, classes]

end Clean

/-- **A clean run leaves nothing old.** A run that misses no name and meets no repeated parameter leaves the same
program, whatever the slots held before, as long as they hold a base only where one is named. -/
theorem Program.slots_resolve_of_clean (settings : Settings) {t : TypeTable} (built : t.Built)
    (small : t.size < UInt32.size) {p q : Program} (same : p.erase = q.erase)
    (rootless : ∀ r ∈ [p, q], ∀ d ∈ r.classes, d.base = none → d.resolvedBase = none)
    (clean : ∀ x ∈ (p.resolve settings t).diagnostics, x.code ≠ .typeNameMissing ∧ x.code ≠ .parameterDuplicates) :
    (p.resolve settings t).program = (q.resolve settings t).program := by
  have whole := built.hasBuiltins
  have bound := Nat.le_of_lt small
  have left := annotate_erase whole bound settings (rootless p List.mem_cons_self) clean
  rw [p.diagnostics_resolve_of_erase settings t same] at clean
  have right := annotate_erase whole bound settings (rootless q (List.mem_cons_of_mem p List.mem_cons_self)) clean
  exact left.symm.trans ((congrArg (·.annotate settings t) same).trans right)

end MemberResolution

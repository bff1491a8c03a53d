import MemberResolution.Proofs.Reading

/-!
# Slots

What a run enters and reports does not depend on what earlier runs left in the
slots of the program: a program and the same program with empty slots give the
same table and the same diagnostics (`table_resolve_erase`,
`diagnostics_resolve_erase`). A run fills slots and changes nothing else of the
program (`erase_annotate`), and it fills them the same way again
(`annotate_annotate`).
-/

namespace MemberResolution
set_option autoImplicit false

/-! ## Emptying the slots -/

def TypeExpr.erase (e : TypeExpr) : TypeExpr := { e with resolved := none }

def FieldDecl.erase (d : FieldDecl) : FieldDecl := { d with type := d.type.erase }

def ParamDecl.erase (d : ParamDecl) : ParamDecl := { d with type := d.type.erase }

def MethodDecl.erase (d : MethodDecl) : MethodDecl :=
  { d with returnType := d.returnType.erase, params := d.params.map (·.erase), resolved := none }

def ClassDecl.erase (d : ClassDecl) : ClassDecl :=
  { d with fields := d.fields.map (·.erase), methods := d.methods.map (·.erase), resolvedBase := none }

def MainClass.erase (m : MainClass) : MainClass := { m with entry := none }

/-- The program with all slots empty. Names, places, flags and types as written stay, and so does their order. -/
def Program.erase (p : Program) : Program := { main := p.main.erase, classes := p.classes.map (·.erase) }

/-- The base slots are empty where all slots of the program are. -/
theorem Program.resolvedBase_eq_none {p : Program} (slotless : p.erase = p) {d : ClassDecl} (mem : d ∈ p.classes) :
    d.resolvedBase = none := by
  rw [← slotless] at mem
  obtain ⟨d, -, rfl⟩ := List.mem_map.1 mem
  rfl

/-- The slot of a method is empty where all slots of the program are. -/
theorem Program.resolved_eq_none {p : Program} (slotless : p.erase = p) {d : ClassDecl} (mem : d ∈ p.classes)
    {m : MethodDecl} (method : m ∈ d.methods) : m.resolved = none := by
  rw [← slotless] at mem
  obtain ⟨d, -, rfl⟩ := List.mem_map.1 mem
  obtain ⟨m, -, rfl⟩ := List.mem_map.1 method
  rfl

/-! ## Slots are not read -/

theorem reportsAlong_map {α β σ : Type} {enter : σ → β → σ} {report : σ → β → List Diagnostic} (g : α → β)
    (s : σ) (as : List α) : reportsAlong enter report s (as.map g) =
      reportsAlong (fun s a => enter s (g a)) (fun s a => report s (g a)) s as := by
  induction as generalizing s with
  | nil => rfl
  | cons a rest ih => simp only [List.map_cons, reportsAlong, ih]

section Erased

variable (t : TypeTable) (id : TypeId)

theorem MethodDecl.typesKnown_erase (d : MethodDecl) : d.erase.typesKnown t = d.typesKnown t := by
  simp only [typesKnown, typeExprs, erase, List.all_cons, List.all_map, List.map_map]
  rfl

theorem MethodDecl.described_erase (d : MethodDecl) : d.erase.described t id = d.described t id := by
  have parameters : d.erase.parameters t = d.parameters t := by
    simp only [MethodDecl.parameters, erase, List.zipIdx_map, List.map_map]
    rfl
  simp only [described, parameters]
  rfl

theorem MethodDecl.method?_erase (d : MethodDecl) : d.erase.method? t id = d.method? t id := by
  have names : d.erase.paramNames = d.paramNames := by
    simp only [paramNames, erase, List.map_map]
    rfl
  simp only [method?, d.typesKnown_erase, names, d.described_erase]

theorem MethodDecl.enter_erase (d : MethodDecl) : d.erase.enter t id = d.enter t id := by
  funext c
  simp only [enter, d.method?_erase]

theorem MethodDecl.signatureProblems_erase (d : MethodDecl) :
    d.erase.signatureProblems t = d.signatureProblems t := by
  have params : ∀ (ps : List ParamDecl) (earlier : List String),
      paramProblems t d.name.name earlier (ps.map (·.erase)) = paramProblems t d.name.name earlier ps := by
    intro ps
    induction ps with
    | nil => intro earlier; rfl
    | cons p rest ih =>
      intro earlier
      simp only [List.map_cons, paramProblems, ih]
      rfl
  exact congrArg (d.returnType.problems t ++ ·) (params d.params [])

theorem MethodDecl.problems_erase (d : MethodDecl) (c : ClassType) :
    d.erase.problems t id c = d.problems t id c := by
  simp only [problems, clashProblems, d.signatureProblems_erase, d.method?_erase]
  rfl

theorem ClassDecl.enterFields_erase (d : ClassDecl) (c : ClassType) :
    d.erase.enterFields t id c = d.enterFields t id c := by
  simp only [enterFields, erase, List.foldl_map]
  rfl

theorem ClassDecl.enter_erase (d : ClassDecl) : d.erase.enter t id = d.enter t id := by
  funext c
  simp only [enter, d.enterFields_erase, enterMethods]
  simp only [erase, List.foldl_map, MethodDecl.enter_erase]
  rfl

theorem ClassDecl.problems_erase (d : ClassDecl) (c : ClassType) :
    d.erase.problems t id c = d.problems t id c := by
  simp only [problems, d.enterFields_erase]
  simp only [erase, reportsAlong_map, MethodDecl.enter_erase, MethodDecl.problems_erase]
  rfl

theorem TypeTable.enterClass_erase (d : ClassDecl) : t.enterClass d.erase = t.enterClass d := by
  simp only [enterClass, d.enter_erase]
  rfl

theorem ClassDecl.report_erase (d : ClassDecl) : d.erase.report t = d.report t := by
  simp only [report, d.problems_erase]
  rfl

end Erased

namespace Program

variable (settings : Settings) (t : TypeTable) (p : Program)

theorem table_resolve_erase : (p.erase.resolve settings t).table = (p.resolve settings t).table := by
  simp only [resolve, erase, List.foldl_map, TypeTable.enterClass_erase]
  rfl

theorem diagnostics_resolve_erase : (p.erase.resolve settings t).diagnostics = (p.resolve settings t).diagnostics := by
  simp only [resolve, erase, List.foldl_map, List.flatMap_map, reportsAlong_map, TypeTable.enterClass_erase,
    ClassDecl.report_erase]
  rfl

/-- Programs that differ in their slots alone leave the same table. -/
theorem table_resolve_of_erase {p q : Program} (same : p.erase = q.erase) :
    (p.resolve settings t).table = (q.resolve settings t).table := by
  rw [← table_resolve_erase, same, table_resolve_erase]

/-- Programs that differ in their slots alone are reported on alike. -/
theorem diagnostics_resolve_of_erase {p q : Program} (same : p.erase = q.erase) :
    (p.resolve settings t).diagnostics = (q.resolve settings t).diagnostics := by
  rw [← diagnostics_resolve_erase, same, diagnostics_resolve_erase]

end Program

/-! ## Only slots are written -/

section Annotated

variable (t : TypeTable) (id : TypeId)

theorem MethodDecl.erase_annotate (d : MethodDecl) : (d.annotate t id).erase = d.erase := by
  simp only [annotate, erase, List.map_map]
  rfl

theorem MethodDecl.typeExprs_annotate (d : MethodDecl) :
    (d.annotate t id).typeExprs = d.typeExprs.map (·.annotate t) := by
  simp only [typeExprs, annotate, List.map_cons, List.map_map]
  rfl

theorem ClassDecl.typeExprs_annotateAs (d : ClassDecl) :
    (d.annotateAs t id).typeExprs = d.typeExprs.map (·.annotate t) := by
  simp only [typeExprs, annotateAs, List.map_append, List.map_map, List.flatMap_map, List.map_flatMap,
    MethodDecl.typeExprs_annotate]
  rfl

theorem ClassDecl.erase_annotate (d : ClassDecl) : (d.annotate t).erase = d.erase := by
  unfold annotate
  split
  · next other _ =>
    simp only [annotateAs, erase, List.map_map]
    have methods : MethodDecl.erase ∘ (·.annotate t other) = MethodDecl.erase :=
      funext fun m => m.erase_annotate t other
    rw [methods]
    rfl
  · rfl

theorem ClassDecl.name_annotate (d : ClassDecl) : (d.annotate t).name = d.name := by
  unfold annotate
  split <;> rfl

theorem Program.erase_annotate (settings : Settings) (p : Program) :
    (p.annotate settings t).erase = p.erase := by
  have main : (p.main.annotate settings t).erase = p.main.erase := by
    unfold MainClass.annotate
    split <;> rfl
  have classes : ClassDecl.erase ∘ (·.annotate t) = ClassDecl.erase := funext fun d => d.erase_annotate t
  simp only [annotate, erase, main, List.map_map, classes]

theorem MethodDecl.method?_annotate (d : MethodDecl) : (d.annotate t id).method? t id = d.method? t id := by
  rw [← method?_erase, erase_annotate, method?_erase]

theorem MethodDecl.annotate_annotate (d : MethodDecl) : (d.annotate t id).annotate t id = d.annotate t id := by
  have key : ((d.method? t id).map Method.key).or (d.annotate t id).resolved = (d.annotate t id).resolved := by
    rw [annotate, ← Option.or_assoc, Option.or_self]
  have slots : (d.annotate t id).annotate t id =
      { d.annotate t id with resolved := ((d.method? t id).map Method.key).or (d.annotate t id).resolved } := by
    rw [← d.method?_annotate t id]
    simp only [annotate, List.map_map]
    rfl
  rw [slots, key]

theorem ClassDecl.annotate_annotate (d : ClassDecl) : (d.annotate t).annotate t = d.annotate t := by
  cases found : t.lookupClass d.name.name with
  | none =>
    have unchanged : d.annotate t = d := by simp only [annotate, found]
    rw [unchanged, unchanged]
  | some id =>
    have filled : d.annotate t = d.annotateAs t id := by simp only [annotate, found]
    have again : (d.annotateAs t id).annotate t = (d.annotateAs t id).annotateAs t id := by
      simp only [annotate]
      rw [show (d.annotateAs t id).name = d.name from rfl, found]
    have methods : (MethodDecl.annotate t id) ∘ (MethodDecl.annotate t id) = MethodDecl.annotate t id :=
      funext fun m => m.annotate_annotate t id
    have base : (d.base? t).or ((d.base? t).or d.resolvedBase) = (d.base? t).or d.resolvedBase := by
      rw [← Option.or_assoc, Option.or_self]
    rw [filled, again]
    simp only [annotateAs, List.map_map]
    rw [show (fun m : MethodDecl => m.annotate t id) = MethodDecl.annotate t id from rfl, methods]
    simp only [base?] at base ⊢
    rw [base]
    rfl

/-- Filling the slots from the same table again changes nothing. -/
theorem Program.annotate_annotate (settings : Settings) (p : Program) :
    (p.annotate settings t).annotate settings t = p.annotate settings t := by
  have main : (p.main.annotate settings t).annotate settings t = p.main.annotate settings t := by
    cases found : t.lookupClass p.main.name.name <;> simp [MainClass.annotate, found]
  have classes : (ClassDecl.annotate t) ∘ (ClassDecl.annotate t) = ClassDecl.annotate t :=
    funext fun d => d.annotate_annotate t
  simp only [annotate, main, List.map_map]
  rw [show (fun d : ClassDecl => d.annotate t) = ClassDecl.annotate t from rfl, classes]

end Annotated
end MemberResolution

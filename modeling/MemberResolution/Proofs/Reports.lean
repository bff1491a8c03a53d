import MemberResolution.Proofs.KeyedLists
import MemberResolution.Proofs.Reading

/-!
# Two kinds of reports

A report that a member is repeated depends on the members that its class has
when the declaration is reached. Every other report is about the declaration
and the names in the table alone, so it can be read off the table that the run
starts from (`filter_own_resolve`).
-/

namespace MemberResolution
set_option autoImplicit false

/-! ## Reports along a list -/

section Along

variable {α σ : Type} {enter : σ → α → σ} {report : σ → α → List Diagnostic}

theorem reportsAlong_cons (s : σ) (a : α) (rest : List α) :
    reportsAlong enter report s (a :: rest) = report s a ++ reportsAlong enter report (enter s a) rest := rfl

theorem filter_reportsAlong (q : Diagnostic → Bool) (s : σ) (as : List α) :
    (reportsAlong enter report s as).filter q = reportsAlong enter (fun s a => (report s a).filter q) s as := by
  induction as generalizing s with
  | nil => rfl
  | cons a rest ih => rw [reportsAlong_cons, reportsAlong_cons, List.filter_append, ih]

/-- Where an invariant of what has been entered settles each report, the reports are those of the elements. -/
theorem reportsAlong_eq_flatMap {f : α → List Diagnostic} (inv : σ → List α → Prop)
    (step : ∀ s a rest, inv s (a :: rest) → report s a = f a ∧ inv (enter s a) rest)
    {s : σ} {as : List α} (start : inv s as) : reportsAlong enter report s as = as.flatMap f := by
  induction as generalizing s with
  | nil => rfl
  | cons a rest ih =>
    obtain ⟨here, next⟩ := step s a rest start
    rw [reportsAlong_cons, here, ih next, List.flatMap_cons]

theorem reportsAlong_append (s : σ) (as bs : List α) : reportsAlong enter report s (as ++ bs) =
    reportsAlong enter report s as ++ reportsAlong enter report (as.foldl enter s) bs := by
  induction as generalizing s with
  | nil => rfl
  | cons a rest ih =>
    rw [List.cons_append, reportsAlong_cons, reportsAlong_cons, ih, List.append_assoc, List.foldl_cons]

/-- Each report is on an element, in a state that has what all states have. -/
theorem exists_of_mem_reportsAlong (inv : σ → Prop) (keeps : ∀ s a, inv s → inv (enter s a)) {s : σ} (start : inv s)
    {as : List α} {x : Diagnostic} (mem : x ∈ reportsAlong enter report s as) :
    ∃ s, inv s ∧ ∃ a ∈ as, x ∈ report s a := by
  induction as generalizing s with
  | nil => cases mem
  | cons a rest ih =>
    rcases List.mem_append.1 mem with mem | mem
    · exact ⟨s, start, a, List.mem_cons_self, mem⟩
    · obtain ⟨later, held, b, mem, reported⟩ := ih (keeps s a start) mem
      exact ⟨later, held, b, List.mem_cons_of_mem a mem, reported⟩

theorem mem_reportsAlong {s : σ} {as : List α} {x : Diagnostic} (mem : x ∈ reportsAlong enter report s as) :
    ∃ s, ∃ a ∈ as, x ∈ report s a := by
  obtain ⟨s, -, a, listed, reported⟩ :=
    exists_of_mem_reportsAlong (fun _ => True) (fun _ _ held => held) trivial mem
  exact ⟨s, a, listed, reported⟩

/-- A sweep in which each element brings others under keys, and those are reported whose key has been met. -/
theorem reportsAlong_eq_repeatsAfter {β κ : Type} [DecidableEq κ] (key : β → κ) (brings : α → List β)
    (repeated : β → Diagnostic) (met : σ → List β → Prop)
    (step : ∀ s a earlier, met s earlier → report s a = (repeatsAfter key earlier (brings a)).map repeated ∧
      met (enter s a) ((brings a).reverse ++ earlier))
    (as : List α) {s : σ} {earlier : List β} (start : met s earlier) :
    reportsAlong enter report s as = (repeatsAfter key earlier (as.flatMap brings)).map repeated ∧
      met (as.foldl enter s) ((as.flatMap brings).reverse ++ earlier) := by
  induction as generalizing s earlier with
  | nil => exact ⟨rfl, start⟩
  | cons a rest ih =>
    obtain ⟨here, next⟩ := step s a earlier start
    obtain ⟨later, after⟩ := ih next
    rw [reportsAlong_cons, here, later, List.flatMap_cons, repeatsAfter_append, List.map_append, List.reverse_append,
      List.append_assoc]
    exact ⟨rfl, after⟩

end Along

/-! ## The codes of the reports -/

section Codes

variable {t : TypeTable} {x : Diagnostic}

theorem TypeExpr.code_problems {e : TypeExpr} (mem : x ∈ e.problems t) : x.code = .typeNameMissing := by
  unfold problems at mem
  split at mem
  · split at mem
    · cases mem
    · rw [List.mem_singleton.1 mem]; rfl
  · cases mem

theorem MainClass.code_problems {m : MainClass} (mem : x ∈ m.problems t) : x.code = .typeNameMissing := by
  unfold problems at mem
  split at mem
  · cases mem
  · rw [List.mem_singleton.1 mem]; rfl

/-- The report of a field name that the class has already. -/
def FieldDecl.clashProblems (c : ClassType) (d : FieldDecl) : List Diagnostic :=
  if c.hasField d.name.name then [⟨.fieldDuplicates c.name d.name.name, d.name.span⟩] else []

theorem FieldDecl.code_clashProblems {c : ClassType} {d : FieldDecl} (mem : x ∈ d.clashProblems c) :
    x.code = .fieldDuplicates := by
  unfold clashProblems at mem
  split at mem
  · rw [List.mem_singleton.1 mem]; rfl
  · cases mem

theorem FieldDecl.code_problems {c : ClassType} {d : FieldDecl} (mem : x ∈ d.problems t c) :
    x.code = .fieldDuplicates ∨ x.code = .typeNameMissing := by
  rcases List.mem_append.1 (show x ∈ d.clashProblems c ++ d.type.problems t from mem) with mem | mem
  · exact Or.inl (FieldDecl.code_clashProblems mem)
  · exact Or.inr (TypeExpr.code_problems mem)

theorem MethodDecl.code_paramProblems {method : String} {ps : List ParamDecl} {earlier : List String}
    (mem : x ∈ paramProblems t method earlier ps) : x.code = .typeNameMissing ∨ x.code = .parameterDuplicates := by
  induction ps generalizing earlier with
  | nil => cases mem
  | cons p rest ih =>
    simp only [paramProblems, List.mem_append] at mem
    rcases mem with (mem | mem) | mem
    · exact Or.inl (TypeExpr.code_problems mem)
    · split at mem
      · rw [List.mem_singleton.1 mem]
        exact Or.inr rfl
      · cases mem
    · exact ih mem

theorem MethodDecl.code_signatureProblems {d : MethodDecl} (mem : x ∈ d.signatureProblems t) :
    x.code = .typeNameMissing ∨ x.code = .parameterDuplicates := by
  rcases List.mem_append.1 mem with mem | mem
  · exact Or.inl (TypeExpr.code_problems mem)
  · exact MethodDecl.code_paramProblems mem

theorem MethodDecl.code_clashProblems {id : TypeId} {c : ClassType} {d : MethodDecl}
    (mem : x ∈ d.clashProblems t id c) : x.code = .methodDuplicates := by
  unfold clashProblems at mem
  split at mem
  · split at mem
    · rw [List.mem_singleton.1 mem]; rfl
    · cases mem
  · cases mem

theorem ClassDecl.code_baseProblems {d : ClassDecl} (mem : x ∈ d.baseProblems t) :
    x.code = .typeNameMissing ∨ x.code = .staticBaseType := by
  unfold baseProblems at mem
  split at mem
  · cases mem
  · split at mem
    · rw [List.mem_singleton.1 mem]
      exact Or.inl rfl
    · split at mem
      · rw [List.mem_singleton.1 mem]
        exact Or.inr rfl
      · cases mem

theorem ClassDecl.code_cycleProblems {settings : Settings} {d : ClassDecl} (mem : x ∈ d.cycleProblems settings t) :
    x.code = .cyclicBaseType := by
  unfold cycleProblems at mem
  split at mem
  · split at mem
    · rw [List.mem_singleton.1 mem]; rfl
    · cases mem
  · cases mem

/-- The sweep over the declarations does not report cycles. -/
theorem ClassDecl.code_report {d : ClassDecl} (mem : x ∈ d.report t) : x.code ≠ .cyclicBaseType := by
  unfold report at mem
  split at mem
  · next id _ =>
    cases held : t.class? id with
    | none => rw [held] at mem; cases mem
    | some c =>
      rw [held, Option.elim_some] at mem
      rcases List.mem_append.1 mem with mem | mem
      · rcases List.mem_append.1 mem with mem | mem
        · rcases ClassDecl.code_baseProblems mem with code | code <;> rw [code] <;> decide
        · obtain ⟨c, f, -, mem⟩ := mem_reportsAlong mem
          rcases FieldDecl.code_problems mem with code | code <;> rw [code] <;> decide
      · obtain ⟨c, m, -, mem⟩ := mem_reportsAlong mem
        rcases List.mem_append.1 mem with mem | mem
        · rcases MethodDecl.code_signatureProblems mem with code | code <;> rw [code] <;> decide
        · rw [MethodDecl.code_clashProblems mem]; decide
  · rw [List.mem_singleton.1 mem]
    exact show ErrorCode.typeNameMissing ≠ .cyclicBaseType by decide

end Codes

/-! ## The reports of one kind -/

namespace Diagnostic

/-- The diagnostics with a code, in their order. -/
def withCode (code : ErrorCode) (ds : List Diagnostic) : List Diagnostic := ds.filter (·.code = code)

variable {code : ErrorCode} {ds : List Diagnostic}

theorem withCode_append (ds es : List Diagnostic) :
    withCode code (ds ++ es) = withCode code ds ++ withCode code es := List.filter_append ds es

theorem withCode_flatMap {α : Type} (f : α → List Diagnostic) (as : List α) :
    withCode code (as.flatMap f) = as.flatMap fun a => withCode code (f a) := List.filter_flatMap

theorem withCode_eq_self (all : ∀ d ∈ ds, d.code = code) : withCode code ds = ds :=
  List.filter_eq_self.2 fun d mem => decide_eq_true (all d mem)

theorem withCode_eq_nil (none : ∀ d ∈ ds, d.code ≠ code) : withCode code ds = [] :=
  List.filter_eq_nil_iff.2 fun d mem => by simpa using none d mem

end Diagnostic

/-! ## Repeated members and the rest -/

namespace Diagnostic

/-- A member is declared that its class has already. -/
def isRepeat (d : Diagnostic) : Bool := d.code = .fieldDuplicates || d.code = .methodDuplicates

theorem filter_own {ds : List Diagnostic} (own : ∀ d ∈ ds, d.isRepeat = false) :
    ds.filter (!·.isRepeat) = ds ∧ ds.filter (·.isRepeat) = [] := by
  constructor
  · exact List.filter_eq_self.2 fun d mem => by rw [own d mem]; rfl
  · exact List.filter_eq_nil_iff.2 fun d mem => by rw [own d mem]; exact Bool.false_ne_true

theorem filter_repeat {ds : List Diagnostic} (repeats : ∀ d ∈ ds, d.isRepeat = true) :
    ds.filter (!·.isRepeat) = [] ∧ ds.filter (·.isRepeat) = ds := by
  constructor
  · exact List.filter_eq_nil_iff.2 fun d mem => by rw [repeats d mem]; exact Bool.false_ne_true
  · exact List.filter_eq_self.2 repeats

theorem withCode_own {code : ErrorCode} (kind : code = .fieldDuplicates ∨ code = .methodDuplicates)
    {ds : List Diagnostic} (own : ∀ d ∈ ds, d.isRepeat = false) : withCode code ds = [] := by
  apply withCode_eq_nil
  rintro d mem rfl
  have repeats : d.isRepeat = true := by
    rw [isRepeat, Bool.or_eq_true, decide_eq_true_eq, decide_eq_true_eq]
    exact kind
  rw [own d mem] at repeats
  cases repeats

end Diagnostic

theorem TypeExpr.isRepeat_problems (t : TypeTable) (e : TypeExpr) : ∀ x ∈ e.problems t, x.isRepeat = false := by
  intro x mem
  simp [Diagnostic.isRepeat, code_problems mem]

theorem MethodDecl.isRepeat_signatureProblems (t : TypeTable) (d : MethodDecl) :
    ∀ x ∈ d.signatureProblems t, x.isRepeat = false := by
  intro x mem
  rcases code_signatureProblems mem with code | code <;> simp [Diagnostic.isRepeat, code]

theorem MethodDecl.isRepeat_clashProblems (t : TypeTable) (id : TypeId) (c : ClassType) (d : MethodDecl) :
    ∀ x ∈ d.clashProblems t id c, x.isRepeat = true := by
  intro x mem
  simp [Diagnostic.isRepeat, code_clashProblems mem]

theorem ClassDecl.isRepeat_baseProblems (t : TypeTable) (d : ClassDecl) :
    ∀ x ∈ d.baseProblems t, x.isRepeat = false := by
  intro x mem
  rcases code_baseProblems mem with code | code <;> simp [Diagnostic.isRepeat, code]

theorem MainClass.isRepeat_problems (t : TypeTable) (m : MainClass) : ∀ x ∈ m.problems t, x.isRepeat = false := by
  intro x mem
  simp [Diagnostic.isRepeat, code_problems mem]

theorem FieldDecl.isRepeat_clashProblems (c : ClassType) (d : FieldDecl) :
    ∀ x ∈ d.clashProblems c, x.isRepeat = true := by
  intro x mem
  simp [Diagnostic.isRepeat, code_clashProblems mem]

theorem FieldDecl.filter_problems (t : TypeTable) (c : ClassType) (d : FieldDecl) :
    (d.problems t c).filter (!·.isRepeat) = d.type.problems t ∧
      (d.problems t c).filter (·.isRepeat) = d.clashProblems c := by
  have split : d.problems t c = d.clashProblems c ++ d.type.problems t := rfl
  obtain ⟨ownRepeat, repeats⟩ := Diagnostic.filter_repeat (d.isRepeat_clashProblems c)
  obtain ⟨own, repeatOwn⟩ := Diagnostic.filter_own (d.type.isRepeat_problems t)
  rw [split, List.filter_append, List.filter_append, ownRepeat, repeats, own, repeatOwn]
  exact ⟨List.nil_append _, List.append_nil _⟩

theorem MethodDecl.filter_problems (t : TypeTable) (id : TypeId) (c : ClassType) (d : MethodDecl) :
    (d.problems t id c).filter (!·.isRepeat) = d.signatureProblems t ∧
      (d.problems t id c).filter (·.isRepeat) = d.clashProblems t id c := by
  obtain ⟨ownRepeat, repeats⟩ := Diagnostic.filter_repeat (d.isRepeat_clashProblems t id c)
  obtain ⟨own, repeatOwn⟩ := Diagnostic.filter_own (d.isRepeat_signatureProblems t)
  rw [problems, List.filter_append, List.filter_append, ownRepeat, repeats, own, repeatOwn]
  exact ⟨List.append_nil _, List.nil_append _⟩

namespace ClassDecl

/-- What is wrong with a declaration, whatever members its class has. -/
def ownProblems (t : TypeTable) (d : ClassDecl) : List Diagnostic :=
  d.baseProblems t ++ d.fields.flatMap (·.type.problems t) ++ d.methods.flatMap (·.signatureProblems t)

/-- The part of `report` that does not depend on members. -/
def ownReport (t : TypeTable) (d : ClassDecl) : List Diagnostic :=
  match t.lookupClass d.name.name with
  | some _ => d.ownProblems t
  | none => [.typeNameMissing d.name]

theorem report_congr {s t : TypeTable} (same : s.SameHeads t) (d : ClassDecl)
    (members : ∀ id, t.lookupClass d.name.name = some id → s.class? id = t.class? id) : d.report s = d.report t := by
  unfold report
  rw [same.lookupClass]
  cases found : t.lookupClass d.name.name with
  | none => rfl
  | some id => simp only [members id found, d.problems_congr same]

theorem filter_own_problems (t : TypeTable) (id : TypeId) (c : ClassType) (d : ClassDecl) :
    (d.problems t id c).filter (!·.isRepeat) = d.ownProblems t := by
  rw [problems, List.filter_append, List.filter_append, (Diagnostic.filter_own (d.isRepeat_baseProblems t)).1,
    filter_reportsAlong, filter_reportsAlong, ownProblems,
    reportsAlong_eq_flatMap (fun _ _ => True) (fun s f _ _ => ⟨(f.filter_problems t s).1, trivial⟩) trivial,
    reportsAlong_eq_flatMap (fun _ _ => True) (fun s m _ _ => ⟨(m.filter_problems t id s).1, trivial⟩) trivial]

theorem ownReport_congr {s t : TypeTable} (same : s.SameHeads t) (d : ClassDecl) :
    d.ownReport s = d.ownReport t := by
  simp only [ownReport, ownProblems, same.lookupClass, d.baseProblems_congr same,
    TypeExpr.problems_congr same, MethodDecl.signatureProblems_congr same]

theorem filter_own_report (t : TypeTable) (d : ClassDecl) :
    (d.report t).filter (!·.isRepeat) = d.ownReport t := by
  unfold report ownReport
  cases found : t.lookupClass d.name.name with
  | none => rfl
  | some id =>
    obtain ⟨c, held⟩ := Option.isSome_iff_exists.1 (Option.filter_eq_some_iff.1 found).2
    simp only [held, Option.elim_some, filter_own_problems]

end ClassDecl

namespace Program

variable (settings : Settings) (t : TypeTable) (p : Program)

/-- A run reports on the main class, then on each declaration, then on cycles. -/
theorem diagnostics_resolve : (p.resolve settings t).diagnostics =
    p.main.problems t ++
      reportsAlong TypeTable.enterClass (fun t d => d.report t) (p.main.enter settings t) p.classes ++
      p.classes.flatMap (·.cycleProblems settings (p.resolve settings t).table) := rfl

theorem code_of_mem_cycles {settings : Settings} {p : Program} {s : TypeTable} {x : Diagnostic}
    (mem : x ∈ p.classes.flatMap (·.cycleProblems settings s)) : x.code = .cyclicBaseType := by
  obtain ⟨d, -, mem⟩ := List.mem_flatMap.1 mem
  exact ClassDecl.code_cycleProblems mem

theorem withCode_cycles {code : ErrorCode} (other : code ≠ .cyclicBaseType) (s : TypeTable) :
    Diagnostic.withCode code (p.classes.flatMap (·.cycleProblems settings s)) = [] := by
  apply Diagnostic.withCode_eq_nil
  intro x mem
  rw [code_of_mem_cycles mem]
  exact Ne.symm other

theorem isRepeat_cycles (s : TypeTable) :
    ∀ x ∈ p.classes.flatMap (·.cycleProblems settings s), x.isRepeat = false := by
  intro x mem
  simp [Diagnostic.isRepeat, code_of_mem_cycles mem]

/-- The reports that do not depend on members are those of the table that the run starts from. -/
theorem filter_own_resolve : (p.resolve settings t).diagnostics.filter (!·.isRepeat) =
    p.main.problems t ++ p.classes.flatMap (·.ownReport t) ++
      p.classes.flatMap (·.cycleProblems settings (p.resolve settings t).table) := by
  have sweep : (reportsAlong TypeTable.enterClass (fun t d => d.report t) (p.main.enter settings t)
      p.classes).filter (!·.isRepeat) = p.classes.flatMap (·.ownReport t) := by
    rw [filter_reportsAlong]
    apply reportsAlong_eq_flatMap (fun s _ => s.SameHeads t)
    · intro s d rest same
      exact ⟨(d.filter_own_report s).trans (d.ownReport_congr same), (s.sameHeads_enterClass d).trans same⟩
    · exact p.main.sameHeads_enter settings t
  rw [diagnostics_resolve, List.filter_append, List.filter_append, sweep,
    (Diagnostic.filter_own (p.main.isRepeat_problems t)).1, (Diagnostic.filter_own (p.isRepeat_cycles settings _)).1]

/-- The reports of a kind that is neither about repeated members nor about cycles. -/
theorem withCode_own_resolve {code : ErrorCode} (field : code ≠ .fieldDuplicates) (method : code ≠ .methodDuplicates)
    (cycle : code ≠ .cyclicBaseType) : Diagnostic.withCode code (p.resolve settings t).diagnostics =
      Diagnostic.withCode code (p.main.problems t) ++
        p.classes.flatMap fun d => Diagnostic.withCode code (d.ownReport t) := by
  have own : Diagnostic.withCode code (p.resolve settings t).diagnostics =
      Diagnostic.withCode code ((p.resolve settings t).diagnostics.filter (!·.isRepeat)) := by
    rw [Diagnostic.withCode, Diagnostic.withCode, List.filter_filter]
    apply List.filter_congr
    intro x _
    by_cases same : x.code = code
    · simp [Diagnostic.isRepeat, same, field, method]
    · simp [same]
  rw [own, filter_own_resolve, Diagnostic.withCode_append, Diagnostic.withCode_append,
    p.withCode_cycles settings cycle, List.append_nil, Diagnostic.withCode_flatMap]

/-- The reports of repeated members come from the sweep over the declarations. -/
theorem filter_repeat_resolve : (p.resolve settings t).diagnostics.filter (·.isRepeat) =
    reportsAlong TypeTable.enterClass (fun t d => (d.report t).filter (·.isRepeat)) (p.main.enter settings t)
      p.classes := by
  rw [diagnostics_resolve, List.filter_append, List.filter_append,
    (Diagnostic.filter_own (p.main.isRepeat_problems t)).2, (Diagnostic.filter_own (p.isRepeat_cycles settings _)).2,
    List.nil_append, List.append_nil, filter_reportsAlong]

theorem withCode_repeat_resolve {code : ErrorCode} (kind : code = .fieldDuplicates ∨ code = .methodDuplicates) :
    Diagnostic.withCode code (p.resolve settings t).diagnostics =
      reportsAlong TypeTable.enterClass (fun t d => Diagnostic.withCode code (d.report t)) (p.main.enter settings t)
        p.classes := by
  rw [diagnostics_resolve, Diagnostic.withCode_append, Diagnostic.withCode_append,
    Diagnostic.withCode_own kind (p.main.isRepeat_problems t),
    Diagnostic.withCode_own kind (p.isRepeat_cycles settings _), List.nil_append, List.append_nil, Diagnostic.withCode,
    filter_reportsAlong]
  rfl

end Program
end MemberResolution

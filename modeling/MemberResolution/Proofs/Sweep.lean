import MemberResolution.Proofs.Entering

/-!
# A run as one sweep

A run can be told in another way: as one walk over the program that has the
table and the reports at hand, fills each slot at the moment it comes to it
from the table as it then is, and files a member before it turns to the next
one. `Program.resolve` fills all slots from the table that the run starts from,
and lists what is filed and what is reported apart. Both leave the same table,
the same program and the same reports in the same order (`sweep_eq_resolve`):
filing members changes nothing that a slot depends on.
-/

namespace MemberResolution
set_option autoImplicit false

/-- A run under way: the table as it is, and what has been reported. -/
structure RunState where
  table : TypeTable
  diagnostics : List Diagnostic

/-- A part of the walk. -/
abbrev Sweep := StateM RunState

namespace Sweep

def report (found : List Diagnostic) : Sweep Unit :=
  modify fun s => { s with diagnostics := s.diagnostics ++ found }

def modifyClass (id : TypeId) (f : ClassType → ClassType) : Sweep Unit :=
  modify fun s => { s with table := s.table.modifyClass id f }

/-- A type expression: the type that it stands for, and the expression with its slot filled. -/
def typeExpr (e : TypeExpr) : Sweep (TypeId × TypeExpr) := do
  let s ← get
  report (e.problems s.table)
  return (e.resolve s.table, e.annotate s.table)

/-- A field declared in the class `owner`. -/
def fieldDecl (owner : TypeId) (d : FieldDecl) : Sweep FieldDecl := do
  let s ← get
  match s.table.class? owner with
  | none => return d
  | some c =>
    report (if c.hasField d.name.name then [⟨.fieldDuplicates c.name d.name.name, d.name.span⟩] else [])
    let type ← typeExpr d.type
    modifyClass owner fun c => c.insertField ⟨d.name.name, type.1, owner⟩
    return { d with type := type.2 }

/-- The parameters from `position` on, after others with the names `seen`: the declarations with their slots filled,
and what they describe, unless a type is unknown or a name has been seen before. -/
def parameters (method : String) :
    (position : Nat) → (seen : List String) → List ParamDecl → Sweep (List ParamDecl × Option (List Parameter))
  | _, _, [] => return ([], some [])
  | position, seen, p :: rest => do
    let type ← typeExpr p.type
    report (if p.name.name ∈ seen then [⟨.parameterDuplicates method p.name.name, p.name.span⟩] else [])
    let later ← parameters method (position + 1) (p.name.name :: seen) rest
    let failed := type.1.isUnknown ∨ p.name.name ∈ seen
    return ({ p with type := type.2 } :: later.1,
      if failed then none else later.2.map (⟨p.name.name, type.1, position.toUInt32 + 1⟩ :: ·))

/-- A method declared in the class `owner`. -/
def methodDecl (owner : TypeId) (d : MethodDecl) : Sweep MethodDecl := do
  let returnType ← typeExpr d.returnType
  let params ← parameters d.name.name 0 [] d.params
  let filled := { d with returnType := returnType.2, params := params.1 }
  let s ← get
  match if returnType.1.isUnknown then none else params.2, s.table.class? owner with
  | some described, some c =>
    let method : Method :=
      { name := d.name.name, owner, isStatic := d.isStatic, returnType := returnType.1, params := described }
    report (if c.hasClash method then [⟨.methodDuplicates c.name d.name.name, d.name.span⟩] else [])
    modifyClass owner fun c => c.insertMethod method
    return { filled with resolved := some method.key }
  | _, _ => return filled

/-- The base clause of a declaration of the class `id`. -/
def baseClause (id : TypeId) (d : ClassDecl) : Sweep ClassDecl := do
  let s ← get
  match d.base with
  | none => return d
  | some base =>
    match s.table.lookupClass base.name with
    | none =>
      report [.typeNameMissing base]
      return d
    | some found =>
      report (if (s.table.class? found).any (·.isStatic) then [⟨.staticBaseType base.name, base.span⟩] else [])
      modifyClass id fun c => { c with base := some found }
      return { d with resolvedBase := some found }

def classDecl (d : ClassDecl) : Sweep ClassDecl := do
  let s ← get
  match s.table.lookupClass d.name.name with
  | none =>
    report [.typeNameMissing d.name]
    return d
  | some id =>
    let linked ← baseClause id d
    let fields ← linked.fields.mapM (fieldDecl id)
    let methods ← linked.methods.mapM (methodDecl id)
    return { linked with fields, methods }

def mainClass (settings : Settings) (m : MainClass) : Sweep MainClass := do
  let s ← get
  match s.table.lookupClass m.name.name with
  | none =>
    report [.typeNameMissing m.name]
    return m
  | some id =>
    modifyClass id fun c => c.insertMethod (settings.entry id)
    return { m with entry := some (settings.entry id).key }

/-- The whole program; cycles are looked for when all base links are set. -/
def program (settings : Settings) (p : Program) : Sweep Program := do
  let main ← mainClass settings p.main
  let classes ← p.classes.mapM classDecl
  let s ← get
  report (classes.flatMap (·.cycleProblems settings s.table))
  return { main, classes }

/-! ## Parts of the walk -/

variable {t : TypeTable}

@[simp] theorem run_report (s : RunState) (found : List Diagnostic) :
    (report found).run s = pure ((), ⟨s.table, s.diagnostics ++ found⟩) := rfl

@[simp] theorem run_modifyClass (s : RunState) (id : TypeId) (f : ClassType → ClassType) :
    (modifyClass id f).run s = pure ((), ⟨s.table.modifyClass id f, s.diagnostics⟩) := rfl

@[simp] theorem run_typeExpr (s : RunState) (e : TypeExpr) : (typeExpr e).run s =
    pure ((e.resolve s.table, e.annotate s.table), ⟨s.table, s.diagnostics ++ e.problems s.table⟩) := rfl

/-- A walk along a list of declarations. The state of the run is told by what its declarations change; each
declaration is entered and reported on in turn, and annotated without regard to the others. -/
theorem run_mapM {α σ : Type} {part : α → Sweep α} {annotate : α → α} {enter : σ → α → σ}
    {reports : σ → α → List Diagnostic} (tableOf : σ → TypeTable) (inv : σ → Prop)
    (keeps : ∀ c a, inv c → inv (enter c a))
    (step : ∀ c a xs, inv c →
      (part a).run ⟨tableOf c, xs⟩ = pure (annotate a, ⟨tableOf (enter c a), xs ++ reports c a⟩))
    (as : List α) {c : σ} (start : inv c) (xs : List Diagnostic) :
    (as.mapM part).run ⟨tableOf c, xs⟩ =
      pure (as.map annotate, ⟨tableOf (as.foldl enter c), xs ++ reportsAlong enter reports c as⟩) := by
  induction as generalizing c xs with
  | nil => simp [reportsAlong]
  | cons a rest ih =>
    simp only [List.mapM_cons, StateT.run_bind, step c a xs start, pure_bind, ih (keeps c a start), StateT.run_pure,
      List.map_cons, List.foldl_cons, reportsAlong, List.append_assoc]

/-! ## Parameters -/

/-- What the parameters from `position` on describe, after others with the names `seen`. -/
def described? (t : TypeTable) (position : Nat) (seen : List String) (ps : List ParamDecl) : Option (List Parameter) :=
  if (∀ p ∈ ps, (p.type.resolve t).isUnknown = false) ∧ (ps.map (·.name.name)).Nodup ∧
      (∀ p ∈ ps, p.name.name ∉ seen) then
    some ((ps.zipIdx position).map fun p => ⟨p.1.name.name, p.1.type.resolve t, p.2.toUInt32 + 1⟩)
  else none

theorem described?_cons (t : TypeTable) (position : Nat) (seen : List String) (p : ParamDecl) (rest : List ParamDecl) :
    described? t position seen (p :: rest) =
      if (p.type.resolve t).isUnknown ∨ p.name.name ∈ seen then none
      else (described? t (position + 1) (p.name.name :: seen) rest).map
        (⟨p.name.name, p.type.resolve t, position.toUInt32 + 1⟩ :: ·) := by
  by_cases failed : (p.type.resolve t).isUnknown ∨ p.name.name ∈ seen
  · rw [if_pos failed, described?, if_neg]
    rintro ⟨known, -, new⟩
    rcases failed with unknown | repeated
    · exact absurd unknown (by simp [known p List.mem_cons_self])
    · exact new p List.mem_cons_self repeated
  · obtain ⟨known, new⟩ := not_or.1 failed
    have further : ((∀ q ∈ p :: rest, (q.type.resolve t).isUnknown = false) ∧ ((p :: rest).map (·.name.name)).Nodup ∧
        (∀ q ∈ p :: rest, q.name.name ∉ seen)) ↔
        (∀ q ∈ rest, (q.type.resolve t).isUnknown = false) ∧ (rest.map (·.name.name)).Nodup ∧
          (∀ q ∈ rest, q.name.name ∉ p.name.name :: seen) := by
      simp only [List.map_cons, List.nodup_cons, List.mem_map, List.mem_cons, not_or]
      grind
    simp only [if_neg failed, described?, further]
    split
    · rfl
    · rfl

theorem run_parameters (method : String) (ps : List ParamDecl) (position : Nat) (seen : List String) (s : RunState) :
    (parameters method position seen ps).run s =
      pure ((ps.map fun p => { p with type := p.type.annotate s.table }, described? s.table position seen ps),
        ⟨s.table, s.diagnostics ++ MethodDecl.paramProblems s.table method seen ps⟩) := by
  induction ps generalizing position seen s with
  | nil => simp [parameters, described?, MethodDecl.paramProblems]
  | cons p rest ih =>
    simp only [parameters, StateT.run_bind, run_typeExpr, run_report, pure_bind, ih, StateT.run_pure, described?_cons,
      MethodDecl.paramProblems, List.append_assoc, List.map_cons]

theorem method?_eq_described? (t : TypeTable) (owner : TypeId) (d : MethodDecl) :
    d.method? t owner =
      (if (d.returnType.resolve t).isUnknown then none else described? t 0 [] d.params).map fun params =>
        { name := d.name.name, owner, isStatic := d.isStatic, returnType := d.returnType.resolve t, params } := by
  have sound : (d.typesKnown t ∧ d.paramNames.Nodup) ↔ (d.returnType.resolve t).isUnknown = false ∧
      (∀ p ∈ d.params, (p.type.resolve t).isUnknown = false) ∧ (d.params.map (·.name.name)).Nodup ∧
        ∀ p ∈ d.params, p.name.name ∉ ([] : List String) := by
    simp [MethodDecl.typesKnown, MethodDecl.typeExprs, MethodDecl.paramNames, and_assoc]
  cases unknown : (d.returnType.resolve t).isUnknown with
  | true =>
    simp only [MethodDecl.method?, sound, unknown, Bool.true_eq_false, false_and, if_false, if_true, Option.map_none]
  | false =>
    simp only [MethodDecl.method?, described?, sound, unknown, true_and, Bool.false_eq_true, if_false]
    split
    · rfl
    · rfl

/-! ## Members and base links -/

section Parts

variable {id : TypeId} {c : ClassType} (held : t.class? id = some c) (xs : List Diagnostic)
include held

theorem run_fieldDecl (d : FieldDecl) : (fieldDecl id d).run ⟨t, xs⟩ =
    pure (d.annotate t, ⟨t.modifyClass id (d.enter t id), xs ++ d.problems t c⟩) := by
  simp only [fieldDecl, StateT.run_bind, StateT.run_get, pure_bind, held, run_report, run_typeExpr, run_modifyClass,
    StateT.run_pure, FieldDecl.problems, List.append_assoc]
  rfl

theorem run_methodDecl (d : MethodDecl) : (methodDecl id d).run ⟨t, xs⟩ =
    pure (d.annotate t id, ⟨t.modifyClass id (d.enter t id), xs ++ d.problems t id c⟩) := by
  have entered := method?_eq_described? t id d
  unfold MethodDecl.enter
  simp only [methodDecl, MethodDecl.annotate, MethodDecl.problems, MethodDecl.signatureProblems,
    MethodDecl.clashProblems, entered, StateT.run_bind, StateT.run_get, pure_bind, held, run_typeExpr, run_parameters]
  cases if (d.returnType.resolve t).isUnknown then none else described? t 0 [] d.params with
  | none =>
    simp only [StateT.run_pure, TypeTable.modifyClass_id, List.append_nil, List.append_assoc, Option.map_none,
      Option.none_or]
  | some params =>
    simp only [StateT.run_bind, run_report, pure_bind, run_modifyClass, StateT.run_pure, List.append_assoc,
      Option.map_some, Option.some_or]

end Parts

theorem run_baseClause (id : TypeId) (d : ClassDecl) (xs : List Diagnostic) : (baseClause id d).run ⟨t, xs⟩ =
    pure ({ d with resolvedBase := (d.base? t).or d.resolvedBase },
      ⟨t.modifyClass id (d.linkBase t), xs ++ d.baseProblems t⟩) := by
  obtain ⟨name, isStatic, base, fields, methods, span, resolvedBase⟩ := d
  unfold ClassDecl.linkBase
  cases base with
  | none =>
    simp only [ClassDecl.base?, Option.bind_none, Option.none_or, TypeTable.modifyClass_id, ClassDecl.baseProblems,
      List.append_nil]
    rfl
  | some base =>
    simp only [baseClause, ClassDecl.base?, ClassDecl.baseProblems, StateT.run_bind, StateT.run_get, pure_bind,
      Option.bind_some]
    cases t.lookupClass base.name with
    | none =>
      simp only [StateT.run_bind, run_report, pure_bind, StateT.run_pure, Option.none_or, TypeTable.modifyClass_id]
    | some found =>
      simp only [StateT.run_bind, run_report, run_modifyClass, pure_bind, StateT.run_pure, Option.some_or]

/-! ## The class under work -/

/-- The table `t` with `c` in place of the class `id`. -/
def holding (t : TypeTable) (id : TypeId) (c : ClassType) : TypeTable := t.modifyClass id fun _ => c

section Holding

variable {id : TypeId} {c₀ : ClassType} (held : t.class? id = some c₀)
include held

theorem modifyClass_eq_holding (f : ClassType → ClassType) : t.modifyClass id f = holding t id (f c₀) := by
  rw [TypeTable.class?, TypeTable.get?] at held
  apply congrArg TypeTable.mk
  apply List.ext_getElem?
  intro i
  rw [List.getElem?_modify, List.getElem?_modify]
  by_cases here : id.position = i
  · subst here
    cases entry : t.registrations[id.position]? with
    | none => rfl
    | some r =>
      obtain ⟨name, entity⟩ := r
      rw [entry] at held
      cases entity with
      | classType c => cases held; rfl
      | _ => cases held
  · simp only [if_neg here]

theorem class?_holding (c : ClassType) : (holding t id c).class? id = some c := by
  rw [holding, TypeTable.class?_modifyClass, if_pos rfl, held, Option.map_some]

theorem modifyClass_holding (c : ClassType) (f : ClassType → ClassType) :
    (holding t id c).modifyClass id f = holding t id (f c) := by
  rw [modifyClass_eq_holding (class?_holding held c), holding, holding, TypeTable.modifyClass_modifyClass]
  rfl

theorem sameHeads_holding {c : ClassType} (head : c.head = c₀.head) : (holding t id c).SameHeads t := by
  refine ⟨t.names_modifyClass id _, fun other => ?_⟩
  by_cases same : other = id
  · rw [same, class?_holding held, held, Option.map_some, Option.map_some, head]
  · rw [holding, TypeTable.class?_modifyClass, if_neg same]

/-- A walk along the fields or the methods of the class `id`: its name and flag stay, so each member is read as in
the table that the walk starts from. -/
theorem run_members {α : Type} {part : α → Sweep α} {annotate : TypeTable → α → α}
    {enter : TypeTable → α → ClassType → ClassType} {problems : TypeTable → ClassType → α → List Diagnostic}
    (step : ∀ {t c}, t.class? id = some c → ∀ xs a, (part a).run ⟨t, xs⟩ =
      pure (annotate t a, ⟨t.modifyClass id (enter t a), xs ++ problems t c a⟩))
    (head_enter : ∀ t a c, (enter t a c).head = c.head)
    (congr : ∀ {s t}, s.SameHeads t → annotate s = annotate t ∧ enter s = enter t ∧ problems s = problems t)
    (as : List α) {c : ClassType} (head : c.head = c₀.head) (xs : List Diagnostic) :
    (as.mapM part).run ⟨holding t id c, xs⟩ =
      pure (as.map (annotate t), ⟨holding t id (as.foldl (fun c a => enter t a c) c),
        xs ++ reportsAlong (fun c a => enter t a c) (problems t) c as⟩) := by
  refine run_mapM (holding t id) (fun c => ClassType.head c = c₀.head)
    (fun c a kept => (head_enter t a c).trans kept) ?_ as head xs
  intro c a xs kept
  obtain ⟨annotated, entered, reported⟩ := congr (sameHeads_holding held kept)
  rw [step (class?_holding held c), modifyClass_holding held, annotated, entered, reported]

theorem run_fields (ds : List FieldDecl) {c : ClassType} (head : c.head = c₀.head) (xs : List Diagnostic) :
    (ds.mapM (fieldDecl id)).run ⟨holding t id c, xs⟩ =
      pure (ds.map (·.annotate t), ⟨holding t id (ds.foldl (fun c d => d.enter t id c) c),
        xs ++ reportsAlong (fun c d => d.enter t id c) (fun c d => d.problems t c) c ds⟩) :=
  run_members held run_fieldDecl (fun t d c => d.head_enter t id c)
    (fun same => ⟨funext fun d => d.annotate_congr same, funext fun d => d.enter_congr same id,
      funext fun c => funext fun d => d.problems_congr same c⟩) ds head xs

theorem run_methods (ds : List MethodDecl) {c : ClassType} (head : c.head = c₀.head) (xs : List Diagnostic) :
    (ds.mapM (methodDecl id)).run ⟨holding t id c, xs⟩ =
      pure (ds.map (·.annotate t id), ⟨holding t id (ds.foldl (fun c d => d.enter t id c) c),
        xs ++ reportsAlong (fun c d => d.enter t id c) (fun c d => d.problems t id c) c ds⟩) :=
  run_members held run_methodDecl (fun t d c => d.head_enter t id c)
    (fun same => ⟨funext fun d => d.annotate_congr same id, funext fun d => d.enter_congr same id,
      funext fun c => funext fun d => d.problems_congr same id c⟩) ds head xs

end Holding

theorem run_classDecl (d : ClassDecl) (xs : List Diagnostic) :
    (classDecl d).run ⟨t, xs⟩ = pure (d.annotate t, ⟨t.enterClass d, xs ++ d.report t⟩) := by
  cases there : t.lookupClass d.name.name with
  | none =>
    simp only [classDecl, ClassDecl.annotate, TypeTable.enterClass, ClassDecl.report, there, StateT.run_bind,
      StateT.run_get, pure_bind, run_report, StateT.run_pure]
  | some id =>
    obtain ⟨c, held⟩ := TypeTable.exists_class?_of_lookupClass there
    have kept : (d.enterFields t id (d.linkBase t c)).head = c.head :=
      ClassType.head_foldl (fun c f => f.head_enter t id c) d.fields _
    simp only [classDecl, there, StateT.run_bind, StateT.run_get, pure_bind, run_baseClause,
      modifyClass_eq_holding held, run_fields held d.fields (show (d.linkBase t c).head = c.head from rfl)]
    rw [← ClassDecl.enterFields, run_methods held d.methods kept]
    simp only [pure_bind, StateT.run_pure, ClassDecl.annotate, ClassDecl.annotateAs, TypeTable.enterClass,
      ClassDecl.report, ClassDecl.problems, there, held, modifyClass_eq_holding held, Option.elim_some,
      List.append_assoc]
    rfl

theorem run_mainClass (settings : Settings) (m : MainClass) (xs : List Diagnostic) :
    (mainClass settings m).run ⟨t, xs⟩ =
      pure (m.annotate settings t, ⟨m.enter settings t, xs ++ m.problems t⟩) := by
  cases there : t.lookupClass m.name.name with
  | none =>
    simp only [mainClass, MainClass.annotate, MainClass.enter, MainClass.problems, there, StateT.run_bind,
      StateT.run_get, pure_bind, run_report, StateT.run_pure]
  | some id =>
    simp only [mainClass, MainClass.annotate, MainClass.enter, MainClass.problems, there, StateT.run_bind,
      StateT.run_get, pure_bind, run_modifyClass, StateT.run_pure, List.append_nil]

end Sweep

/-- Slots do not matter for cycles. -/
theorem ClassDecl.cycleProblems_annotate (settings : Settings) (s t : TypeTable) (d : ClassDecl) :
    (d.annotate t).cycleProblems settings s = d.cycleProblems settings s := by
  unfold annotate
  split
  · rfl
  · rfl

/-- A run that fills each slot when it comes to it leaves what `Program.resolve` says. -/
theorem Program.sweep_eq_resolve (settings : Settings) (t : TypeTable) (p : Program) :
    (Sweep.program settings p).run ⟨t, []⟩ =
      pure ((p.resolve settings t).program, ⟨(p.resolve settings t).table, (p.resolve settings t).diagnostics⟩) := by
  have heads : (p.main.enter settings t).SameHeads t := p.main.sameHeads_enter settings t
  -- The names and flags stay those of `t` all along, so every declaration is annotated as in `t`.
  have classes := Sweep.run_mapM (fun s => s) (fun s => s.SameHeads t)
    (fun s d same => (s.sameHeads_enterClass d).trans same)
    (fun s d xs same => by rw [Sweep.run_classDecl, d.annotate_congr same]) p.classes heads (p.main.problems t)
  simp only [Sweep.program, StateT.run_bind, Sweep.run_mainClass, pure_bind, List.nil_append]
  rw [classes]
  simp only [pure_bind, StateT.run_get, Sweep.run_report, StateT.run_pure, List.flatMap_map,
    ClassDecl.cycleProblems_annotate]
  rfl

end MemberResolution

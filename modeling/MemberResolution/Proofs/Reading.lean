import MemberResolution.Resolution.Pass

/-!
# What a run reads of a table

A run looks up names, and it asks for the name and the flag of a class; that is
all it reads besides the members of the class at hand. Two tables that agree on
both are read alike, and entering members keeps both (`sameHeads_resolve`). So
what a declaration means can be read off the table that the run starts from.
-/

namespace MemberResolution
set_option autoImplicit false

/-- What entering members never changes of a class. -/
def ClassType.head (c : ClassType) : String × Bool := (c.name, c.isStatic)

namespace TypeTable

/-- The names under which the types are registered, by position. -/
def names (t : TypeTable) : List (Option String) := t.registrations.map Registration.name

theorem lookup_eq_findIdx?_names (t : TypeTable) (name : String) :
    t.lookup name = (t.names.findIdx? (· = some name)).map TypeId.ofPosition := by
  rw [names, List.findIdx?_map]
  rfl

theorem eq_of_name_of_entity {r r' : Option Registration} (name : r.map Registration.name = r'.map Registration.name)
    (entity : r.map Registration.entity = r'.map Registration.entity) : r = r' := by
  cases r with
  | none => cases r' with
    | none => rfl
    | some _ => cases name
  | some r => cases r' with
    | none => cases name
    | some r' =>
      obtain ⟨n, e⟩ := r
      obtain ⟨n', e'⟩ := r'
      cases name
      cases entity
      rfl

/-- A table of handles of their own is known by its names and by the types under its handles. -/
theorem eq_of_get? {s t : TypeTable} (small : t.size ≤ UInt32.size) (names : s.names = t.names)
    (entities : ∀ id, s.get? id = t.get? id) : s = t := by
  have size : s.registrations.length = t.registrations.length := by
    simpa [TypeTable.names] using congrArg List.length names
  have positions : s.registrations = t.registrations := by
    apply List.ext_getElem?
    intro i
    by_cases inside : i < t.registrations.length
    · have position : (TypeId.ofPosition i).position = i := TypeId.position_ofPosition (by
        unfold TypeTable.size at small
        omega)
      apply eq_of_name_of_entity
      · have name := congrArg (·[i]?) names
        simpa only [TypeTable.names, List.getElem?_map] using name
      · simpa only [get?, position] using entities (TypeId.ofPosition i)
    · rw [List.getElem?_eq_none (Nat.le_of_not_lt inside), List.getElem?_eq_none (by omega)]
  cases s
  cases t
  cases positions
  rfl

/-- Both tables register the same names, and their classes have the same names and flags. -/
structure SameHeads (s t : TypeTable) : Prop where
  names : s.names = t.names
  head : ∀ id, (s.class? id).map ClassType.head = (t.class? id).map ClassType.head

namespace SameHeads

variable {r s t : TypeTable}

@[refl] theorem refl (t : TypeTable) : t.SameHeads t := ⟨rfl, fun _ => rfl⟩

@[symm] theorem symm (same : s.SameHeads t) : t.SameHeads s := ⟨same.names.symm, fun id => (same.head id).symm⟩

theorem trans (first : r.SameHeads s) (second : s.SameHeads t) : r.SameHeads t :=
  ⟨first.names.trans second.names, fun id => (first.head id).trans (second.head id)⟩

theorem size (same : s.SameHeads t) : s.size = t.size := by
  have lengths := congrArg List.length same.names
  simpa [TypeTable.names, TypeTable.size] using lengths

theorem lookup (same : s.SameHeads t) (name : String) : s.lookup name = t.lookup name := by
  rw [lookup_eq_findIdx?_names, lookup_eq_findIdx?_names, same.names]

theorem contains (same : s.SameHeads t) (name : String) : s.contains name = t.contains name :=
  congrArg Option.isSome (same.lookup name)

theorem isSome_class? (same : s.SameHeads t) (id : TypeId) : (s.class? id).isSome = (t.class? id).isSome := by
  have heads := congrArg Option.isSome (same.head id)
  simpa using heads

theorem lookupClass (same : s.SameHeads t) (name : String) : s.lookupClass name = t.lookupClass name := by
  simp only [TypeTable.lookupClass, same.lookup, same.isSome_class?]

end SameHeads

@[simp] theorem names_modifyClass (t : TypeTable) (id : TypeId) (f : ClassType → ClassType) :
    (t.modifyClass id f).names = t.names := by
  apply List.ext_getElem?
  intro i
  simp only [names, modifyClass, List.getElem?_map, List.getElem?_modify]
  split
  · cases t.registrations[i]? <;> rfl
  · simp

theorem sameHeads_modifyClass (t : TypeTable) (id : TypeId) {f : ClassType → ClassType}
    (keeps : ∀ c, (f c).head = c.head) : (t.modifyClass id f).SameHeads t := by
  refine ⟨names_modifyClass t id f, fun other => ?_⟩
  rw [class?_modifyClass]
  split
  · next same =>
    rw [Option.map_map, same]
    exact Option.map_congr fun c _ => keeps c
  · rfl

end TypeTable

/-! ## Tables that are read alike -/

section Alike

variable {s t : TypeTable} (same : s.SameHeads t)
include same

theorem TypeExpr.resolve_congr (e : TypeExpr) : e.resolve s = e.resolve t := by
  simp only [resolve, same.lookup]

theorem TypeExpr.problems_congr (e : TypeExpr) : e.problems s = e.problems t := by
  simp only [problems, same.contains]

theorem FieldDecl.field_congr (d : FieldDecl) (owner : TypeId) : d.field s owner = d.field t owner := by
  simp only [field, d.type.resolve_congr same]

theorem FieldDecl.enter_congr (d : FieldDecl) (owner : TypeId) : d.enter s owner = d.enter t owner := by
  funext c
  simp only [enter, d.field_congr same]

theorem FieldDecl.problems_congr (d : FieldDecl) (c : ClassType) : d.problems s c = d.problems t c := by
  simp only [problems, d.type.problems_congr same]

theorem FieldDecl.annotate_congr (d : FieldDecl) : d.annotate s = d.annotate t := by
  simp only [annotate, TypeExpr.annotate, d.type.resolve_congr same]

theorem MethodDecl.typesKnown_congr (d : MethodDecl) : d.typesKnown s = d.typesKnown t := by
  simp only [typesKnown, TypeExpr.resolve_congr same]

theorem MethodDecl.described_congr (d : MethodDecl) (owner : TypeId) : d.described s owner = d.described t owner := by
  simp only [described, parameters, TypeExpr.resolve_congr same]

theorem MethodDecl.method?_congr (d : MethodDecl) (owner : TypeId) : d.method? s owner = d.method? t owner := by
  simp only [method?, d.typesKnown_congr same, d.described_congr same]

theorem MethodDecl.enter_congr (d : MethodDecl) (owner : TypeId) : d.enter s owner = d.enter t owner := by
  funext c
  simp only [enter, d.method?_congr same]

theorem MethodDecl.signatureProblems_congr (d : MethodDecl) : d.signatureProblems s = d.signatureProblems t := by
  have params : ∀ (ps : List ParamDecl) (earlier : List String),
      paramProblems s d.name.name earlier ps = paramProblems t d.name.name earlier ps := by
    intro ps
    induction ps with
    | nil => intro earlier; rfl
    | cons p rest ih => intro earlier; simp only [paramProblems, p.type.problems_congr same, ih]
  simp only [signatureProblems, TypeExpr.problems_congr same, params]

theorem MethodDecl.problems_congr (d : MethodDecl) (owner : TypeId) (c : ClassType) :
    d.problems s owner c = d.problems t owner c := by
  simp only [problems, clashProblems, d.signatureProblems_congr same, d.method?_congr same]

theorem MethodDecl.annotate_congr (d : MethodDecl) (owner : TypeId) : d.annotate s owner = d.annotate t owner := by
  simp only [annotate, TypeExpr.annotate, TypeExpr.resolve_congr same, d.method?_congr same]

theorem ClassDecl.base?_congr (d : ClassDecl) : d.base? s = d.base? t := by
  simp only [base?, same.lookupClass]

theorem ClassDecl.baseProblems_congr (d : ClassDecl) : d.baseProblems s = d.baseProblems t := by
  have flag : ∀ id, (s.class? id).any (·.isStatic) = (t.class? id).any (·.isStatic) := by
    intro id
    have heads := congrArg (Option.any Prod.snd) (same.head id)
    simpa only [Option.any_map, Function.comp_def, ClassType.head] using heads
  simp only [baseProblems, same.lookupClass, flag]

theorem ClassDecl.enter_congr (d : ClassDecl) (id : TypeId) : d.enter s id = d.enter t id := by
  funext c
  simp only [enter, enterMethods, enterFields, linkBase, d.base?_congr same, FieldDecl.enter_congr same,
    MethodDecl.enter_congr same]

theorem ClassDecl.problems_congr (d : ClassDecl) (id : TypeId) (c : ClassType) :
    d.problems s id c = d.problems t id c := by
  simp only [problems, enterFields, linkBase, d.base?_congr same, d.baseProblems_congr same,
    FieldDecl.enter_congr same, FieldDecl.problems_congr same, MethodDecl.enter_congr same,
    MethodDecl.problems_congr same]

theorem ClassDecl.annotate_congr (d : ClassDecl) : d.annotate s = d.annotate t := by
  simp only [annotate, annotateAs, same.lookupClass, d.base?_congr same, FieldDecl.annotate_congr same,
    MethodDecl.annotate_congr same]

theorem MainClass.annotate_congr (settings : Settings) (m : MainClass) :
    m.annotate settings s = m.annotate settings t := by
  simp only [annotate, same.lookupClass]

theorem Program.annotate_congr (settings : Settings) (p : Program) :
    p.annotate settings s = p.annotate settings t := by
  simp only [annotate, p.main.annotate_congr same, ClassDecl.annotate_congr same]

end Alike

/-! ## Entering members keeps what is read -/

@[simp] theorem ClassType.head_insertMethod (c : ClassType) (m : Method) : (c.insertMethod m).head = c.head := by
  rw [head, head, name_insertMethod, isStatic_insertMethod]

theorem FieldDecl.head_enter (t : TypeTable) (id : TypeId) (d : FieldDecl) (c : ClassType) :
    (d.enter t id c).head = c.head := rfl

theorem MethodDecl.head_enter (t : TypeTable) (id : TypeId) (d : MethodDecl) (c : ClassType) :
    (d.enter t id c).head = c.head := by
  unfold enter
  split
  · exact c.head_insertMethod _
  · rfl

/-- Steps that keep the head of a class keep it one after the other. -/
theorem ClassType.head_foldl {α : Type} {f : ClassType → α → ClassType}
    (keeps : ∀ c a, (f c a).head = c.head) (as : List α) (c : ClassType) : (as.foldl f c).head = c.head := by
  induction as generalizing c with
  | nil => rfl
  | cons a rest ih => rw [List.foldl_cons, ih, keeps]

theorem ClassDecl.head_enter (t : TypeTable) (id : TypeId) (d : ClassDecl) (c : ClassType) :
    (d.enter t id c).head = c.head := by
  rw [enter, enterMethods, ClassType.head_foldl fun c m => m.head_enter t id c, enterFields,
    ClassType.head_foldl fun c f => f.head_enter t id c]
  rfl

theorem MainClass.sameHeads_enter (settings : Settings) (t : TypeTable) (m : MainClass) :
    (m.enter settings t).SameHeads t := by
  unfold enter
  split
  · exact TypeTable.sameHeads_modifyClass t _ fun c => c.head_insertMethod _
  · rfl

theorem TypeTable.sameHeads_enterClass (t : TypeTable) (d : ClassDecl) : (t.enterClass d).SameHeads t := by
  unfold enterClass
  split
  · exact sameHeads_modifyClass t _ fun c => d.head_enter t _ c
  · rfl

theorem TypeTable.sameHeads_enterClasses (t : TypeTable) (ds : List ClassDecl) :
    (ds.foldl enterClass t).SameHeads t := by
  induction ds generalizing t with
  | nil => rfl
  | cons d rest ih => exact (ih (t.enterClass d)).trans (t.sameHeads_enterClass d)

/-- A run changes one class at a time, and keeps its name and its flag. What such changes keep, the run keeps. -/
theorem Program.resolve_invariant {P : TypeTable → Prop}
    (keeps : ∀ t id f, (∀ c, ClassType.head (f c) = c.head) → P t → P (t.modifyClass id f)) {t : TypeTable}
    (start : P t) (settings : Settings) (p : Program) : P (p.resolve settings t).table := by
  have main : P (p.main.enter settings t) := by
    unfold MainClass.enter
    split
    · exact keeps t _ _ (fun c => c.head_insertMethod _) start
    · exact start
  have sweep : ∀ (ds : List ClassDecl) (s : TypeTable), P s → P (ds.foldl TypeTable.enterClass s) := by
    intro ds
    induction ds with
    | nil => exact fun s held => held
    | cons d rest ih =>
      intro s held
      apply ih
      unfold TypeTable.enterClass
      split
      · exact keeps s _ _ (fun c => d.head_enter s _ c) held
      · exact held
  exact sweep p.classes _ main

/-- A run changes no name and no flag. -/
theorem Program.sameHeads_resolve (settings : Settings) (t : TypeTable) (p : Program) :
    (p.resolve settings t).table.SameHeads t :=
  (TypeTable.sameHeads_enterClasses _ p.classes).trans (p.main.sameHeads_enter settings t)

end MemberResolution

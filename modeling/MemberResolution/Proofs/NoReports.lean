import Mathlib.Data.List.Nodup
import MemberResolution.Proofs.Entering
import MemberResolution.Proofs.Reports
import MemberResolution.Proofs.Seeding

/-!
# Declarations without reports

A sweep that files each element under a key reports nothing just when each
element is right in itself, no two have the same key, and none has a key that
was taken before (`reportsAlong_eq_nil_iff`). The parameters of a method and
the fields and methods of a class are swept in this way, so a declaration of an
empty class is not reported on just when its names are known and its keys are
distinct (`ClassDecl.problems_eq_nil_iff`).
-/

namespace MemberResolution
set_option autoImplicit false

/-! ## Sweeps over keyed elements -/

theorem reportsAlong_eq_nil_iff {α σ κ : Type} {enter : σ → α → σ} {report : σ → α → List Diagnostic}
    (key : α → Option κ) (taken : σ → κ → Prop) (right : α → Prop)
    (here : ∀ s a, report s a = [] ↔ right a ∧ ∀ k ∈ key a, ¬ taken s k)
    (next : ∀ s a k, taken (enter s a) k ↔ taken s k ∨ k ∈ key a) (s : σ) (as : List α) :
    reportsAlong enter report s as = [] ↔
      (∀ a ∈ as, right a) ∧ (as.filterMap key).Nodup ∧ ∀ k ∈ as.filterMap key, ¬ taken s k := by
  induction as generalizing s with
  | nil => simp [reportsAlong]
  | cons a rest ih =>
    rw [reportsAlong_cons, List.append_eq_nil_iff, here, ih, List.filterMap_cons]
    -- the rest finds the key of `a` taken, if it has one
    simp only [next, List.forall_mem_cons, not_or]
    cases own : key a with
    | none => simp [and_assoc]
    | some k =>
      simp only [Option.mem_some_iff, forall_eq', List.nodup_cons, List.forall_mem_cons]
      constructor
      · rintro ⟨⟨rightA, freeA⟩, rights, distinct, free⟩
        exact ⟨⟨rightA, rights⟩, ⟨fun mem => (free k mem).2 rfl, distinct⟩, freeA, fun l mem => (free l mem).1⟩
      · rintro ⟨⟨rightA, rights⟩, ⟨new, distinct⟩, freeA, free⟩
        exact ⟨⟨rightA, freeA⟩, rights, distinct, fun l mem => ⟨free l mem, fun same => new (same ▸ mem)⟩⟩

/-! ## Type expressions -/

/-- The name under which the type is to be found. -/
def TypeExpr.spelling (e : TypeExpr) : String :=
  match e.form with
  | .named ident => ident.name
  | .intArray => "int[]"
  | .int => "int"
  | .boolean => "boolean"

section Types

variable {t : TypeTable} (whole : t.HasBuiltins)
include whole

theorem TypeExpr.resolve_eq_lookup (e : TypeExpr) : e.resolve t = (t.lookup e.spelling).getD .unknown := by
  unfold resolve spelling
  cases e.form with
  | named ident => rfl
  | intArray => rw [whole.lookup (show _ = some TypeId.intArray by decide)]; rfl
  | int => rw [whole.lookup (show _ = some TypeId.int by decide)]; rfl
  | boolean => rw [whole.lookup (show _ = some TypeId.boolean by decide)]; rfl

theorem TypeExpr.problems_eq_nil_iff (e : TypeExpr) : e.problems t = [] ↔ t.contains e.spelling = true := by
  have builtin : ∀ id n, TypeTable.builtins.lookup n = some id → t.contains n = true := fun id n found => by
    rw [TypeTable.contains, whole.lookup found]
    rfl
  unfold problems spelling
  cases e.form with
  | named ident => simp
  | intArray => simpa using builtin .intArray _ (by decide)
  | int => simpa using builtin .int _ (by decide)
  | boolean => simpa using builtin .boolean _ (by decide)

theorem TypeExpr.lookup_spelling {e : TypeExpr} (clean : e.problems t = []) :
    t.lookup e.spelling = some (e.resolve t) := by
  obtain ⟨id, found⟩ := Option.isSome_iff_exists.1 ((e.problems_eq_nil_iff whole).1 clean)
  rw [e.resolve_eq_lookup whole, found, Option.getD_some]

variable (small : t.size ≤ UInt32.size)
include small

/-- An expression that is not reported stands for a type. -/
theorem TypeExpr.resolve_ne_unknown {e : TypeExpr} (clean : e.problems t = []) : e.resolve t ≠ .unknown := by
  intro unknown
  have found := e.lookup_spelling whole clean
  rw [unknown] at found
  exact whole.lookup_ne_unknown small found

theorem TypeExpr.isUnknown_resolve_iff (e : TypeExpr) : (e.resolve t).isUnknown = false ↔ e.problems t = [] := by
  rw [← Bool.not_eq_true, TypeId.isUnknown_iff]
  constructor
  · intro known
    rw [e.problems_eq_nil_iff whole, TypeTable.contains]
    cases found : t.lookup e.spelling with
    | none =>
      rw [e.resolve_eq_lookup whole, found] at known
      exact absurd rfl known
    | some id => rfl
  · exact e.resolve_ne_unknown whole small

/-- An expression stands for the type without values just when it is spelled like it. -/
theorem TypeExpr.resolve_eq_void_iff (e : TypeExpr) : e.resolve t = .void ↔ e.spelling = "void" := by
  have void : t.lookup "void" = some .void := whole.lookup (by decide)
  rw [e.resolve_eq_lookup whole]
  cases found : t.lookup e.spelling with
  | none =>
    refine iff_of_false (by decide) fun same => ?_
    rw [same, void] at found
    cases found
  | some id =>
    rw [Option.getD_some]
    constructor
    · rintro rfl
      exact TypeTable.lookup_injective small found void
    · intro same
      rw [same, void] at found
      exact (Option.some.inj found).symm

/-- Known types are the same where they are spelled the same. -/
theorem TypeExpr.resolve_eq_iff {e e' : TypeExpr} (clean : e.problems t = []) (clean' : e'.problems t = []) :
    e.resolve t = e'.resolve t ↔ e.spelling = e'.spelling := by
  constructor
  · intro same
    have found := e.lookup_spelling whole clean
    rw [same] at found
    exact TypeTable.lookup_injective small found (e'.lookup_spelling whole clean')
  · intro same
    rw [e.resolve_eq_lookup whole, e'.resolve_eq_lookup whole, same]

end Types

/-! ## Signatures -/

namespace MethodDecl

variable (t : TypeTable)

/-- Parameters are swept with the names of those before them. -/
theorem paramProblems_eq_reportsAlong (method : String) (ps : List ParamDecl) (earlier : List String) :
    paramProblems t method earlier ps = reportsAlong (fun earlier p => p.name.name :: earlier)
      (fun earlier p => p.type.problems t ++
        if p.name.name ∈ earlier then [⟨.parameterDuplicates method p.name.name, p.name.span⟩] else [])
      earlier ps := by
  induction ps generalizing earlier with
  | nil => rfl
  | cons p rest ih => rw [paramProblems, ih, reportsAlong_cons]

theorem signatureProblems_eq_nil_iff (d : MethodDecl) :
    d.signatureProblems t = [] ↔ (∀ e ∈ d.typeExprs, e.problems t = []) ∧ d.paramNames.Nodup := by
  rw [signatureProblems, paramProblems_eq_reportsAlong, List.append_eq_nil_iff,
    reportsAlong_eq_nil_iff (fun p => some p.name.name) (fun earlier k => k ∈ earlier)
      (fun p => p.type.problems t = [])]
  · simp [typeExprs, paramNames, and_assoc]
  · intro earlier p
    by_cases taken : p.name.name ∈ earlier
    · simp [taken]
    · simp [taken]
  · intro earlier p k
    simp [or_comm, eq_comm]

section

variable {t : TypeTable} (whole : t.HasBuiltins) (small : t.size ≤ UInt32.size)
include whole small

theorem typesKnown_iff (d : MethodDecl) : d.typesKnown t = true ↔ ∀ e ∈ d.typeExprs, e.problems t = [] := by
  simp only [typesKnown, List.all_eq_true, Bool.not_eq_true', TypeExpr.isUnknown_resolve_iff whole small]

/-- A declaration gives the method that it describes where its signature is not reported. -/
theorem method?_of_signatureProblems (id : TypeId) {d : MethodDecl} (clean : d.signatureProblems t = []) :
    d.method? t id = some (d.described t id) := by
  obtain ⟨types, distinct⟩ := (d.signatureProblems_eq_nil_iff t).1 clean
  rw [method?, if_pos ⟨(d.typesKnown_iff whole small).2 types, distinct⟩]

end

end MethodDecl

/-! ## Members of a class -/

/-- The table that a method goes to, and its key there. -/
def Method.place (m : Method) : Bool × MethodKey := (m.isStatic, m.key)

/-- The key of the method that a declaration describes. -/
def MethodDecl.keyIn (t : TypeTable) (d : MethodDecl) : MethodKey := ⟨d.name.name, d.params.map (·.type.resolve t)⟩

theorem MethodDecl.key_described (t : TypeTable) (id : TypeId) (d : MethodDecl) :
    (d.described t id).key = d.keyIn t := by
  rw [keyIn, ← d.paramTypes_described]
  rfl

/-- The place that a declaration describes. -/
theorem MethodDecl.place_of_method? {t : TypeTable} {id : TypeId} {d : MethodDecl} {m : Method}
    (described : d.method? t id = some m) : m.place = (d.isStatic, d.keyIn t) := by
  unfold method? at described
  split at described
  · rw [← Option.some.inj described, Method.place, key_described]
    rfl
  · cases described

/-- The flag, the name and the parameter types of a method as written. -/
def MethodDecl.outline (d : MethodDecl) : Bool × String × List String :=
  (d.isStatic, d.name.name, d.params.map (·.type.spelling))

section Outlines

variable {t : TypeTable} (whole : t.HasBuiltins) (small : t.size ≤ UInt32.size)
include whole small

theorem map_resolve_eq_iff {ps qs : List ParamDecl} (clean : ∀ p ∈ ps, p.type.problems t = [])
    (clean' : ∀ q ∈ qs, q.type.problems t = []) :
    ps.map (·.type.resolve t) = qs.map (·.type.resolve t) ↔
      ps.map (·.type.spelling) = qs.map (·.type.spelling) := by
  induction ps generalizing qs with
  | nil => cases qs <;> simp
  | cons p ps ih =>
    cases qs with
    | nil => simp
    | cons q qs =>
      obtain ⟨head, tail⟩ := List.forall_mem_cons.1 clean
      obtain ⟨head', tail'⟩ := List.forall_mem_cons.1 clean'
      rw [List.map_cons, List.map_cons, List.map_cons, List.map_cons, List.cons.injEq, List.cons.injEq,
        p.type.resolve_eq_iff whole small head head', ih tail tail']

theorem MethodDecl.keyIn_eq_iff {d e : MethodDecl} (clean : ∀ x ∈ d.typeExprs, x.problems t = [])
    (clean' : ∀ x ∈ e.typeExprs, x.problems t = []) : d.keyIn t = e.keyIn t ↔
      d.name.name = e.name.name ∧ d.params.map (·.type.spelling) = e.params.map (·.type.spelling) := by
  have types : ∀ {m : MethodDecl}, (∀ x ∈ m.typeExprs, x.problems t = []) → ∀ p ∈ m.params, p.type.problems t = [] :=
    fun known p param => known p.type (List.mem_cons_of_mem _ (List.mem_map_of_mem param))
  rw [keyIn, keyIn, MethodKey.mk.injEq, map_resolve_eq_iff whole small (types clean) (types clean')]

/-- Methods of known types go to distinct places just when they are written with distinct outlines. -/
theorem ClassDecl.nodup_places_iff (id : TypeId) (d : ClassDecl)
    (clean : ∀ m ∈ d.methods, m.signatureProblems t = []) :
    ((d.methodsFor t id).map Method.place).Nodup ↔ (d.methods.map (·.outline)).Nodup := by
  let described (m : MethodDecl) : Bool × MethodKey := (m.isStatic, m.keyIn t)
  have places : (d.methodsFor t id).map Method.place = d.methods.map described := by
    rw [methodsFor, List.map_filterMap, ← List.filterMap_eq_map]
    apply List.filterMap_congr
    intro m mem
    have found := MethodDecl.method?_of_signatureProblems whole small id (clean m mem)
    rw [found, Option.map_some, MethodDecl.place_of_method? found, Function.comp_apply]
  have types : ∀ m ∈ d.methods, ∀ e ∈ m.typeExprs, e.problems t = [] := fun m mem =>
    ((m.signatureProblems_eq_nil_iff t).1 (clean m mem)).1
  rw [places, List.Nodup, List.Nodup, List.pairwise_map, List.pairwise_map]
  apply List.Pairwise.iff_of_mem
  intro m n memM memN
  have keys := MethodDecl.keyIn_eq_iff whole small (types m memM) (types n memN)
  simp only [described, MethodDecl.outline, Prod.mk.injEq, ne_eq, keys]

end Outlines

section Members

variable (t : TypeTable) (id : TypeId)

theorem FieldDecl.reports_eq_nil_iff (c : ClassType) (fields : List FieldDecl) :
    reportsAlong (fun c field => field.enter t id c) (fun c field => field.problems t c) c fields = [] ↔
      (∀ f ∈ fields, f.type.problems t = []) ∧ (fields.map (·.name.name)).Nodup ∧
        ∀ f ∈ fields, ¬ c.hasField f.name.name = true := by
  rw [reportsAlong_eq_nil_iff (fun f : FieldDecl => some f.name.name) (fun c name => c.hasField name = true)
    (fun f => f.type.problems t = [])]
  · simp
  · intro c f
    by_cases taken : c.hasField f.name.name = true
    · simp [problems, taken]
    · simp [problems, taken]
  · intro c f name
    show (c.fields.insert (f.field t id)).contains name = true ↔ _
    rw [OrderedTable.contains_insert, Bool.or_eq_true, decide_eq_true_eq, Option.mem_some_iff]
    rfl

theorem MethodDecl.clashProblems_eq_nil_iff (c : ClassType) (d : MethodDecl) :
    d.clashProblems t id c = [] ↔
      ∀ k ∈ (d.method? t id).map Method.place, ¬ (c.methodTable k.1).contains k.2 = true := by
  unfold clashProblems
  cases d.method? t id with
  | none => simp
  | some m =>
    simp only [Option.map_some, Option.mem_some_iff, forall_eq', Method.place, ← ClassType.hasClash_iff]
    by_cases clash : c.hasClash m = true
    · simp [clash]
    · simp [clash]

theorem MethodDecl.contains_enter (c : ClassType) (d : MethodDecl) (k : Bool × MethodKey) :
    ((d.enter t id c).methodTable k.1).contains k.2 = true ↔
      (c.methodTable k.1).contains k.2 = true ∨ k ∈ (d.method? t id).map Method.place := by
  unfold enter
  cases d.method? t id with
  | none => simp
  | some m =>
    obtain ⟨isStatic, key⟩ := k
    rw [ClassType.methodTable_insertMethod, Option.map_some, Option.mem_some_iff, Method.place]
    by_cases flag : isStatic = m.isStatic
    · rw [if_pos flag, OrderedTable.contains_insert, Bool.or_eq_true, decide_eq_true_eq]
      simp [flag]
    · rw [if_neg flag]
      simp [Ne.symm flag]

theorem MethodDecl.reports_eq_nil_iff (c : ClassType) (methods : List MethodDecl) :
    reportsAlong (fun c method => method.enter t id c) (fun c method => method.problems t id c) c methods = [] ↔
      (∀ m ∈ methods, m.signatureProblems t = []) ∧
        ((methods.filterMap (·.method? t id)).map Method.place).Nodup ∧
        ∀ m ∈ methods.filterMap (·.method? t id), ¬ (c.methodTable m.isStatic).contains m.key = true := by
  rw [reportsAlong_eq_nil_iff (fun m : MethodDecl => (m.method? t id).map Method.place)
    (fun c k => (c.methodTable k.1).contains k.2 = true) (fun m => m.signatureProblems t = [])]
  · rw [← List.map_filterMap, List.forall_mem_map]
    rfl
  · intro c m
    rw [problems, List.append_eq_nil_iff, clashProblems_eq_nil_iff]
  · intro c m k
    exact m.contains_enter t id c k

/-- The signatures of a declaration are right where its types and its parameter names are. -/
theorem ClassDecl.signatureProblems_eq_nil {d : ClassDecl} (types : ∀ e ∈ d.typeExprs, e.problems t = [])
    (params : ∀ m ∈ d.methods, m.paramNames.Nodup) : ∀ m ∈ d.methods, m.signatureProblems t = [] := by
  intro m mem
  refine (m.signatureProblems_eq_nil_iff t).2 ⟨?_, params m mem⟩
  intro e expr
  exact types e (List.mem_append_right _ (List.mem_flatMap.2 ⟨m, mem, expr⟩))

/-- **When a declaration of an empty class is not reported on.** -/
theorem ClassDecl.problems_eq_nil_iff (d : ClassDecl) (declaration : String × Bool) :
    d.problems t id (.placeholder declaration) = [] ↔
      d.baseProblems t = [] ∧ (∀ e ∈ d.typeExprs, e.problems t = []) ∧ (d.fields.map (·.name.name)).Nodup ∧
        (∀ m ∈ d.methods, m.paramNames.Nodup) ∧ ((d.methodsFor t id).map Method.place).Nodup := by
  have fieldless : ∀ name, ¬ (d.linkBase t (.placeholder declaration)).hasField name = true := by
    intro name
    exact Bool.false_ne_true
  have methodless : ∀ s k, ¬ ((d.enterFields t id (d.linkBase t (.placeholder declaration))).methodTable s).contains k
      = true := by
    intro s k
    rw [d.enterFields_eq]
    cases s <;> exact Bool.false_ne_true
  rw [problems, List.append_eq_nil_iff, List.append_eq_nil_iff, FieldDecl.reports_eq_nil_iff,
    MethodDecl.reports_eq_nil_iff, typeExprs, List.forall_mem_append, List.forall_mem_map, List.forall_mem_flatMap]
  simp only [MethodDecl.signatureProblems_eq_nil_iff, methodsFor]
  constructor
  · rintro ⟨⟨base, types, names, -⟩, signatures, places, -⟩
    exact ⟨base, ⟨types, fun m mem => (signatures m mem).1⟩, names, fun m mem => (signatures m mem).2, places⟩
  · rintro ⟨base, ⟨types, signatures⟩, names, params, places⟩
    exact ⟨⟨base, types, names, fun f _ => fieldless f.name.name⟩,
      fun m mem => ⟨signatures m mem, params m mem⟩, places, fun m _ => methodless m.isStatic m.key⟩

/-! ## Members that stay -/

variable {t id} {d : ClassDecl} (c : ClassType)

/-- A field stays in the class where no other has its name. -/
theorem ClassDecl.field?_enter (distinct : (d.fields.map (·.name.name)).Nodup) {f : FieldDecl} (mem : f ∈ d.fields) :
    (d.enter t id c).field? f.name.name = some (f.field t id) := by
  have listed : f.field t id ∈ d.fieldsFor t id := List.mem_map.2 ⟨f, mem, rfl⟩
  have names : ((d.fieldsFor t id).map Field.name).Nodup := by
    rw [fieldsFor, List.map_map]
    exact distinct
  rw [ClassType.field?, fields_enter]
  apply OrderedTable.find?_insertMany_of_unique _ listed
  intro other member same
  exact List.inj_on_of_nodup_map names member listed same

/-- A method stays in the class where no other goes to its place. -/
theorem ClassDecl.method?_enter (distinct : ((d.methodsFor t id).map Method.place).Nodup) {m : Method}
    (mem : m ∈ d.methodsFor t id) : ((d.enter t id c).methodTable m.isStatic).find? m.key = some m := by
  rw [methodTable_enter]
  apply OrderedTable.find?_insertMany_of_unique
  · exact List.mem_filter.2 ⟨mem, by simp⟩
  · intro other member same
    obtain ⟨member, flag⟩ := List.mem_filter.1 member
    exact List.inj_on_of_nodup_map distinct member mem (Prod.ext (of_decide_eq_true flag) same)

end Members
end MemberResolution

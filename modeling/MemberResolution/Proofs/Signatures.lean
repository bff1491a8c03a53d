import MemberResolution.Proofs.MissingNames
import MemberResolution.Proofs.SoundMethods

/-!
# Methods are entered whole

A method declaration is entered with its whole signature or not at all. What is
wrong with the signature is reported type by type and parameter by parameter in
the order of the source text, and a parameter counts as repeated whether or not
the type of the earlier one is known (`signatureProblems_eq`). Where there is
such a report, the table stays as it is and nothing is compared with the
methods that the class has; where there is none, the method goes into its
table, and only an earlier overload with the same parameter types is reported
(`entered_or_reported`).
-/

namespace MemberResolution
set_option autoImplicit false

/-! ## Reports and methods as read off the declaration -/

/-- The report of a type whose name is not found. -/
def TypeExpr.missingReport (t : TypeTable) (e : TypeExpr) : List Diagnostic :=
  (e.ident?.toList.filter fun ident => (t.lookup ident.name).isNone).map .typeNameMissing

namespace MethodDecl

/-- What is wrong with the parameter at a place: first its type, then its name if a parameter before it has the
same. -/
def paramReports (t : TypeTable) (d : MethodDecl) (i : Nat) (p : ParamDecl) : List Diagnostic :=
  p.type.missingReport t ++
    if p.name.name ∈ d.paramNames.take i then [⟨.parameterDuplicates d.name.name p.name.name, p.name.span⟩] else []

/-- What is wrong with the signature, in the order of the source text. -/
def signatureReports (t : TypeTable) (d : MethodDecl) : List Diagnostic :=
  d.returnType.missingReport t ++ (d.params.mapIdx (d.paramReports t)).flatten

end MethodDecl

/-- The table for the flag of the declaration has a method with its name and its parameter types. -/
def ClassType.HasOverload (t : TypeTable) (d : MethodDecl) (c : ClassType) : Prop :=
  ∃ m ∈ (c.methodTable d.isStatic).toList,
    m.name = d.name.name ∧ m.paramTypes.map some = d.params.map (t.lookup ·.type.spelling)

instance (t : TypeTable) (d : MethodDecl) (c : ClassType) : Decidable (c.HasOverload t d) :=
  inferInstanceAs (Decidable (∃ m ∈ (c.methodTable d.isStatic).toList, _ ∧ _))

/-! ## Reports on a signature -/

namespace MethodDecl

variable (t : TypeTable)

/-- Parameters after others whose names are `earlier`. -/
theorem paramProblems_eq (method : String) (ps : List ParamDecl) (earlier : List String) :
    paramProblems t method earlier ps = (ps.mapIdx fun i p => p.type.missingReport t ++
      if p.name.name ∈ earlier ∨ p.name.name ∈ (ps.map (·.name.name)).take i then
        [⟨.parameterDuplicates method p.name.name, p.name.span⟩] else []).flatten := by
  induction ps generalizing earlier with
  | nil => rfl
  | cons p rest ih =>
    -- the first parameter is one of the earlier ones for all others
    have moved : ∀ (name : String) (i : Nat), name ∈ p.name.name :: earlier ∨ name ∈ (rest.map (·.name.name)).take i ↔
        name ∈ earlier ∨ name ∈ ((p :: rest).map (·.name.name)).take (i + 1) := by
      intro name i
      rw [List.map_cons, List.take_succ_cons, List.mem_cons, List.mem_cons]
      tauto
    simp only [paramProblems, ih, moved, p.type.problems_eq_map, List.mapIdx_cons, List.flatten_cons,
      TypeExpr.missingReport, List.take_zero, List.not_mem_nil, or_false]

theorem signatureProblems_eq (d : MethodDecl) : d.signatureProblems t = d.signatureReports t := by
  rw [signatureProblems, signatureReports, paramProblems_eq, d.returnType.problems_eq_map]
  simp only [List.not_mem_nil, false_or]
  rfl

end MethodDecl

/-! ## Methods without reports -/

namespace MethodDecl

variable {t : TypeTable} (whole : t.HasBuiltins) (small : t.size ≤ UInt32.size) (id : TypeId) (d : MethodDecl)
include whole small

/-- Nothing is wrong with a signature just when its types are known and its parameter names are distinct. -/
theorem signatureReports_eq_nil_iff :
    d.signatureReports t = [] ↔ d.typesKnown t = true ∧ d.paramNames.Nodup := by
  rw [← signatureProblems_eq, signatureProblems_eq_nil_iff, d.typesKnown_iff whole small]

/-- The declaration describes a method just when nothing is wrong with its signature. -/
theorem method?_of_signatureReports :
    d.method? t id = if d.signatureReports t = [] then some (d.described t id) else none := by
  simp only [method?, signatureReports_eq_nil_iff whole small]

variable {d}

theorem describes_of_signatureReports (clean : d.signatureReports t = []) : d.Describes t id (d.described t id) :=
  d.describes_described whole small id ((d.signatureReports_eq_nil_iff whole small).1 clean).1

/-- Comparing overloads is comparing the names and the types that are found. -/
theorem hasClash_described_iff (clean : d.signatureReports t = []) (c : ClassType) :
    c.hasClash (d.described t id) = true ↔ c.HasOverload t d := by
  have types := (describes_of_signatureReports whole small id clean).paramTypes
  have key : (d.described t id).key = ⟨d.name.name, (d.described t id).paramTypes⟩ := rfl
  have flag : (d.described t id).isStatic = d.isStatic := rfl
  rw [ClassType.hasClash_iff, OrderedTable.contains_iff, OrderedTable.keys, List.mem_map, ClassType.HasOverload, key,
    flag]
  apply exists_congr
  intro m
  rw [and_congr_right_iff]
  intro _
  rw [Method.key, MethodKey.mk.injEq, types, List.map_inj_right fun _ _ => Option.some.inj]

end MethodDecl

/-- **A method is entered whole or not at all.** The reports on a method declaration are those on its signature, and,
if there is none, one of an overload with the same parameter types that the class has already. A method whose
signature is not reported on is entered into its class, with its key in the slot; one whose signature is reported on
changes neither the table nor its own slot. The slots of its types are filled in both cases. -/
theorem MethodDecl.entered_or_reported {t : TypeTable} (built : t.Built) (small : t.size < UInt32.size) {id : TypeId}
    {c : ClassType} (held : t.class? id = some c) (d : MethodDecl) :
    let after := t.modifyClass id (d.enter t id)
    let filled := d.annotate t id
    d.problems t id c = d.signatureReports t ++
        (if d.signatureReports t = [] ∧ c.HasOverload t d then
          [⟨.methodDuplicates c.name d.name.name, d.name.span⟩] else []) ∧
      (d.signatureReports t = [] → ∃ m, d.Describes t id m ∧ after.class? id = some (c.insertMethod m) ∧
        (∀ other, other ≠ id → after.get? other = t.get? other) ∧ after.names = t.names ∧
        filled.resolved = some m.key) ∧
      (d.signatureReports t ≠ [] → after = t ∧ filled.resolved = d.resolved) ∧
      List.Forall₂ (TypeExpr.Filled t) d.typeExprs filled.typeExprs := by
  intro after filled
  have whole := built.hasBuiltins
  have bound := Nat.le_of_lt small
  have method := d.method?_of_signatureReports whole bound id
  have types : filled.typeExprs = d.typeExprs.map (·.annotate t) := d.typeExprs_annotate t id
  refine ⟨?_, fun clean => ?_, fun wrong => ?_, ?_⟩
  · rw [problems, signatureProblems_eq, clashProblems, method]
    by_cases clean : d.signatureReports t = []
    · simp only [clean, if_true, true_and, hasClash_described_iff whole bound id clean c]
    · simp only [clean, if_false, false_and]
  · rw [if_pos clean] at method
    refine ⟨d.described t id, describes_of_signatureReports whole bound id clean, ?_, fun other apart => ?_,
      TypeTable.names_modifyClass t id _, ?_⟩
    · show (t.modifyClass id (d.enter t id)).class? id = _
      rw [TypeTable.class?_modifyClass, if_pos rfl, held, Option.map_some, enter, method]
    · show (t.modifyClass id (d.enter t id)).get? other = _
      rw [TypeTable.get?_modifyClass, if_neg apart]
    · show ((d.method? t id).map Method.key).or d.resolved = _
      rw [method, Option.map_some, Option.some_or]
  · rw [if_neg wrong] at method
    constructor
    · have same : d.enter t id = fun c => c := by
        funext c
        rw [enter, method]
      show t.modifyClass id (d.enter t id) = t
      rw [same, TypeTable.modifyClass_id]
    · show ((d.method? t id).map Method.key).or d.resolved = _
      rw [method, Option.map_none, Option.none_or]
  · rw [types, List.forall₂_map_right_iff, List.forall₂_same]
    exact fun e _ => e.filled_annotate whole bound

namespace MethodDecl

/-- A method with unknown types that repeats a parameter of unknown type and one of known type, with a key in its slot
already. -/
def lost : MethodDecl :=
  let param (name : String) (form : TypeForm) (offset : Nat) : ParamDecl :=
    { type := ⟨form, ⟨offset, 4⟩, none⟩, name := ⟨name, ⟨offset + 5, 3⟩⟩ }
  let gone (offset : Nat) : TypeForm := .named ⟨"Gone", ⟨offset, 4⟩⟩
  { name := ⟨"lost", ⟨25, 4⟩⟩
    isStatic := true
    returnType := ⟨gone 20, ⟨20, 4⟩, none⟩
    params := [param "key" (gone 30) 30, param "key" .int 40, param "at" .int 50, param "at" (gone 60) 60]
    resolved := some ⟨"lost", [.int]⟩ }

/-- An overload that differs from an earlier one in its result and in the name of its parameter. -/
def putAgain : MethodDecl :=
  { name := ⟨"put", ⟨75, 3⟩⟩
    isStatic := false
    returnType := ⟨.named ⟨"List", ⟨70, 4⟩⟩, ⟨70, 4⟩, none⟩
    params := [{ type := ⟨.int, ⟨80, 3⟩, none⟩, name := ⟨"key", ⟨84, 3⟩⟩ }] }

/-- In a class that has an overload already, the one method is reported on and left out, the other one is reported and
entered. -/
theorem entered_or_reported_overloaded :
    let put : Method := { name := "put", owner := .ofPosition 5, isStatic := false, params := [⟨"value", .int, 1⟩] }
    let c : ClassType := { name := "List", isStatic := true, methods := OrderedTable.insert ∅ put }
    let t := (TypeTable.builtins.declareIfNew "List" true).modifyClass (.ofPosition 5) (·.insertMethod put)
    t.Built ∧ t.size < UInt32.size ∧ t.class? (.ofPosition 5) = some c ∧
      lost.problems t (.ofPosition 5) c = [⟨.typeNameMissing "Gone", ⟨20, 4⟩⟩, ⟨.typeNameMissing "Gone", ⟨30, 4⟩⟩,
        ⟨.parameterDuplicates "lost" "key", ⟨45, 3⟩⟩, ⟨.typeNameMissing "Gone", ⟨60, 4⟩⟩,
        ⟨.parameterDuplicates "lost" "at", ⟨65, 3⟩⟩] ∧
      t.modifyClass (.ofPosition 5) (lost.enter t (.ofPosition 5)) = t ∧
      (lost.annotate t (.ofPosition 5)).resolved = some ⟨"lost", [.int]⟩ ∧
      putAgain.problems t (.ofPosition 5) c = [⟨.methodDuplicates "List" "put", ⟨75, 3⟩⟩] ∧
      ∃ m, putAgain.Describes t (.ofPosition 5) m ∧
        (t.modifyClass (.ofPosition 5) (putAgain.enter t (.ofPosition 5))).class? (.ofPosition 5) =
          some (c.insertMethod m) ∧
        (putAgain.annotate t (.ofPosition 5)).resolved = some m.key := by
  intro put c t
  have built : t.Built := .change (.declare .builtins "List" true) _ _
  have small : t.size < UInt32.size := by decide +kernel
  have held : t.class? (.ofPosition 5) = some c := by decide +kernel
  obtain ⟨reports, -, left, -⟩ := entered_or_reported built small held lost
  obtain ⟨unchanged, slot⟩ := left (by decide +kernel)
  obtain ⟨clash, entered, -, -⟩ := entered_or_reported built small held putAgain
  obtain ⟨m, resolves, after, -, -, key⟩ := entered (by decide +kernel)
  exact ⟨built, small, held, reports.trans (by decide +kernel), unchanged, slot, clash.trans (by decide +kernel), m,
    resolves, after, key⟩

end MethodDecl
end MemberResolution

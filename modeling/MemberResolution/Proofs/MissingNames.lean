import Mathlib.Data.List.Forall2
import MemberResolution.Proofs.Reports
import MemberResolution.Proofs.Seeding
import MemberResolution.Proofs.Slots

/-!
# Names that are not found

A run comes upon the names of a program in the order of the source text: the
main class, then for each class declaration its own name, and, where that
stands for a class, the name it extends and the names among its types. It
reports those that are not found in just this order and no other name
(`missingNames_resolve`). A type expression gets the unknown type in its slot
exactly where its name is reported, so whoever meets that type later knows that
the report is there.
-/

namespace MemberResolution
set_option autoImplicit false

/-! ## The names and the slots -/

/-- The names of a declaration that are not found. Where its own name stands for no class, the others are not
looked at. -/
def ClassDecl.missingNames (t : TypeTable) (d : ClassDecl) : List Ident :=
  if (t.lookupClass d.name.name).isNone then [d.name]
  else (d.base.toList.filter fun base => (t.lookupClass base.name).isNone) ++
    (d.typeExprs.filterMap (·.ident?)).filter fun ident => (t.lookup ident.name).isNone

/-- The names of a program that are not found, in the order of the source text. -/
def Program.missingNames (t : TypeTable) (p : Program) : List Ident :=
  ([p.main.name].filter fun main => (t.lookupClass main.name).isNone) ++ p.classes.flatMap (·.missingNames t)

/-- How a run fills the slot of a type expression. -/
structure TypeExpr.Filled (t : TypeTable) (written filled : TypeExpr) : Prop where
  rest : { filled with resolved := written.resolved } = written
  missing : filled.resolved = some .unknown ↔ ∃ ident ∈ written.ident?, t.lookup ident.name = none
  named : ∀ ident ∈ written.ident?, ∀ id, t.lookup ident.name = some id → filled.resolved = some id
  int : written.form = .int → filled.resolved = some .int
  boolean : written.form = .boolean → filled.resolved = some .boolean
  intArray : written.form = .intArray → filled.resolved = some .intArray

/-- How a run fills the slots of a declaration's types: all of them, or none if its name stands for no class. -/
structure ClassDecl.TypesFilled (t : TypeTable) (written filled : ClassDecl) : Prop where
  found : (t.lookupClass written.name.name).isSome →
    List.Forall₂ (TypeExpr.Filled t) written.typeExprs filled.typeExprs
  missing : t.lookupClass written.name.name = none → filled.typeExprs = written.typeExprs

/-! ## The reports -/

section Reports

open Diagnostic

variable (t : TypeTable)

theorem TypeExpr.problems_eq_map (e : TypeExpr) : e.problems t =
    (e.ident?.toList.filter fun ident => (t.lookup ident.name).isNone).map .typeNameMissing := by
  unfold problems ident? TypeTable.contains
  cases e.form with
  | named ident => cases found : t.lookup ident.name <;> simp [found]
  | intArray => rfl
  | int => rfl
  | boolean => rfl

theorem TypeExpr.flatMap_problems_eq_map (es : List TypeExpr) : es.flatMap (·.problems t) =
    ((es.filterMap (·.ident?)).filter fun ident => (t.lookup ident.name).isNone).map .typeNameMissing := by
  induction es with
  | nil => rfl
  | cons e rest ih =>
    rw [List.flatMap_cons, ih, e.problems_eq_map, List.filterMap_cons]
    cases e.ident? with
    | none => rfl
    | some ident => cases found : t.lookup ident.name <;> simp [found]

theorem TypeExpr.missing_problems (e : TypeExpr) : withCode .typeNameMissing (e.problems t) = e.problems t :=
  withCode_eq_self fun _ mem => e.code_problems mem

/-- Of the reports on parameters those of their types are left. -/
theorem MethodDecl.missing_signatureProblems (d : MethodDecl) :
    withCode .typeNameMissing (d.signatureProblems t) = d.typeExprs.flatMap (·.problems t) := by
  have params : ∀ (ps : List ParamDecl) (earlier : List String),
      withCode .typeNameMissing (paramProblems t d.name.name earlier ps) = ps.flatMap (·.type.problems t) := by
    intro ps
    induction ps with
    | nil => intro earlier; rfl
    | cons p rest ih =>
      intro earlier
      have repeated : withCode .typeNameMissing (if p.name.name ∈ earlier then
          [⟨.parameterDuplicates d.name.name p.name.name, p.name.span⟩] else []) = [] := by
        split <;> rfl
      rw [paramProblems, withCode_append, withCode_append, ih, repeated, p.type.missing_problems, List.append_nil,
        List.flatMap_cons]
  rw [signatureProblems, withCode_append, params, d.returnType.missing_problems, typeExprs, List.flatMap_cons,
    List.flatMap_map]

theorem ClassDecl.missing_baseProblems (d : ClassDecl) : withCode .typeNameMissing (d.baseProblems t) =
    (d.base.toList.filter fun base => (t.lookupClass base.name).isNone).map .typeNameMissing := by
  unfold baseProblems
  cases d.base with
  | none => rfl
  | some base =>
    cases found : t.lookupClass base.name with
    | none => simp [found, withCode, Diagnostic.code, Diagnostic.typeNameMissing, Problem.code]
    | some id =>
      simp only [found, Option.toList_some, List.filter_cons, Option.isNone_some, Bool.false_eq_true, if_false,
        List.filter_nil, List.map_nil]
      split <;> rfl

theorem ClassDecl.missing_ownReport (d : ClassDecl) :
    withCode .typeNameMissing (d.ownReport t) = (d.missingNames t).map .typeNameMissing := by
  unfold ownReport missingNames
  cases t.lookupClass d.name.name with
  | none => rfl
  | some id =>
    have types : d.typeExprs.flatMap (·.problems t) = d.fields.flatMap (·.type.problems t) ++
        d.methods.flatMap fun m => m.typeExprs.flatMap (·.problems t) := by
      rw [typeExprs, List.flatMap_append, List.flatMap_map, List.flatMap_assoc]
    simp only [ownProblems, withCode_append, withCode_flatMap, d.missing_baseProblems, TypeExpr.missing_problems,
      MethodDecl.missing_signatureProblems, List.append_assoc, Option.isNone_some, Bool.false_eq_true, if_false,
      List.map_append]
    rw [← types, TypeExpr.flatMap_problems_eq_map]

theorem MainClass.problems_eq_map (m : MainClass) : m.problems t =
    ([m.name].filter fun main => (t.lookupClass main.name).isNone).map .typeNameMissing := by
  unfold problems
  cases found : t.lookupClass m.name.name <;> simp [found]

/-- The missing names that a run reports. -/
theorem Program.missing_resolve (settings : Settings) (p : Program) :
    withCode .typeNameMissing (p.resolve settings t).diagnostics = (p.missingNames t).map .typeNameMissing := by
  have main : withCode .typeNameMissing (p.main.problems t) = p.main.problems t :=
    withCode_eq_self fun _ mem => MainClass.code_problems mem
  rw [p.withCode_own_resolve settings t (by decide) (by decide) (by decide), main, missingNames, List.map_append,
    List.map_flatMap, p.main.problems_eq_map]
  simp only [ClassDecl.missing_ownReport]

end Reports

/-! ## The slots -/

section Slots

variable {t : TypeTable} (whole : t.HasBuiltins) (small : t.size ≤ UInt32.size)
include whole small

theorem TypeExpr.filled_annotate (e : TypeExpr) : e.Filled t (e.annotate t) where
  rest := rfl
  missing := by
    unfold annotate resolve ident?
    cases e.form with
    | named ident =>
      cases found : t.lookup ident.name with
      | none => simp [found]
      | some id =>
        have known : id ≠ .unknown := by
          rintro rfl
          exact whole.lookup_ne_unknown small found
        simp [found, known]
    | intArray => simp [TypeId.intArray, TypeId.unknown]
    | int => simp [TypeId.int, TypeId.unknown]
    | boolean => simp [TypeId.boolean, TypeId.unknown]
  named := by
    intro ident named id found
    unfold ident? at named
    unfold annotate resolve
    cases form : e.form with
    | named other =>
      rw [form] at named
      cases named
      simp [found]
    | intArray => rw [form] at named; cases named
    | int => rw [form] at named; cases named
    | boolean => rw [form] at named; cases named
  int := fun form => by simp only [annotate, resolve, form]
  boolean := fun form => by simp only [annotate, resolve, form]
  intArray := fun form => by simp only [annotate, resolve, form]

theorem ClassDecl.typesFilled_annotate (d : ClassDecl) : d.TypesFilled t (d.annotate t) := by
  unfold annotate
  cases found : t.lookupClass d.name.name with
  | none =>
    refine ⟨fun known => ?_, fun _ => rfl⟩
    rw [found] at known
    cases known
  | some id =>
    refine ⟨fun _ => ?_, fun missing => ?_⟩
    · rw [d.typeExprs_annotateAs, List.forall₂_map_right_iff, List.forall₂_same]
      exact fun e _ => e.filled_annotate whole small
    · rw [found] at missing
      cases missing

end Slots

/-- **Missing names.** A run reports the names that are not found, one by one in the order of the source text. It
leaves the unknown type in the slots of just those type expressions whose names it reports, and the type of its name
or form in every other slot of a class that is found. -/
theorem Program.missingNames_resolve (settings : Settings) {t : TypeTable} (built : t.Built)
    (small : t.size < UInt32.size) (p : Program) :
    Diagnostic.withCode .typeNameMissing (p.resolve settings t).diagnostics =
        (p.missingNames t).map .typeNameMissing ∧
      List.Forall₂ (ClassDecl.TypesFilled t) p.classes (p.resolve settings t).program.classes := by
  refine ⟨p.missing_resolve t settings, ?_⟩
  show List.Forall₂ _ p.classes (p.classes.map (·.annotate t))
  rw [List.forall₂_map_right_iff, List.forall₂_same]
  exact fun d _ => d.typesFilled_annotate built.hasBuiltins (Nat.le_of_lt small)

namespace Program

/-- A class that extends a builtin type and mentions unknown names in a field and around a repeated parameter, and a
class that the table does not have, with an unknown name in a field. -/
def lost : Program :=
  let named (name : String) (offset : Nat) : TypeExpr := ⟨.named ⟨name, ⟨offset, 4⟩⟩, ⟨offset, 9⟩, none⟩
  let next : FieldDecl := { type := named "Node" 40, name := ⟨"next", ⟨45, 4⟩⟩ }
  let items : FieldDecl := { type := ⟨.intArray, ⟨50, 5⟩, none⟩, name := ⟨"items", ⟨56, 5⟩⟩ }
  let key (type : TypeExpr) : ParamDecl := { type, name := ⟨"key", ⟨80, 3⟩⟩ }
  let keys : List ParamDecl := [key (named "Node" 75), key (named "Pair" 85)]
  let find : MethodDecl := { name := ⟨"find", ⟨70, 4⟩⟩, returnType := named "List" 65, params := keys }
  { main := { name := ⟨"Main", ⟨6, 4⟩⟩ }
    classes := [
      { name := ⟨"List", ⟨17, 4⟩⟩, base := some ⟨"int", ⟨30, 3⟩⟩, fields := [next, items], methods := [find] },
      { name := ⟨"Unseen", ⟨90, 6⟩⟩, base := some ⟨"List", ⟨105, 4⟩⟩, fields := [next] }] }

/-- Six names are not found in a table that has only the first class, and that one under another name. -/
theorem missingNames_resolve_lost :
    let renamed (c : ClassType) : ClassType := { c with name := "Node" }
    let t := (TypeTable.builtins.declareIfNew "List" false).modifyClass (.ofPosition 5) renamed
    t.Built ∧ t.size < UInt32.size ∧
      Diagnostic.withCode .typeNameMissing (lost.resolve {} t).diagnostics =
        [⟨.typeNameMissing "Main", ⟨6, 4⟩⟩, ⟨.typeNameMissing "int", ⟨30, 3⟩⟩, ⟨.typeNameMissing "Node", ⟨40, 4⟩⟩,
          ⟨.typeNameMissing "Node", ⟨75, 4⟩⟩, ⟨.typeNameMissing "Pair", ⟨85, 4⟩⟩,
          ⟨.typeNameMissing "Unseen", ⟨90, 6⟩⟩] ∧
      List.Forall₂ (ClassDecl.TypesFilled t) lost.classes (lost.resolve {} t).program.classes := by
  intro renamed t
  have built : t.Built := .change (.declare .builtins "List" false) _ _
  have small : t.size < UInt32.size := by decide +kernel
  obtain ⟨reports, slots⟩ := missingNames_resolve {} built small lost
  refine ⟨built, small, reports.trans ?_, slots⟩
  decide +kernel

end Program
end MemberResolution

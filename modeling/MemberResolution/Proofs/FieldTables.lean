import Mathlib.Data.List.Forall2
import MemberResolution.Proofs.NoReports

/-!
# Field tables

The field tables that a run alone leaves can be read off the program as
written (`fields_resolveAlone`). A class has one field for each field name
among its declarations. It stands where the name comes up first and is what the
last declaration of that name describes, whether its type is known or not; all
declarations of the name but the first are reported. Whatever table a run
starts from, each field of a class that is found makes either a new entry or a
report (`fieldCount_resolve`).
-/

namespace MemberResolution
set_option autoImplicit false

/-! ## Fields as written -/

/-- A field declaration with the name of the class that it stands in. -/
structure ClassField where
  className : String
  decl : FieldDecl

namespace ClassField

/-- The names of the class and of the field. -/
def place (x : ClassField) : String × String := (x.className, x.decl.name.name)

/-- The report of a field that its class has already. -/
def repeated (x : ClassField) : Diagnostic :=
  ⟨.fieldDuplicates x.className x.decl.name.name, x.decl.name.span⟩

end ClassField

def ClassDecl.classFields (d : ClassDecl) : List ClassField := d.fields.map fun f => ⟨d.name.name, f⟩

namespace Program

/-- The fields of all class declarations in source order, without those of declarations that have the name of a
builtin type and so no class. -/
def classFields (p : Program) : List ClassField :=
  (p.classes.flatMap (·.classFields)).filter (·.className ∉ builtinNames)

/-- The fields of all declarations of a class in source order. -/
def fieldDecls (p : Program) (className : String) : List FieldDecl :=
  (p.classes.filter (·.name.name = className)).flatMap (·.fields)

end Program

/-- The field is what the declaration describes in the class `owner`, of the unknown type if its type is not found. -/
structure FieldDecl.Describes (t : TypeTable) (owner : TypeId) (d : FieldDecl) (f : Field) : Prop where
  name : f.name = d.name.name
  type : f.type = (t.lookup d.type.spelling).getD .unknown
  owner : f.owner = owner

namespace FieldDecl

/-- A description holds in every table that is read alike. -/
theorem Describes.congr {s t : TypeTable} {owner : TypeId} {d : FieldDecl} {f : Field}
    (describes : d.Describes s owner f) (same : s.SameHeads t) : d.Describes t owner f where
  name := describes.name
  type := by simpa only [same.lookup] using describes.type
  owner := describes.owner

theorem describes_field {t : TypeTable} (whole : t.HasBuiltins) (owner : TypeId) (d : FieldDecl) :
    d.Describes t owner (d.field t owner) :=
  ⟨rfl, d.type.resolve_eq_lookup whole, rfl⟩

end FieldDecl

/-- How many entries the field tables of all classes have together. -/
def TypeTable.fieldCount (t : TypeTable) : Nat :=
  (t.registrations.flatMap fun r => r.entity.class?.elim [] (·.fields.toList)).length

/-! ## Tables -/

namespace Program

/-- The fields that are entered into a class are those of the declarations of its name. -/
theorem fieldsOf_eq {t : TypeTable} (bound : t.size ≤ UInt32.size) {name : String} {id : TypeId}
    (found : t.lookupClass name = some id) (p : Program) :
    p.fieldsOf t id = (p.fieldDecls name).map (·.field t id) := by
  rw [fieldsOf, p.declarationsOf_eq_filter bound found, fieldDecls, List.map_flatMap]
  rfl

/-- The fields of a class are those of the last declarations of their names. -/
theorem toList_fields_resolveAlone {settings : Settings} {p : Program}
    (small : p.classes.length < UInt32.size - 5) {id : TypeId} {c : ClassType}
    (held : (p.resolveAlone settings).table.class? id = some c) :
    c.fields.toList = (lastPerKey (·.name.name) (p.fieldDecls c.name)).map (·.field p.seed id) := by
  obtain ⟨found, declaration, rfl⟩ := exists_entered_of_class?_resolveAlone held
  have empty : (ClassType.placeholder declaration).fields = ∅ := rfl
  rw [fields_entered, empty, OrderedTable.toList_insertMany_empty, fieldsOf_eq (size_seed_le_of_few small) found,
    lastPerKey_map]
  rfl

/-- **The field table of a class.** -/
theorem fieldTable_resolveAlone (settings : Settings) {p : Program} (small : p.classes.length < UInt32.size - 5)
    {id : TypeId} {c : ClassType} (held : (p.resolveAlone settings).table.class? id = some c) :
    List.Forall₂ (FieldDecl.Describes (p.resolveAlone settings).table id)
      (lastPerKey (·.name.name) (p.fieldDecls c.name)) c.fields.toList := by
  have heads : (p.resolveAlone settings).table.SameHeads p.seed := p.sameHeads_resolve settings p.seed
  rw [toList_fields_resolveAlone small held, List.forall₂_map_right_iff]
  apply List.forall₂_same.2
  exact fun d _ => (d.describes_field p.hasBuiltins_seed id).congr heads.symm

end Program

/-! ## Reports -/

section Reports

open Diagnostic

variable {t : TypeTable} {id : TypeId} {c : ClassType}

theorem FieldDecl.fieldRepeats_problems (d : FieldDecl) :
    withCode .fieldDuplicates (d.problems t c) = d.clashProblems c := by
  have type : withCode .fieldDuplicates (d.type.problems t) = [] :=
    withCode_own (.inl rfl) (d.type.isRepeat_problems t)
  have split : d.problems t c = d.clashProblems c ++ d.type.problems t := rfl
  rw [split, withCode_append, type, withCode_eq_self fun x mem => code_clashProblems mem, List.append_nil]

/-- Of the reports on a class those of fields whose names are taken are left. -/
theorem ClassDecl.fieldRepeats_problems (d : ClassDecl) : withCode .fieldDuplicates (d.problems t id c) =
    reportsAlong (fun c f => f.enter t id c) (fun c f => f.clashProblems c) (d.linkBase t c) d.fields := by
  have base : withCode .fieldDuplicates (d.baseProblems t) = [] :=
    withCode_own (.inl rfl) (d.isRepeat_baseProblems t)
  have methods : ∀ c, withCode .fieldDuplicates (reportsAlong (fun c m => m.enter t id c)
      (fun c m => m.problems t id c) c d.methods) = [] := by
    intro c
    apply withCode_eq_nil
    intro x mem
    obtain ⟨c, m, -, mem⟩ := mem_reportsAlong mem
    rcases List.mem_append.1 mem with mem | mem
    · rcases MethodDecl.code_signatureProblems mem with code | code <;> rw [code] <;> decide
    · rw [MethodDecl.code_clashProblems mem]
      decide
  have fields : ∀ (c : ClassType) (f : FieldDecl),
      (f.problems t c).filter (·.code = .fieldDuplicates) = f.clashProblems c := fun c f => f.fieldRepeats_problems
  rw [problems, withCode_append, withCode_append, base, methods, withCode, filter_reportsAlong, List.nil_append,
    List.append_nil]
  simp only [fields]

/-- The class has that name, and a field at just those of its places where `earlier` has one. -/
structure ClassType.HasFieldsOf (c : ClassType) (className : String) (earlier : List ClassField) : Prop where
  name : c.name = className
  places : ∀ field, c.hasField field = true ↔ (className, field) ∈ earlier.map ClassField.place

/-- One field is reported just when its name is taken. -/
theorem FieldDecl.clashProblems_of_hasFields {name : String} {earlier : List ClassField}
    (has : c.HasFieldsOf name earlier) (f : FieldDecl) :
    f.clashProblems c = (repeatsAfter ClassField.place earlier [⟨name, f⟩]).map ClassField.repeated ∧
      (f.enter t id c).HasFieldsOf name ([⟨name, f⟩].reverse ++ earlier) := by
  constructor
  · have taken : c.hasField f.name.name = true ↔ ClassField.place ⟨name, f⟩ ∈ earlier.map ClassField.place :=
      has.places f.name.name
    simp only [clashProblems, repeatsAfter, taken, has.name]
    split <;> rfl
  · refine ⟨has.name, fun field => ?_⟩
    have held : (f.enter t id c).hasField field = (c.hasField field || decide (f.name.name = field)) :=
      c.fields.contains_insert _ field
    rw [held, Bool.or_eq_true, decide_eq_true_eq, has.places, List.reverse_singleton, List.singleton_append,
      List.map_cons, List.mem_cons, or_comm, ClassField.place, Prod.mk.injEq, and_iff_right rfl, eq_comm]

/-- The fields of one declaration are reported just where their names are taken. -/
theorem ClassDecl.fieldRepeats_of_hasFields (d : ClassDecl) {earlier : List ClassField}
    (has : c.HasFieldsOf d.name.name earlier) : withCode .fieldDuplicates (d.problems t id c) =
      (repeatsAfter ClassField.place earlier d.classFields).map ClassField.repeated := by
  have linked : (d.linkBase t c).HasFieldsOf d.name.name earlier := ⟨has.name, has.places⟩
  have singles : d.classFields = d.fields.flatMap fun f => [⟨d.name.name, f⟩] := List.map_eq_flatMap
  rw [d.fieldRepeats_problems, singles]
  exact (reportsAlong_eq_repeatsAfter ClassField.place _ ClassField.repeated
    (fun c earlier => c.HasFieldsOf d.name.name earlier) (fun c f earlier has => f.clashProblems_of_hasFields has)
    d.fields linked).1

/-- The fields of classes that are found. -/
def ClassField.enteredIn (t : TypeTable) (x : ClassField) : Bool := (t.lookupClass x.className).isSome

theorem ClassDecl.className_of_mem_classFields {d : ClassDecl} {x : ClassField} (mem : x ∈ d.classFields) :
    x.className = d.name.name := by
  obtain ⟨f, -, rfl⟩ := List.mem_map.1 mem
  rfl

/-- The fields of a declaration are entered all or none. -/
theorem ClassDecl.filter_classFields (t : TypeTable) (d : ClassDecl) : d.classFields.filter (·.enteredIn t) =
    if (t.lookupClass d.name.name).isSome then d.classFields else [] := by
  have here : ∀ x ∈ d.classFields, x.enteredIn t = (t.lookupClass d.name.name).isSome := by
    intro x mem
    rw [ClassField.enteredIn, d.className_of_mem_classFields mem]
  split
  · next found => exact List.filter_eq_self.2 fun x mem => (here x mem).trans found
  · next missing =>
    rw [List.filter_eq_nil_iff]
    intro x mem
    rwa [here x mem]

/-- The places of the fields that are entered into a class are those of the declarations of its name. -/
theorem Program.mem_places_iff {name field : String} (found : t.lookupClass name = some id) (p : Program) :
    (name, field) ∈ ((p.classes.flatMap (·.classFields)).filter (·.enteredIn t)).map ClassField.place ↔
      ∃ f ∈ p.fieldDecls name, f.name.name = field := by
  simp only [List.mem_map, List.mem_filter, List.mem_flatMap, fieldDecls, decide_eq_true_eq]
  constructor
  · rintro ⟨x, ⟨⟨d, declared, listed⟩, -⟩, place⟩
    obtain ⟨f, mem, rfl⟩ := List.mem_map.1 listed
    exact ⟨f, ⟨d, ⟨declared, congrArg Prod.fst place⟩, mem⟩, congrArg Prod.snd place⟩
  · rintro ⟨f, ⟨d, ⟨declared, rfl⟩, mem⟩, rfl⟩
    refine ⟨⟨d.name.name, f⟩, ⟨⟨d, declared, List.mem_map_of_mem mem⟩, ?_⟩, rfl⟩
    rw [ClassField.enteredIn, found]
    rfl

/-- A run over declarations leaves a class that was empty with the fields that are declared in it. -/
theorem Program.hasFieldsOf_entered (settings : Settings) (bound : t.size ≤ UInt32.size)
    (found : t.lookupClass c.name = some id) (empty : c.fields = ∅) (p : Program) :
    (p.entered settings t id c).HasFieldsOf c.name
      ((p.classes.flatMap (·.classFields)).filter (·.enteredIn t)).reverse where
  name := congrArg Prod.fst (p.head_entered settings t id c)
  places := by
    intro field
    have held : (p.entered settings t id c).hasField field = true ↔
        ∃ f ∈ p.fieldDecls c.name, f.name.name = field := by
      have before : (∅ : OrderedTable Field.name).contains field = false := rfl
      rw [ClassType.hasField, fields_entered, empty, OrderedTable.contains_insertMany, before, Bool.false_or,
        fieldsOf_eq bound found, List.any_map, List.any_eq_true]
      simp only [Function.comp_apply, decide_eq_true_eq, FieldDecl.field]
    rw [held, List.map_reverse, List.mem_reverse, mem_places_iff found]

/-- After a run over some declarations the next one is reported on just where the names of its fields are taken. -/
theorem Program.fieldRepeats_report (settings : Settings) {p : Program} (small : p.classes.length < UInt32.size - 5)
    (before : List ClassDecl) (d : ClassDecl) :
    withCode .fieldDuplicates (d.report ((⟨p.main, before⟩ : Program).resolve settings p.seed).table) =
      (repeatsAfter ClassField.place ((before.flatMap (·.classFields)).filter (·.enteredIn p.seed)).reverse
        (d.classFields.filter (·.enteredIn p.seed))).map ClassField.repeated := by
  have heads := (⟨p.main, before⟩ : Program).sameHeads_resolve settings p.seed
  rw [ClassDecl.report, heads.lookupClass, d.filter_classFields]
  cases found : p.seed.lookupClass d.name.name with
  | none => rfl
  | some id =>
    obtain ⟨declaration, first, placeholder⟩ := class?_seed small found
    have name : declaration.1 = d.name.name := by simpa using List.find?_some first
    simp only [class?_resolve, placeholder, Option.map_some, Option.elim_some, d.problems_congr heads,
      Option.isSome_some, if_true]
    apply d.fieldRepeats_of_hasFields
    rw [← name] at found ⊢
    exact hasFieldsOf_entered settings (size_seed_le_of_few small) found rfl ⟨p.main, before⟩

/-- **The repeated fields of a program.** -/
theorem Program.fieldRepeats_resolveAlone (settings : Settings) {p : Program}
    (small : p.classes.length < UInt32.size - 5) :
    withCode .fieldDuplicates (p.resolveAlone settings).diagnostics =
      (repeatsAfter ClassField.place [] p.classFields).map ClassField.repeated := by
  have entered : p.classFields = p.classes.flatMap fun d => d.classFields.filter (·.enteredIn p.seed) := by
    rw [classFields, ← List.filter_flatMap]
    apply List.filter_congr
    intro x mem
    obtain ⟨d, declared, mem⟩ := List.mem_flatMap.1 mem
    rw [ClassField.enteredIn, d.className_of_mem_classFields mem, Bool.eq_iff_iff, decide_eq_true_eq,
      isSome_lookupClass_seed_iff small, and_iff_right (mem_names_of_mem declared)]
  rw [resolveAlone, withCode_repeat_resolve settings p.seed p (.inl rfl), entered]
  -- the declarations met so far are a program of their own, and its run says what they leave
  refine (reportsAlong_eq_repeatsAfter ClassField.place _ _
    (fun s earlier => ∃ before, s = ((⟨p.main, before⟩ : Program).resolve settings p.seed).table ∧
      earlier = ((before.flatMap (·.classFields)).filter (·.enteredIn p.seed)).reverse)
    ?_ p.classes ⟨[], rfl, rfl⟩).1
  rintro s d earlier ⟨before, rfl, rfl⟩
  refine ⟨fieldRepeats_report settings small before d, before ++ [d], ?_, ?_⟩
  · show _ = (before ++ [d]).foldl TypeTable.enterClass (p.main.enter settings p.seed)
    rw [List.foldl_append]
    rfl
  · rw [List.flatMap_append, List.filter_append, List.reverse_append, List.flatMap_singleton]

end Reports

/-! ## Counting -/

/-- An insertion adds an entry or replaces one. -/
theorem OrderedTable.size_insert {α κ : Type} {key : α → κ} [DecidableEq κ] (t : OrderedTable key) (a : α) :
    (t.insert a).size + (if t.contains (key a) then 1 else 0) = t.size + 1 := by
  have count : ∀ u : OrderedTable key, u.size = u.keys.length := fun u => (List.length_map _).symm
  rw [count, count, keys_insert]
  split
  · rfl
  · rw [List.length_append]
    rfl

section Counts

open Diagnostic

variable (t : TypeTable) (id : TypeId)

/-- Every field of a declaration makes a new entry or a report. -/
theorem ClassDecl.fieldCount_enter (d : ClassDecl) (c : ClassType) :
    (d.enter t id c).fields.size + (withCode .fieldDuplicates (d.problems t id c)).length =
      c.fields.size + d.fields.length := by
  have sweep : ∀ (fs : List FieldDecl) (c : ClassType),
      (fs.foldl (fun c f => f.enter t id c) c).fields.size +
        (reportsAlong (fun c f => f.enter t id c) (fun c f => f.clashProblems c) c fs).length =
      c.fields.size + fs.length := by
    intro fs
    induction fs with
    | nil => exact fun c => rfl
    | cons f rest ih =>
      intro c
      have here : (f.enter t id c).fields.size + (f.clashProblems c).length = c.fields.size + 1 := by
        rw [← c.fields.size_insert (f.field t id), FieldDecl.clashProblems]
        congr 1
        split
        · next taken => exact (if_pos taken).symm
        · next new => exact (if_neg new).symm
      have later := ih (f.enter t id c)
      rw [List.foldl_cons, reportsAlong_cons, List.length_append, List.length_cons]
      omega
  rw [d.fieldRepeats_problems, enter, enterMethods_eq, ClassType.fields_insertMethods]
  exact sweep d.fields (d.linkBase t c)

/-- Changing a class changes the count by the fields that it gets or loses. -/
theorem TypeTable.fieldCount_modifyClass {t : TypeTable} {id : TypeId} {c : ClassType} (held : t.class? id = some c)
    (f : ClassType → ClassType) :
    (t.modifyClass id f).fieldCount + c.fields.size = t.fieldCount + (f c).fields.size := by
  have modified : ∀ (rs : List Registration) (n : Nat),
      (rs[n]?.map Registration.entity).bind TypeEntity.class? = some c →
      ((rs.modify n fun r => { r with entity := r.entity.mapClass f }).flatMap fun r =>
          r.entity.class?.elim [] (·.fields.toList)).length + c.fields.size =
        (rs.flatMap fun r => r.entity.class?.elim [] (·.fields.toList)).length + (f c).fields.size := by
    intro rs
    induction rs with
    | nil =>
      intro n held
      cases held
    | cons r rest ih =>
      intro n held
      cases n with
      | zero =>
        have here : r.entity.class? = some c := held
        simp only [List.modify_zero_cons, List.flatMap_cons, List.length_append, TypeEntity.class?_mapClass, here,
          Option.map_some, Option.elim_some, OrderedTable.size]
        omega
      | succ n =>
        have later := ih n held
        simp only [List.modify_succ_cons, List.flatMap_cons, List.length_append]
        omega
  exact modified t.registrations id.position held

/-- Each field of a declaration is counted or reported, and those of a declaration without a class are neither. -/
theorem TypeTable.fieldCount_enterClass (d : ClassDecl) :
    (t.enterClass d).fieldCount + (withCode .fieldDuplicates (d.report t)).length =
      t.fieldCount + if (t.lookupClass d.name.name).isSome then d.fields.length else 0 := by
  rw [enterClass, ClassDecl.report]
  cases found : t.lookupClass d.name.name with
  | none => rfl
  | some id =>
    obtain ⟨c, held⟩ := exists_class?_of_lookupClass found
    have changed := fieldCount_modifyClass held (d.enter t id)
    have fields := d.fieldCount_enter t id c
    simp only [held, Option.elim_some, Option.isSome_some, if_true]
    omega

/-- The entry method is no field. -/
theorem MainClass.fieldCount_enter (settings : Settings) (m : MainClass) :
    (m.enter settings t).fieldCount = t.fieldCount := by
  unfold enter
  split
  · next id found =>
    obtain ⟨c, held⟩ := TypeTable.exists_class?_of_lookupClass found
    have changed := TypeTable.fieldCount_modifyClass held fun c => c.insertMethod (settings.entry id)
    rw [ClassType.fields_insertMethod] at changed
    omega
  · rfl

/-- **A field makes an entry or a report.** In any run the fields that are declared in classes that are found are as
many as the entries that the run adds and the reports of repeated fields together. -/
theorem Program.fieldCount_resolve (settings : Settings) (p : Program) :
    (p.resolve settings t).table.fieldCount +
        (withCode .fieldDuplicates (p.resolve settings t).diagnostics).length =
      t.fieldCount + ((p.classes.filter fun d => (t.lookupClass d.name.name).isSome).flatMap (·.fields)).length := by
  have sweep : ∀ (ds : List ClassDecl) (s : TypeTable), s.SameHeads t →
      (ds.foldl TypeTable.enterClass s).fieldCount +
        (reportsAlong TypeTable.enterClass (fun t d => withCode .fieldDuplicates (d.report t)) s ds).length =
      s.fieldCount + ((ds.filter fun d => (t.lookupClass d.name.name).isSome).flatMap (·.fields)).length := by
    intro ds
    induction ds with
    | nil => exact fun s _ => rfl
    | cons d rest ih =>
      intro s same
      have here := s.fieldCount_enterClass d
      have later := ih (s.enterClass d) ((s.sameHeads_enterClass d).trans same)
      rw [same.lookupClass] at here
      rw [List.foldl_cons, reportsAlong_cons, List.length_append, List.filter_cons]
      split
      · next found =>
        rw [if_pos found] at here
        rw [List.flatMap_cons, List.length_append]
        omega
      · next missing =>
        rw [if_neg missing] at here
        omega
  have run := sweep p.classes _ (p.main.sameHeads_enter settings t)
  rw [p.main.fieldCount_enter t settings] at run
  rw [withCode_repeat_resolve settings t p (.inl rfl)]
  exact run

/-- A class that is declared has no fields yet. -/
theorem TypeTable.fieldCount_declareIfNew (name : String) (isStatic : Bool) :
    (t.declareIfNew name isStatic).fieldCount = t.fieldCount := by
  cases known : t.contains name with
  | true => rw [t.declareIfNew_of_contains name isStatic known]
  | false =>
    rw [t.declareIfNew_of_not_contains name isStatic known, fieldCount, List.flatMap_append, List.length_append]
    rfl

theorem Program.fieldCount_seed (p : Program) : p.seed.fieldCount = 0 := by
  have run : ∀ (ds : List (String × Bool)) (t : TypeTable), (t.declareAll ds).fieldCount = t.fieldCount := by
    intro ds
    induction ds with
    | nil => exact fun t => rfl
    | cons d rest ih => exact fun t => (ih (t.declareIfNew d.1 d.2)).trans (t.fieldCount_declareIfNew d.1 d.2)
  exact run p.declared .builtins

end Counts

namespace Program

/-- **Fields as a function of the program.** A run alone leaves in each class one field for each field name that its
declarations give, in the order in which the names come up, and each is what the last declaration of that name
describes. It reports the fields whose name has come up in a declaration of that class before. So every field of a
class that is found is counted in its table or reported. -/
theorem fields_resolveAlone (settings : Settings) {p : Program} (small : p.classes.length < UInt32.size - 5) :
    let r := p.resolveAlone settings
    (∀ id c, r.table.class? id = some c →
      List.Forall₂ (FieldDecl.Describes r.table id) (lastPerKey (·.name.name) (p.fieldDecls c.name)) c.fields.toList) ∧
      Diagnostic.withCode .fieldDuplicates r.diagnostics =
        (repeatsAfter ClassField.place [] p.classFields).map ClassField.repeated ∧
      ((p.classes.filter fun d => (r.table.lookupClass d.name.name).isSome).flatMap (·.fields)).length =
        r.table.fieldCount + (Diagnostic.withCode .fieldDuplicates r.diagnostics).length := by
  intro r
  have heads : r.table.SameHeads p.seed := p.sameHeads_resolve settings p.seed
  refine ⟨fun id c held => fieldTable_resolveAlone settings small held, fieldRepeats_resolveAlone settings small, ?_⟩
  have count := fieldCount_resolve p.seed settings p
  rw [fieldCount_seed, Nat.zero_add] at count
  simp only [heads.lookupClass]
  exact count.symm

/-- Two declarations of a class with fields that come up again, in the same and in the other one, and with types that
are not found, around a class with the name of a builtin type. -/
def interleaved : Program :=
  let int : TypeExpr := ⟨.int, ⟨30, 3⟩, none⟩
  let list : TypeExpr := ⟨.named ⟨"List", ⟨34, 4⟩⟩, ⟨34, 4⟩, none⟩
  let gone : TypeExpr := ⟨.named ⟨"Gone", ⟨40, 4⟩⟩, ⟨40, 4⟩, none⟩
  let field (type : TypeExpr) (name : String) (offset : Nat) : FieldDecl := { type, name := ⟨name, ⟨offset, 4⟩⟩ }
  let classDecl (name : Ident) (fields : List FieldDecl) : ClassDecl := { name, fields }
  { main := { name := ⟨"Main", ⟨6, 4⟩⟩ }
    classes := [
      classDecl ⟨"List", ⟨20, 4⟩⟩ [field int "next" 50, field gone "item" 60, field list "next" 70],
      classDecl ⟨"int", ⟨80, 3⟩⟩ [field int "next" 90, field int "next" 100],
      classDecl ⟨"List", ⟨110, 4⟩⟩ [field int "size" 120, field gone "next" 130, field int "item" 140]] }

/-- The last declarations of the two names stand where the first ones stood. -/
theorem fields_resolveAlone_interleaved :
    let r := interleaved.resolveAlone {}
    interleaved.classes.length < UInt32.size - 5 ∧
      (interleaved.fieldDecls "List").map (·.name.span.offset) = [50, 60, 70, 120, 130, 140] ∧
      (lastPerKey (·.name.name) (interleaved.fieldDecls "List")).map (·.name.span.offset) = [130, 140, 120] ∧
      (∃ c, r.table.class? (.ofPosition 6) = some c ∧ c.name = "List" ∧
        List.Forall₂ (FieldDecl.Describes r.table (.ofPosition 6))
          (lastPerKey (·.name.name) (interleaved.fieldDecls "List")) c.fields.toList) ∧
      Diagnostic.withCode .fieldDuplicates r.diagnostics = [⟨.fieldDuplicates "List" "next", ⟨70, 4⟩⟩,
        ⟨.fieldDuplicates "List" "next", ⟨130, 4⟩⟩, ⟨.fieldDuplicates "List" "item", ⟨140, 4⟩⟩] ∧
      r.table.fieldCount + 3 = 6 := by
  intro r
  have small : interleaved.classes.length < UInt32.size - 5 := by decide
  obtain ⟨tables, reports, count⟩ := fields_resolveAlone {} small
  have named : (r.table.class? (.ofPosition 6)).map (·.name) = some "List" := by decide +kernel
  obtain ⟨c, held, name⟩ := Option.map_eq_some_iff.1 named
  have table := tables (.ofPosition 6) c held
  rw [name] at table
  have repeated := reports.trans (show _ = [⟨.fieldDuplicates "List" "next", ⟨70, 4⟩⟩,
    ⟨.fieldDuplicates "List" "next", ⟨130, 4⟩⟩, ⟨.fieldDuplicates "List" "item", ⟨140, 4⟩⟩] by decide +kernel)
  rw [repeated] at count
  exact ⟨small, by decide +kernel, by decide +kernel, ⟨c, held, name, table⟩, repeated,
    count.symm.trans (by decide +kernel)⟩

end Program
end MemberResolution

import MemberResolution.Proofs.Entering
import MemberResolution.Proofs.Reports
import MemberResolution.Proofs.Slots

/-!
# Running again

A second run on what a first run left changes neither the table nor a slot of
the program. It reports the same as the first, except that every field that is
entered, and every method, is now a repeated one. The argument is in two parts:
a member table is not changed by the insertions that built it, and from the
first run on every class holds the members of its declarations (`Holds`), so
each of them is reported when it is entered again.
-/

namespace MemberResolution
set_option autoImplicit false

/-- The class has a member in the place of each member of the declaration. -/
structure ClassType.Holds (t : TypeTable) (id : TypeId) (d : ClassDecl) (c : ClassType) : Prop where
  fields : ∀ f ∈ d.fields, c.hasField f.name.name = true
  methods : ∀ m ∈ d.methodsFor t id, (c.methodTable m.isStatic).contains m.key = true

namespace ClassType.Holds

variable {t : TypeTable} {id : TypeId} {d : ClassDecl} {c : ClassType}

theorem insertMethods (holds : c.Holds t id d) (ms : List Method) : (c.insertMethods ms).Holds t id d := by
  constructor
  · intro f mem
    rw [hasField, fields_insertMethods]
    exact holds.fields f mem
  · intro m mem
    rw [methodTable_insertMethods]
    exact OrderedTable.contains_insertMany_of_contains (holds.methods m mem) _

/-- Entering other declarations takes no member away. -/
theorem enter (holds : c.Holds t id d) (s : TypeTable) (other : TypeId) (e : ClassDecl) :
    (e.enter s other c).Holds t id d := by
  constructor
  · intro f mem
    rw [hasField, e.fields_enter]
    exact OrderedTable.contains_insertMany_of_contains (holds.fields f mem) _
  · intro m mem
    rw [e.methodTable_enter]
    exact OrderedTable.contains_insertMany_of_contains (holds.methods m mem) _

end ClassType.Holds

/-- After a run a class holds the members of each of its declarations. -/
theorem Program.holds_entered (settings : Settings) (t : TypeTable) (p : Program) (id : TypeId) (c : ClassType)
    {d : ClassDecl} (mem : d ∈ p.declarationsOf t id) : (p.entered settings t id c).Holds t id d := by
  constructor
  · intro f field
    have entered : f.field t id ∈ p.fieldsOf t id :=
      List.mem_flatMap.2 ⟨d, mem, List.mem_map.2 ⟨f, field, rfl⟩⟩
    rw [ClassType.hasField, fields_entered]
    exact OrderedTable.contains_insertMany_of_mem _ entered
  · intro m method
    have entered : m ∈ (p.methodsOf settings t id).filter (·.isStatic = m.isStatic) :=
      List.mem_filter.2 ⟨List.mem_append_right _ (List.mem_flatMap.2 ⟨d, mem, method⟩), by simp⟩
    rw [methodTable_entered]
    exact OrderedTable.contains_insertMany_of_mem _ entered

/-! ## The table -/

namespace Program

variable (settings : Settings) (t : TypeTable) (p : Program)

theorem entered_congr {s t : TypeTable} (same : s.SameHeads t) (id : TypeId) :
    p.entered settings s id = p.entered settings t id := by
  funext c
  simp only [entered, declarationsOf, entryFor, same.lookupClass, ClassDecl.enter_congr same]

/-- A class that a run has left is not changed by the next one. -/
theorem entered_entered (id : TypeId) (c : ClassType) :
    p.entered settings t id (p.entered settings t id c) = p.entered settings t id c := by
  apply ClassType.eq_of_tables
  · exact p.head_entered settings t id _
  · rw [base_entered, base_entered, ← Option.or_assoc, Option.or_self]
  · rw [fields_entered, fields_entered, OrderedTable.insertMany_again]
  · intro isStatic
    rw [methodTable_entered, methodTable_entered, OrderedTable.insertMany_again]

theorem table_resolve_resolve (small : t.size ≤ UInt32.size) :
    (p.resolve settings (p.resolve settings t).table).table = (p.resolve settings t).table := by
  have heads := p.sameHeads_resolve settings t
  apply TypeTable.eq_of_get? (heads.size ▸ small)
  · exact (p.sameHeads_resolve settings _).names
  · intro id
    rw [get?_resolve, get?_resolve, Option.map_map, p.entered_congr settings heads]
    apply Option.map_congr
    intro e _
    rw [Function.comp_apply, TypeEntity.mapClass_mapClass]
    simp only [entered_entered]

end Program

/-! ## The reports -/

/-- Every member that the declaration enters, reported as a repeated one. -/
def ClassDecl.redeclarations (t : TypeTable) (d : ClassDecl) : List Diagnostic :=
  match t.lookupClass d.name.name with
  | some id => (t.class? id).elim [] fun c =>
      d.fields.map (fun f => ⟨.fieldDuplicates c.name f.name.name, f.name.span⟩) ++
        (d.methods.filter fun m => m.typesKnown t ∧ m.paramNames.Nodup).map fun m =>
          ⟨.methodDuplicates c.name m.name.name, m.name.span⟩
  | none => []

theorem flatMap_ite_singleton {α β : Type} (q : α → Prop) [DecidablePred q] (f : α → β) (as : List α) :
    as.flatMap (fun a => if q a then [f a] else []) = (as.filter fun a => q a).map f := by
  induction as with
  | nil => rfl
  | cons a rest ih =>
    rw [List.flatMap_cons, ih, List.filter_cons]
    by_cases here : q a
    · simp [here]
    · simp [here]

namespace ClassDecl

variable (t : TypeTable) (id : TypeId) (c : ClassType)

/-- In a class that has fields of their names, all fields of a list are repeated ones. -/
theorem fieldRepeats_of_held (fields : List FieldDecl) (held : ∀ f ∈ fields, c.hasField f.name.name = true) :
    reportsAlong (fun c f => f.enter t id c) (fun c f => f.clashProblems c) c fields =
      fields.map fun f => ⟨.fieldDuplicates c.name f.name.name, f.name.span⟩ := by
  rw [List.map_eq_flatMap]
  apply reportsAlong_eq_flatMap fun s rest => s.name = c.name ∧ ∀ f ∈ rest, s.hasField f.name.name = true
  · rintro s f rest ⟨name, held⟩
    refine ⟨?_, name, fun g mem => ?_⟩
    · rw [FieldDecl.clashProblems, if_pos (held f List.mem_cons_self), name]
    · show (s.fields.insert _).contains g.name.name = true
      rw [OrderedTable.contains_insert, Bool.or_eq_true]
      exact Or.inl (held g (List.mem_cons_of_mem f mem))
  · exact ⟨rfl, held⟩

/-- In a class that has methods with their keys, all methods of a list are repeated ones. -/
theorem methodRepeats_of_held (methods : List MethodDecl)
    (held : ∀ m ∈ methods.filterMap (·.method? t id), (c.methodTable m.isStatic).contains m.key = true) :
    reportsAlong (fun c m => m.enter t id c) (fun c m => m.clashProblems t id c) c methods =
      (methods.filter fun m => m.typesKnown t ∧ m.paramNames.Nodup).map fun m =>
        ⟨.methodDuplicates c.name m.name.name, m.name.span⟩ := by
  rw [← flatMap_ite_singleton]
  apply reportsAlong_eq_flatMap fun s rest => s.name = c.name ∧
    ∀ m ∈ rest.filterMap (·.method? t id), (s.methodTable m.isStatic).contains m.key = true
  · rintro s d rest ⟨name, held⟩
    rw [List.filterMap_cons] at held
    by_cases sound : d.typesKnown t = true ∧ d.paramNames.Nodup
    · obtain ⟨m, method⟩ : ∃ m, d.method? t id = some m := ⟨_, if_pos sound⟩
      rw [method] at held
      refine ⟨?_, ?_, fun other mem => ?_⟩
      · have clash := ClassType.hasClash_iff.2 (held m List.mem_cons_self)
        rw [MethodDecl.clashProblems, method]
        simp only [clash, if_true, if_pos sound, name]
      · simpa [MethodDecl.enter, method] using name
      · have before := held other (List.mem_cons_of_mem m mem)
        simp only [MethodDecl.enter, method, ClassType.methodTable_insertMethod]
        split
        · rw [OrderedTable.contains_insert, before, Bool.true_or]
        · exact before
    · have method : d.method? t id = none := if_neg sound
      rw [method] at held
      simp only [MethodDecl.clashProblems, MethodDecl.enter, method, if_neg sound]
      exact ⟨trivial, name, held⟩
  · exact ⟨rfl, held⟩

theorem repeats_of_holds (d : ClassDecl) (holds : c.Holds t id d) :
    (d.problems t id c).filter (·.isRepeat) =
      d.fields.map (fun f => ⟨.fieldDuplicates c.name f.name.name, f.name.span⟩) ++
        (d.methods.filter fun m => m.typesKnown t ∧ m.paramNames.Nodup).map fun m =>
          ⟨.methodDuplicates c.name m.name.name, m.name.span⟩ := by
  have fields := fieldRepeats_of_held t id (d.linkBase t c) d.fields holds.fields
  have methods := methodRepeats_of_held t id (d.enterFields t id (d.linkBase t c)) d.methods (by
    rw [d.enterFields_eq]
    exact holds.methods)
  rw [problems, List.filter_append, List.filter_append, (Diagnostic.filter_own (d.isRepeat_baseProblems t)).2,
    List.nil_append, filter_reportsAlong, filter_reportsAlong]
  simp only [(FieldDecl.filter_problems _ _ _).2, (MethodDecl.filter_problems _ _ _ _).2]
  rw [fields, methods, d.enterFields_eq]
  rfl

end ClassDecl

/-- Each declaration of a list finds its members in the class that it is entered into. -/
def TypeTable.HoldsAll (t : TypeTable) (ds : List ClassDecl) (s : TypeTable) : Prop :=
  ∀ d ∈ ds, ∀ id, t.lookupClass d.name.name = some id → ∃ c, s.class? id = some c ∧ c.Holds t id d

theorem TypeTable.HoldsAll.modifyClass {s t : TypeTable} {ds : List ClassDecl} (holds : t.HoldsAll ds s)
    (id : TypeId) {f : ClassType → ClassType} (keeps : ∀ c other d, c.Holds t other d → (f c).Holds t other d) :
    t.HoldsAll ds (s.modifyClass id f) := by
  intro d mem other found
  obtain ⟨c, held, has⟩ := holds d mem other found
  rw [class?_modifyClass]
  split
  · next same =>
    rw [← same, held]
    exact ⟨f c, rfl, keeps c other d has⟩
  · exact ⟨c, held, has⟩

namespace Program

variable (settings : Settings) (t : TypeTable) (p : Program)

theorem holdsAll_resolve : t.HoldsAll p.classes (p.resolve settings t).table := by
  intro d mem id found
  obtain ⟨c, held⟩ := Option.isSome_iff_exists.1 (Option.filter_eq_some_iff.1 found).2
  rw [class?_resolve, held]
  exact ⟨_, rfl, p.holds_entered settings t id c (List.mem_filter.2 ⟨mem, decide_eq_true found⟩)⟩

/-- Where all members are held, all that are entered are reported. -/
theorem repeats_of_holdsAll {s : TypeTable} (same : s.SameHeads t) (holds : t.HoldsAll p.classes s) :
    (p.resolve settings s).diagnostics.filter (·.isRepeat) = p.classes.flatMap (·.redeclarations t) := by
  rw [filter_repeat_resolve]
  apply reportsAlong_eq_flatMap fun u rest => u.SameHeads t ∧ t.HoldsAll rest u
  · rintro u d rest ⟨same, holds⟩
    refine ⟨?_, (u.sameHeads_enterClass d).trans same, ?_⟩
    · rw [ClassDecl.report, ClassDecl.redeclarations, same.lookupClass]
      cases found : t.lookupClass d.name.name with
      | none => rfl
      | some id =>
        obtain ⟨c, held, has⟩ := holds d List.mem_cons_self id found
        have head := same.head id
        rw [held, Option.map_some] at head
        obtain ⟨b, first, heads⟩ := Option.map_eq_some_iff.1 head.symm
        have name : b.name = c.name := congrArg Prod.fst heads
        simp only [held, first, Option.elim_some, d.problems_congr same, name]
        exact d.repeats_of_holds t id c has
    · have others : t.HoldsAll rest u := fun e mem => holds e (List.mem_cons_of_mem d mem)
      unfold TypeTable.enterClass
      split
      · exact others.modifyClass _ fun c other e has => has.enter u _ d
      · exact others
  · refine ⟨(p.main.sameHeads_enter settings s).trans same, ?_⟩
    unfold MainClass.enter
    split
    · exact holds.modifyClass _ fun c other e has => has.insertMethods [settings.entry _]
    · exact holds

/-- **Running again.** A second run on the table and the program that a first run left changes neither. It
reports what the first run reported besides repeated members, and as repeated members all that are entered. -/
theorem resolve_again (small : t.size < UInt32.size) :
    let first := p.resolve settings t
    let again := first.program.resolve settings first.table
    again.table = first.table ∧ again.program = first.program ∧
      again.diagnostics.filter (!·.isRepeat) = first.diagnostics.filter (!·.isRepeat) ∧
      again.diagnostics.filter (·.isRepeat) = p.classes.flatMap (·.redeclarations t) := by
  intro first again
  have heads : first.table.SameHeads t := p.sameHeads_resolve settings t
  have slots : first.program.erase = p.erase := p.erase_annotate t settings
  have table : again.table = first.table :=
    (table_resolve_of_erase settings _ slots).trans (p.table_resolve_resolve settings t (Nat.le_of_lt small))
  have diagnostics : again.diagnostics = (p.resolve settings first.table).diagnostics :=
    diagnostics_resolve_of_erase settings _ slots
  refine ⟨table, ?_, ?_, ?_⟩
  · show (p.annotate settings t).annotate settings first.table = p.annotate settings t
    rw [annotate_congr heads, annotate_annotate]
  · have main : p.main.problems first.table = p.main.problems t := by
      simp only [MainClass.problems, heads.lookupClass]
    rw [diagnostics, filter_own_resolve, filter_own_resolve, p.table_resolve_resolve settings t (Nat.le_of_lt small),
      main]
    simp only [ClassDecl.ownReport_congr heads]
  · rw [diagnostics]
    exact p.repeats_of_holdsAll settings t heads (p.holdsAll_resolve settings t)

/-- A class that is declared twice, with a field and a method in both declarations, a method of an unknown type, and a
class that the table does not have. -/
def redeclaring : Program :=
  let shared : List FieldDecl := [{ type := ⟨.int, ⟨20, 3⟩, none⟩, name := ⟨"size", ⟨24, 4⟩⟩ }]
  let grow : MethodDecl := { name := ⟨"grow", ⟨30, 4⟩⟩, returnType := ⟨.boolean, ⟨26, 3⟩, none⟩ }
  let gone : TypeExpr := ⟨.named ⟨"Gone", ⟨45, 4⟩⟩, ⟨45, 4⟩, none⟩
  let lost : MethodDecl := { name := ⟨"lost", ⟨50, 4⟩⟩, isStatic := true, returnType := gone }
  { main := { name := ⟨"Main", ⟨6, 4⟩⟩ }
    classes := [
      { name := ⟨"List", ⟨13, 4⟩⟩, fields := shared, methods := [grow, lost] },
      { name := ⟨"List", ⟨63, 4⟩⟩, base := some ⟨"Main", ⟨70, 4⟩⟩, fields := shared, methods := [grow] },
      { name := ⟨"Unseen", ⟨90, 6⟩⟩, fields := shared }] }

/-- The second run reports each field and each method of known types as a repeated one. -/
theorem resolve_again_redeclaring :
    let t := (TypeTable.builtins.declareIfNew "Main" false).declareIfNew "List" true
    let first := redeclaring.resolve {} t
    let again := first.program.resolve {} first.table
    t.size < UInt32.size ∧ again.table = first.table ∧ again.program = first.program ∧
      again.diagnostics.filter (!·.isRepeat) = first.diagnostics.filter (!·.isRepeat) ∧
      again.diagnostics.filter (·.isRepeat) =
        [⟨.fieldDuplicates "List" "size", ⟨24, 4⟩⟩, ⟨.methodDuplicates "List" "grow", ⟨30, 4⟩⟩,
          ⟨.fieldDuplicates "List" "size", ⟨24, 4⟩⟩, ⟨.methodDuplicates "List" "grow", ⟨30, 4⟩⟩] := by
  intro t first again
  have small : t.size < UInt32.size := by decide +kernel
  obtain ⟨table, program, own, repeats⟩ := resolve_again {} t redeclaring small
  refine ⟨small, table, program, own, repeats.trans ?_⟩
  decide +kernel

end Program
end MemberResolution

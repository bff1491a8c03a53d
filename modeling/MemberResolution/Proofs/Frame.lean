import Mathlib.Data.List.Forall2
import MemberResolution.Proofs.Entering
import MemberResolution.Proofs.Seeding
import MemberResolution.Proofs.Slots

/-!
# What a run leaves alone

A run keeps all names and what they lead to, all types that are not classes,
and all classes that no name of the program leads to. Of the other classes it
keeps the name, the flag and the place of every member, though another member
with the same key may stand there afterwards (`ClassType.KeptIn`). In the
program it writes into slots only, and into none of a declaration whose class
is not found (`frame_resolve`).
-/

namespace MemberResolution
set_option autoImplicit false

/-- The class has its name and its flag afterwards, and the keys of its members stand where they stood. -/
structure ClassType.KeptIn (before after : ClassType) : Prop where
  name : after.name = before.name
  isStatic : after.isStatic = before.isStatic
  fields : before.fields.keys <+: after.fields.keys
  methods : ∀ isStatic, (before.methodTable isStatic).keys <+: (after.methodTable isStatic).keys

/-- What is left alone in a table by a run over `p`. -/
structure TypeTable.Framed (p : Program) (before after : TypeTable) : Prop where
  size : after.size = before.size
  lookup : ∀ name, after.lookup name = before.lookup name
  /-- Types that are not classes, the builtin ones among them. -/
  others : ∀ id, before.class? id = none → after.get? id = before.get? id
  classes : ∀ id c, before.class? id = some c → ∃ c', after.class? id = some c' ∧ c.KeptIn c'
  unnamed : ∀ id, (∀ name ∈ p.names, before.lookupClass name ≠ some id) → after.get? id = before.get? id
  main : (∀ d ∈ p.classes, d.name.name ≠ p.main.name.name) → ∀ id c,
    before.lookupClass p.main.name.name = some id → before.class? id = some c →
    ∃ staticMethods, after.class? id = some { c with staticMethods }

namespace Program

variable (settings : Settings) {t : TypeTable} {p : Program} {id : TypeId}

theorem keptIn_entered (c : ClassType) : c.KeptIn (p.entered settings t id c) where
  name := congrArg Prod.fst (p.head_entered settings t id c)
  isStatic := congrArg Prod.snd (p.head_entered settings t id c)
  fields := by
    rw [fields_entered]
    exact c.fields.prefix_keys_insertMany _
  methods := by
    intro isStatic
    rw [methodTable_entered]
    exact (c.methodTable isStatic).prefix_keys_insertMany _

theorem declarationsOf_eq_nil (apart : ∀ d ∈ p.classes, t.lookupClass d.name.name ≠ some id) :
    p.declarationsOf t id = [] := by
  rw [declarationsOf, List.filter_eq_nil_iff]
  intro d mem
  rw [decide_eq_true_iff]
  exact apart d mem

/-- Nothing is entered into a class that no name of the program leads to. -/
theorem entered_unnamed (apart : ∀ name ∈ p.names, t.lookupClass name ≠ some id) (c : ClassType) :
    p.entered settings t id c = c := by
  have undeclared : p.declarationsOf t id = [] :=
    declarationsOf_eq_nil fun d mem => apart d.name.name (mem_names_of_mem mem)
  rw [entered, undeclared, entryFor, if_neg (apart p.main.name.name List.mem_cons_self)]
  rfl

section Main

variable (small : t.size < UInt32.size) (apart : ∀ d ∈ p.classes, d.name.name ≠ p.main.name.name)
include small apart

/-- The main class gets the entry method and nothing else. -/
theorem entered_main (found : t.lookupClass p.main.name.name = some id) (c : ClassType) :
    p.entered settings t id c = { c with staticMethods := c.staticMethods.insert (settings.entry id) } := by
  have undeclared : p.declarationsOf t id = [] := declarationsOf_eq_nil fun d mem here =>
    apart d mem (TypeTable.lookupClass_injective (Nat.le_of_lt small) here found)
  rw [entered, undeclared, entryFor, if_pos found]
  rfl

end Main

theorem framed_resolve (small : t.size < UInt32.size) (p : Program) : t.Framed p (p.resolve settings t).table where
  size := (p.sameHeads_resolve settings t).size
  lookup := (p.sameHeads_resolve settings t).lookup
  others := by
    intro id other
    rw [get?_resolve]
    rw [TypeTable.class?] at other
    cases held : t.get? id with
    | none => rfl
    | some e =>
      rw [held, Option.bind_some] at other
      cases e with
      | classType c => cases other
      | unknown => rfl
      | primitive type => rfl
      | intArray => rfl
  classes := by
    intro id c held
    refine ⟨p.entered settings t id c, ?_, keptIn_entered settings c⟩
    rw [class?_resolve, held, Option.map_some]
  unnamed := by
    intro id apart
    have unchanged : p.entered settings t id = fun c => c := funext fun c => entered_unnamed settings apart c
    rw [get?_resolve, unchanged]
    cases t.get? id with
    | none => rfl
    | some e => exact congrArg some e.mapClass_id
  main := by
    intro apart id c found held
    refine ⟨c.staticMethods.insert (settings.entry id), ?_⟩
    rw [class?_resolve, held, Option.map_some, entered_main settings small apart found]

end Program

/-- A declaration whose class is not found stays as it is. -/
theorem ClassDecl.annotate_of_not_found {t : TypeTable} {d : ClassDecl} (missing : t.lookupClass d.name.name = none) :
    d.annotate t = d := by
  rw [annotate, missing]

/-- **The frame of a run.** A table keeps its size, what its names lead to, the types that are not classes and the
classes that the program does not name; the others keep their names, their flags and the places of their members, and
a main class without a declaration of its name changes in its static methods only. The program changes in its slots
only, and a declaration whose class is not found does not change at all. -/
theorem Program.frame_resolve (settings : Settings) {t : TypeTable} (small : t.size < UInt32.size) (p : Program) :
    let r := p.resolve settings t
    t.Framed p r.table ∧ r.program.erase = p.erase ∧
      List.Forall₂ (fun d after => t.lookupClass d.name.name = none → after = d) p.classes r.program.classes := by
  intro r
  refine ⟨framed_resolve settings small p, p.erase_annotate t settings, ?_⟩
  show List.Forall₂ _ p.classes (p.classes.map (·.annotate t))
  rw [List.forall₂_map_right_iff]
  exact List.forall₂_same.2 fun d _ missing => ClassDecl.annotate_of_not_found missing

/-- A class with two methods called `main`, one with a field and a base, and a static one under another name. -/
def TypeTable.furnished : TypeTable :=
  let declared := ((builtins.declareIfNew "Main" false).declareIfNew "List" false).declareIfNew "Node" true
  let main : Method := { name := "main", owner := .ofPosition 5, isStatic := true, returnType := .int }
  let again : Method := { main with params := [⟨"count", .int, 1⟩] }
  let withMain := declared.modifyClass (.ofPosition 5) fun c => (c.insertMethod main).insertMethod again
  let withField := withMain.modifyClass (.ofPosition 6) fun c =>
    { c.insertField ⟨"size", .int, .ofPosition 6⟩ with base := some (.ofPosition 7) }
  withField.modifyClass (.ofPosition 7) fun c => { c with name := "Item" }

/-- A class with the name of a builtin type and one that the table does not have, both with a slot filled, and a class
that is declared twice over the field that it has. Every declaration has a place of its own, around its name. -/
def Program.partlyFound : Program :=
  let field (form : TypeForm) (name : String) (offset : Nat) : FieldDecl :=
    { type := ⟨form, ⟨offset, 4⟩, some .boolean⟩, name := ⟨name, ⟨offset + 5, 4⟩⟩, span := ⟨offset, 10⟩ }
  let key : ParamDecl := { type := ⟨.int, ⟨144, 3⟩, none⟩, name := ⟨"key", ⟨148, 3⟩⟩, span := ⟨144, 7⟩ }
  let find : MethodDecl :=
    { name := ⟨"find", ⟨139, 4⟩⟩, returnType := ⟨.boolean, ⟨131, 7⟩, none⟩, params := [key], span := ⟨131, 25⟩ }
  { main := { name := ⟨"Main", ⟨6, 4⟩⟩, span := ⟨0, 13⟩ }
    classes := [
      { name := ⟨"int", ⟨20, 3⟩⟩, fields := [field .int "size" 30], span := ⟨14, 28⟩ },
      { name := ⟨"Unseen", ⟨50, 6⟩⟩, fields := [field .int "size" 60], span := ⟨44, 28⟩, resolvedBase := some .int },
      { name := ⟨"List", ⟨80, 4⟩⟩, fields := [field (.named ⟨"List", ⟨90, 4⟩⟩) "next" 90], span := ⟨74, 28⟩ },
      { name := ⟨"List", ⟨110, 4⟩⟩, fields := [field .boolean "size" 120], methods := [find], span := ⟨104, 54⟩ }] }

/-- The field that is replaced and the one that is new, the replaced entry method, and what stays as it was. -/
theorem Program.frame_resolve_partlyFound :
    let t := TypeTable.furnished
    let r := partlyFound.resolve {} t
    t.size < UInt32.size ∧ t.Framed partlyFound r.table ∧ r.program.erase = partlyFound.erase ∧
      r.table.get? (.ofPosition 7) = t.get? (.ofPosition 7) ∧
      (∃ c c', t.class? (.ofPosition 6) = some c ∧ r.table.class? (.ofPosition 6) = some c' ∧ c.KeptIn c' ∧
        c.fields.toList = [⟨"size", .int, .ofPosition 6⟩] ∧
        c'.fields.toList = [⟨"size", .boolean, .ofPosition 6⟩, ⟨"next", .ofPosition 6, .ofPosition 6⟩]) ∧
      (∃ c staticMethods, t.class? (.ofPosition 5) = some c ∧
        r.table.class? (.ofPosition 5) = some { c with staticMethods } ∧
        c.staticMethods.toList.map (·.returnType) = [.int, .int] ∧
        staticMethods.toList.map (·.returnType) = [.void, .int]) ∧
      List.Forall₂ (fun d after => t.lookupClass d.name.name = none → after = d) partlyFound.classes
        r.program.classes := by
  intro t r
  have small : t.size < UInt32.size := by decide +kernel
  obtain ⟨table, program, slots⟩ := frame_resolve {} small partlyFound
  refine ⟨small, table, program, table.unnamed _ (by decide +kernel), ?_, ?_, slots⟩
  · obtain ⟨c, held⟩ := Option.isSome_iff_exists.1 (show (t.class? (.ofPosition 6)).isSome by decide +kernel)
    obtain ⟨c', after, kept⟩ := table.classes _ c held
    have before : (t.class? (.ofPosition 6)).map (·.fields.toList) = some [⟨"size", .int, .ofPosition 6⟩] := by
      decide +kernel
    have fields : (r.table.class? (.ofPosition 6)).map (·.fields.toList) =
        some [⟨"size", .boolean, .ofPosition 6⟩, ⟨"next", .ofPosition 6, .ofPosition 6⟩] := by decide +kernel
    rw [held] at before
    rw [after] at fields
    exact ⟨c, c', held, after, kept, Option.some.inj before, Option.some.inj fields⟩
  · obtain ⟨c, held⟩ := Option.isSome_iff_exists.1 (show (t.class? (.ofPosition 5)).isSome by decide +kernel)
    obtain ⟨statics, after⟩ := table.main (by decide) _ c (by decide +kernel) held
    have before : (t.class? (.ofPosition 5)).map (·.staticMethods.toList.map (·.returnType)) = some [.int, .int] := by
      decide +kernel
    have methods : (r.table.class? (.ofPosition 5)).map (·.staticMethods.toList.map (·.returnType)) =
        some [.void, .int] := by decide +kernel
    rw [held] at before
    rw [after] at methods
    exact ⟨c, statics, held, after, Option.some.inj before, Option.some.inj methods⟩

end MemberResolution

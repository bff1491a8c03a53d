import MemberResolution.Proofs.FieldTables
import MemberResolution.Proofs.MethodTables

/-!
# The type without values

The builtin type without values is meant for results only, but a run finds it
under its name like any other type. So a field or a parameter has it just when
it is spelled like it, and its declaration is the one that is entered
(`voidless_resolveAlone_iff`); nothing is reported then.
-/

namespace MemberResolution
set_option autoImplicit false

/-- No field and no parameter of the class has the type without values. -/
structure ClassType.Voidless (c : ClassType) : Prop where
  fields : ∀ f ∈ c.fields.toList, f.type ≠ .void
  params : ∀ isStatic, ∀ m ∈ (c.methodTable isStatic).toList, ∀ q ∈ m.params, q.type ≠ .void

/-- No field that a class is left with and no parameter of a sound method is spelled like the type without values. -/
structure Program.VoidFree (p : Program) : Prop where
  fields : ∀ name ∈ p.names, name ∉ builtinNames →
    ∀ f ∈ lastPerKey (·.name.name) (p.fieldDecls name), f.type.spelling ≠ "void"
  params : ∀ d ∈ p.classes, d.name.name ∉ builtinNames →
    ∀ m ∈ d.methods, m.SoundIn p → ∀ q ∈ m.params, q.type.spelling ≠ "void"

theorem FieldDecl.type_field_eq_void_iff {t : TypeTable} (whole : t.HasBuiltins) (small : t.size ≤ UInt32.size)
    (id : TypeId) (d : FieldDecl) : (d.field t id).type = .void ↔ d.type.spelling = "void" :=
  d.type.resolve_eq_void_iff whole small

theorem MethodDecl.params_described_iff {t : TypeTable} (whole : t.HasBuiltins) (small : t.size ≤ UInt32.size)
    (id : TypeId) (d : MethodDecl) :
    (∀ q ∈ (d.described t id).params, q.type ≠ .void) ↔ ∀ q ∈ d.params, q.type.spelling ≠ "void" := by
  have types : (∀ type ∈ (d.parameters t).map Parameter.type, type ≠ .void) ↔
      ∀ q ∈ d.params, q.type.spelling ≠ "void" := by
    rw [d.map_type_parameters, List.forall_mem_map]
    simp only [ne_eq, TypeExpr.resolve_eq_void_iff whole small]
  rwa [List.forall_mem_map] at types

namespace Program

variable {p : Program} (settings : Settings)

/-- The sound methods with parameters are those of class declarations. -/
theorem mem_soundMethodsOf_iff {name : String} {isStatic : Bool} {m : MethodDecl} (params : m.params ≠ []) :
    m ∈ p.soundMethodsOf settings name isStatic ↔
      ∃ d ∈ p.classes, d.name.name = name ∧ name ∉ builtinNames ∧ m ∈ d.methods ∧ m.SoundIn p ∧
        m.isStatic = isStatic := by
  constructor
  · intro mem
    obtain ⟨x, filed, rfl⟩ := List.mem_map.1 mem
    obtain ⟨sound, place⟩ := List.mem_filter.1 filed
    obtain ⟨listed, sound⟩ := List.mem_filter.1 sound
    obtain ⟨other, sound⟩ := of_decide_eq_true sound
    obtain ⟨rfl, flag⟩ := of_decide_eq_true place
    obtain ⟨d, declared, mem⟩ := List.mem_flatMap.1 listed
    obtain ⟨m, method, rfl⟩ := List.mem_map.1 mem
    rcases List.mem_cons.1 declared with rfl | declared
    · -- the entry method has no parameters
      rw [show m = p.main.entryDecl settings from List.mem_singleton.1 method] at params
      exact absurd rfl params
    · exact ⟨d, declared, rfl, other, method, sound, flag⟩
  · rintro ⟨d, declared, rfl, other, method, sound, flag⟩
    have listed : (⟨d.name.name, m⟩ : ClassMethod) ∈ p.classMethods settings :=
      List.mem_flatMap.2 ⟨d, List.mem_cons_of_mem _ declared, List.mem_map_of_mem method⟩
    refine List.mem_map.2 ⟨⟨d.name.name, m⟩, List.mem_filter.2 ⟨List.mem_filter.2 ⟨listed, ?_⟩, ?_⟩, rfl⟩
    · exact decide_eq_true ⟨other, sound⟩
    · exact decide_eq_true ⟨rfl, flag⟩

section Tables

variable (small : p.classes.length < UInt32.size - 5) {id : TypeId} {c : ClassType}
  (held : (p.resolveAlone settings).table.class? id = some c)
include small held

theorem fields_voidless_iff : (∀ f ∈ c.fields.toList, f.type ≠ .void) ↔
    ∀ f ∈ lastPerKey (·.name.name) (p.fieldDecls c.name), f.type.spelling ≠ "void" := by
  rw [toList_fields_resolveAlone small held, List.forall_mem_map]
  simp only [ne_eq, FieldDecl.type_field_eq_void_iff p.hasBuiltins_seed (size_seed_le_of_few small)]

/-- Methods that are replaced have the parameter types of those that replace them. -/
theorem params_voidless_iff (isStatic : Bool) :
    (∀ m ∈ (c.methodTable isStatic).toList, ∀ q ∈ m.params, q.type ≠ .void) ↔
      ∀ m ∈ p.soundMethodsOf settings c.name isStatic, ∀ q ∈ m.params, q.type.spelling ≠ "void" := by
  rw [toList_methodTable_resolveAlone settings small held, List.forall_mem_map]
  simp only [MethodDecl.params_described_iff p.hasBuiltins_seed (size_seed_le_of_few small)]
  constructor
  · intro kept m mem q param void
    obtain ⟨last, memLast, outline⟩ := exists_mem_lastPerKey MethodDecl.outline mem
    have spellings : last.params.map (·.type.spelling) = m.params.map (·.type.spelling) := congrArg (·.2.2) outline
    have written : "void" ∈ last.params.map (·.type.spelling) := by
      rw [spellings]
      exact List.mem_map.2 ⟨q, param, void⟩
    obtain ⟨q', param', void'⟩ := List.mem_map.1 written
    exact kept last memLast q' param' void'
  · exact fun all m mem => all m (mem_of_mem_lastPerKey MethodDecl.outline mem)

end Tables

/-- **Where the type without values gets to.** -/
theorem voidless_resolveAlone_iff (small : p.classes.length < UInt32.size - 5) :
    (∀ id c, (p.resolveAlone settings).table.class? id = some c → c.Voidless) ↔ p.VoidFree := by
  constructor
  · intro all
    constructor
    · intro name declared other
      obtain ⟨id, c, -, held, rfl⟩ := exists_class?_resolveAlone settings small declared other
      exact (fields_voidless_iff settings small held).1 (all id c held).fields
    · intro d declared other m method sound q param
      obtain ⟨id, c, -, held, name⟩ := exists_class?_resolveAlone settings small (mem_names_of_mem declared) other
      have sounds : m ∈ p.soundMethodsOf settings c.name m.isStatic :=
        (mem_soundMethodsOf_iff settings (List.ne_nil_of_mem param)).2
          ⟨d, declared, name.symm, name ▸ other, method, sound, rfl⟩
      exact (params_voidless_iff settings small held _).1 ((all id c held).params _) m sounds q param
  · intro free id c held
    obtain ⟨found, -⟩ := exists_entered_of_class?_resolveAlone held
    obtain ⟨declared, other⟩ := declared_of_lookupClass small found
    refine ⟨(fields_voidless_iff settings small held).2 (free.fields c.name declared other), fun isStatic => ?_⟩
    refine (params_voidless_iff settings small held isStatic).2 fun m mem q param => ?_
    obtain ⟨d, written, name, -, method, sound, -⟩ :=
      (mem_soundMethodsOf_iff settings (List.ne_nil_of_mem param)).1 mem
    exact free.params d written (name ▸ other) m method sound q param

end Program

namespace Program

/-- A class with a field and a parameter that are spelled like the type without values. -/
def voidMembers : Program :=
  let void (offset : Nat) : TypeExpr := ⟨.named ⟨"void", ⟨offset, 4⟩⟩, ⟨offset, 4⟩, none⟩
  let value : ParamDecl := { type := void 46, name := ⟨"value", ⟨51, 5⟩⟩ }
  let put : MethodDecl := { name := ⟨"put", ⟨42, 3⟩⟩, returnType := ⟨.int, ⟨38, 3⟩, none⟩, params := [value] }
  { main := { name := ⟨"Main", ⟨6, 4⟩⟩ }
    classes := [
      { name := ⟨"Cell", ⟨17, 4⟩⟩, fields := [{ type := void 24, name := ⟨"content", ⟨29, 7⟩⟩ }], methods := [put] }] }

/-- Both get the type without values, and nothing is reported. -/
theorem voidless_resolveAlone_voidMembers :
    let r := voidMembers.resolveAlone {}
    (r.table.class? (.ofPosition 6)).map (·.fields.toList) = some [⟨"content", .void, .ofPosition 6⟩] ∧
      ((r.table.class? (.ofPosition 6)).bind (·.method? ⟨"put", [.void]⟩)).map (·.params) =
        some [⟨"value", .void, 1⟩] ∧
      r.diagnostics = [] := by
  decide +kernel

end Program
end MemberResolution

import Mathlib.Data.List.Nodup
import MemberResolution.Proofs.Entering
import MemberResolution.Proofs.Seeding

/-!
# Sessions

A session works on one table, from the builtin types on: it declares classes
and resolves programs, in any order. Whatever it does, the classes of its table
stay sound (`sound_steps`): each member belongs to the class that holds it,
stands in the right table under a key of its own, and mentions types of the
table only, which are known ones in a method.
-/

namespace MemberResolution
set_option autoImplicit false

/-- What a session does next. -/
inductive SessionStep where
  /-- A class is declared; nothing happens if its name is taken. -/
  | declare (name : String) (isStatic : Bool)
  | resolve (settings : Settings) (program : Program)

def SessionStep.apply (t : TypeTable) : SessionStep → TypeTable
  | declare name isStatic => t.declareIfNew name isStatic
  | resolve settings program => (program.resolve settings t).table

/-- The table after a session that starts from the builtin types. -/
def TypeTable.session (steps : List SessionStep) : TypeTable := steps.foldl SessionStep.apply .builtins

/-- The positions of the parameters of each method fit into a 32-bit word. -/
def Program.FewParameters (p : Program) : Prop := ∀ d ∈ p.classes, ∀ m ∈ d.methods, m.params.length < UInt32.size

/-- All programs that a step resolves have few parameters. -/
def SessionStep.FewParameters : SessionStep → Prop
  | declare _ _ => True
  | resolve _ program => program.FewParameters

/-! ## Sound classes -/

/-- A method in the tables of the class `id`. -/
structure Method.SoundIn (t : TypeTable) (id : TypeId) (m : Method) : Prop where
  owner : m.owner = id
  /-- The result type and the parameter types are known types of the table. -/
  types : ∀ type ∈ m.returnType :: m.paramTypes, type ≠ .unknown ∧ (t.get? type).isSome
  paramNames : (m.params.map Parameter.name).Nodup
  /-- Parameters count from 1 without a gap. -/
  indices : m.params.map (·.index.toNat) = List.range' 1 m.params.length

/-- The class `id` of a table, with its members and its base. -/
structure ClassType.SoundIn (t : TypeTable) (id : TypeId) (c : ClassType) : Prop where
  fields : ∀ f ∈ c.fields.toList, f.owner = id ∧ (t.get? f.type).isSome
  fieldNames : (c.fields.toList.map Field.name).Nodup
  methods : ∀ isStatic, ∀ m ∈ (c.methodTable isStatic).toList, m.isStatic = isStatic ∧ m.SoundIn t id
  methodKeys : ∀ isStatic, ((c.methodTable isStatic).toList.map fun m => (m.name, m.paramTypes)).Nodup
  base : ∀ b, c.base = some b → (t.class? b).isSome

/-- Every class of the table is sound. -/
def TypeTable.Sound (t : TypeTable) : Prop := ∀ id c, t.class? id = some c → c.SoundIn t id

/-- The types and the classes of one table are types and classes of another. -/
structure TypeTable.Grows (s t : TypeTable) : Prop where
  types : ∀ id, (s.get? id).isSome → (t.get? id).isSome
  classes : ∀ id, (s.class? id).isSome → (t.class? id).isSome

section Growth

variable {s t : TypeTable} (grows : s.Grows t) {id : TypeId}
include grows

theorem Method.SoundIn.grow {m : Method} (sound : m.SoundIn s id) : m.SoundIn t id where
  owner := sound.owner
  types := fun type mem => ⟨(sound.types type mem).1, grows.types type (sound.types type mem).2⟩
  paramNames := sound.paramNames
  indices := sound.indices

theorem ClassType.SoundIn.grow {c : ClassType} (sound : c.SoundIn s id) : c.SoundIn t id where
  fields := fun f mem => ⟨(sound.fields f mem).1, grows.types _ (sound.fields f mem).2⟩
  fieldNames := sound.fieldNames
  methods := fun isStatic m mem => ⟨(sound.methods isStatic m mem).1, (sound.methods isStatic m mem).2.grow grows⟩
  methodKeys := sound.methodKeys
  base := fun b linked => grows.classes b (sound.base b linked)

end Growth

/-- The keys of a method table are the names with the parameter types. -/
theorem ClassType.nodup_methodKeys (c : ClassType) (isStatic : Bool) :
    ((c.methodTable isStatic).toList.map fun m => (m.name, m.paramTypes)).Nodup := by
  have pair : Function.Injective fun k : MethodKey => (k.name, k.params) := by
    rintro ⟨name, params⟩ ⟨other, others⟩ same
    cases same
    rfl
  have keys := List.Nodup.map pair (c.methodTable isStatic).distinct
  rwa [List.map_map] at keys

theorem ClassType.soundIn_placeholder (t : TypeTable) (id : TypeId) (name : String) (isStatic : Bool) :
    ClassType.SoundIn t id { name, isStatic } where
  fields := fun f mem => by cases mem
  fieldNames := List.nodup_nil
  methods := fun s m mem => by cases s <;> cases mem
  methodKeys := ClassType.nodup_methodKeys _
  base := fun b linked => by cases linked

/-! ## What a run enters is sound -/

section Entered

variable {t : TypeTable} (whole : t.HasBuiltins) (small : t.size < UInt32.size)
include whole small

/-- An expression stands for a type of the table, if only for the placeholder. -/
theorem TypeExpr.isSome_get?_resolve (e : TypeExpr) : (t.get? (e.resolve t)).isSome := by
  have five := whole.five_le_size
  have builtin : ∀ id : TypeId, id.position < 5 → (t.get? id).isSome := fun id first =>
    TypeTable.isSome_get?_iff.2 (Nat.lt_of_lt_of_le first five)
  unfold resolve
  split
  · next ident _ =>
    cases found : t.lookup ident.name with
    | none => exact builtin .unknown (by decide)
    | some id =>
      obtain ⟨entity, entry, -⟩ := TypeTable.getElem?_of_lookup (Nat.le_of_lt small) found
      rw [Option.getD_some, TypeTable.get?, entry]
      rfl
  · exact builtin .intArray (by decide)
  · exact builtin .int (by decide)
  · exact builtin .boolean (by decide)

theorem MethodDecl.soundIn_of_method? {d : MethodDecl} {id : TypeId} {m : Method}
    (few : d.params.length < UInt32.size) (resolved : d.method? t id = some m) : m.SoundIn t id := by
  unfold method? at resolved
  split at resolved
  · next sound =>
    obtain ⟨known, names⟩ := sound
    cases resolved
    have types : ∀ e ∈ d.typeExprs, e.resolve t ≠ .unknown ∧ (t.get? (e.resolve t)).isSome := by
      intro e mem
      have here := List.all_eq_true.1 known e mem
      rw [Bool.not_eq_true', ← Bool.not_eq_true, TypeId.isUnknown_iff] at here
      exact ⟨here, e.isSome_get?_resolve whole small⟩
    refine ⟨rfl, ?_, ?_, ?_⟩
    · intro type mem
      rcases List.mem_cons.1 mem with rfl | mem
      · exact types d.returnType List.mem_cons_self
      · rw [d.paramTypes_described, List.mem_map] at mem
        obtain ⟨q, param, rfl⟩ := mem
        exact types q.type (List.mem_cons_of_mem _ (List.mem_map_of_mem param))
    · rw [d.params_described, d.map_name_parameters]
      exact names
    · have length : (d.parameters t).length = d.params.length := by simp [MethodDecl.parameters]
      rw [d.params_described, d.map_index_parameters t few, length]
  · cases resolved

/-- What a run makes of a sound class is sound. -/
theorem ClassType.SoundIn.entered {settings : Settings} {p : Program} (few : p.FewParameters) {id : TypeId}
    {c : ClassType} (sound : c.SoundIn t id) : (p.entered settings t id c).SoundIn t id where
  fields := by
    intro f mem
    rw [p.fields_entered] at mem
    rcases OrderedTable.mem_of_mem_insertMany mem with old | new
    · exact sound.fields f old
    · obtain ⟨d, -, mem⟩ := List.mem_flatMap.1 new
      obtain ⟨field, -, rfl⟩ := List.mem_map.1 mem
      exact ⟨rfl, field.type.isSome_get?_resolve whole small⟩
  fieldNames := (p.entered settings t id c).fields.distinct
  methods := by
    intro isStatic m mem
    rw [p.methodTable_entered] at mem
    rcases OrderedTable.mem_of_mem_insertMany mem with old | new
    · exact sound.methods isStatic m old
    · obtain ⟨mem, flag⟩ := List.mem_filter.1 new
      refine ⟨of_decide_eq_true flag, ?_⟩
      rcases List.mem_append.1 mem with entry | member
      · unfold Program.entryFor at entry
        split at entry
        · rw [List.mem_singleton.1 entry]
          have void : (t.get? .void).isSome :=
            TypeTable.isSome_get?_iff.2 (Nat.lt_of_lt_of_le (by decide) whole.five_le_size)
          refine ⟨rfl, ?_, List.nodup_nil, rfl⟩
          intro type mem
          rw [List.mem_singleton.1 mem]
          exact ⟨show TypeId.void ≠ .unknown by decide, void⟩
        · cases entry
      · obtain ⟨d, declared, mem⟩ := List.mem_flatMap.1 member
        obtain ⟨method, mem, resolved⟩ := List.mem_filterMap.1 mem
        exact method.soundIn_of_method? whole small (few d (List.mem_of_mem_filter declared) method mem) resolved
  methodKeys := ClassType.nodup_methodKeys _
  base := by
    intro b linked
    rw [p.base_entered, Option.or_eq_some_iff] at linked
    rcases linked with new | ⟨-, old⟩
    · obtain ⟨d, -, found⟩ := List.exists_of_findSome?_eq_some new
      obtain ⟨base, -, found⟩ := Option.bind_eq_some_iff.1 found
      exact TypeTable.isSome_class?_of_lookupClass found
    · exact sound.base b old

end Entered

/-! ## One step -/

theorem TypeTable.HasBuiltins.resolve {t : TypeTable} (whole : t.HasBuiltins) (settings : Settings) (p : Program) :
    (p.resolve settings t).table.HasBuiltins :=
  p.resolve_invariant (fun _ id f _ held => held.modifyClass id f) whole settings

namespace SessionStep

variable (t : TypeTable) (step : SessionStep)

theorem size_le_size_apply : t.size ≤ (step.apply t).size := by
  cases step with
  | declare name isStatic => exact t.size_le_size_declareIfNew name isStatic
  | resolve settings program => exact Nat.le_of_eq (program.sameHeads_resolve settings t).size.symm

theorem grows_apply : t.Grows (step.apply t) := by
  have types : ∀ id, (t.get? id).isSome → ((step.apply t).get? id).isSome := fun id held =>
    TypeTable.isSome_get?_iff.2 (Nat.lt_of_lt_of_le (TypeTable.isSome_get?_iff.1 held) (step.size_le_size_apply t))
  refine ⟨types, fun id held => ?_⟩
  cases step with
  | declare name isStatic =>
    have known : (t.get? id).isSome := by
      cases entity : t.get? id with
      | none => rw [TypeTable.class?, entity] at held; cases held
      | some e => rfl
    show ((t.declareIfNew name isStatic).class? id).isSome
    rw [TypeTable.class?, t.get?_declareIfNew name isStatic known]
    exact held
  | resolve settings program =>
    show ((program.resolve settings t).table.class? id).isSome
    rw [(program.sameHeads_resolve settings t).isSome_class?]
    exact held

variable {t step}

theorem hasBuiltins_apply (whole : t.HasBuiltins) : (step.apply t).HasBuiltins := by
  cases step with
  | declare name isStatic => exact whole.declareIfNew name isStatic
  | resolve settings program => exact whole.resolve settings program

/-- One step keeps all classes sound. -/
theorem sound_apply (whole : t.HasBuiltins) (small : t.size < UInt32.size) (few : step.FewParameters)
    (sound : t.Sound) : (step.apply t).Sound := by
  intro id c held
  have grows := step.grows_apply t
  cases step with
  | declare name isStatic =>
    rcases t.class?_declareIfNew name isStatic held with old | ⟨-, -, rfl⟩
    · exact (sound id c old).grow grows
    · exact ClassType.soundIn_placeholder _ id name isStatic
  | resolve settings program =>
    have left : (program.resolve settings t).table.class? id = some c := held
    rw [program.class?_resolve] at left
    obtain ⟨before, old, rfl⟩ := Option.map_eq_some_iff.1 left
    exact ((sound id before old).entered whole small few).grow grows

end SessionStep

/-! ## Whole sessions -/

theorem TypeTable.size_le_size_steps (steps : List SessionStep) (t : TypeTable) :
    t.size ≤ (steps.foldl SessionStep.apply t).size := by
  induction steps generalizing t with
  | nil => exact Nat.le_refl _
  | cons step rest ih => exact Nat.le_trans (step.size_le_size_apply t) (ih (step.apply t))

/-- Steps keep all classes sound one after the other. -/
theorem TypeTable.sound_steps (steps : List SessionStep) (few : ∀ step ∈ steps, step.FewParameters) {t : TypeTable}
    (whole : t.HasBuiltins) (small : (steps.foldl SessionStep.apply t).size < UInt32.size) (sound : t.Sound) :
    (steps.foldl SessionStep.apply t).Sound := by
  induction steps generalizing t with
  | nil => exact sound
  | cons step rest ih =>
    have first : t.size < UInt32.size := Nat.lt_of_le_of_lt (size_le_size_steps (step :: rest) t) small
    have next := SessionStep.sound_apply whole first (few step List.mem_cons_self) sound
    exact ih (fun other mem => few other (List.mem_cons_of_mem step mem)) (SessionStep.hasBuiltins_apply whole) small
      next

/-- **Soundness of a session.** Declarations and runs, in whatever order, leave every class sound. -/
theorem TypeTable.sound_session (steps : List SessionStep) (few : ∀ step ∈ steps, step.FewParameters)
    (small : (session steps).size < UInt32.size) : (session steps).Sound := by
  have start : builtins.Sound := by
    intro id c held
    rw [class?_builtins] at held
    cases held
  exact sound_steps steps few (List.prefix_refl _) small start

/-- A declaration, a run over a class that is declared twice and one that is not in the table, a declaration of the
latter, and the same run again. -/
def SessionStep.interleaved : List SessionStep :=
  let atIdent : Ident := ⟨"at", ⟨40, 2⟩⟩
  let index : ParamDecl := { type := ⟨.int, ⟨43, 3⟩, none⟩, name := ⟨"index", ⟨47, 5⟩⟩ }
  let cell : FieldDecl := { type := ⟨.named ⟨"Later", ⟨20, 5⟩⟩, ⟨20, 5⟩, none⟩, name := ⟨"cell", ⟨26, 4⟩⟩ }
  let get : MethodDecl :=
    { name := atIdent, returnType := ⟨.named ⟨"List", ⟨35, 4⟩⟩, ⟨35, 4⟩, none⟩, params := [index] }
  let twice : MethodDecl :=
    { name := atIdent, isStatic := true, returnType := ⟨.intArray, ⟨60, 5⟩, none⟩, params := [index, index] }
  let program : Program :=
    { main := { name := ⟨"List", ⟨6, 4⟩⟩ }
      classes := [
        { name := ⟨"List", ⟨13, 4⟩⟩, base := some ⟨"List", ⟨8, 4⟩⟩, fields := [cell], methods := [get, twice] },
        { name := ⟨"Later", ⟨80, 5⟩⟩, base := some ⟨"List", ⟨90, 4⟩⟩, fields := [cell] },
        { name := ⟨"List", ⟨99, 4⟩⟩, isStatic := true, base := some ⟨"Later", ⟨105, 5⟩⟩,
          fields := [cell, cell], methods := [get] }] }
  [.declare "List" false, .resolve {} program, .declare "Later" true, .declare "int" false, .resolve {} program]

theorem TypeTable.sound_session_interleaved :
    (∀ step ∈ SessionStep.interleaved, step.FewParameters) ∧ (session SessionStep.interleaved).size < UInt32.size ∧
      (session SessionStep.interleaved).Sound := by
  have few : ∀ step ∈ SessionStep.interleaved, step.FewParameters := by
    simp only [SessionStep.interleaved, List.forall_mem_cons, SessionStep.FewParameters, Program.FewParameters]
    simp [UInt32.size]
  have small : (session SessionStep.interleaved).size < UInt32.size := by decide +kernel
  exact ⟨few, small, sound_session SessionStep.interleaved few small⟩

end MemberResolution

import MemberResolution.Proofs.Insertion
import MemberResolution.Proofs.Reading
import MemberResolution.Proofs.Seeding

/-!
# What a run enters

A run leaves every type as it is except the classes that it has a declaration
for, or that are the main class. Such a class gets, table by table, the members
of its declarations in source order, the entry method of a main class before
all others, and the base of the last declaration that has one
(`class?_resolve` with `fields_entered`, `methodTable_entered` and
`base_entered`).
-/

namespace MemberResolution
set_option autoImplicit false

namespace TypeEntity

@[simp] theorem mapClass_id (e : TypeEntity) : e.mapClass (fun c => c) = e := by
  cases e <;> rfl

theorem mapClass_mapClass (f g : ClassType → ClassType) (e : TypeEntity) :
    (e.mapClass f).mapClass g = e.mapClass fun c => g (f c) := by
  cases e <;> rfl

end TypeEntity

theorem TypeTable.modifyClass_id (t : TypeTable) (id : TypeId) : t.modifyClass id (fun c => c) = t := by
  simp only [modifyClass, TypeEntity.mapClass_id]
  show TypeTable.mk (t.registrations.modify _ fun r => r) = t
  exact congrArg TypeTable.mk (List.modify_id _ _)

theorem TypeTable.modifyClass_modifyClass (t : TypeTable) (id : TypeId) (f g : ClassType → ClassType) :
    (t.modifyClass id f).modifyClass id g = t.modifyClass id fun c => g (f c) := by
  simp only [modifyClass, List.modify_modify_eq, TypeEntity.mapClass_mapClass, Function.comp_def]

namespace ClassType

/-- The class with methods inserted one after the other. -/
def insertMethods (c : ClassType) (methods : List Method) : ClassType := methods.foldl insertMethod c

/-- Each method goes to the table for its flag, in order. -/
theorem methodTable_insertMethods (c : ClassType) (ms : List Method) (isStatic : Bool) :
    (c.insertMethods ms).methodTable isStatic =
      (c.methodTable isStatic).insertMany (ms.filter (·.isStatic = isStatic)) := by
  induction ms generalizing c with
  | nil => rfl
  | cons m rest ih =>
    show ((c.insertMethod m).insertMethods rest).methodTable isStatic = _
    rw [ih, methodTable_insertMethod, List.filter_cons]
    by_cases flag : m.isStatic = isStatic
    · simp [flag]
    · simp [flag, Ne.symm flag]

@[simp] theorem fields_insertMethods (c : ClassType) (ms : List Method) :
    (c.insertMethods ms).fields = c.fields := by
  induction ms generalizing c with
  | nil => rfl
  | cons m rest ih => exact (ih (c.insertMethod m)).trans (fields_insertMethod c m)

@[simp] theorem base_insertMethods (c : ClassType) (ms : List Method) :
    (c.insertMethods ms).base = c.base := by
  induction ms generalizing c with
  | nil => rfl
  | cons m rest ih => exact (ih (c.insertMethod m)).trans (base_insertMethod c m)

@[simp] theorem head_insertMethods (c : ClassType) (ms : List Method) :
    (c.insertMethods ms).head = c.head := head_foldl head_insertMethod ms c

/-- A class is known by its head, its base and its three member tables. -/
theorem eq_of_tables {a b : ClassType} (head : a.head = b.head) (base : a.base = b.base)
    (fields : a.fields = b.fields) (methods : ∀ s, a.methodTable s = b.methodTable s) : a = b := by
  have instances : a.methods = b.methods := methods false
  have statics : a.staticMethods = b.staticMethods := methods true
  cases a
  cases b
  simp_all [ClassType.head]

end ClassType

/-! ## The parameters of a method -/

namespace MethodDecl

variable (t : TypeTable) (d : MethodDecl)

theorem map_name_parameters : (d.parameters t).map Parameter.name = d.paramNames := by
  have firsts : (d.params.zipIdx.map Prod.fst).map (·.name.name) = d.paramNames := by
    rw [List.zipIdx_map_fst, paramNames]
  rw [← firsts, parameters, List.map_map, List.map_map]
  rfl

theorem map_type_parameters : (d.parameters t).map Parameter.type = d.params.map (·.type.resolve t) := by
  have firsts : (d.params.zipIdx.map Prod.fst).map (·.type.resolve t) = d.params.map (·.type.resolve t) := by
    rw [List.zipIdx_map_fst]
  rw [← firsts, parameters, List.map_map, List.map_map]
  rfl

@[simp] theorem params_described (id : TypeId) : (d.described t id).params = d.parameters t := rfl

theorem paramTypes_described (id : TypeId) : (d.described t id).paramTypes = d.params.map (·.type.resolve t) :=
  d.map_type_parameters t

/-- Parameters count from 1 without a gap, as long as their positions fit into a word. -/
theorem map_index_parameters (few : d.params.length < UInt32.size) :
    (d.parameters t).map (·.index.toNat) = List.range' 1 d.params.length := by
  apply List.ext_getElem (by simp [parameters])
  intro i left right
  have inside : i < 4294967295 := by
    have size : UInt32.size = 4294967296 := rfl
    simp only [parameters, List.length_map, List.length_zipIdx] at left
    omega
  simp only [parameters, List.getElem_map, List.getElem_zipIdx, List.getElem_range']
  rw [UInt32.toNat_add]
  simp
  omega

end MethodDecl

/-! ## One declaration -/

namespace ClassDecl

/-- The fields that the declaration enters into the class `id`. -/
def fieldsFor (t : TypeTable) (id : TypeId) (d : ClassDecl) : List Field := d.fields.map (·.field t id)

/-- The methods that the declaration enters into the class `id`. -/
def methodsFor (t : TypeTable) (id : TypeId) (d : ClassDecl) : List Method :=
  d.methods.filterMap (·.method? t id)

variable (t : TypeTable) (id : TypeId) (d : ClassDecl) (c : ClassType)

theorem enterFields_eq : d.enterFields t id c = { c with fields := c.fields.insertMany (d.fieldsFor t id) } := by
  unfold enterFields fieldsFor
  induction d.fields generalizing c with
  | nil => rfl
  | cons f rest ih => rw [List.foldl_cons, ih]; rfl

theorem enterMethods_eq : d.enterMethods t id c = c.insertMethods (d.methodsFor t id) := by
  unfold enterMethods methodsFor
  induction d.methods generalizing c with
  | nil => rfl
  | cons m rest ih =>
    rw [List.foldl_cons, ih, List.filterMap_cons, MethodDecl.enter]
    cases m.method? t id with
    | none => rfl
    | some method => rfl

theorem fields_enter : (d.enter t id c).fields = c.fields.insertMany (d.fieldsFor t id) := by
  rw [enter, enterMethods_eq, ClassType.fields_insertMethods, enterFields_eq]
  rfl

theorem methodTable_enter (isStatic : Bool) : (d.enter t id c).methodTable isStatic =
    (c.methodTable isStatic).insertMany ((d.methodsFor t id).filter (·.isStatic = isStatic)) := by
  rw [enter, enterMethods_eq, ClassType.methodTable_insertMethods, enterFields_eq]
  rfl

theorem base_enter : (d.enter t id c).base = (d.base? t).or c.base := by
  rw [enter, enterMethods_eq, ClassType.base_insertMethods, enterFields_eq]
  rfl

end ClassDecl

/-! ## All declarations of a class -/

namespace Program

/-- The declarations that are entered into the class `id`. -/
def declarationsOf (t : TypeTable) (p : Program) (id : TypeId) : List ClassDecl :=
  p.classes.filter fun d => t.lookupClass d.name.name = some id

/-- The declarations of a class are those of its name. -/
theorem declarationsOf_eq_filter {t : TypeTable} (small : t.size ≤ UInt32.size) {name : String} {id : TypeId}
    (found : t.lookupClass name = some id) (p : Program) :
    p.declarationsOf t id = p.classes.filter (·.name.name = name) := by
  simp only [declarationsOf, TypeTable.lookupClass_eq_iff small found]

/-- The entry method, if `id` is the main class. -/
def entryFor (settings : Settings) (t : TypeTable) (p : Program) (id : TypeId) : List Method :=
  if t.lookupClass p.main.name.name = some id then [settings.entry id] else []

def fieldsOf (t : TypeTable) (p : Program) (id : TypeId) : List Field :=
  (p.declarationsOf t id).flatMap (·.fieldsFor t id)

def methodsOf (settings : Settings) (t : TypeTable) (p : Program) (id : TypeId) : List Method :=
  p.entryFor settings t id ++ (p.declarationsOf t id).flatMap (·.methodsFor t id)

/-- The base that the last declaration with a base names. -/
def baseOf (t : TypeTable) (p : Program) (id : TypeId) : Option TypeId :=
  (p.declarationsOf t id).reverse.findSome? (·.base? t)

/-- The class `id` as a run leaves it. -/
def entered (settings : Settings) (t : TypeTable) (p : Program) (id : TypeId) (c : ClassType) : ClassType :=
  (p.declarationsOf t id).foldl (fun c d => d.enter t id c) (c.insertMethods (p.entryFor settings t id))

end Program

namespace TypeTable

theorem get?_enterClass (t : TypeTable) (d : ClassDecl) (id : TypeId) :
    (t.enterClass d).get? id = (t.get? id).map (·.mapClass fun c =>
      if t.lookupClass d.name.name = some id then d.enter t id c else c) := by
  unfold enterClass
  cases found : t.lookupClass d.name.name with
  | none => simp
  | some other =>
    rw [get?_modifyClass]
    by_cases same : id = other
    · simp [same]
    · simp [same, Ne.symm same]

/-- Declarations are read in the table that the sweep starts from. -/
theorem get?_enterClasses {s t : TypeTable} (same : s.SameHeads t) (ds : List ClassDecl) (id : TypeId) :
    (ds.foldl enterClass s).get? id = (s.get? id).map (·.mapClass fun c =>
      (ds.filter fun d => t.lookupClass d.name.name = some id).foldl (fun c d => d.enter t id c) c) := by
  induction ds generalizing s with
  | nil => simp
  | cons d rest ih =>
    have next := (s.sameHeads_enterClass d).trans same
    rw [List.foldl_cons, ih next, get?_enterClass, Option.map_map, same.lookupClass, d.enter_congr same]
    apply Option.map_congr
    intro e _
    rw [Function.comp_apply, TypeEntity.mapClass_mapClass, List.filter_cons]
    by_cases here : t.lookupClass d.name.name = some id
    · simp [here]
    · simp [here]

end TypeTable

namespace Program

variable (settings : Settings) (t : TypeTable) (p : Program) (id : TypeId)

theorem get?_enterMain : (p.main.enter settings t).get? id =
    (t.get? id).map (·.mapClass fun c => c.insertMethods (p.entryFor settings t id)) := by
  unfold MainClass.enter entryFor
  cases found : t.lookupClass p.main.name.name with
  | none => simp [ClassType.insertMethods]
  | some other =>
    rw [TypeTable.get?_modifyClass]
    by_cases same : id = other
    · simp [same, ClassType.insertMethods]
    · simp [same, Ne.symm same, ClassType.insertMethods]

/-- **What a run leaves under a handle.** -/
theorem get?_resolve : (p.resolve settings t).table.get? id =
    (t.get? id).map (·.mapClass (p.entered settings t id)) := by
  show (p.classes.foldl TypeTable.enterClass (p.main.enter settings t)).get? id = _
  rw [TypeTable.get?_enterClasses (p.main.sameHeads_enter settings t), get?_enterMain, Option.map_map]
  apply Option.map_congr
  intro e _
  rw [Function.comp_apply, TypeEntity.mapClass_mapClass]
  rfl

theorem class?_resolve : (p.resolve settings t).table.class? id =
    (t.class? id).map (p.entered settings t id) := by
  rw [TypeTable.class?, get?_resolve, TypeTable.class?]
  cases t.get? id with
  | none => rfl
  | some e => exact e.class?_mapClass _

variable (c : ClassType)

theorem fields_entered : (p.entered settings t id c).fields = c.fields.insertMany (p.fieldsOf t id) := by
  have sweep : ∀ (ds : List ClassDecl) (c : ClassType), (ds.foldl (fun c d => d.enter t id c) c).fields =
      c.fields.insertMany (ds.flatMap (·.fieldsFor t id)) := by
    intro ds
    induction ds with
    | nil => intro c; rfl
    | cons d rest ih =>
      intro c
      rw [List.foldl_cons, ih, d.fields_enter, List.flatMap_cons, OrderedTable.insertMany_append]
  rw [entered, sweep, ClassType.fields_insertMethods, fieldsOf]

theorem methodTable_entered (isStatic : Bool) : (p.entered settings t id c).methodTable isStatic =
    (c.methodTable isStatic).insertMany ((p.methodsOf settings t id).filter (·.isStatic = isStatic)) := by
  have sweep : ∀ (ds : List ClassDecl) (c : ClassType),
      (ds.foldl (fun c d => d.enter t id c) c).methodTable isStatic = (c.methodTable isStatic).insertMany
        ((ds.flatMap (·.methodsFor t id)).filter (·.isStatic = isStatic)) := by
    intro ds
    induction ds with
    | nil => intro c; rfl
    | cons d rest ih =>
      intro c
      rw [List.foldl_cons, ih, d.methodTable_enter, List.flatMap_cons, List.filter_append,
        OrderedTable.insertMany_append]
  rw [entered, sweep, ClassType.methodTable_insertMethods, methodsOf, List.filter_append,
    OrderedTable.insertMany_append]

theorem base_entered : (p.entered settings t id c).base = (p.baseOf t id).or c.base := by
  have sweep : ∀ (ds : List ClassDecl) (c : ClassType), (ds.foldl (fun c d => d.enter t id c) c).base =
      (ds.reverse.findSome? (·.base? t)).or c.base := by
    intro ds
    induction ds with
    | nil => intro c; rfl
    | cons d rest ih =>
      intro c
      rw [List.foldl_cons, ih, d.base_enter, List.reverse_cons, List.findSome?_append,
        List.findSome?_singleton, Option.or_assoc]
  rw [entered, sweep, ClassType.base_insertMethods, baseOf]

theorem head_entered : (p.entered settings t id c).head = c.head := by
  rw [entered, ClassType.head_foldl fun c d => d.head_enter t id c, ClassType.head_insertMethods]

/-! ## A run alone -/

/-- A class that a run alone leaves is found under its name, and all its members have been entered. -/
theorem exists_entered_of_class?_resolveAlone {settings : Settings} {p : Program} {id : TypeId} {c : ClassType}
    (held : (p.resolveAlone settings).table.class? id = some c) : p.seed.lookupClass c.name = some id ∧
      ∃ declaration, c = p.entered settings p.seed id (.placeholder declaration) := by
  rw [resolveAlone, class?_resolve] at held
  obtain ⟨before, declared, rfl⟩ := Option.map_eq_some_iff.1 held
  obtain ⟨declaration, -, rfl⟩ := exists_declared_of_class?_seed p declared
  have name : (p.entered settings p.seed id (.placeholder declaration)).name = declaration.1 :=
    congrArg Prod.fst (p.head_entered settings p.seed id (.placeholder declaration))
  exact ⟨name ▸ p.finds_seed id _ declared, declaration, rfl⟩

/-- A declared name that is not that of a builtin type leads to a class of that name. -/
theorem exists_class?_resolveAlone (settings : Settings) {p : Program} (small : p.classes.length < UInt32.size - 5)
    {name : String} (declared : name ∈ p.names) (other : name ∉ builtinNames) :
    ∃ id c, (p.resolveAlone settings).table.lookupClass name = some id ∧
      (p.resolveAlone settings).table.class? id = some c ∧ c.name = name := by
  obtain ⟨id, found⟩ := exists_lookupClass_seed small declared other
  have there := ((p.sameHeads_resolve settings p.seed).lookupClass name).trans found
  obtain ⟨c, held⟩ := TypeTable.exists_class?_of_lookupClass there
  obtain ⟨own, -⟩ := exists_entered_of_class?_resolveAlone held
  exact ⟨id, c, there, held, TypeTable.lookupClass_injective (size_seed_le_of_few small) own found⟩

end Program
end MemberResolution

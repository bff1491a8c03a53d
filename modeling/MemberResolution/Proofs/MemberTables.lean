import MemberResolution.Proofs.MethodTables

/-!
# Member tables and what was inserted

The three member tables of a class can be told from the members that were
inserted into it. Each table has one entry for each key, where the key first
came up, and the entry is the last member inserted with that key; look-up,
listing and the answers of insertions are different views of the same entries
(`views_ofMembers`). A method clashes with an overload just when its key is
taken, and then the one overload that it clashes with is the one that it
replaces (`clashes_ofMembers`).
-/

namespace MemberResolution
set_option autoImplicit false

universe u v

/-! ## One insertion -/

/-- `a` has come into a list: at its end, or in the place of the one element with its key, which is given back. -/
inductive Filed {α : Type u} {κ : Type v} (key : α → κ) (a : α) : Option α → List α → List α → Prop where
  | new {as : List α} (free : key a ∉ as.map key) : Filed key a none as (as ++ [a])
  | replacing {b : α} {front back : List α} (same : key b = key a)
      (others : key a ∉ (front ++ back).map key) :
      Filed key a (some b) (front ++ b :: back) (front ++ a :: back)

namespace OrderedTable

variable {α : Type u} {κ : Type v} {key : α → κ} [DecidableEq κ]

theorem place_append_of_notMem {a : α} {front : List α} (free : key a ∉ front.map key) (back : List α) :
    place key a (front ++ back) = front ++ place key a back := by
  induction front with
  | nil => rfl
  | cons b rest ih =>
    rw [List.map_cons, List.mem_cons, not_or] at free
    rw [List.cons_append, place, if_neg (Ne.symm free.1), ih free.2, List.cons_append]

/-- An insertion hands back the entry whose place it takes. -/
theorem filed_insert (t : OrderedTable key) (a : α) : Filed key a (t.find? (key a)) t.toList (t.insert a).toList := by
  cases found : t.find? (key a) with
  | none =>
    have free : key a ∉ t.toList.map key := by
      intro mem
      rw [← keys, ← contains_iff, ← isSome_find?, found] at mem
      cases mem
    show Filed key a none t.toList (place key a t.toList)
    rw [place_of_notMem free]
    exact .new free
  | some b =>
    obtain ⟨mem, same⟩ := find?_eq_some_iff.1 found
    obtain ⟨front, back, split⟩ := List.append_of_mem mem
    have distinct := t.distinct
    rw [split, List.map_append, List.map_cons, same, List.nodup_middle, ← List.map_append] at distinct
    have others : key a ∉ (front ++ back).map key := (List.nodup_cons.1 distinct).1
    have before : key a ∉ front.map key := by
      intro mem
      rw [List.map_append] at others
      exact others (List.mem_append_left _ mem)
    show Filed key a (some b) t.toList (place key a t.toList)
    rw [split, place_append_of_notMem before, place, if_pos same]
    exact .replacing same others

theorem map_place_eq_putUnder (a : α) (entries : List α) : (place key a entries).map (fun b => (key b, b)) =
    putUnder (key a) a (entries.map fun b => (key b, b)) := by
  induction entries with
  | nil => rfl
  | cons b rest ih =>
    rw [place, List.map_cons, putUnder]
    by_cases same : key b = key a
    · rw [if_pos same, if_pos same, List.map_cons]
    · rw [if_neg same, if_neg same, List.map_cons, ih]

/-- Keeping the keys beside the entries makes no difference: what stands under a key is an entry with that key. -/
theorem map_insertMany_eq_putUnder (t : OrderedTable key) (entries : List α) :
    (t.insertMany entries).toList.map (fun a => (key a, a)) =
      entries.foldl (fun filed a => putUnder (key a) a filed) (t.toList.map fun a => (key a, a)) := by
  induction entries generalizing t with
  | nil => rfl
  | cons a rest ih => rw [insertMany_cons, ih, List.foldl_cons, ← map_place_eq_putUnder]; rfl

end OrderedTable

/-- The table has one entry for each key among what was inserted, where the key first came up, and it is the last one
inserted with that key. A list that keeps the keys beside the entries has the same ones. -/
structure OrderedTable.KeepsLast {α : Type u} {κ : Type v} {key : α → κ} [DecidableEq κ] (t : OrderedTable key)
    (inserted : List α) : Prop where
  entries : t.toList = lastPerKey key inserted
  keyed : t.toList.map (fun a => (key a, a)) = inserted.foldl (fun filed a => putUnder (key a) a filed) []

theorem OrderedTable.keepsLast_insertMany_empty {α : Type u} {κ : Type v} (key : α → κ) [DecidableEq κ]
    (inserted : List α) : ((∅ : OrderedTable key).insertMany inserted).KeepsLast inserted :=
  ⟨toList_insertMany_empty inserted, map_insertMany_eq_putUnder ∅ inserted⟩

/-! ## Classes and what was inserted into them -/

/-- A member that is inserted into a class. -/
inductive Member where
  | field (field : Field)
  | method (method : Method)

namespace Member

def field? : Member → Option Field
  | field f => some f
  | method _ => none

def method? : Member → Option Method
  | field _ => none
  | method m => some m

end Member

namespace ClassType

def insert (c : ClassType) : Member → ClassType
  | .field f => c.insertField f
  | .method m => c.insertMethod m

/-- A new class into which members have been inserted one after the other. -/
def ofMembers (name : String) (isStatic : Bool) (members : List Member) : ClassType :=
  members.foldl insert { name, isStatic }

theorem fields_foldl_insert (members : List Member) (c : ClassType) :
    (members.foldl insert c).fields = c.fields.insertMany (members.filterMap Member.field?) := by
  induction members generalizing c with
  | nil => rfl
  | cons member rest ih =>
    rw [List.foldl_cons, ih, List.filterMap_cons]
    cases member with
    | field f => rfl
    | method m =>
      show (c.insertMethod m).fields.insertMany _ = _
      rw [fields_insertMethod]
      rfl

theorem methodTable_foldl_insert (members : List Member) (c : ClassType) (isStatic : Bool) :
    (members.foldl insert c).methodTable isStatic =
      (c.methodTable isStatic).insertMany ((members.filterMap Member.method?).filter (·.isStatic = isStatic)) := by
  induction members generalizing c with
  | nil => rfl
  | cons member rest ih =>
    rw [List.foldl_cons, ih, List.filterMap_cons]
    cases member with
    | field f => rfl
    | method m =>
      show ((c.insertMethod m).methodTable isStatic).insertMany _ = _
      rw [methodTable_insertMethod]
      by_cases flag : m.isStatic = isStatic
      · simp [Member.method?, flag]
      · simp [Member.method?, flag, Ne.symm flag]

theorem fields_ofMembers (name : String) (isStatic : Bool) (members : List Member) :
    (ofMembers name isStatic members).fields =
      (∅ : OrderedTable Field.name).insertMany (members.filterMap Member.field?) :=
  fields_foldl_insert members _

theorem methodTable_ofMembers (name : String) (isStatic : Bool) (members : List Member) (s : Bool) :
    (ofMembers name isStatic members).methodTable s =
      (∅ : OrderedTable Method.key).insertMany ((members.filterMap Member.method?).filter (·.isStatic = s)) := by
  have empty : ({ name, isStatic } : ClassType).methodTable s = ∅ := by cases s <;> rfl
  rw [ofMembers, methodTable_foldl_insert, empty]

/-! ## Further insertions -/

/-- Inserting a field hands back the field whose place it takes, and the methods stay. -/
theorem filed_getThenInsertField? (c : ClassType) (f : Field) :
    let r := c.getThenInsertField? f
    Filed Field.name f r.1 c.fields.toList r.2.fields.toList ∧ r.2.methods = c.methods ∧
      r.2.staticMethods = c.staticMethods :=
  ⟨c.fields.filed_insert f, rfl, rfl⟩

/-- Inserting a method hands back the method whose place it takes in the table for its flag; the other table and the
fields stay. -/
theorem filed_getThenInsertMethod? (c : ClassType) (m : Method) :
    let r := c.getThenInsertMethod? m
    Filed Method.key m r.1 (c.methodTable m.isStatic).toList (r.2.methodTable m.isStatic).toList ∧
      r.2.methodTable (!m.isStatic) = c.methodTable (!m.isStatic) ∧ r.2.fields = c.fields := by
  rw [getThenInsertMethod?_eq]
  refine ⟨?_, ?_, c.fields_insertMethod m⟩
  · show Filed Method.key m _ _ ((c.insertMethod m).methodTable m.isStatic).toList
    rw [methodTable_insertMethod, if_pos rfl]
    exact (c.methodTable m.isStatic).filed_insert m
  · show (c.insertMethod m).methodTable (!m.isStatic) = _
    rw [methodTable_insertMethod, if_neg (by simp)]

/-- **The views of a class agree.** Its tables list the last member inserted for each key where the key first came up;
looking a key up finds the listed member that has it; and a further insertion hands back just the member whose place it
takes and leaves the other two tables alone. -/
theorem views_ofMembers (name : String) (isStatic : Bool) (members : List Member) :
    let c := ofMembers name isStatic members
    let methods := members.filterMap Member.method?
    c.fields.KeepsLast (members.filterMap Member.field?) ∧
      c.methods.KeepsLast (methods.filter (·.isStatic = false)) ∧
      c.staticMethods.KeepsLast (methods.filter (·.isStatic = true)) ∧
      (∀ n f, c.field? n = some f ↔ f ∈ c.fields.toList ∧ f.name = n) ∧
      (∀ n, c.hasField n = (c.field? n).isSome) ∧
      (∀ k m, c.method? k = some m ↔ m ∈ c.methods.toList ∧ m.key = k) ∧
      (∀ k m, c.staticMethod? k = some m ↔ m ∈ c.staticMethods.toList ∧ m.key = k) ∧
      (∀ n s, c.methodsNamed n s = (if s then c.staticMethods else c.methods).toList.filter (·.name = n)) ∧
      (∀ f, let r := c.getThenInsertField? f
        Filed Field.name f r.1 c.fields.toList r.2.fields.toList ∧ r.2.methods = c.methods ∧
          r.2.staticMethods = c.staticMethods) ∧
      ∀ m, let r := c.getThenInsertMethod? m
        Filed Method.key m r.1 (c.methodTable m.isStatic).toList (r.2.methodTable m.isStatic).toList ∧
          r.2.methodTable (!m.isStatic) = c.methodTable (!m.isStatic) ∧ r.2.fields = c.fields := by
  intro c methods
  have fields : c.fields = (∅ : OrderedTable Field.name).insertMany (members.filterMap Member.field?) :=
    fields_ofMembers name isStatic members
  have instances : c.methods = (∅ : OrderedTable Method.key).insertMany (methods.filter (·.isStatic = false)) :=
    methodTable_ofMembers name isStatic members false
  have statics : c.staticMethods = (∅ : OrderedTable Method.key).insertMany (methods.filter (·.isStatic = true)) :=
    methodTable_ofMembers name isStatic members true
  refine ⟨?_, ?_, ?_, fun n f => OrderedTable.find?_eq_some_iff, fun n => (c.fields.isSome_find? n).symm,
    fun k m => OrderedTable.find?_eq_some_iff, fun k m => OrderedTable.find?_eq_some_iff, fun n s => rfl,
    c.filed_getThenInsertField?, c.filed_getThenInsertMethod?⟩
  · rw [fields]
    exact OrderedTable.keepsLast_insertMany_empty _ _
  · rw [instances]
    exact OrderedTable.keepsLast_insertMany_empty _ _
  · rw [statics]
    exact OrderedTable.keepsLast_insertMany_empty _ _

/-- A field that comes again stays where its name first came up and has the new type. -/
example :
    let owner : TypeId := .ofPosition 5
    let c := ofMembers "Foo" false
      [.field ⟨"a", .int, owner⟩, .field ⟨"b", .int, owner⟩, .method { name := "a", owner, isStatic := false },
        .field ⟨"a", .boolean, owner⟩]
    c.fields.toList = [⟨"a", .boolean, owner⟩, ⟨"b", .int, owner⟩] ∧ c.methods.size = 1 ∧ c.staticMethods.size = 0 := by
  decide

end ClassType

/-! ## Clashes -/

/-- The overloads that a method clashes with are those that are filed under its key. -/
theorem ClassType.filter_sameSignature (c : ClassType) (m : Method) :
    (c.methodsNamed m.name m.isStatic).filter (·.sameSignature m) = (c.getThenInsertMethod? m).1.toList := by
  have scan : ∀ other ∈ (c.methodTable m.isStatic).toList,
      (other.sameSignature m && decide (other.name = m.name)) = decide (other.key = m.key) := by
    intro other _
    rw [Bool.eq_iff_iff, Bool.and_eq_true, Method.sameSignature_iff, decide_eq_true_eq, decide_eq_true_eq]
    exact and_iff_left_of_imp (congrArg MethodKey.name)
  rw [getThenInsertMethod?_eq, methodsNamed, List.filter_filter, List.filter_congr scan]
  exact filter_eq_toList_find? (c.methodTable m.isStatic).distinct m.key

/-- A declaration gives a method just when its types are known and its parameter names are distinct. -/
theorem MethodDecl.isSome_method?_iff (t : TypeTable) (id : TypeId) (d : MethodDecl) :
    (d.method? t id).isSome = true ↔ (∀ e ∈ d.typeExprs, e.resolve t ≠ .unknown) ∧ d.paramNames.Nodup := by
  have known : d.typesKnown t = true ↔ ∀ e ∈ d.typeExprs, e.resolve t ≠ .unknown := by
    simp only [typesKnown, List.all_eq_true, Bool.not_eq_true', ← Bool.not_eq_true, TypeId.isUnknown_iff, ne_eq]
  rw [method?, ← known]
  split
  · next sound => exact iff_of_true rfl sound
  · next unsound => exact iff_of_false Bool.false_ne_true unsound

/-- A declaration is reported as a repeated method just when entering it replaces one. -/
theorem MethodDecl.methodRepeats_eq_replaced (t : TypeTable) (id : TypeId) (c : ClassType) (d : MethodDecl) :
    d.enter t id c = (d.method? t id).elim c (fun m => (c.getThenInsertMethod? m).2) ∧
      Diagnostic.withCode .methodDuplicates (d.problems t id c) =
        ((d.method? t id).bind fun m => (c.getThenInsertMethod? m).1).toList.map fun _ =>
          ⟨.methodDuplicates c.name d.name.name, d.name.span⟩ := by
  rw [methodRepeats_problems, enter, clashProblems]
  simp only [ClassType.getThenInsertMethod?_eq]
  cases d.method? t id with
  | none => exact ⟨rfl, rfl⟩
  | some m =>
    refine ⟨rfl, ?_⟩
    have clash : c.hasClash m = ((c.methodTable m.isStatic).find? m.key).isSome := by
      rw [Bool.eq_iff_iff, ClassType.hasClash_iff, ← OrderedTable.isSome_find?]
    show (if c.hasClash m = true then _ else _) = ((c.methodTable m.isStatic).find? m.key).toList.map _
    rw [clash]
    cases (c.methodTable m.isStatic).find? m.key <;> rfl

/-- **A clash is a taken key.** Among the overloads of a class one has the signature of `m` just when the key of `m` is
taken, that is when a method with that flag, name and parameter types has been inserted; it is the only one, and
inserting `m` hands it back and takes its place. A declaration whose types are known and whose parameter names are
distinct gives a method, which is inserted, and it is reported as a repeated method just when that replaces a method. -/
theorem ClassType.clashes_ofMembers (name : String) (isStatic : Bool) (members : List Member) :
    let c := ofMembers name isStatic members
    (∀ m, let table := c.methodTable m.isStatic
      let r := c.getThenInsertMethod? m
      ((∃ other ∈ c.methodsNamed m.name m.isStatic, other.sameSignature m = true) ↔ table.contains m.key = true) ∧
        (table.contains m.key = true ↔ r.1.isSome = true) ∧
        (r.1.isSome = true ↔ ∃ other ∈ members.filterMap Member.method?,
          other.isStatic = m.isStatic ∧ other.name = m.name ∧ other.paramTypes = m.paramTypes) ∧
        (c.methodsNamed m.name m.isStatic).filter (·.sameSignature m) = r.1.toList ∧
        Filed Method.key m r.1 table.toList (r.2.methodTable m.isStatic).toList) ∧
      ∀ (t : TypeTable) (id : TypeId) (d : MethodDecl),
        ((d.method? t id).isSome = true ↔ (∀ e ∈ d.typeExprs, e.resolve t ≠ .unknown) ∧ d.paramNames.Nodup) ∧
          d.enter t id c = (d.method? t id).elim c (fun m => (c.getThenInsertMethod? m).2) ∧
          Diagnostic.withCode .methodDuplicates (d.problems t id c) =
            ((d.method? t id).bind fun m => (c.getThenInsertMethod? m).1).toList.map fun _ =>
              ⟨.methodDuplicates c.name d.name.name, d.name.span⟩ := by
  intro c
  refine ⟨fun m => ?_, fun t id d => ⟨d.isSome_method?_iff t id, d.methodRepeats_eq_replaced t id c⟩⟩
  intro table r
  have replaced : r.1 = table.find? m.key := congrArg Prod.fst (c.getThenInsertMethod?_eq m)
  have scan : (∃ other ∈ c.methodsNamed m.name m.isStatic, other.sameSignature m = true) ↔ c.hasClash m = true :=
    List.any_eq_true.symm
  refine ⟨scan.trans hasClash_iff, ?_, ?_, c.filter_sameSignature m, (c.filed_getThenInsertMethod? m).1⟩
  · rw [← OrderedTable.isSome_find?, replaced]
  · rw [replaced, OrderedTable.isSome_find?]
    show ((ofMembers name isStatic members).methodTable m.isStatic).contains m.key = true ↔ _
    rw [methodTable_ofMembers, OrderedTable.contains_insertMany]
    simp only [OrderedTable.contains, OrderedTable.toList_empty, List.any_nil, Bool.false_or, List.any_filter,
      List.any_eq_true, Bool.and_eq_true, decide_eq_true_eq, Method.key, MethodKey.mk.injEq]

end MemberResolution

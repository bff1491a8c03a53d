import MemberResolution.Proofs.NoReports

/-!
# Sound methods

A method declaration is sound where its types are known and its parameter
names are distinct. A run alone enters just the sound methods of classes that
it finds, after the entry method of a main class (`enteredMethods_seed`). What
it enters for each is what the declaration describes (`describes_described`),
and two go to the same place just when they are written with the same outline
in classes of the same name, since known types are the same where they are
spelled the same (`place_eq_iff`).
-/

namespace MemberResolution
set_option autoImplicit false

/-! ## Methods as written -/

/-- A method declaration with the name of the class that it stands in. -/
structure ClassMethod where
  className : String
  decl : MethodDecl

/-- The types of the signature are declared or builtin ones, and no two parameters share a name. -/
def MethodDecl.SoundIn (p : Program) (d : MethodDecl) : Prop :=
  (∀ e ∈ d.typeExprs, e.spelling ∈ p.names ∨ e.spelling ∈ builtinNames) ∧ d.paramNames.Nodup

/-- The method is sound and stands in a class that does not have the name of a builtin type. -/
def ClassMethod.SoundIn (p : Program) (x : ClassMethod) : Prop := x.className ∉ builtinNames ∧ x.decl.SoundIn p

instance (p : Program) (d : MethodDecl) : Decidable (d.SoundIn p) := inferInstanceAs (Decidable (_ ∧ _))

instance (p : Program) (x : ClassMethod) : Decidable (x.SoundIn p) := inferInstanceAs (Decidable (_ ∧ _))

/-- The name of the class with the outline of the method. -/
def ClassMethod.outline (x : ClassMethod) : String × Bool × String × List String := (x.className, x.decl.outline)

namespace MainClass

variable (settings : Settings) (m : MainClass)

/-- The entry method as it would be written. -/
def entryDecl : MethodDecl :=
  { name := ⟨settings.entryMethod, m.name.span⟩
    isStatic := true
    returnType := ⟨.named ⟨"void", m.name.span⟩, m.name.span, none⟩
    params := [] }

/-- The main class as it would be written with its entry method. -/
def decl : ClassDecl :=
  { name := m.name, isStatic := false, base := none, fields := [], methods := [m.entryDecl settings] }

@[simp] theorem name_decl : (m.decl settings).name = m.name := rfl

end MainClass

def ClassDecl.classMethods (d : ClassDecl) : List ClassMethod := d.methods.map fun m => ⟨d.name.name, m⟩

namespace Program

/-- The entry method, then the methods of all class declarations in source order. -/
def classMethods (settings : Settings) (p : Program) : List ClassMethod :=
  (p.main.decl settings :: p.classes).flatMap (·.classMethods)

def soundMethods (settings : Settings) (p : Program) : List ClassMethod :=
  (p.classMethods settings).filter (·.SoundIn p)

/-- The sound methods of a class with one flag. -/
def soundMethodsOf (settings : Settings) (p : Program) (className : String) (isStatic : Bool) : List MethodDecl :=
  ((p.soundMethods settings).filter fun x => x.className = className ∧ x.decl.isStatic = isStatic).map (·.decl)

end Program

/-- The method is what the declaration describes in the class `owner`. -/
structure MethodDecl.Describes (t : TypeTable) (owner : TypeId) (d : MethodDecl) (m : Method) : Prop where
  name : m.name = d.name.name
  owner : m.owner = owner
  isStatic : m.isStatic = d.isStatic
  returnType : t.lookup d.returnType.spelling = some m.returnType
  paramNames : m.params.map Parameter.name = d.paramNames
  paramTypes : d.params.map (t.lookup ·.type.spelling) = m.paramTypes.map some
  /-- Parameters count from 1 without a gap, as long as their positions fit into a word. -/
  indices : d.params.length < UInt32.size → m.params.map (·.index.toNat) = List.range' 1 d.params.length

/-- A description holds in every table that is read alike. -/
theorem MethodDecl.Describes.congr {s t : TypeTable} {owner : TypeId} {d : MethodDecl} {m : Method}
    (describes : d.Describes s owner m) (same : s.SameHeads t) : d.Describes t owner m where
  name := describes.name
  owner := describes.owner
  isStatic := describes.isStatic
  returnType := (same.lookup d.returnType.spelling).symm.trans describes.returnType
  paramNames := describes.paramNames
  paramTypes := by simpa only [same.lookup] using describes.paramTypes
  indices := describes.indices

/-- Slots take no part in a description. -/
theorem MethodDecl.Describes.annotate {s t : TypeTable} {owner : TypeId} {d : MethodDecl} {m : Method}
    (describes : d.Describes t owner m) : (d.annotate s owner).Describes t owner m where
  name := describes.name
  owner := describes.owner
  isStatic := describes.isStatic
  returnType := describes.returnType
  paramNames := by
    have names : (d.annotate s owner).paramNames = d.paramNames := by
      simp only [MethodDecl.paramNames, MethodDecl.annotate, List.map_map]
      rfl
    rw [names, describes.paramNames]
  paramTypes := by
    rw [← describes.paramTypes, MethodDecl.annotate, List.map_map]
    rfl
  indices := by
    simpa only [MethodDecl.annotate, List.length_map] using describes.indices

/-! ## Methods as entered -/

namespace ClassMethod

/-- The class is found and the signature can be resolved. -/
def enteredIn (t : TypeTable) (x : ClassMethod) : Bool :=
  (t.lookupClass x.className).isSome && (x.decl.typesKnown t && decide x.decl.paramNames.Nodup)

/-- The class, the table and the key under which the method is filed. -/
def place (t : TypeTable) (x : ClassMethod) : Option TypeId × Bool × MethodKey :=
  (t.lookupClass x.className, x.decl.isStatic, x.decl.keyIn t)

end ClassMethod

def Program.enteredMethods (settings : Settings) (t : TypeTable) (p : Program) : List ClassMethod :=
  (p.classMethods settings).filter (·.enteredIn t)

section Entered

variable (t : TypeTable) (id : TypeId)

theorem MethodDecl.method?_eq (d : MethodDecl) : d.method? t id =
    if d.typesKnown t && decide d.paramNames.Nodup then some (d.described t id) else none := by
  simp only [method?, Bool.and_eq_true, decide_eq_true_eq]

theorem ClassDecl.className_of_mem {d : ClassDecl} {x : ClassMethod} (mem : x ∈ d.classMethods) :
    x.className = d.name.name := by
  obtain ⟨m, -, rfl⟩ := List.mem_map.1 mem
  rfl

/-- The methods of a declaration that are entered into a class are all or none. -/
theorem ClassDecl.filter_classMethods (d : ClassDecl) :
    (d.classMethods.filter (·.enteredIn t)).filter (t.lookupClass ·.className = some id) =
      if t.lookupClass d.name.name = some id then d.classMethods.filter (·.enteredIn t) else [] := by
  have name : ∀ x ∈ d.classMethods.filter (·.enteredIn t), x.className = d.name.name := fun x mem =>
    d.className_of_mem (List.mem_of_mem_filter mem)
  by_cases here : t.lookupClass d.name.name = some id
  · rw [if_pos here, List.filter_eq_self]
    intro x mem
    rw [name x mem, decide_eq_true_iff]
    exact here
  · rw [if_neg here, List.filter_eq_nil_iff]
    intro x mem
    rwa [name x mem, decide_eq_true_iff]

/-- What a declaration enters into its class. -/
theorem ClassDecl.methodsFor_eq {d : ClassDecl} (found : t.lookupClass d.name.name = some id) :
    d.methodsFor t id = (d.classMethods.filter (·.enteredIn t)).map (·.decl.described t id) := by
  unfold methodsFor classMethods
  induction d.methods with
  | nil => rfl
  | cons m rest ih =>
    rw [List.filterMap_cons, List.map_cons, List.filter_cons, ih, m.method?_eq, ClassMethod.enteredIn]
    cases m.typesKnown t && decide m.paramNames.Nodup <;> simp [found]

variable {t} (whole : t.HasBuiltins) (settings : Settings)
include whole

theorem MainClass.method?_entryDecl (m : MainClass) :
    (m.entryDecl settings).method? t id = some (settings.entry id) := by
  have void : (m.entryDecl settings).returnType.resolve t = .void := by
    have found : t.lookup "void" = some .void := whole.lookup (by decide)
    exact congrArg (·.getD .unknown) found
  have known : (m.entryDecl settings).typesKnown t = true := by
    show (!((m.entryDecl settings).returnType.resolve t).isUnknown && true) = true
    rw [void]
    decide
  rw [MethodDecl.method?, if_pos ⟨known, List.nodup_nil⟩, MethodDecl.described, void]
  rfl

/-- Giving the main class its entry method is entering a declaration of it. -/
theorem MainClass.enter_eq (m : MainClass) : m.enter settings t = t.enterClass (m.decl settings) := by
  have entry : ∀ id, (m.decl settings).enter t id = fun c => c.insertMethod (settings.entry id) := by
    intro id
    funext c
    show (m.entryDecl settings).enter t id c = _
    rw [MethodDecl.enter, m.method?_entryDecl id whole]
  unfold enter TypeTable.enterClass
  simp only [entry]
  rfl

/-- What a run enters into a class. -/
theorem Program.methodsOf_eq (p : Program) : p.methodsOf settings t id =
    ((p.enteredMethods settings t).filter (t.lookupClass ·.className = some id)).map (·.decl.described t id) := by
  have sweep : ∀ ds : List ClassDecl,
      (ds.filter fun d => t.lookupClass d.name.name = some id).flatMap (·.methodsFor t id) =
        (((ds.flatMap (·.classMethods)).filter (·.enteredIn t)).filter (t.lookupClass ·.className = some id)).map
          (·.decl.described t id) := by
    intro ds
    induction ds with
    | nil => rfl
    | cons d rest ih =>
      rw [List.flatMap_cons, List.filter_append, List.filter_append, List.map_append, ← ih, List.filter_cons,
        d.filter_classMethods]
      by_cases here : t.lookupClass d.name.name = some id
      · simp [here, d.methodsFor_eq t id here]
      · simp [here]
  have entry : (p.main.decl settings).methodsFor t id = [settings.entry id] := by
    show [p.main.entryDecl settings].filterMap (·.method? t id) = _
    rw [List.filterMap_cons, p.main.method?_entryDecl id whole]
    rfl
  rw [enteredMethods, classMethods, ← sweep, List.filter_cons, MainClass.name_decl, methodsOf, entryFor]
  by_cases main : t.lookupClass p.main.name.name = some id
  · rw [if_pos main, if_pos (by simpa using main), List.flatMap_cons, entry]
    rfl
  · rw [if_neg main, if_neg (by simpa using main)]
    rfl

end Entered

/-! ## What is entered is what is written -/

section Known

variable {t : TypeTable} (whole : t.HasBuiltins) (small : t.size ≤ UInt32.size)
include whole small

theorem MethodDecl.describes_described (id : TypeId) {d : MethodDecl} (known : d.typesKnown t = true) :
    d.Describes t id (d.described t id) := by
  have types : ∀ e ∈ d.typeExprs, t.lookup e.spelling = some (e.resolve t) := fun e mem =>
    e.lookup_spelling whole ((d.typesKnown_iff whole small).1 known e mem)
  refine ⟨rfl, rfl, rfl, types d.returnType List.mem_cons_self, d.map_name_parameters t, ?_,
    d.map_index_parameters t⟩
  rw [d.paramTypes_described, List.map_map]
  apply List.map_congr_left
  intro q mem
  exact types q.type (List.mem_cons_of_mem _ (List.mem_map_of_mem mem))

namespace ClassMethod

variable {x y : ClassMethod} (enteredX : x.enteredIn t = true) (enteredY : y.enteredIn t = true)

omit small whole in
theorem typesKnown_of_enteredIn (entered : x.enteredIn t = true) : x.decl.typesKnown t = true := by
  rw [enteredIn, Bool.and_eq_true, Bool.and_eq_true] at entered
  exact entered.2.1

include enteredX enteredY

theorem keyIn_eq_iff : x.decl.keyIn t = y.decl.keyIn t ↔ x.decl.name.name = y.decl.name.name ∧
    x.decl.params.map (·.type.spelling) = y.decl.params.map (·.type.spelling) :=
  MethodDecl.keyIn_eq_iff whole small ((x.decl.typesKnown_iff whole small).1 (typesKnown_of_enteredIn enteredX))
    ((y.decl.typesKnown_iff whole small).1 (typesKnown_of_enteredIn enteredY))

/-- Methods that are entered go to the same place just when they are written alike in classes of the same name. -/
theorem place_eq_iff : x.place t = y.place t ↔ x.outline = y.outline := by
  have names : t.lookupClass x.className = t.lookupClass y.className ↔ x.className = y.className := by
    constructor
    · intro same
      rw [enteredIn, Bool.and_eq_true] at enteredX
      obtain ⟨id, found⟩ := Option.isSome_iff_exists.1 enteredX.1
      exact TypeTable.lookupClass_injective small found (same ▸ found)
    · exact fun same => same ▸ rfl
  rw [place, place, outline, outline, MethodDecl.outline, MethodDecl.outline]
  simp only [Prod.mk.injEq, names, keyIn_eq_iff whole small enteredX enteredY]

end ClassMethod
end Known

/-! ## Entered methods are the sound ones -/

namespace Program

variable {p : Program} (settings : Settings) (small : p.classes.length < UInt32.size - 5)
include small

theorem enteredIn_seed_iff {x : ClassMethod} (declared : x.className ∈ p.names) :
    x.enteredIn p.seed = true ↔ x.SoundIn p := by
  have known := x.decl.typesKnown_iff p.hasBuiltins_seed (size_seed_le_of_few small)
  simp only [TypeExpr.problems_eq_nil_iff p.hasBuiltins_seed, contains_seed_iff] at known
  rw [ClassMethod.enteredIn, Bool.and_eq_true, Bool.and_eq_true, decide_eq_true_eq, isSome_lookupClass_seed_iff small,
    known, ClassMethod.SoundIn, MethodDecl.SoundIn, and_iff_right declared]

theorem enteredMethods_seed : p.enteredMethods settings p.seed = p.soundMethods settings := by
  apply List.filter_congr
  intro x mem
  have declared : x.className ∈ p.names := by
    obtain ⟨d, declared, mem⟩ := List.mem_flatMap.1 mem
    rw [d.className_of_mem mem]
    rcases List.mem_cons.1 declared with rfl | other
    · exact List.mem_cons_self
    · exact mem_names_of_mem other
  exact Bool.eq_iff_iff.2 ((enteredIn_seed_iff small declared).trans decide_eq_true_iff.symm)

end Program
end MemberResolution

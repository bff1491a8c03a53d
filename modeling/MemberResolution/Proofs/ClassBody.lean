import MemberResolution.Proofs.Separation

/-!
# What a class body can change

The fields and methods of a class stay its own affair. A program and the same
program without the body of one class leave tables that differ in the members
of that class alone, fill the same slots elsewhere, and report the same, except
that the reports on the body are put in between (`resolve_withoutBody`).
-/

namespace MemberResolution
set_option autoImplicit false

/-- The declaration without its fields and methods. -/
def ClassDecl.withoutBody (d : ClassDecl) : ClassDecl := { d with fields := [], methods := [] }

/-- The program without the fields and methods of the class declaration at a place. -/
def Program.withoutBody (p : Program) (i : Nat) : Program :=
  { p with classes := p.classes.modify i ClassDecl.withoutBody }

/-- The class in which a member is said to be declared again. -/
def Diagnostic.repeatedIn? (x : Diagnostic) : Option String :=
  match x.problem with
  | .fieldDuplicates className _ => some className
  | .methodDuplicates className _ => some className
  | _ => none

/-- A report on a member of the class of the given name. -/
structure Diagnostic.OnMember (className : String) (x : Diagnostic) : Prop where
  notStaticBase : x.code ≠ .staticBaseType
  notCyclicBase : x.code ≠ .cyclicBaseType
  repeated : ∀ other ∈ x.repeatedIn?, other = className

/-! ## Reports on members -/

section Members

variable {t : TypeTable} {c : ClassType} {x : Diagnostic}

/-- Missing names and repeated parameters are reported without a class. -/
theorem Diagnostic.onMember_of_code (className : String)
    (code : x.code = .typeNameMissing ∨ x.code = .parameterDuplicates) : x.OnMember className where
  notStaticBase := by rcases code with code | code <;> rw [code] <;> decide
  notCyclicBase := by rcases code with code | code <;> rw [code] <;> decide
  repeated := by
    intro other named
    obtain ⟨problem, span⟩ := x
    cases problem with
    | fieldDuplicates => rcases code with code | code <;> cases code
    | methodDuplicates => rcases code with code | code <;> cases code
    | _ => cases named

/-- A member that is declared again is reported with its class. -/
theorem Diagnostic.onMember_of_repeat {className member : String}
    (again : x.problem = .fieldDuplicates className member ∨ x.problem = .methodDuplicates className member) :
    x.OnMember className := by
  obtain ⟨problem, span⟩ := x
  rcases again with rfl | rfl
  · exact ⟨nofun, nofun, fun _ same => (Option.some.inj same).symm⟩
  · exact ⟨nofun, nofun, fun _ same => (Option.some.inj same).symm⟩

theorem FieldDecl.onMember_of_mem_problems {d : FieldDecl} (mem : x ∈ d.problems t c) : x.OnMember c.name := by
  rcases List.mem_append.1 (show x ∈ d.clashProblems c ++ d.type.problems t from mem) with mem | mem
  · unfold clashProblems at mem
    split at mem
    · rw [List.mem_singleton.1 mem]
      exact Diagnostic.onMember_of_repeat (Or.inl rfl)
    · cases mem
  · exact Diagnostic.onMember_of_code c.name (Or.inl (TypeExpr.code_problems mem))

theorem MethodDecl.onMember_of_mem_problems {d : MethodDecl} {id : TypeId} (mem : x ∈ d.problems t id c) :
    x.OnMember c.name := by
  rcases List.mem_append.1 mem with mem | mem
  · exact Diagnostic.onMember_of_code c.name (MethodDecl.code_signatureProblems mem)
  · unfold clashProblems at mem
    split at mem
    · split at mem
      · rw [List.mem_singleton.1 mem]
        exact Diagnostic.onMember_of_repeat (Or.inr rfl)
      · cases mem
    · cases mem

end Members

namespace ClassDecl

/-- What is wrong with the fields and methods, given the table right before the declaration is entered. -/
def bodyReport (t : TypeTable) (d : ClassDecl) : List Diagnostic :=
  match t.lookupClass d.name.name with
  | some id => (t.class? id).elim [] fun c =>
      reportsAlong (fun c field => field.enter t id c) (fun c field => field.problems t c) (d.linkBase t c) d.fields ++
        reportsAlong (fun c method => method.enter t id c) (fun c method => method.problems t id c)
          (d.enterFields t id (d.linkBase t c)) d.methods
  | none => []

variable (t : TypeTable) (d : ClassDecl)

theorem problems_withoutBody (id : TypeId) (c : ClassType) : d.withoutBody.problems t id c = d.baseProblems t := by
  show d.baseProblems t ++ [] ++ [] = _
  rw [List.append_nil, List.append_nil]

/-- The body is reported on after all else. -/
theorem report_eq_append : d.report t = d.withoutBody.report t ++ d.bodyReport t := by
  have name : d.withoutBody.name = d.name := rfl
  cases found : t.lookupClass d.name.name with
  | none => simp only [report, bodyReport, name, found, List.append_nil]
  | some id =>
    cases held : t.class? id with
    | none => simp only [report, bodyReport, name, found, held, Option.elim_none, List.append_nil]
    | some c =>
      simp only [report, bodyReport, name, found, held, Option.elim_some, problems_withoutBody]
      rw [problems, List.append_assoc]

theorem onMember_of_mem_bodyReport {x : Diagnostic} (mem : x ∈ d.bodyReport t) :
    ∃ id c, t.lookupClass d.name.name = some id ∧ t.class? id = some c ∧ x.OnMember c.name := by
  unfold bodyReport at mem
  split at mem
  · next id found =>
    cases held : t.class? id with
    | none => rw [held] at mem; cases mem
    | some c =>
      rw [held, Option.elim_some] at mem
      refine ⟨id, c, found, held, ?_⟩
      rcases List.mem_append.1 mem with mem | mem
      · have start : (d.linkBase t c).name = c.name := rfl
        obtain ⟨met, name, f, -, mem⟩ := exists_of_mem_reportsAlong
          (fun met : ClassType => met.name = c.name)
          (fun met (f : FieldDecl) name => (congrArg Prod.fst (f.head_enter t id met)).trans name) start mem
        exact name ▸ FieldDecl.onMember_of_mem_problems mem
      · have start : (d.enterFields t id (d.linkBase t c)).name = c.name := by rw [d.enterFields_eq]; rfl
        obtain ⟨met, name, m, -, mem⟩ := exists_of_mem_reportsAlong
          (fun met : ClassType => met.name = c.name)
          (fun met (m : MethodDecl) name => (congrArg Prod.fst (m.head_enter t id met)).trans name) start mem
        exact name ▸ MethodDecl.onMember_of_mem_problems mem
  · cases mem

/-- The slots outside of a body are filled without regard to it. -/
theorem annotate_withoutBody : d.withoutBody.annotate t = (d.annotate t).withoutBody := by
  have name : d.withoutBody.name = d.name := rfl
  cases found : t.lookupClass d.name.name with
  | none => simp only [annotate, name, found]
  | some id =>
    simp only [annotate, name, found]
    rfl

end ClassDecl

/-! ## Whole runs -/

theorem map_modify_of_comm {α : Type} {f g : α → α} (comm : ∀ a, f (g a) = g (f a)) (as : List α) (i : Nat) :
    (as.modify i g).map f = (as.map f).modify i g := by
  apply List.ext_getElem?
  intro j
  rw [List.getElem?_map, List.getElem?_modify, List.getElem?_modify, List.getElem?_map]
  cases as[j]? with
  | none => rfl
  | some a =>
    by_cases here : i = j
    · simp [here, comm]
    · simp [here]

namespace Program

theorem annotate_withoutBody (settings : Settings) (t : TypeTable) (p : Program) (i : Nat) :
    (p.withoutBody i).annotate settings t = (p.annotate settings t).withoutBody i := by
  have classes := map_modify_of_comm (fun d : ClassDecl => d.annotate_withoutBody t) p.classes i
  exact congrArg (Program.mk _) classes

/-- The table after the main class and some declarations. -/
def tableAfter (settings : Settings) (t : TypeTable) (p : Program) (before : List ClassDecl) : TypeTable :=
  before.foldl TypeTable.enterClass (p.main.enter settings t)

theorem sameHeads_tableAfter (settings : Settings) (t : TypeTable) (p : Program) (before : List ClassDecl) :
    (p.tableAfter settings t before).SameHeads t :=
  (TypeTable.sameHeads_enterClasses _ before).trans (p.main.sameHeads_enter settings t)

section Split

variable (settings : Settings) (t : TypeTable) {p : Program} {before after : List ClassDecl} {d : ClassDecl}
  (split : p.classes = before ++ d :: after)
include split

theorem table_resolve_of_split : (p.resolve settings t).table =
    after.foldl TypeTable.enterClass ((p.tableAfter settings t before).enterClass d) := by
  show p.classes.foldl TypeTable.enterClass (p.main.enter settings t) = _
  rw [split, List.foldl_append, List.foldl_cons, tableAfter]

theorem diagnostics_resolve_of_split : (p.resolve settings t).diagnostics =
    p.main.problems t ++
      reportsAlong TypeTable.enterClass (fun t d => d.report t) (p.main.enter settings t) before ++
      d.report (p.tableAfter settings t before) ++
      (reportsAlong TypeTable.enterClass (fun t d => d.report t) ((p.tableAfter settings t before).enterClass d)
          after ++
        p.classes.flatMap (·.cycleProblems settings (p.resolve settings t).table)) := by
  rw [diagnostics_resolve]
  conv_lhs => rw [split, reportsAlong_append, reportsAlong_cons]
  simp only [split, tableAfter, List.append_assoc]

end Split

section Replaced

variable (settings : Settings) {t : TypeTable} {p q : Program} {before after : List ClassDecl} {d e : ClassDecl}
  (main : q.main = p.main) (split : p.classes = before ++ d :: after) (splitOther : q.classes = before ++ e :: after)
  (sameName : d.name = e.name) (sameBase : d.base = e.base)
include main split splitOther sameName sameBase

/-- Programs that are the same up to the members that one declaration has leave tables that are the same up to the
members of its class. -/
theorem sameButMembersOf_replaced :
    (p.resolve settings t).table.SameButMembersOf d.name.name (q.resolve settings t).table := by
  have same : q.tableAfter settings t before = p.tableAfter settings t before := by rw [tableAfter, main, tableAfter]
  rw [table_resolve_of_split settings t split, table_resolve_of_split settings t splitOther, same]
  exact (TypeTable.SameButMembersOf.of_enterClass _ sameName sameBase).enterClasses after

/-- Their reports are the same up to those on that declaration, as long as no later one is entered into its class. -/
theorem diagnostics_replaced (small : t.size < UInt32.size) (others : ∀ a ∈ after, a.name.name ≠ d.name.name) :
    ∃ front back,
      (p.resolve settings t).diagnostics = front ++ d.report (p.tableAfter settings t before) ++ back ∧
      (q.resolve settings t).diagnostics = front ++ e.report (p.tableAfter settings t before) ++ back := by
  refine ⟨_, _, diagnostics_resolve_of_split settings t split, ?_⟩
  have same : q.tableAfter settings t before = p.tableAfter settings t before := by rw [tableAfter, main, tableAfter]
  have rest : reportsAlong TypeTable.enterClass (fun t d => d.report t)
      ((p.tableAfter settings t before).enterClass d) after =
      reportsAlong TypeTable.enterClass (fun t d => d.report t)
        ((p.tableAfter settings t before).enterClass e) after := by
    refine (TypeTable.SameButMembersOf.of_enterClass _ sameName sameBase).reportsAlong_eq ?_ others
    rw [(TypeTable.sameHeads_enterClass _ e).size, (p.sameHeads_tableAfter settings t before).size]
    exact Nat.le_of_lt small
  have cycles : p.classes.flatMap (·.cycleProblems settings (p.resolve settings t).table) =
      q.classes.flatMap (·.cycleProblems settings (q.resolve settings t).table) := by
    have tables := sameButMembersOf_replaced settings main split splitOther sameName sameBase (t := t)
    have replaced : ∀ s, d.cycleProblems settings s = e.cycleProblems settings s := by
      intro s
      rw [ClassDecl.cycleProblems, ClassDecl.cycleProblems, sameName, sameBase]
    simp only [tables.cycleProblems_eq settings]
    rw [split, splitOther, List.flatMap_append, List.flatMap_append, List.flatMap_cons, List.flatMap_cons, replaced]
  rw [diagnostics_resolve_of_split settings t splitOther, main, same, rest, cycles]

end Replaced

/-- **A class body stays its own affair.** Where no other declaration has the name of the class at a place, the
program without the body of that class leaves the same table except for the members of the class, has the same slots
filled outside of the body, and is reported on alike, except that the whole program has reports on the body in
between. Those that say that a member is declared again name the class as the table has it. -/
theorem resolve_withoutBody (settings : Settings) {t : TypeTable} (small : t.size < UInt32.size) {p : Program}
    {i : Nat} {k : ClassDecl} (here : p.classes[i]? = some k)
    (alone : ∀ j d, p.classes[j]? = some d → d.name.name = k.name.name → j = i) :
    let whole := p.resolve settings t
    let bare := (p.withoutBody i).resolve settings t
    whole.table.SameButMembersOf k.name.name bare.table ∧ bare.program = whole.program.withoutBody i ∧
      ∃ front body back, bare.diagnostics = front ++ back ∧ whole.diagnostics = front ++ body ++ back ∧
        ∀ x ∈ body, ∃ id c, t.lookupClass k.name.name = some id ∧ whole.table.class? id = some c ∧
          x.OnMember c.name := by
  intro whole bare
  obtain ⟨inside, entry⟩ := List.getElem?_eq_some_iff.1 here
  have split : p.classes = p.classes.take i ++ k :: p.classes.drop (i + 1) := by
    rw [← entry, ← List.drop_eq_getElem_cons inside, List.take_append_drop]
  have splitBare : (p.withoutBody i).classes = p.classes.take i ++ k.withoutBody :: p.classes.drop (i + 1) := by
    rw [← entry]
    exact List.modify_eq_take_cons_drop inside
  have others : ∀ d ∈ p.classes.drop (i + 1), d.name.name ≠ k.name.name := by
    intro d mem sameName
    obtain ⟨j, found⟩ := List.mem_iff_getElem?.1 mem
    rw [List.getElem?_drop] at found
    have := alone _ d found sameName
    omega
  have main : (p.withoutBody i).main = p.main := rfl
  refine ⟨sameButMembersOf_replaced settings main split splitBare rfl rfl, p.annotate_withoutBody settings t i, ?_⟩
  obtain ⟨front, back, reports, reportsBare⟩ :=
    diagnostics_replaced settings main split splitBare rfl rfl small others
  -- the body is reported on in the table that the declarations before it leave
  let s := p.tableAfter settings t (p.classes.take i)
  have heads : s.SameHeads t := p.sameHeads_tableAfter settings t _
  refine ⟨front ++ k.withoutBody.report s, k.bodyReport s, back, reportsBare, ?_, fun x mem => ?_⟩
  · rw [reports, k.report_eq_append, ← List.append_assoc front]
  · obtain ⟨id, c, found, held, onMember⟩ := k.onMember_of_mem_bodyReport s mem
    rw [heads.lookupClass] at found
    have head := ((p.sameHeads_resolve settings t).trans heads.symm).head id
    rw [held] at head
    obtain ⟨left, kept, sameHead⟩ := Option.map_eq_some_iff.1 head
    have sameName : left.name = c.name := congrArg Prod.fst sameHead
    exact ⟨id, left, found, kept, sameName ▸ onMember⟩

/-- Three classes below a cycle or on it; the second one repeats a field and a method and mentions unknown names. -/
def crowded : Program :=
  let gone (offset : Nat) : TypeExpr := ⟨.named ⟨"Gone", ⟨offset, 4⟩⟩, ⟨offset, 4⟩, none⟩
  let size (offset : Nat) : FieldDecl := { type := ⟨.int, ⟨offset, 3⟩, none⟩, name := ⟨"size", ⟨offset + 4, 4⟩⟩ }
  let grow (offset : Nat) : MethodDecl :=
    { name := ⟨"grow", ⟨offset + 8, 4⟩⟩, returnType := ⟨.boolean, ⟨offset, 7⟩, none⟩ }
  let lost : MethodDecl := { name := ⟨"lost", ⟨105, 4⟩⟩, isStatic := true, returnType := gone 100 }
  { main := { name := ⟨"Main", ⟨6, 4⟩⟩ }
    classes := [
      { name := ⟨"Node", ⟨17, 4⟩⟩, base := some ⟨"List", ⟨30, 4⟩⟩, fields := [size 40] },
      { name := ⟨"List", ⟨50, 4⟩⟩, base := some ⟨"Node", ⟨60, 4⟩⟩,
        fields := [size 70, { type := gone 80, name := ⟨"next", ⟨85, 4⟩⟩ }, size 90],
        methods := [lost, grow 110, grow 130] },
      { name := ⟨"Tail", ⟨150, 4⟩⟩, isStatic := true, base := some ⟨"List", ⟨160, 4⟩⟩,
        fields := [size 170], methods := [grow 180] }] }

/-- Four reports are on the body of the second class, which the table has under another name, and three are not. -/
theorem resolve_withoutBody_crowded :
    let renamed (c : ClassType) : ClassType := { c with name := "Items" }
    let t := crowded.seed.modifyClass (.ofPosition 7) renamed
    let whole := crowded.resolve {} t
    let bare := (crowded.withoutBody 1).resolve {} t
    t.size < UInt32.size ∧ whole.table.SameButMembersOf "List" bare.table ∧
      bare.program = whole.program.withoutBody 1 ∧
      ∃ front body back, bare.diagnostics = front ++ back ∧ whole.diagnostics = front ++ body ++ back ∧
        bare.diagnostics.length = 3 ∧ body.length = 4 ∧ ∀ x ∈ body, x.OnMember "Items" := by
  intro renamed t whole bare
  have small : t.size < UInt32.size := by decide +kernel
  have alone : ∀ j d, crowded.classes[j]? = some d → d.name.name = "List" → j = 1
    | 0, _, rfl, other => absurd other (by decide)
    | 1, _, _, _ => rfl
    | 2, _, rfl, other => absurd other (by decide)
  obtain ⟨tables, slots, front, body, back, reportsBare, reports, members⟩ :=
    resolve_withoutBody {} small (k := crowded.classes[1]) rfl alone
  have three : bare.diagnostics.length = 3 := by decide +kernel
  have seven : whole.diagnostics.length = 7 := by decide +kernel
  refine ⟨small, tables, slots, front, body, back, reportsBare, reports, three, ?_, fun x mem => ?_⟩
  · rw [reportsBare, List.length_append] at three
    rw [reports, List.length_append, List.length_append] at seven
    omega
  · obtain ⟨id, c, found, held, onMember⟩ := members x mem
    have place : t.lookupClass "List" = some (.ofPosition 7) := by decide +kernel
    have name : (whole.table.class? (.ofPosition 7)).map (·.name) = some "Items" := by decide +kernel
    cases found.symm.trans place
    rw [held] at name
    exact Option.some.inj name ▸ onMember

end Program
end MemberResolution

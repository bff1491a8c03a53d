import Mathlib.Data.List.Forall2
import MemberResolution.Diagnostic
import MemberResolution.Proofs.Registration

/-!
# Texts that can be read back

Diagnostics and method keys are shown with names joined by commas. As long as
no name has a comma in it, cutting the text at its commas gives the names back
(`splitOn_joined`), so no two lists of names are shown alike. A text of
diagnostics is cut into its lines, and each line into its code and its
arguments (`render_readable`); a signature is cut at its first bracket, and the
names of its types lead back to the types (`signature_readable`).
-/

namespace MemberResolution
set_option autoImplicit false

/-! ## Texts cut at a character -/

section Cut

variable {c : Char} {xs ys as bs : List Char}

/-- A character that two texts do not have marks where they end. -/
theorem cut_inj (left : c ∉ xs) (right : c ∉ ys) (same : xs ++ c :: as = ys ++ c :: bs) : xs = ys ∧ as = bs := by
  have pieces := congrArg (List.splitOn c) same
  rw [List.splitOn_append_cons_self_of_not_mem left, List.splitOn_append_cons_self_of_not_mem right] at pieces
  obtain rfl : xs = ys := (List.cons.inj pieces).1
  exact ⟨rfl, (List.cons.inj (List.append_cancel_left same)).2⟩

end Cut

/-! ## Joined names -/

/-- Between two commas stands a name after a space. -/
theorem splitOn_joined (first : String) (rest : List String) (plain : ∀ x ∈ first :: rest, ',' ∉ x.toList) :
    (", ".intercalate (first :: rest)).toList.splitOn ',' = first.toList :: rest.map fun x => ' ' :: x.toList := by
  induction rest generalizing first with
  | nil =>
    rw [String.intercalate_singleton, List.splitOn_eq_singleton (plain first List.mem_cons_self), List.map_nil]
  | cons second rest ih =>
    obtain ⟨plainFirst, plainLater⟩ := List.forall_mem_cons.1 plain
    obtain ⟨plainSecond, plainRest⟩ := List.forall_mem_cons.1 plainLater
    -- the space after the comma is taken for the start of the second name
    have spaced : ∀ x ∈ (" " ++ second) :: rest, ',' ∉ x.toList := by
      simpa using ⟨plainSecond, plainRest⟩
    have next : (", ".intercalate (first :: second :: rest)).toList =
        first.toList ++ ',' :: (", ".intercalate ((" " ++ second) :: rest)).toList := by
      simp
    rw [next, List.splitOn_append_cons_self_of_not_mem plainFirst, ih (" " ++ second) spaced, List.map_cons,
      String.toList_append]
    rfl

/-- Joined names are told apart, except that no name and one empty name are shown alike. -/
theorem joined_inj {xs ys : List String} (plainX : ∀ x ∈ xs, ',' ∉ x.toList) (plainY : ∀ y ∈ ys, ',' ∉ y.toList)
    (empty : xs = [] ↔ ys = []) (same : ", ".intercalate xs = ", ".intercalate ys) : xs = ys := by
  cases xs with
  | nil => exact (empty.1 rfl).symm
  | cons x xs =>
    obtain ⟨y, ys, rfl⟩ := List.exists_cons_of_ne_nil (fun none => List.cons_ne_nil x xs (empty.2 none))
    have pieces := congrArg (fun text => (String.toList text).splitOn ',') same
    simp only [splitOn_joined x xs plainX, splitOn_joined y ys plainY, List.cons.injEq] at pieces
    obtain ⟨first, rest⟩ := pieces
    have spaced : ∀ a b : String, ' ' :: a.toList = ' ' :: b.toList → a = b := fun a b same =>
      String.toList_inj.1 (List.cons.inj same).2
    rw [String.toList_inj.1 first, (List.map_inj_right spaced).1 rest]

theorem joined_eq_empty_iff {xs : List String} (named : ∀ x ∈ xs, x ≠ "") : ", ".intercalate xs = "" ↔ xs = [] := by
  cases xs with
  | nil => simp
  | cons x rest =>
    cases rest with
    | nil => simpa using named x List.mem_cons_self
    | cons y rest =>
      refine iff_of_false (fun none => ?_) (List.cons_ne_nil x (y :: rest))
      have chars := congrArg String.toList none
      simp at chars

/-- A character that is neither in the names nor between them is not in the joined text. -/
theorem notMem_joined {c : Char} (between : c ∉ ", ".toList) {xs : List String} (free : ∀ x ∈ xs, c ∉ x.toList) :
    c ∉ (", ".intercalate xs).toList := by
  induction xs with
  | nil => simp
  | cons x rest ih =>
    obtain ⟨freeX, freeRest⟩ := List.forall_mem_cons.1 free
    cases rest with
    | nil => simpa using freeX
    | cons y rest =>
      have later := ih freeRest
      rw [String.intercalate_cons_cons, String.toList_append, String.toList_append, List.mem_append, List.mem_append]
      rintro ((here | here) | here)
      · exact freeX here
      · exact between here
      · exact later here

/-! ## Lines of diagnostics -/

namespace ErrorCode

/-- What a line starts with: the code, its name and an opening bracket. -/
def heading (code : ErrorCode) : String := code.text ++ " " ++ code.name ++ "("

theorem length_text (code : ErrorCode) : code.text.toList.length = 5 := by
  cases code <;> decide +kernel

theorem text_injective {a b : ErrorCode} (same : a.text = b.text) : a = b := by
  revert same
  cases a <;> cases b <;> decide +kernel

theorem newline_notMem_heading (code : ErrorCode) : '\n' ∉ code.heading.toList := by
  cases code <;> decide +kernel

/-- The code is what the first five characters say. -/
theorem eq_of_heading_append {a b : ErrorCode} {s t : String} (same : a.heading ++ s = b.heading ++ t) : a = b := by
  have chars := congrArg String.toList same
  simp only [heading, String.toList_append, List.append_assoc] at chars
  exact text_injective (String.toList_inj.1 (List.append_inj_left chars (a.length_text.trans b.length_text.symm)))

end ErrorCode

namespace Problem

/-- No name that the problem is about has a comma or a line end in it. -/
def Plain (p : Problem) : Prop := ∀ name ∈ p.args, ',' ∉ name.toList ∧ '\n' ∉ name.toList

instance (p : Problem) : Decidable p.Plain := inferInstanceAs (Decidable (∀ name ∈ p.args, _ ∧ _))

/-- The line of the problem without its end. -/
def shown (p : Problem) : String := p.code.heading ++ ", ".intercalate p.args ++ ")"

theorem line_eq (p : Problem) : p.line = p.shown ++ "\n" := by
  simp only [line, shown, ErrorCode.heading, String.append_assoc]
  rfl

theorem args_ne_nil (p : Problem) : p.args ≠ [] := by
  cases p <;> exact List.cons_ne_nil _ _

variable {p q : Problem}

theorem newline_notMem_shown (plain : p.Plain) : '\n' ∉ p.shown.toList := by
  have joined := notMem_joined (c := '\n') (by decide) fun name mem => (plain name mem).2
  simp only [shown, String.toList_append, List.mem_append, not_or]
  exact ⟨⟨p.code.newline_notMem_heading, joined⟩, by decide⟩

/-- A line shows the code and the arguments. -/
theorem shown_inj (plainP : p.Plain) (plainQ : q.Plain) (same : p.shown = q.shown) :
    p.code = q.code ∧ p.args = q.args := by
  simp only [shown, String.append_assoc] at same
  have code : p.code = q.code := ErrorCode.eq_of_heading_append same
  have chars := congrArg String.toList same
  simp only [code, String.toList_append] at chars
  have joined := String.toList_inj.1 (List.append_cancel_right (List.append_cancel_left chars))
  refine ⟨code, joined_inj (fun name mem => (plainP name mem).1) (fun name mem => (plainQ name mem).1) ?_ joined⟩
  exact iff_of_false p.args_ne_nil q.args_ne_nil

end Problem

namespace Diagnostic

/-- Cutting the text at its line ends gives a line for each diagnostic, and nothing after the last line end. -/
theorem splitOn_render {ds : List Diagnostic} (plain : ∀ d ∈ ds, d.problem.Plain) :
    (render ds).toList.splitOn '\n' = ds.map (·.problem.shown.toList) ++ [[]] := by
  induction ds with
  | nil => rfl
  | cons d rest ih =>
    obtain ⟨here, later⟩ := List.forall_mem_cons.1 plain
    have next : (render (d :: rest)).toList = d.problem.shown.toList ++ '\n' :: (render rest).toList := by
      simp [render, Problem.line_eq]
    rw [next, List.splitOn_append_cons_self_of_not_mem (Problem.newline_notMem_shown here), ih later]
    rfl

/-- Both diagnostics are shown with the same code and the same arguments. -/
def SameShown (d e : Diagnostic) : Prop := d.code = e.code ∧ d.problem.args = e.problem.args

theorem forall₂_sameShown_of_lines {ds es : List Diagnostic} (plainD : ∀ d ∈ ds, d.problem.Plain)
    (plainE : ∀ e ∈ es, e.problem.Plain)
    (lines : ds.map (·.problem.shown.toList) = es.map (·.problem.shown.toList)) : List.Forall₂ SameShown ds es := by
  induction ds generalizing es with
  | nil =>
    obtain rfl : es = [] := List.map_eq_nil_iff.1 lines.symm
    exact .nil
  | cons d ds ih =>
    obtain ⟨e, es, rfl, first, rest⟩ := List.map_eq_cons_iff.1 lines.symm
    obtain ⟨plain, plainD⟩ := List.forall_mem_cons.1 plainD
    obtain ⟨plain', plainE⟩ := List.forall_mem_cons.1 plainE
    exact .cons (Problem.shown_inj plain plain' (String.toList_inj.1 first.symm)) (ih plainD plainE rest.symm)

theorem render_eq_of_forall₂_sameShown {ds es : List Diagnostic} (same : List.Forall₂ SameShown ds es) :
    render ds = render es := by
  induction same with
  | nil => rfl
  | cons agree _ ih =>
    have problem := Problem.eq_of_code_of_args agree.1 agree.2
    simp only [render, List.map_cons, String.join_cons] at ih ⊢
    rw [problem, ih]

/-- **Diagnostics can be read back from their text.** Where no name has a comma or a line end in it, the text has one
line for each diagnostic, and another list of such diagnostics has the same text just when it has as many and shows the
same codes and arguments place by place. -/
theorem render_readable {ds : List Diagnostic} (plain : ∀ d ∈ ds, d.problem.Plain) :
    (∃ lines : List String, lines.length = ds.length ∧ (∀ l ∈ lines, '\n' ∉ l.toList) ∧
      render ds = String.join (lines.map (· ++ "\n"))) ∧
    ∀ es : List Diagnostic, (∀ e ∈ es, e.problem.Plain) →
      (render ds = render es ↔ List.Forall₂ SameShown ds es) := by
  refine ⟨⟨ds.map (·.problem.shown), List.length_map _, ?_, ?_⟩, fun es plainE => ⟨fun same => ?_, ?_⟩⟩
  · rw [List.forall_mem_map]
    exact fun d mem => Problem.newline_notMem_shown (plain d mem)
  · simp only [render, List.map_map, Problem.line_eq]
    rfl
  · have pieces := congrArg (fun text => (String.toList text).splitOn '\n') same
    simp only [splitOn_render plain, splitOn_render plainE] at pieces
    exact forall₂_sameShown_of_lines plain plainE (List.append_cancel_right pieces)
  · exact render_eq_of_forall₂_sameShown

/-- A name that looks like the end of its line and the start of another, and a name that is a space; the second list
has the space on the other side of the comma, and the third list has the names of the first at other places. -/
theorem render_readable_lookalikes :
    let unknown (span : Span) : Diagnostic := ⟨.typeNameMissing "Gone)E0004 FieldDuplicates(List", span⟩
    let ds : List Diagnostic := [unknown ⟨4, 3⟩, ⟨.fieldDuplicates " " "size", ⟨9, 4⟩⟩]
    let es : List Diagnostic := [unknown ⟨4, 3⟩, ⟨.fieldDuplicates "" " size", ⟨9, 4⟩⟩]
    let fs : List Diagnostic := [unknown ⟨70, 30⟩, ⟨.fieldDuplicates " " "size", ⟨120, 4⟩⟩]
    (∀ d ∈ ds, d.problem.Plain) ∧ (∀ e ∈ es, e.problem.Plain) ∧ (∀ f ∈ fs, f.problem.Plain) ∧
      (∃ lines : List String, lines.length = 2 ∧ (∀ l ∈ lines, '\n' ∉ l.toList) ∧
        render ds = String.join (lines.map (· ++ "\n"))) ∧
      render ds ≠ render es ∧ render ds = render fs := by
  intro unknown ds es fs
  have plainD : ∀ d ∈ ds, d.problem.Plain := by decide +kernel
  have plainE : ∀ e ∈ es, e.problem.Plain := by decide +kernel
  have plainF : ∀ f ∈ fs, f.problem.Plain := by decide +kernel
  obtain ⟨lines, readable⟩ := render_readable plainD
  refine ⟨plainD, plainE, plainF, lines, fun same => ?_, (readable fs plainF).2 ?_⟩
  · obtain ⟨-, shown⟩ := List.forall₂_cons.1 ((readable es plainE).1 same)
    exact absurd (List.forall₂_cons.1 shown).1.2 (by decide +kernel)
  · exact .cons ⟨rfl, rfl⟩ (.cons ⟨rfl, rfl⟩ .nil)

end Diagnostic

/-! ## Signatures -/

namespace TypeTable

/-- The classes of the table have names that are not empty and have no comma in them. -/
def PlainNames (t : TypeTable) : Prop :=
  ∀ r ∈ t.registrations, ∀ c ∈ r.entity.class?, c.name ≠ "" ∧ ',' ∉ c.name.toList

end TypeTable

/-- The name of the key has no opening bracket in it, and its parameters have known types of the table. -/
structure MethodKey.PlainIn (t : TypeTable) (key : MethodKey) : Prop where
  name : '(' ∉ key.name.toList
  params : ∀ id ∈ key.params, (t.get? id).isSome ∧ id ≠ .unknown

namespace TypeTable

variable {t : TypeTable} (indexed : t.Indexed)
include indexed

/-- Builtin types and classes are shown alike: by a name that is not empty and has no comma in it. -/
theorem Indexed.plain_typeName (names : t.PlainNames) {id : TypeId} (held : (t.get? id).isSome) :
    t.typeName id ≠ "" ∧ ',' ∉ (t.typeName id).toList := by
  have builtin : ∀ i < 5, ∀ r ∈ builtins.registrations[i]?,
      r.entity.spelling ≠ "" ∧ ',' ∉ r.entity.spelling.toList := by
    decide +kernel
  have entry := List.getElem?_eq_getElem (isSome_get?_iff.1 held)
  rw [typeName_of_getElem? entry]
  obtain ⟨early, here⟩ | ⟨-, c, isClass⟩ := indexed.builtin_or_class entry
  · exact builtin id.position early _ here
  · have mem := List.mem_of_getElem? entry
    rw [isClass] at mem ⊢
    exact names _ mem c rfl

theorem Indexed.plain_typeNames (names : t.PlainNames) {key : MethodKey} (plain : key.PlainIn t) :
    ∀ text ∈ key.params.map t.typeName, text ≠ "" ∧ ',' ∉ text.toList := by
  rw [List.forall_mem_map]
  exact fun id mem => indexed.plain_typeName names (plain.params id mem).1

variable (small : t.size ≤ UInt32.size)
include small

/-- The names of the parameter types lead back to the types. -/
theorem Indexed.map_lookup_typeName {key : MethodKey} (plain : key.PlainIn t) :
    (key.params.map t.typeName).map t.lookup = key.params.map some := by
  rw [List.map_map]
  apply List.map_congr_left
  intro id mem
  obtain ⟨held, known⟩ := plain.params id mem
  exact (indexed.lookup_eq_some_iff small).2 ⟨held, known, rfl⟩

variable (names : t.PlainNames) {a b : MethodKey} (plainA : a.PlainIn t) (plainB : b.PlainIn t)
include names plainA plainB

/-- Parameter types that are shown alike are the same. -/
theorem Indexed.params_eq_of_joined
    (same : ", ".intercalate (a.params.map t.typeName) = ", ".intercalate (b.params.map t.typeName)) :
    a.params = b.params := by
  have textsA := indexed.plain_typeNames names plainA
  have textsB := indexed.plain_typeNames names plainB
  -- no name is empty, so that the empty text stands for no types at all
  have empty : a.params.map t.typeName = [] ↔ b.params.map t.typeName = [] := by
    rw [← joined_eq_empty_iff fun text mem => (textsA text mem).1, same,
      joined_eq_empty_iff fun text mem => (textsB text mem).1]
  have texts : a.params.map t.typeName = b.params.map t.typeName :=
    joined_inj (fun text mem => (textsA text mem).2) (fun text mem => (textsB text mem).2) empty same
  have held : a.params.map some = b.params.map some := by
    rw [← indexed.map_lookup_typeName small plainA, ← indexed.map_lookup_typeName small plainB, texts]
  exact (List.map_inj_right fun _ _ => Option.some.inj).1 held

/-- Plain keys are told apart by their signatures. -/
theorem Indexed.signature_inj (same : t.signature a = t.signature b) : a = b := by
  have chars := congrArg String.toList same
  have bracket : "(".toList = ['('] := rfl
  simp only [signature, String.toList_append, bracket, List.append_assoc, List.singleton_append] at chars
  obtain ⟨name, types⟩ := cut_inj plainA.name plainB.name chars
  have joined := String.toList_inj.1 (List.append_cancel_right types)
  have params := indexed.params_eq_of_joined small names plainA plainB joined
  exact congrArg₂ MethodKey.mk (String.toList_inj.1 name) params

omit indexed small names plainA plainB in
/-- **Signatures tell overloads apart.** In the table of a session whose classes have names that are not empty and have
no comma in them, two keys are shown alike just when they are the same, as long as their own names have no opening
bracket in them and their parameters have known types. -/
theorem signature_readable (steps : List SessionStep) (small : (session steps).size < UInt32.size)
    (names : (session steps).PlainNames) {a b : MethodKey} (plainA : a.PlainIn (session steps))
    (plainB : b.PlainIn (session steps)) : (session steps).signature a = (session steps).signature b ↔ a = b :=
  ⟨(indexed_session steps).signature_inj (Nat.le_of_lt small) names plainA plainB, fun same => same ▸ rfl⟩

end TypeTable

/-- Classes whose names differ in a space or look like the end of a signature, and a run that gives one of them two
overloads of a method. -/
def SessionStep.lookalikes : List SessionStep :=
  let written (name : String) (offset : Nat) : TypeExpr := ⟨.named ⟨name, ⟨offset, 4⟩⟩, ⟨offset, 4⟩, none⟩
  let put (name : String) (offset : Nat) : MethodDecl :=
    { name := ⟨"put", ⟨offset, 3⟩⟩, returnType := written ")" (offset - 2)
      params := [{ type := written name (offset + 4), name := ⟨"box", ⟨offset + 9, 3⟩⟩ }] }
  let program : Program :=
    { main := { name := ⟨"Box", ⟨6, 3⟩⟩ }
      classes := [{ name := ⟨" Box", ⟨17, 4⟩⟩, methods := [put "Box" 40, put " Box" 60] }] }
  [.declare "Box" false, .declare " Box" false, .declare ")" true, .resolve {} program]

/-- The overloads that take the two classes in either order are shown differently, and so are the one without parameters
and the one that takes the class named like a closing bracket. -/
theorem TypeTable.signature_readable_lookalikes :
    let t := session SessionStep.lookalikes
    let box : TypeId := .ofPosition 5
    let spaced : TypeId := .ofPosition 6
    let bracket : TypeId := .ofPosition 7
    t.size < UInt32.size ∧ t.PlainNames ∧
      (MethodKey.mk "put" [box, spaced]).PlainIn t ∧ (MethodKey.mk "put" [spaced, box]).PlainIn t ∧
      (MethodKey.mk "put" []).PlainIn t ∧ (MethodKey.mk "put" [bracket]).PlainIn t ∧
      t.signature ⟨"put", [box, spaced]⟩ ≠ t.signature ⟨"put", [spaced, box]⟩ ∧
      t.signature ⟨"put", []⟩ ≠ t.signature ⟨"put", [bracket]⟩ := by
  intro t box spaced bracket
  have small : t.size < UInt32.size := by decide +kernel
  have names : t.PlainNames := by
    unfold PlainNames
    decide +kernel
  have name : '(' ∉ "put".toList := by decide
  have plain : ∀ params : List TypeId, (∀ id ∈ params, (t.get? id).isSome ∧ id ≠ .unknown) →
      (MethodKey.mk "put" params).PlainIn t := fun _ known => ⟨name, known⟩
  have there := plain [box, spaced] (by decide +kernel)
  have back := plain [spaced, box] (by decide +kernel)
  have none := plain [] (by decide)
  have one := plain [bracket] (by decide +kernel)
  refine ⟨small, names, there, back, none, one, fun same => ?_, fun same => ?_⟩
  · exact absurd ((signature_readable SessionStep.lookalikes small names there back).1 same) (by decide)
  · exact absurd ((signature_readable SessionStep.lookalikes small names none one).1 same) (by decide)

end MemberResolution

import Mathlib.Data.List.Nodup
import MemberResolution.Proofs.KeyedLists
import MemberResolution.Proofs.TomlReading
import MemberResolution.Settings

/-!
# What a text says about the settings

The lines of a document that stand before its sections and have a key of one
part put their values into the root table as they are, no key twice. Everything
else that a document says builds tables that later lines may still add to, and
never touches such a value (`tells_toEntries?`). So a setting is what the one
line with its name says, and it has its default where no line and no header
begins with that name. A setting that is mentioned in another way, or with a
value of the wrong type, makes the text malformed (`ofToml_eq_ok_iff`,
`ofToml_eq_error_iff`). What is written down one setting a line is read back
(`ofToml_toToml`).
-/

namespace MemberResolution
set_option autoImplicit false

namespace Toml

/-- A table that later lines may still add to. -/
def Value.isOpen : Value → Bool
  | .table .inline _ => false
  | .table _ _ => true
  | .tables _ => true
  | _ => false

/-- The part of a key that names an entry of the root table. -/
def Key.first (k : Key) : String := k.path.headD k.last

def Header.key : Header → Key
  | .table key => key
  | .element key => key

namespace Document

/-- The values that lines of the root table give to keys of one part. -/
def plain (d : Document) : List (String × Value) :=
  (d.entries.filter (·.key.path.isEmpty)).map fun e => (e.key.last, e.value)

/-- The names in the root table that lines and headers begin with. -/
def mentioned (d : Document) : List String :=
  d.entries.map (·.key.first) ++ d.sections.map (·.header.key.first)

end Document

/-! ## One line or header -/

namespace Entries

theorem set_eq_putUnder (key : String) (v : Value) (entries : Entries) :
    entries.set key v = putUnder key v entries := by
  induction entries with
  | nil => rfl
  | cons e rest ih =>
    obtain ⟨k, old⟩ := e
    simp only [set, putUnder, ih]
    split
    · next same => rw [same]
    · rfl

theorem lookup_set (key other : String) (v : Value) (entries : Entries) :
    (entries.set key v).lookup other = if other = key then some v else entries.lookup other := by
  rw [set_eq_putUnder, lookup_putUnder]

theorem isSome_lookup_set (key other : String) (v : Value) (entries : Entries) :
    ((entries.set key v).lookup other).isSome ↔ (entries.lookup other).isSome ∨ other = key := by
  rw [lookup_set]
  by_cases same : other = key <;> simp [same]

/-- A new entry goes to the end. -/
theorem set_of_free {key : String} (v : Value) {entries : Entries} (free : entries.lookup key = none) :
    entries.set key v = entries ++ [(key, v)] := by
  induction entries with
  | nil => rfl
  | cons e rest ih =>
    obtain ⟨k, old⟩ := e
    have other : k ≠ key := by
      rintro rfl
      simp at free
    rw [List.lookup_cons, beq_false_of_ne (Ne.symm other)] at free
    rw [set, if_neg other, ih free, List.cons_append]

/-- An open table has been put under `name`, where there was nothing or an open table before. -/
structure Opens (name : String) (before after : Entries) : Prop where
  was : ∀ v, before.lookup name = some v → v.isOpen = true
  now : ∃ v, v.isOpen = true ∧ after = before.set name v

variable {before after : Entries}

theorem Opens.of_bind {name : String} {α : Type} {make : Option α} {table : α → Value}
    (was : ∀ v, before.lookup name = some v → v.isOpen = true) (opens : ∀ a, (table a).isOpen = true)
    (made : (do let a ← make; return before.set name (table a)) = some after) : Opens name before after := by
  obtain ⟨a, -, put⟩ := Option.bind_eq_some_iff.1 made
  exact ⟨was, table a, opens a, (Option.some.inj put).symm⟩

theorem opens_addDotted {key step : String} {v : Value} {path : List String} {mayAdd : Bool}
    (added : before.addDotted key v (step :: path) mayAdd = some after) : Opens step before after := by
  rw [addDotted] at added
  split at added
  · next missing => exact .of_bind (by simp [missing]) (fun _ => rfl) added
  · next below dotted => exact .of_bind (by simp [dotted, Value.isOpen]) (fun _ => rfl) added
  · next below implied => exact .of_bind (by simp [implied, Value.isOpen]) (fun _ => rfl) added
  · next elements tables => exact .of_bind (by simp [tables, Value.isOpen]) (fun _ => rfl) added
  · cases added

theorem opens_changeBelow {change : Entries → Option Entries} {step : String} {path : List String}
    (changed : before.changeBelow change (step :: path) = some after) : Opens step before after := by
  rw [changeBelow] at changed
  split at changed
  · next missing => exact .of_bind (by simp [missing]) (fun _ => rfl) changed
  · cases changed
  · next origin below notInline table =>
    have opens : ∀ below, (Value.table origin below).isOpen = true := by
      intro below
      cases origin with
      | inline => exact (notInline rfl).elim
      | _ => rfl
    exact .of_bind (by simp [table, opens]) opens changed
  · next elements tables => exact .of_bind (by simp [tables, Value.isOpen]) (fun _ => rfl) changed
  · cases changed

theorem opens_openTable {fill : Entries → Option Entries} {key : String}
    (opened : before.openTable fill key = some after) : Opens key before after := by
  rw [openTable] at opened
  split at opened
  · next missing => exact .of_bind (by simp [missing]) (fun _ => rfl) opened
  · next below implied => exact .of_bind (by simp [implied, Value.isOpen]) (fun _ => rfl) opened
  · cases opened

theorem opens_openElement {fill : Entries → Option Entries} {key : String}
    (opened : before.openElement fill key = some after) : Opens key before after := by
  rw [openElement] at opened
  split at opened
  · next missing => exact .of_bind (by simp [missing]) (fun _ => rfl) opened
  · next elements tables => exact .of_bind (by simp [tables, Value.isOpen]) (fun _ => rfl) opened
  · cases opened

theorem opens_addSection {s : Section} (added : before.addSection s = some after) :
    Opens s.header.key.first before after := by
  obtain ⟨header, entries⟩ := s
  cases header with
  | table key =>
    obtain ⟨path, last⟩ := key
    cases path with
    | nil => exact opens_openTable added
    | cons step path => exact opens_changeBelow added
  | element key =>
    obtain ⟨path, last⟩ := key
    cases path with
    | nil => exact opens_openElement added
    | cons step path => exact opens_changeBelow added

end Entries

/-! ## Whole documents -/

/-- What the root table says after lines and headers that begin with the names `mentioned`, of which those in `plain`
have keys of one part. -/
structure Tells (plain : List (String × Value)) (mentioned : List String) (root : Entries) : Prop where
  found : ∀ k, (root.lookup k).isSome ↔ k ∈ mentioned
  closed : ∀ k v, v.isOpen = false → (root.lookup k = some v ↔ (k, v) ∈ plain)
  covered : ∀ e ∈ plain, e.1 ∈ mentioned
  distinct : (plain.map Prod.fst).Nodup

namespace Tells

variable {plain : List (String × Value)} {mentioned : List String} {root after : Entries} {name : String}

theorem opened (tells : Tells plain mentioned root) (opens : Entries.Opens name root after) :
    Tells plain (mentioned ++ [name]) after := by
  obtain ⟨w, isOpen, rfl⟩ := opens.now
  refine ⟨?_, ?_, fun e mem => List.mem_append_left _ (tells.covered e mem), tells.distinct⟩
  · intro k
    rw [Entries.isSome_lookup_set, tells.found, List.mem_append, List.mem_singleton]
  · intro k v isClosed
    rw [Entries.lookup_set, ← tells.closed k v isClosed]
    by_cases same : k = name
    · rw [if_pos same, same]
      constructor
      · intro here
        cases here
        rw [isOpen] at isClosed
        cases isClosed
      · intro there
        rw [opens.was v there] at isClosed
        cases isClosed
    · rw [if_neg same]

theorem added (tells : Tells plain mentioned root) {v : Value}
    (added : root.addDotted name v [] true = some after) :
    Tells (plain ++ [(name, v)]) (mentioned ++ [name]) after := by
  rw [Entries.addDotted] at added
  split at added
  · next new =>
    cases added
    have free : root.lookup name = none := by simpa using new
    rw [← Entries.set_of_free v free]
    refine ⟨?_, ?_, ?_, ?_⟩
    · intro k
      rw [Entries.isSome_lookup_set, tells.found, List.mem_append, List.mem_singleton]
    · intro k w isClosed
      rw [Entries.lookup_set, List.mem_append, List.mem_singleton, ← tells.closed k w isClosed]
      by_cases same : k = name
      · subst same
        simp [free, eq_comm]
      · simp [same]
    · intro e mem
      rcases List.mem_append.1 mem with mem | mem
      · exact List.mem_append_left _ (tells.covered e mem)
      · exact List.mem_append_right _ (List.mem_singleton.2 (congrArg Prod.fst (List.mem_singleton.1 mem)))
    · have unmentioned : name ∉ mentioned := by rw [← tells.found, free]; exact Bool.false_ne_true
      rw [List.map_append]
      refine List.nodup_append.2 ⟨tells.distinct, List.nodup_singleton name, ?_⟩
      rintro k mem other last rfl
      obtain ⟨e, listed, rfl⟩ := List.mem_map.1 mem
      have same : e.1 = name := List.mem_singleton.1 last
      exact unmentioned (same ▸ tells.covered e listed)
  · cases added

theorem addAll (tells : Tells plain mentioned root) (entries : List Entry)
    (added : root.addAll entries = some after) :
    Tells (plain ++ ((entries.filter (·.key.path.isEmpty)).map fun e => (e.key.last, e.value)))
      (mentioned ++ entries.map (·.key.first)) after := by
  induction entries generalizing root plain mentioned with
  | nil =>
    cases added
    simpa using tells
  | cons e rest ih =>
    obtain ⟨next, here, later⟩ := Option.bind_eq_some_iff.1 added
    obtain ⟨⟨path, last⟩, v⟩ := e
    cases path with
    | nil => simpa [Key.first] using ih (tells.added here) later
    | cons step path => simpa [Key.first] using ih (tells.opened (Entries.opens_addDotted here)) later

theorem addSections (tells : Tells plain mentioned root) (sections : List Section)
    (added : sections.foldlM Entries.addSection root = some after) :
    Tells plain (mentioned ++ sections.map (·.header.key.first)) after := by
  induction sections generalizing root mentioned with
  | nil =>
    cases added
    simpa using tells
  | cons s rest ih =>
    obtain ⟨next, here, later⟩ := Option.bind_eq_some_iff.1 added
    simpa using ih (tells.opened (Entries.opens_addSection here)) later

end Tells

theorem tells_toEntries? {d : Document} {root : Entries} (read : d.toEntries? = some root) :
    Tells d.plain d.mentioned root := by
  have start : Tells [] [] [] := ⟨by simp, by simp, by simp, List.nodup_nil⟩
  obtain ⟨entered, entries, sections⟩ := Option.bind_eq_some_iff.1 read
  exact (start.addAll d.entries entries).addSections d.sections sections

end Toml

namespace Settings

open Toml

/-- The text is that of a document whose lines and headers fit together. -/
def Reads (text : String) (d : Document) : Prop :=
  Reader.readAll? Reader.document text = some d ∧ d.toEntries?.isSome = true

variable {α : Type}

/-- A document gives a setting the value `x`: by a line of the root table, or as the default of a key that is not
mentioned. -/
def Gives (d : Document) (key : String) (make : α → Value) (default x : α) : Prop :=
  (key ∉ d.mentioned ∧ x = default) ∨ (key, make x) ∈ d.plain

/-- A document mentions a setting, and not by a line of the root table with a value of the right type. -/
def Garbles (d : Document) (key : String) (make : α → Value) : Prop :=
  key ∈ d.mentioned ∧ ∀ x, (key, make x) ∉ d.plain

/-! ## One setting -/

section Setting

variable {key : String} {read : Value → Option α} {make : α → Value} {default : α}
  (reads : ∀ v x, read v = some x ↔ v = make x) (closed : ∀ x, (make x).isOpen = false)
  {d : Document} {root : Entries} (entries : d.toEntries? = some root)
include reads closed entries

theorem setting?_eq_some_iff {x : α} : setting? key read default root = some x ↔ Gives d key make default x := by
  have tells := tells_toEntries? entries
  rw [Gives, ← tells.found, ← tells.closed key _ (closed x), setting?]
  cases root.lookup key with
  | none => simp [eq_comm]
  | some v => simp [reads]

theorem setting?_eq_none_iff : setting? key read default root = none ↔ Garbles d key make := by
  have tells := tells_toEntries? entries
  have absent : (∀ x, (key, make x) ∉ d.plain) ↔ ∀ x, root.lookup key ≠ some (make x) :=
    forall_congr' fun x => not_congr (tells.closed key _ (closed x)).symm
  rw [Garbles, ← tells.found, absent, setting?]
  cases root.lookup key with
  | none => simp
  | some v => simp [Option.eq_none_iff_forall_ne_some, reads]

end Setting

theorem string?_eq_some_iff (v : Value) (x : String) : v.string? = some x ↔ v = .string x := by
  cases v <;> simp [Value.string?]

theorem boolean?_eq_some_iff (v : Value) (x : Bool) : v.boolean? = some x ↔ v = .boolean x := by
  cases v <;> simp [Value.boolean?]

/-! ## The settings of a text -/

section Document

variable {d : Document} {root : Entries} (entries : d.toEntries? = some root)
include entries

theorem ofEntries?_eq_some_iff {s : Settings} : ofEntries? root = some s ↔
    Gives d "entry_method" .string "main" s.entryMethod ∧
      Gives d "report_ancestor_cycles" .boolean true s.reportAncestorCycles := by
  rw [← setting?_eq_some_iff string?_eq_some_iff (fun _ => rfl) entries,
    ← setting?_eq_some_iff boolean?_eq_some_iff (fun _ => rfl) entries]
  constructor
  · intro given
    obtain ⟨entryMethod, first, given⟩ := Option.bind_eq_some_iff.1 given
    obtain ⟨report, second, given⟩ := Option.bind_eq_some_iff.1 given
    cases given
    exact ⟨first, second⟩
  · rintro ⟨first, second⟩
    simp only [ofEntries?, first, second]
    rfl

theorem ofEntries?_eq_none_iff : ofEntries? root = none ↔
    Garbles d "entry_method" .string ∨ Garbles d "report_ancestor_cycles" .boolean := by
  rw [← setting?_eq_none_iff string?_eq_some_iff (fun _ => rfl) entries,
    ← setting?_eq_none_iff boolean?_eq_some_iff (fun _ => rfl) entries, ofEntries?]
  cases setting? "entry_method" Value.string? "main" root with
  | none => simp
  | some name => cases setting? "report_ancestor_cycles" Value.boolean? true root <;> simp

end Document

variable {text : String}

/-- A text that is no document is malformed; what one says is said by its root table. -/
theorem ofToml_cases (text : String) :
    ((∀ d, ¬ Reads text d) ∧ ofToml text = .error .malformed) ∨
      ∃ d root, d.toEntries? = some root ∧ (∀ d', Reads text d' ↔ d' = d) ∧
        ofToml text = (ofEntries? root).elim (.error .malformed) .ok := by
  unfold ofToml Reads readDocument?
  cases read : Reader.readAll? Reader.document text with
  | none => exact .inl ⟨by simp, rfl⟩
  | some d =>
    cases entries : d.toEntries? with
    | none =>
      refine .inl ⟨?_, by simp [entries]⟩
      rintro d' ⟨same, fits⟩
      cases same
      rw [entries] at fits
      cases fits
    | some root =>
      refine .inr ⟨d, root, entries, fun d' => ⟨fun reads => (Option.some.inj reads.1).symm, ?_⟩, ?_⟩
      · rintro rfl
        exact ⟨rfl, by rw [entries]; rfl⟩
      · simp only [Option.bind_some, entries]
        cases ofEntries? root <;> rfl

/-- **A text gives settings** just when it is a document that gives each setting a value. -/
theorem ofToml_eq_ok_iff {s : Settings} :
    ofToml text = .ok s ↔ ∃ d, Reads text d ∧ Gives d "entry_method" .string "main" s.entryMethod ∧
      Gives d "report_ancestor_cycles" .boolean true s.reportAncestorCycles := by
  obtain ⟨unread, outcome⟩ | ⟨d, root, entries, reads, outcome⟩ := ofToml_cases text
  · rw [outcome]
    constructor
    · intro ok
      cases ok
    · rintro ⟨d, read, -⟩
      exact absurd read (unread d)
  · simp only [outcome, reads, exists_eq_left, ← ofEntries?_eq_some_iff entries]
    cases ofEntries? root <;> simp

/-- **A text is malformed** just when it is no document, or one that garbles a setting. -/
theorem ofToml_eq_error_iff {e : SettingsError} :
    ofToml text = .error e ↔ e = .malformed ∧ ∀ d, Reads text d →
      Garbles d "entry_method" .string ∨ Garbles d "report_ancestor_cycles" .boolean := by
  obtain ⟨unread, outcome⟩ | ⟨d, root, entries, reads, outcome⟩ := ofToml_cases text
  · rw [outcome]
    simp [unread, eq_comm]
  · simp only [outcome, reads, forall_eq, ← ofEntries?_eq_none_iff entries]
    cases ofEntries? root <;> simp [eq_comm]

/-! ## Settings written down -/

/-- A text with a line for each setting. -/
def toToml (s : Settings) : String :=
  "entry_method = \"" ++ s.entryMethod ++ "\"\nreport_ancestor_cycles = " ++ toString s.reportAncestorCycles ++ "\n"

/-- The line of the entry method. -/
def entryLine (s : Settings) (plain : ∀ c ∈ s.entryMethod.toList, isBasicChar c = true) : PlainLine where
  name := "entry_method".toList
  value := .string s.entryMethod
  written := '"' :: (s.entryMethod.toList ++ ['"'])
  named := by decide
  bare := List.all_eq_true.1 (by decide)
  starts := by rintro c ⟨⟩; rfl
  reads rest := by simpa using Reader.run_value_string plain (nestingLimit - 1)

def cyclesLine (s : Settings) : PlainLine where
  name := "report_ancestor_cycles".toList
  value := .boolean s.reportAncestorCycles
  written := (toString s.reportAncestorCycles).toList
  named := by decide
  bare := List.all_eq_true.1 (by decide)
  starts := by cases s.reportAncestorCycles <;> (rintro c ⟨⟩; rfl)
  reads rest := Reader.run_value_boolean s.reportAncestorCycles (nestingLimit - 1)

/-- **Settings that are written down are read back**, if the name of the entry method needs no escapes. -/
theorem ofToml_toToml {s : Settings} (plain : ∀ c ∈ s.entryMethod.toList, isBasicChar c = true) :
    ofToml s.toToml = .ok s := by
  have front : "entry_method = \"".toList = "entry_method".toList ++ [' ', '=', ' ', '"'] := by simp
  have middle : "\"\nreport_ancestor_cycles = ".toList =
      ['"', '\n'] ++ "report_ancestor_cycles".toList ++ [' ', '=', ' '] := by simp
  have back : "\n".toList = ['\n'] := by simp
  have text : s.toToml = String.ofList ([s.entryLine plain, s.cyclesLine].flatMap PlainLine.text) := by
    apply String.toList_inj.1
    rw [String.toList_ofList, List.flatMap_cons, List.flatMap_cons, List.flatMap_nil]
    unfold PlainLine.text entryLine cyclesLine toToml
    simp only [String.toList_append, front, middle, back, List.append_assoc, List.cons_append, List.nil_append,
      List.append_nil]
  have read := Reader.readAll?_document_lines [s.entryLine plain, s.cyclesLine]
  rw [ofToml_eq_ok_iff, text]
  refine ⟨_, ⟨read, rfl⟩, .inr ?_, .inr ?_⟩
  · exact List.mem_cons_self
  · exact List.mem_cons_of_mem _ List.mem_cons_self

end Settings
end MemberResolution

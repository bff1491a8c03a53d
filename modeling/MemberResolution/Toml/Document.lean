import MemberResolution.Toml.Value

/-!
# TOML documents

A document is a list of entries, followed by sections that begin with a header
each. `Document.toEntries?` puts all of them into the root table, which fails
when a key is given twice or a table is defined twice. Brackets and braces
nest less than eighty deep, and a key has fewer than eighty parts.
-/

namespace MemberResolution.Toml
set_option autoImplicit false

/-- A dotted key: the path to a table and the key inside it. -/
structure Key where
  path : List String
  last : String

/-- A key and its value. -/
structure Entry where
  key : Key
  value : Value

/-- The first line of a section. -/
inductive Header where
  /-- The section is the table with this key. -/
  | table (key : Key)
  /-- The section is one more element of the array of tables with this key. -/
  | element (key : Key)

/-- A header and the entries below it. -/
structure Section where
  header : Header
  entries : List Entry

/-- The entries of the root table and the sections. -/
structure Document where
  entries : List Entry
  sections : List Section

/-- Adds entries to a table one after the other. -/
def Entries.addAll (added : List Entry) (table : Entries) : Option Entries :=
  added.foldlM (fun table e => table.addDotted e.key.last e.value e.key.path true) table

/-- Adds a section to the root table. -/
def Entries.addSection (root : Entries) (s : Section) : Option Entries :=
  match s.header with
  | .table key => root.changeBelow (openTable (addAll s.entries) key.last) key.path
  | .element key => root.changeBelow (openElement (addAll s.entries) key.last) key.path

/-- The root table of a document. -/
def Document.toEntries? (d : Document) : Option Entries := do
  d.sections.foldlM Entries.addSection (← Entries.addAll d.entries [])

/-- One more than the number of parts of the longest key and than the depth of the deepest brackets. -/
def nestingLimit : Nat := 80

/-- A character of a key without quotes. -/
def isBareKeyChar (c : Char) : Bool := c.isAlphanum || c == '-' || c == '_'

namespace Reader

/-- One part of a key. -/
def keyPart : Reader String :=
  String.ofList <$> (basicText <|> literalText <|> takeWhile1 isBareKeyChar)

def key : Reader Key := do
  let parts ← separated (blanks *> keyPart <* blanks) (char '.')
  match parts.getLast? with
  | some last => if parts.length < nestingLimit then return ⟨parts.dropLast, last⟩ else failure
  | none => failure

/-- A key and the value that `value` reads, up to the end of the value. -/
def entry (value : Reader Value) : Reader Entry := do
  let key ← key
  char '='
  blanks
  let value ← value
  return { key, value }

/-- Values between brackets. -/
def array (value : Reader Value) : Reader Value := do
  char '['
  let items ← optional (separated (filler *> value <* filler) (char ',') <* optional (char ','))
  filler
  char ']'
  return .array (items.getD [])

/-- Entries between braces, on one line. -/
def inlineTable (value : Reader Value) : Reader Value := do
  char '\x7b'
  let entries ← optional (separated (entry value <* blanks) (char ','))
  blanks
  char '\x7d'
  match Entries.addAll (entries.getD []) [] with
  | some entries => return .table .inline entries
  | none => failure

/-- A value that holds no other value. -/
def scalar : Reader Value :=
  .string <$> quoted <|> .dateTime <$> dateTime <|> .float <$> float <|> .integer <$> integer <|>
    (word "true" *> pure (.boolean true)) <|> (word "false" *> pure (.boolean false))

/-- A value in which brackets and braces nest at most `depth` deep. -/
def value : (depth : Nat) → Reader Value
  | 0 => scalar
  | depth + 1 => array (value depth) <|> inlineTable (value depth) <|> scalar

def header : Reader Header :=
  (char '[' *> char '[' *> (.element <$> key) <* char ']' <* char ']') <|>
    (char '[' *> (.table <$> key) <* char ']')

/-- Entries on lines of their own, among blank lines and comments. -/
def entryLines : Reader (List Entry) := do
  let lines ← many (some <$> (entry (value (nestingLimit - 1)) <* lineEnd) <|> lineEnd *> pure none)
  return lines.filterMap id

def sectionLines : Reader Section := do
  blanks
  let header ← header
  lineEnd
  return { header, entries := ← entryLines }

/-- A whole document, after a byte order mark if there is one. -/
def document : Reader Document := do
  let _ ← optional (char '\ufeff')
  let entries ← entryLines
  let sections ← many sectionLines
  blanks
  return { entries, sections }

end Reader

/-- The root table of a text; `none` if the text is no TOML document. -/
def readDocument? (text : String) : Option Entries :=
  (Reader.readAll? Reader.document text).bind Document.toEntries?

end MemberResolution.Toml

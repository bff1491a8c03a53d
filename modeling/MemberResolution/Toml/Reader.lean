/-!
# Readers of text

A reader takes characters off the front of a text and gives a value, or fails.
Readers are total: a repetition goes on only while its items take characters,
so it ends with the text. After a failure in one alternative the next one
starts where the first did.
-/

namespace MemberResolution.Toml
set_option autoImplicit false

/-- Takes characters off the front of a text and gives a value, or fails. -/
abbrev Reader := StateT (List Char) Option

namespace Reader

variable {α : Type}

/-- The next character, which has to be in a class. -/
def satisfy (inClass : Char → Bool) : Reader Char := fun text =>
  match text with
  | c :: rest => if inClass c then some (c, rest) else none
  | [] => none

/-- The character `c` itself. -/
def char (c : Char) : Reader Unit := do
  let _ ← satisfy (· == c)

/-- The characters of a word, one after the other. -/
def word (letters : String) : Reader Unit := letters.toList.forM char

/-- The longest run of characters in a class. -/
def takeWhile (inClass : Char → Bool) : Reader (List Char) := fun text =>
  some (text.takeWhile inClass, text.dropWhile inClass)

/-- The longest run of characters in a class, which must not be empty. -/
def takeWhile1 (inClass : Char → Bool) : Reader (List Char) := do
  let first ← satisfy inClass
  let rest ← takeWhile inClass
  return first :: rest

/-- Succeeds at the end of the text. -/
def endOfText : Reader Unit := fun text => if text.isEmpty then some ((), []) else none

/-- What `item` gives, or nothing where it fails. -/
def optional (item : Reader α) : Reader (Option α) :=
  some <$> item <|> pure none

private def manyFrom (item : Reader α) (text : List Char) : List α × List Char :=
  match item.run text with
  | none => ([], text)
  | some (a, rest) =>
    if _shorter : rest.length < text.length then
      let (as, rest) := manyFrom item rest
      (a :: as, rest)
    else ([], text)
termination_by text.length

/-- As many items as there are; ends at the first failure and at the first item that takes no character. -/
def many (item : Reader α) : Reader (List α) := fun text => some (manyFrom item text)

theorem run_many_of_item {item : Reader α} {text rest later : List Char} {a : α} {as : List α}
    (first : item.run text = some (a, rest)) (shorter : rest.length < text.length)
    (others : (many item).run rest = some (as, later)) : (many item).run text = some (a :: as, later) := by
  show some (manyFrom item text) = _
  rw [manyFrom, first]
  simp only [shorter, dif_pos]
  rw [show manyFrom item rest = (as, later) from Option.some.inj others]

theorem run_many_of_stop {item : Reader α} {text : List Char}
    (stop : ∀ a rest, item.run text = some (a, rest) → text.length ≤ rest.length) :
    (many item).run text = some ([], text) := by
  show some (manyFrom item text) = _
  rw [manyFrom]
  split
  · rfl
  · next a rest taken => rw [dif_neg (Nat.not_lt.2 (stop a rest taken))]

/-- Items with separators between them, at least one. -/
def separated (item : Reader α) (separator : Reader Unit) : Reader (List α) := do
  let first ← item
  let rest ← many do
    separator
    item
  return first :: rest

/-- What a reader gives for a whole text. -/
def readAll? (item : Reader α) (text : String) : Option α :=
  match (item <* endOfText).run text.toList with
  | some (a, _) => some a
  | none => none

end Reader

/-- Space or tab. -/
def isBlank (c : Char) : Bool := c == ' ' || c == '\t'

/-- A character that may stand in a comment: no control character but the tab. -/
def isCommentChar (c : Char) : Bool := c == '\t' || (' ' ≤ c && c ≤ '~') || '\u0080' ≤ c

def isHexDigit (c : Char) : Bool := c.isDigit || ('a' ≤ c && c ≤ 'f') || ('A' ≤ c && c ≤ 'F')

def isOctalDigit (c : Char) : Bool := '0' ≤ c && c ≤ '7'

def isBinaryDigit (c : Char) : Bool := c == '0' || c == '1'

/-- The value of a digit in any base up to sixteen. -/
def digitValue (c : Char) : Nat :=
  if c.isDigit then c.toNat - '0'.toNat else 10 + (c.toLower.toNat - 'a'.toNat)

/-- The number that digits write in a base. -/
def numeral (base : Nat) (digits : List Char) : Nat :=
  digits.foldl (fun n c => n * base + digitValue c) 0

namespace Reader

def blanks : Reader Unit := do
  let _ ← takeWhile isBlank

/-- The end of a line: a line feed, with or without a carriage return before it. -/
def newline : Reader Unit := char '\n' <|> word "\r\n"

def comment : Reader Unit := do
  char '#'
  let _ ← takeWhile isCommentChar

/-- What may stand between a statement and the end of its line, and that end. -/
def lineEnd : Reader Unit := do
  blanks
  let _ ← optional comment
  newline <|> endOfText

/-- Blanks, line ends and comments, each comment with the end of its line. -/
def filler : Reader Unit := do
  let _ ← many (discard (takeWhile1 isBlank) <|> newline <|> (comment *> newline))

end Reader
end MemberResolution.Toml

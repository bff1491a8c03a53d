import MemberResolution.Toml.Reader

/-!
# Quoted text

TOML has four kinds of strings: between double quotes, where a backslash
starts an escape, and between single quotes, where nothing does; each on one
line, or on several between tripled quotes. In a string on several lines the
line end after the opening quotes is dropped, every line end counts as a line
feed, and one or two quotes may stand anywhere, also right before the closing
ones.
-/

namespace MemberResolution.Toml
set_option autoImplicit false

/-- A character that stands for itself between double quotes. -/
def isBasicChar (c : Char) : Bool := isCommentChar c && c != '"' && c != '\\'

/-- A character that stands for itself between single quotes. -/
def isLiteralChar (c : Char) : Bool := isCommentChar c && c != '\''

/-- The character with a code point given by `count` hexadecimal digits. -/
def Reader.codePoint (count : Nat) : Reader Char := do
  let digits ← (List.replicate count ()).mapM fun _ => satisfy isHexDigit
  let point := numeral 16 digits
  if point.isValidChar then return Char.ofNat point else failure

/-- An escape: a backslash and what it stands for. -/
def Reader.escape : Reader Char := do
  char '\\'
  let c ← satisfy fun _ => true
  match c with
  | 'b' => return '\x08'
  | 'f' => return '\x0c'
  | 'n' => return '\n'
  | 'r' => return '\r'
  | 't' => return '\t'
  | '"' => return '"'
  | '\\' => return '\\'
  | 'u' => codePoint 4
  | 'U' => codePoint 8
  | _ => failure

/-- A backslash at the end of a line: it swallows the line end and all blanks and line ends that follow. -/
def Reader.lineContinuation : Reader Unit := do
  char '\\'
  blanks
  newline
  let _ ← many (discard (takeWhile1 isBlank) <|> newline)

/-- A piece of text between double quotes: characters that stand for themselves, or an escape. -/
def Reader.basicPiece : Reader (List Char) := takeWhile1 isBasicChar <|> (do return [← escape])

/-- Text between double quotes on one line. -/
def Reader.basicText : Reader (List Char) :=
  char '"' *> (List.flatten <$> many basicPiece) <* char '"'

/-- Text between single quotes on one line. -/
def Reader.literalText : Reader (List Char) :=
  char '\'' *> takeWhile isLiteralChar <* char '\''

/-- One or two quotes that a third does not follow. -/
def Reader.innerQuotes (quote : Char) : Reader (List Char) := fun text =>
  match text.takeWhile (· == quote) with
  | [_] => some ([quote], text.drop 1)
  | [_, _] => some ([quote, quote], text.drop 2)
  | _ => none

/-- The three closing quotes; of two more in front of them each belongs to the text. -/
def Reader.closingQuotes (quote : Char) : Reader (List Char) := fun text =>
  let count := min 5 (text.takeWhile (· == quote)).length
  if count < 3 then none else some (List.replicate (count - 3) quote, text.drop count)

/-- Text on several lines between tripled quotes. -/
def Reader.multilineText (quote : Char) (piece : Reader (List Char)) : Reader (List Char) := do
  char quote
  char quote
  char quote
  let _ ← optional newline
  let pieces ← many (piece <|> (newline *> pure ['\n']) <|> innerQuotes quote)
  let last ← closingQuotes quote
  return pieces.flatten ++ last

/-- A string of any kind. -/
def Reader.quoted : Reader String :=
  String.ofList <$>
    (multilineText '"' ((lineContinuation *> pure []) <|> basicPiece) <|>
      basicText <|>
      multilineText '\'' (takeWhile1 isLiteralChar) <|>
      literalText)

end MemberResolution.Toml

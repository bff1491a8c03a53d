import MemberResolution.Toml.Reader

/-!
# Numbers

Integers are signed decimals, or unsigned numbers in base sixteen, eight or
two; all of them fit 64 bits with a sign. Between two digits an underscore may
stand. A decimal with a fraction or an exponent is a float, kept as its digits
and a power of ten. A float that is not negative and rounds to infinity as a
double is refused.
-/

namespace MemberResolution.Toml
set_option autoImplicit false

/-- A number with a fraction or an exponent, or one of the special values. -/
inductive FloatValue where
  /-- The number `digits * 10 ^ exponent`, negated if `negative`. -/
  | decimal (negative : Bool) (digits : Nat) (exponent : Int)
  | infinity (negative : Bool)
  | nan (negative : Bool)
  deriving DecidableEq

/-- The least number that rounds to infinity as a double: half a step above the greatest double. -/
def doubleLimit : Nat := Nat.pow 2 1024 - Nat.pow 2 970

/-- Whether `digits * 10 ^ exponent` reaches `doubleLimit`, a number of 309 digits. Only an exponent near
the point where that can change is computed with. -/
def reachesDoubleLimit (digits : Nat) (exponent : Int) : Bool :=
  if digits = 0 then false
  else
    let magnitude := (Nat.toDigits 10 digits).length + exponent
    if magnitude < 309 then false
    else if 309 < magnitude then true
    else if 0 ≤ exponent then doubleLimit ≤ digits * Nat.pow 10 exponent.toNat
    else doubleLimit * Nat.pow 10 (-exponent).toNat ≤ digits

namespace Reader

/-- Digits, where single underscores may stand between two of them. -/
def digitRun (isDigit : Char → Bool) : Reader (List Char) := do
  let first ← satisfy isDigit
  let rest ← many (satisfy isDigit <|> (char '_' *> satisfy isDigit))
  return first :: rest

/-- Whether a minus sign stands here; a plus sign is passed over. -/
def sign : Reader Bool := do
  let sign ← optional (satisfy fun c => c == '+' || c == '-')
  return sign == some '-'

/-- Digits of a decimal without leading zeros. -/
def decimalDigits : Reader (List Char) := do
  let digits ← digitRun Char.isDigit
  if digits.head? == some '0' && digits.length != 1 then failure else return digits

def decimalInteger : Reader Int := do
  let negative ← sign
  let n := numeral 10 (← decimalDigits)
  let value : Int := if negative then -n else n
  if Int64.minValue.toInt ≤ value && value ≤ Int64.maxValue.toInt then return value else failure

/-- An unsigned integer in another base than ten, after the mark of that base. -/
def basedInteger (mark : String) (base : Nat) (isDigit : Char → Bool) : Reader Int := do
  word mark
  let n := numeral base (← digitRun isDigit)
  if n ≤ Int64.maxValue.toInt then return n else failure

def integer : Reader Int :=
  basedInteger "0x" 16 isHexDigit <|> basedInteger "0o" 8 isOctalDigit <|>
    basedInteger "0b" 2 isBinaryDigit <|> decimalInteger

def exponent : Reader Int := do
  let _ ← satisfy fun c => c == 'e' || c == 'E'
  let negative ← sign
  let n := numeral 10 (← digitRun Char.isDigit)
  return if negative then -n else n

/-- A decimal with a fraction, an exponent or both. -/
def decimalFloat : Reader FloatValue := do
  let negative ← sign
  let whole ← decimalDigits
  let fraction ← optional (char '.' *> digitRun Char.isDigit)
  let power ← if fraction.isSome then (·.getD 0) <$> optional exponent else exponent
  let fraction := fraction.getD []
  let digits := numeral 10 (whole ++ fraction)
  let power := power - fraction.length
  if !negative && reachesDoubleLimit digits power then failure
  else return .decimal negative digits power

/-- Infinity or not a number, with or without a sign. -/
def specialFloat : Reader FloatValue := do
  let negative ← sign
  (word "inf" *> pure (.infinity negative)) <|> (word "nan" *> pure (.nan negative))

def float : Reader FloatValue := decimalFloat <|> specialFloat

end Reader
end MemberResolution.Toml

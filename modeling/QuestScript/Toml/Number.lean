import QuestScript.Toml.Digits

/-! Numbers. A whole number has 64 bits with a sign. A number with a fraction or an exponent is
rounded to 64-bit binary floating point, and is refused where it rounds up to infinity; one below
zero is never refused. -/
namespace QuestScript.Toml

open Scanner

def sign : Scanner Bool :=
  (fun _ => true) <$> char '-' <|> (fun _ => false) <$> char '+' <|> pure false

/-- A sign and decimal digits. A zero leads only when it is alone. -/
def decimal : Scanner (Bool × List Char) := do
  let negative ← sign
  let digits ← grouped Char.isDigit
  guard (digits.head? = some '0' → digits.length = 1)
  return (negative, digits)

def largestWhole : Nat := Nat.pow 2 63 - 1

def based (mark : Char) (base : Nat) (isDigit : Char → Bool) : Scanner Unit := do
  word ['0', mark]
  let digits ← grouped isDigit
  guard (numberOf base digits ≤ largestWhole)

def whole : Scanner Unit :=
  based 'x' 16 isHexDigit <|> based 'o' 8 (fun c => '0' ≤ c && c ≤ '7') <|>
    based 'b' 2 (fun c => c = '0' || c = '1') <|> do
      let (negative, digits) ← decimal
      guard (numberOf 10 digits ≤ if negative then largestWhole + 1 else largestWhole)

/-- The smallest number that rounds to infinity, halfway between the largest finite number and the
power of two after it. -/
def roundsUp : Nat := Nat.pow 2 1024 - Nat.pow 2 970

def isInfinite (digits : List Char) (point : Int) : Bool :=
  let leading := (digits.takeWhile fun c => c = '0').length
  let significant := digits.drop leading
  let point := point - leading
  let count := significant.length
  !significant.isEmpty &&
    (309 < point ||
      (point = 309 &&
        roundsUp * Nat.pow 10 (count - 309) ≤
          numberOf 10 significant * Nat.pow 10 (309 - count)))

def exponent : Scanner Int := do
  discard (one fun c => c = 'e' || c = 'E')
  let negative ← sign
  let size : Int := numberOf 10 (← grouped Char.isDigit)
  return if negative then -size else size

def finite : Scanner Unit := do
  let (negative, digits) ← decimal
  let fraction ← optional (do char '.'; grouped Char.isDigit)
  let power ← optional exponent
  guard (fraction.isSome ∨ power.isSome)
  guard (negative ∨ !isInfinite (digits ++ fraction.getD []) (digits.length + power.getD 0))

def special : Scanner Unit := do
  discard sign
  word ['i', 'n', 'f'] <|> word ['n', 'a', 'n']

def number : Scanner Unit := finite <|> special <|> whole

end QuestScript.Toml

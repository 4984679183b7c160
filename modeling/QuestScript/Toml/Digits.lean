import QuestScript.Toml.Scanner

/-! Digits, and the numbers they write. -/
namespace QuestScript.Toml

open Scanner

def isHexDigit (c : Char) : Bool := c.isDigit || ('a' ≤ c && c ≤ 'f') || ('A' ≤ c && c ≤ 'F')

def digitValue (c : Char) : Nat :=
  if c.isDigit then c.toNat - '0'.toNat else c.toLower.toNat - 'a'.toNat + 10

def numberOf (base : Nat) (digits : List Char) : Nat :=
  digits.foldl (fun n c => base * n + digitValue c) 0

def fixedNumber (width : Nat) : Scanner Nat := do
  return numberOf 10 (← times (one Char.isDigit) width)

/-- Digits with single underscores between them, and without these. -/
def grouped (isDigit : Char → Bool) : Scanner (List Char) := do
  let first ← one isDigit
  return first :: (← many (do discard (optional (char '_')); one isDigit))

end QuestScript.Toml

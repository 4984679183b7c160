import QuestScript.Toml.Digits

/-! Dates and times of day. A date may stand alone or before a time, a time may stand alone, and a
date with a time may have an offset. -/
namespace QuestScript.Toml

open Scanner

def isLeap (year : Nat) : Bool := year % 4 = 0 && (year % 100 ≠ 0 || year % 400 = 0)

def daysIn (year month : Nat) : Nat :=
  if month = 2 then if isLeap year then 29 else 28
  else if month ∈ [4, 6, 9, 11] then 30
  else 31

def upTo (bound : Nat) : Scanner Unit := do
  guard ((← fixedNumber 2) ≤ bound)

def date : Scanner Unit := do
  let year ← fixedNumber 4
  char '-'
  let month ← fixedNumber 2
  char '-'
  let day ← fixedNumber 2
  guard (1 ≤ month ∧ month ≤ 12 ∧ 1 ≤ day ∧ day ≤ daysIn year month)

/-- A time of day. A minute may have a second more than sixty. -/
def time : Scanner Unit := do
  upTo 23
  char ':'
  upTo 59
  char ':'
  upTo 60
  discard (optional (do char '.'; discard (one Char.isDigit); stretch Char.isDigit))

def offset : Scanner Unit :=
  discard (one fun c => c = 'Z' || c = 'z') <|> do
    discard (one fun c => c = '+' || c = '-')
    upTo 23
    char ':'
    upTo 59

def timeOfDate : Scanner Unit := do
  discard (one fun c => c = 'T' || c = 't' || c = ' ')
  time
  discard (optional offset)

def moment : Scanner Unit := (do date; discard (optional timeOfDate)) <|> time

end QuestScript.Toml

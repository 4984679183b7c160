import QuestScript.Toml.Moment
import QuestScript.Toml.Number
import QuestScript.Toml.Quoted
import QuestScript.Toml.Table

/-! Keys and values. Arrays and inline tables may hold others up to a fixed depth. -/
namespace QuestScript.Toml

open Scanner

def isKeyChar (c : Char) : Bool := c.isAlphanum || c = '_' || c = '-'

def keyPart : Scanner String := do
  blanks
  let part ← basicText <|> literalText <|> do
    let c ← one isKeyChar
    return c :: (← stretch isKeyChar)
  blanks
  return String.ofList part

def key : Scanner Key := do
  let parts ← separated (char '.') keyPart
  guard (parts.length < 80)
  return ⟨parts.dropLast, parts.getLastD ""⟩

def pair (value : Scanner Item) : Scanner (Key × Item) := do
  let key ← key
  char '='
  blanks
  return (key, ← value)

def array (value : Scanner Item) : Scanner Item := do
  char '['
  discard (optional (do
    discard (separated (char ',') (do gap; discard value; gap))
    discard (optional (char ','))))
  gap
  char ']'
  return .other

/-- An inline table. It stands on one line, but for the arrays and texts in it, and no comma
follows its last item. -/
def inlineTable (value : Scanner Item) : Scanner Item := do
  char '\x7b'
  let items ← optional (separated (char ',') (do let entry ← pair value; blanks; return entry))
  blanks
  char '\x7d'
  guard ((Table.ofOrigin .stated).addAll (items.getD [])).isSome
  return .other

def simpleValue : Scanner Item :=
  (fun cs => .text (String.ofList cs)) <$> quotedText <|> do
    moment <|> number <|> word ['t', 'r', 'u', 'e'] <|> word ['f', 'a', 'l', 's', 'e']
    return .other

def valueWithin : Nat → Scanner Item
  | 0 => simpleValue
  | depth + 1 => array (valueWithin depth) <|> inlineTable (valueWithin depth) <|> simpleValue

def value : Scanner Item := valueWithin 79

end QuestScript.Toml

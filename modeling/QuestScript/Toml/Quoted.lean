import QuestScript.Toml.Digits
import QuestScript.Toml.Layout

/-! Texts in quotes. Double quotes allow escapes, single quotes do not. Three quotes of a kind open
a text of many lines, in which every line end stands for a line feed. -/
namespace QuestScript.Toml

open Scanner

def codedChar (width : Nat) : Scanner Char := do
  let code := numberOf 16 (← times (one isHexDigit) width)
  guard code.isValidChar
  return Char.ofNat code

def escape : Scanner Char := do
  char '\\'
  match ← one isPrintable with
  | 'b' => return '\x08'
  | 't' => return '\t'
  | 'n' => return '\n'
  | 'f' => return '\x0c'
  | 'r' => return '\r'
  | '"' => return '"'
  | '\\' => return '\\'
  | 'u' => codedChar 4
  | 'U' => codedChar 8
  | _ => failure

/-- A backslash at the end of a line stands for nothing, together with the blanks and line ends
after it. -/
def continuation : Scanner Unit := do
  char '\\'
  blanks
  newline
  discard (many (discard (one Text.isBlank) <|> newline))

def isLiteral (quote : Char) (c : Char) : Bool :=
  isPrintable c && c ≠ quote && (quote = '\'' || c ≠ '\\')

def basicText : Scanner (List Char) := do
  char '"'
  let cs ← many (one (isLiteral '"') <|> escape)
  char '"'
  return cs

def literalText : Scanner (List Char) := do
  char '\''
  let cs ← stretch (isLiteral '\'')
  char '\''
  return cs

def innerQuotes (quote : Char) : Scanner (List Char) := do
  let quotes ← stretch fun c => c = quote
  guard (0 < quotes.length ∧ quotes.length < 3)
  return quotes

/-- The three quotes that close a text of many lines. One or two quotes right before them belong to
the text. -/
def closingQuotes (quote : Char) : Scanner (List Char) := do
  let quotes ← stretch fun c => c = quote
  guard (3 ≤ quotes.length ∧ quotes.length ≤ 5)
  return quotes.drop 3

/-- A text of many lines. A line end right after the opening quotes is dropped. -/
def longText (quote : Char) (escapes : Scanner (List Char)) : Scanner (List Char) := do
  word [quote, quote, quote]
  discard (optional newline)
  let pieces ← many
    ((fun c => [c]) <$> one (isLiteral quote) <|> (fun _ => ['\n']) <$> newline <|>
      escapes <|> innerQuotes quote)
  return pieces.flatten ++ (← closingQuotes quote)

def quotedText : Scanner (List Char) :=
  longText '"' ((fun _ => []) <$> continuation <|> (fun c => [c]) <$> escape) <|> basicText <|>
    longText '\'' failure <|> literalText

end QuestScript.Toml

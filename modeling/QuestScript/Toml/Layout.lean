import QuestScript.Text.Blank
import QuestScript.Toml.Scanner

/-! What stands between the parts of a document: blanks, comments and line ends. A line ends at a
line feed, alone or after a carriage return; a carriage return alone is refused. -/
namespace QuestScript.Toml

open Scanner

/-- The characters a text may hold as they are. Of the control characters that is the tab alone. -/
def isPrintable (c : Char) : Bool := c = '\t' || (' ' ≤ c && c ≠ '\x7f')

def blanks : Scanner Unit := discard (stretch Text.isBlank)

def newline : Scanner Unit := char '\n' <|> word ['\r', '\n']

def comment : Scanner Unit := do
  char '#'
  discard (stretch isPrintable)

def gap : Scanner Unit :=
  discard (many (discard (one Text.isBlank) <|> (do discard (optional comment); newline)))

def lineEnd : Scanner Unit := do
  blanks
  discard (optional comment)
  newline <|> ending

end QuestScript.Toml

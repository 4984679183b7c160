import QuestScript.Text.Words

/-! Directives of a quest script. A line is read on its own: it opens a block, inserts a macro,
imports one, ends a block, or is plain text. Keywords are complete words in any letter case, only
spaces and tabs count as blanks, and the first colon after the keyword `macro` makes an insertion. -/
namespace QuestScript

open Text

inductive Directive where
  /-- A line `macro Name parameters`: the keyword and the words after it. -/
  | definition (tokens : List String)
  /-- A line `macro instance: Name arguments`: the keyword and the words after it, no colons. -/
  | insertion (tokens : List String)
  /-- A line `import macro Name from file`: the two keywords and the words after them. -/
  | importing (tokens : List String)
  /-- A line `end macro`, with anything after it. -/
  | endMarker
  | plain (line : String)
  deriving DecidableEq

namespace Directive

def macroWord : List Char := ['m', 'a', 'c', 'r', 'o']

def endWord : List Char := ['e', 'n', 'd']

def importWord : List Char := ['i', 'm', 'p', 'o', 'r', 't']

def isSeparator (c : Char) : Bool := isBlank c || c == ':'

/-- A word is complete where the text ends or a blank or a colon follows. -/
def endsWord : List Char → Bool
  | [] => true
  | c :: _ => isSeparator c

def keyword? (keyword text : List Char) : Option (List Char × List Char) :=
  if (text.take keyword.length).map Char.toLower = keyword ∧ endsWord (text.drop keyword.length) then
    some (text.take keyword.length, text.drop keyword.length)
  else none

def second? (first : List Char) (text : List Char) : Option (List Char × List Char × List Char) :=
  match keyword? first text with
  | none => none
  | some (spelled, rest) =>
    match keyword? macroWord (rest.dropWhile isBlank) with
    | none => none
    | some (next, later) => some (spelled, next, later)

/-- What a text without leading blanks says; `line` is the whole line it came from. -/
def ofText (line : String) (text : List Char) : Directive :=
  match keyword? macroWord text with
  | some (spelled, rest) =>
    if ':' ∈ rest then .insertion ((spelled :: words isSeparator rest).map String.ofList)
    else .definition ((spelled :: words isBlank rest).map String.ofList)
  | none =>
    match second? endWord text with
    | some _ => .endMarker
    | none =>
      match second? importWord text with
      | some (spelled, next, rest) =>
        .importing ((spelled :: next :: words isBlank rest).map String.ofList)
      | none => .plain line

def ofLine (line : String) : Directive := ofText line (line.toList.dropWhile isBlank)

end Directive

end QuestScript

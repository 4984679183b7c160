/-! Lines of a text. A line ends at a line feed, and a carriage return right before the line feed
belongs to the end. What follows the last line feed is a line of its own unless it is empty; a
carriage return at its end is kept. -/
namespace QuestScript.Text

def cutLines : List Char → List (List Char)
  | [] => []
  | '\n' :: rest => [] :: cutLines rest
  | '\r' :: '\n' :: rest => [] :: cutLines rest
  | c :: rest =>
    match cutLines rest with
    | [] => [[c]]
    | line :: later => (c :: line) :: later

def lines (text : String) : List String := (cutLines text.toList).map String.ofList

end QuestScript.Text

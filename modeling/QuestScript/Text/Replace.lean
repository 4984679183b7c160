/-! Replacing a text inside a text. Occurrences are found from left to right, do not overlap, and
are never looked for in what was written. The empty text occurs before every character and at the
end. -/
namespace QuestScript.Text

def replaceWord (c : Char) (cs new : List Char) : List Char → List Char
  | [] => []
  | d :: rest =>
    if (c :: cs).isPrefixOf (d :: rest) then new ++ replaceWord c cs new (rest.drop cs.length)
    else d :: replaceWord c cs new rest
termination_by text => text.length
decreasing_by
  · simp only [List.length_drop, List.length_cons]
    omega
  · simp

def replaceChars (old new text : List Char) : List Char :=
  match old with
  | [] => new ++ text.flatMap (· :: new)
  | c :: cs => replaceWord c cs new text

def replace (old new text : String) : String :=
  String.ofList (replaceChars old.toList new.toList text.toList)

@[simp] theorem toList_replace (old new text : String) :
    (replace old new text).toList = replaceChars old.toList new.toList text.toList := by
  simp [replace]

end QuestScript.Text

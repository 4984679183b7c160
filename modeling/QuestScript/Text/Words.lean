import QuestScript.Text.Blank

/-! Words of a text: its maximal runs of characters that are no separators. -/
namespace QuestScript.Text

def words (separates : Char → Bool) : List Char → List (List Char)
  | [] => []
  | c :: rest =>
    if separates c then words separates rest
    else
      (c :: rest.takeWhile fun d => !separates d) ::
        words separates (rest.dropWhile fun d => !separates d)
termination_by cs => cs.length
decreasing_by
  · simp
  · have := (List.dropWhile_suffix (fun d => !separates d) (l := rest)).length_le
    simp only [List.length_cons]
    omega

end QuestScript.Text

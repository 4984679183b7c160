import QuestScript.Proofs.LineGrammar
import QuestScript.Proofs.Spelling

/-! The language of lines. What a line says is told by its front and by the maximal runs behind it,
with no word on how a scanner finds them. Each line says one thing, and the scanner and the grammar
both give that. -/
namespace QuestScript

open Text

namespace Text

/-- The text is cut into runs without separators. A run ends where the text ends or at a separator. -/
inductive Runs (separates : Char → Bool) : List Char → List String → Prop where
  | nil : Runs separates [] []
  | gap {c : Char} {text : List Char} {runs : List String} (separator : separates c = true)
      (later : Runs separates text runs) : Runs separates (c :: text) runs
  | run {run : String} {text : List Char} {runs : List String} (filled : run.toList ≠ [])
      (clear : ∀ c ∈ run.toList, separates c = false)
      (ends : ∀ c behind, text = c :: behind → separates c = true)
      (later : Runs separates text runs) : Runs separates (run.toList ++ text) (run :: runs)

theorem runs_words (separates : Char → Bool) (text : List Char) :
    Runs separates text ((words separates text).map String.ofList) := by
  fun_induction words separates text with
  | case1 => exact .nil
  | case2 c rest separator ih => exact .gap separator ih
  | case3 c rest stands ih =>
    let run := c :: rest.takeWhile fun d => !separates d
    have clear : ∀ d ∈ run, separates d = false := by
      intro d member
      rcases List.mem_cons.1 member with rfl | inside
      · simpa using stands
      · simpa using List.all_eq_true.1 (List.all_takeWhile (l := rest)) d inside
    have ends : ∀ d behind, rest.dropWhile (fun d => !separates d) = d :: behind →
        separates d = true := by
      intro d behind same
      have stops := List.head?_dropWhile_not (fun d => !separates d) rest
      rw [same] at stops
      simpa using stops
    have cut : c :: rest = (String.ofList run).toList ++ rest.dropWhile fun d => !separates d := by
      rw [String.toList_ofList, List.cons_append, List.takeWhile_append_dropWhile]
    rw [cut]
    exact .run (by simp [run]) (by simpa using clear) ends ih

theorem Runs.words_eq {separates : Char → Bool} {text : List Char} {runs : List String}
    (cut : Runs separates text runs) : (words separates text).map String.ofList = runs := by
  induction cut with
  | nil => rw [words, List.map_nil]
  | gap separator _ ih => rw [words, if_pos separator, ih]
  | run filled clear ends _ ih =>
    rw [words_word filled clear ends, List.map_cons, String.ofList_toList, ih]

end Text

namespace Directive

def Complete (text : List Char) : Prop := ∀ c later, text = c :: later → isSeparator c = true

/-- After any blanks, the line has the keyword `macro` and then `rest`. -/
structure OpensMacro (line keyword : String) (rest : List Char) : Prop where
  opens : Opens keyword line rest
  spells : IsKeyword keyword
  complete : Complete rest

structure OpensPair (name line first second : String) (rest : List Char) : Prop where
  opens : ∃ gap, gap ≠ [] ∧ (∀ c ∈ gap, isBlank c = true) ∧
    Opens first line (gap ++ (second.toList ++ rest))
  names : lower first = name
  spells : IsKeyword second
  complete : Complete rest

/-- The line has the front of a directive. -/
def Begins (line : String) : Prop :=
  (∃ keyword rest, OpensMacro line keyword rest) ∨
    ∃ name first second rest, (name = "end" ∨ name = "import") ∧
      OpensPair name line first second rest

inductive Means (line : String) : Directive → Prop where
  | endMarker {first second : String} {rest : List Char}
      (front : OpensPair "end" line first second rest) : Means line .endMarker
  | importing {first second : String} {rest : List Char} {words : List String}
      (front : OpensPair "import" line first second rest) (runs : Runs isBlank rest words) :
      Means line (.importing (first :: second :: words))
  | insertion {keyword : String} {rest : List Char} {words : List String}
      (front : OpensMacro line keyword rest) (colon : ':' ∈ rest) (runs : Runs isSeparator rest words) :
      Means line (.insertion (keyword :: words))
  | definition {keyword : String} {rest : List Char} {words : List String}
      (front : OpensMacro line keyword rest) (noColon : ':' ∉ rest) (runs : Runs isBlank rest words) :
      Means line (.definition (keyword :: words))
  | plain (noFront : ¬ Begins line) : Means line (.plain line)

theorem complete_iff (text : List Char) : Complete text ↔ endsWord text = true := by
  cases text with
  | nil => simp [Complete, endsWord]
  | cons c rest => simp [Complete, endsWord]

theorem keyword?_eq_some {letters text spelled rest : List Char} :
    keyword? letters text = some (spelled, rest) ↔
      spelled.map Char.toLower = letters ∧ text = spelled ++ rest ∧ Complete rest := by
  rw [complete_iff]
  unfold keyword?
  constructor
  · intro opened
    split at opened
    · next both =>
      cases opened
      exact ⟨both.1, (List.take_append_drop ..).symm, both.2⟩
    · cases opened
  · rintro ⟨rfl, rfl, ends⟩
    rw [List.length_map, List.take_left, List.drop_left, if_pos ⟨rfl, ends⟩]

theorem lower_eq_iff {word name : String} {letters : List Char} (spelled : name.toList = letters) :
    lower word = name ↔ word.toList.map Char.toLower = letters := by
  rw [← spelled, ← toList_lower, String.toList_inj]

theorem isKeyword_iff {word : String} : IsKeyword word ↔ word.toList.map Char.toLower = macroWord := by
  have spelled : "macro".toList = macroWord := rfl
  exact lower_eq_iff spelled

theorem opensMacro_iff {line keyword : String} {rest : List Char} :
    OpensMacro line keyword rest ↔
      keyword? macroWord (line.toList.dropWhile isBlank) = some (keyword.toList, rest) := by
  rw [keyword?_eq_some, ← isKeyword_iff]
  constructor
  · rintro ⟨opens, spells, complete⟩
    exact ⟨spells, (opens_iff spells.filled spells.clear).1 opens, complete⟩
  · rintro ⟨spells, same, complete⟩
    exact ⟨(opens_iff spells.filled spells.clear).2 same, spells, complete⟩

theorem opensPair_iff {name : String} {letters : List Char} (named : name.toList = letters)
    (some_letters : letters ≠ []) (letters_clear : ∀ c ∈ letters, isSeparator c = false)
    {line first second : String} {rest : List Char} :
    OpensPair name line first second rest ↔
      second? letters (line.toList.dropWhile isBlank) =
        some (first.toList, second.toList, rest) := by
  have starts : first.toList.map Char.toLower = letters →
      first.toList ≠ [] ∧ ∀ c ∈ first.toList, isSeparator c = false := by
    intro spelled
    refine ⟨?_, clear_of_toLower spelled letters_clear⟩
    intro empty
    rw [empty] at spelled
    exact some_letters spelled.symm
  rw [LineGrammar.second?_eq, Option.bind_eq_some_iff]
  constructor
  · rintro ⟨⟨gap, filled, blank, opens⟩, names, spells, complete⟩
    have spelled := (lower_eq_iff named).1 names
    have front := (opens_iff (starts spelled).1 (starts spelled).2).1 opens
    refine ⟨(first.toList, gap ++ (second.toList ++ rest)),
      keyword?_eq_some.2 ⟨spelled, front, ?_⟩, Option.map_eq_some_iff.2 ⟨(second.toList, rest), ?_, rfl⟩⟩
    · intro c later same
      obtain ⟨d, gap, rfl⟩ := List.exists_cons_of_ne_nil filled
      obtain ⟨rfl, -⟩ := List.cons.inj same
      exact isSeparator_of_isBlank (blank _ (List.mem_cons_self ..))
    · obtain ⟨c, later, chars⟩ := List.exists_cons_of_ne_nil spells.filled
      have stands : isBlank c = false :=
        isBlank_of_clear (spells.clear c (chars ▸ List.mem_cons_self ..))
      refine keyword?_eq_some.2 ⟨isKeyword_iff.1 spells, ?_, complete⟩
      rw [List.dropWhile_append_of_pos blank, chars, List.cons_append,
        List.dropWhile_cons_of_neg (by simp [stands])]
  · rintro ⟨⟨opened, between⟩, front, both⟩
    obtain ⟨⟨closed, behind⟩, next, same⟩ := Option.map_eq_some_iff.1 both
    obtain ⟨rfl, rfl, rfl⟩ : opened = first.toList ∧ closed = second.toList ∧ behind = rest := by
      simpa using same
    obtain ⟨spelled, text, parted⟩ := keyword?_eq_some.1 front
    obtain ⟨letters', follows, complete⟩ := keyword?_eq_some.1 next
    have spells := isKeyword_iff.2 letters'
    have cut : between.takeWhile isBlank ++ (second.toList ++ behind) = between := by
      rw [← follows, List.takeWhile_append_dropWhile]
    refine ⟨⟨between.takeWhile isBlank, ?_, List.all_eq_true.1 List.all_takeWhile, ?_⟩,
      (lower_eq_iff named).2 spelled, spells, complete⟩
    · intro joined
      obtain ⟨c, later, chars⟩ := List.exists_cons_of_ne_nil spells.filled
      have separator := parted c (later ++ behind) (by rw [← cut, joined, chars]; rfl)
      exact absurd (spells.clear c (chars ▸ List.mem_cons_self ..)) (by simp [separator])
    · rw [cut]
      exact (opens_iff (starts spelled).1 (starts spelled).2).2 text

theorem opensEnd_iff {line first second : String} {rest : List Char} :
    OpensPair "end" line first second rest ↔
      second? endWord (line.toList.dropWhile isBlank) = some (first.toList, second.toList, rest) :=
  opensPair_iff rfl (by decide) (by simp [isSeparator, isBlank])

theorem opensImport_iff {line first second : String} {rest : List Char} :
    OpensPair "import" line first second rest ↔
      second? importWord (line.toList.dropWhile isBlank) =
        some (first.toList, second.toList, rest) :=
  opensPair_iff rfl (by decide) (by simp [isSeparator, isBlank])

theorem means_ofLine (line : String) : Means line (ofLine line) := by
  unfold ofLine ofText
  cases opened : keyword? macroWord (line.toList.dropWhile isBlank) with
  | some found =>
    obtain ⟨spelled, rest⟩ := found
    have front : OpensMacro line (String.ofList spelled) rest :=
      opensMacro_iff.2 (by rw [opened, String.toList_ofList])
    by_cases colon : ':' ∈ rest
    · simp only [if_pos colon]
      exact .insertion front colon (runs_words isSeparator rest)
    · simp only [if_neg colon]
      exact .definition front colon (runs_words isBlank rest)
  | none =>
    cases closes : second? endWord (line.toList.dropWhile isBlank) with
    | some found =>
      obtain ⟨spelled, next, rest⟩ := found
      have front : OpensPair "end" line (String.ofList spelled) (String.ofList next) rest :=
        opensEnd_iff.2 (by simpa using closes)
      exact .endMarker front
    | none =>
      cases asks : second? importWord (line.toList.dropWhile isBlank) with
      | some found =>
        obtain ⟨spelled, next, rest⟩ := found
        exact .importing (opensImport_iff.2 (by simpa using asks)) (runs_words isBlank rest)
      | none =>
        refine .plain ?_
        rintro (⟨keyword, rest, front⟩ | ⟨name, first, second, rest, rfl | rfl, front⟩)
        · cases opened.symm.trans (opensMacro_iff.1 front)
        · cases closes.symm.trans (opensEnd_iff.1 front)
        · cases asks.symm.trans (opensImport_iff.1 front)

theorem Means.ofLine_eq {line : String} {directive : Directive} (means : Means line directive) :
    ofLine line = directive := by
  let text := line.toList.dropWhile isBlank
  cases means with
  | endMarker front =>
    have closes := opensEnd_iff.1 front
    obtain ⟨opened, first, -⟩ := Option.bind_eq_some_iff.1 (LineGrammar.second?_eq .. ▸ closes)
    have noMacro : keyword? macroWord text = none := LineGrammar.keyword?_none first (by decide)
    simp [ofLine, ofText, text, noMacro, closes]
  | importing front runs =>
    have asks := opensImport_iff.1 front
    obtain ⟨opened, first, -⟩ := Option.bind_eq_some_iff.1 (LineGrammar.second?_eq .. ▸ asks)
    have noMacro : keyword? macroWord text = none := LineGrammar.keyword?_none first (by decide)
    have noEnd : second? endWord text = none := LineGrammar.second?_none first (by decide)
    simp [ofLine, ofText, text, noMacro, noEnd, asks, ← runs.words_eq]
  | insertion front colon runs =>
    simp [ofLine, ofText, opensMacro_iff.1 front, colon, ← runs.words_eq]
  | definition front noColon runs =>
    simp [ofLine, ofText, opensMacro_iff.1 front, noColon, ← runs.words_eq]
  | plain noFront =>
    have reading := means_ofLine line
    generalize ofLine line = directive at reading
    cases reading with
    | endMarker front => exact absurd (.inr ⟨_, _, _, _, .inl rfl, front⟩) noFront
    | importing front => exact absurd (.inr ⟨_, _, _, _, .inr rfl, front⟩) noFront
    | insertion front => exact absurd (.inl ⟨_, _, front⟩) noFront
    | definition front => exact absurd (.inl ⟨_, _, front⟩) noFront
    | plain => rfl

/-- Each line is in the language as one directive, the one that the scanner and the grammar both
read. A line with the front of a directive is never plain text. -/
theorem ofLine_language (line : String) :
    LineGrammar.ofLine line = ofLine line ∧
      (∀ directive, ofLine line = directive ↔ Means line directive) ∧
      (Begins line ↔ ∀ text, ofLine line ≠ .plain text) := by
  refine ⟨LineGrammar.ofLine_eq line, fun directive => ⟨?_, Means.ofLine_eq⟩, ?_, ?_⟩
  · rintro rfl
    exact means_ofLine line
  · intro front text plain
    have reading := means_ofLine line
    rw [plain] at reading
    cases reading with
    | plain noFront => exact noFront front
  · intro directive
    by_contra noFront
    exact directive line (Means.plain noFront).ofLine_eq

/-- A line feed belongs to the word it stands in. -/
example : ofLine "\tMACRO a\n b" = .definition ["MACRO", "a\n", "b"] := by decide +kernel

end Directive

end QuestScript

import QuestScript.Directive
import QuestScript.Text.Case

/-! Spellings of a directive. A line may space the words of a definition or an insertion in many
ways. All of them are read as the same tokens, each token as it was written. -/
namespace QuestScript

open Text

namespace Text

theorem words_gap {separates : Char → Bool} {gap : List Char} (parts : ∀ c ∈ gap, separates c = true)
    (rest : List Char) : words separates (gap ++ rest) = words separates rest := by
  induction gap with
  | nil => rfl
  | cons c gap ih =>
    rw [List.cons_append, words, if_pos (parts c (List.mem_cons_self ..))]
    exact ih fun d member => parts d (List.mem_cons_of_mem _ member)

theorem words_word {separates : Char → Bool} {word rest : List Char} (filled : word ≠ [])
    (clear : ∀ c ∈ word, separates c = false)
    (ends : ∀ c later, rest = c :: later → separates c = true) :
    words separates (word ++ rest) = word :: words separates rest := by
  obtain ⟨c, word, rfl⟩ := List.exists_cons_of_ne_nil filled
  have first : separates c = false := clear c (List.mem_cons_self ..)
  have others : ∀ d ∈ word, (!separates d) = true := by
    intro d member
    simp [clear d (List.mem_cons_of_mem _ member)]
  have stops : rest.takeWhile (fun d => !separates d) = [] ∧
      rest.dropWhile (fun d => !separates d) = rest := by
    cases rest with
    | nil => exact ⟨rfl, rfl⟩
    | cons d later => simp [ends d later rfl]
  rw [List.cons_append, words, if_neg (by simp [first]), List.takeWhile_append_of_pos others,
    List.dropWhile_append_of_pos others, stops.1, stops.2, List.append_nil]

end Text

namespace Directive

def IsWord (word : String) : Prop := word.toList ≠ [] ∧ ∀ c ∈ word.toList, isSeparator c = false

instance (word : String) : Decidable (IsWord word) :=
  @instDecidableAnd _ _ _ (List.decidableBAll _ _)

def IsKeyword (word : String) : Prop := lower word = "macro"

instance (word : String) : Decidable (IsKeyword word) :=
  inferInstanceAs (Decidable (lower word = "macro"))

/-- The text has the words in order, each after a run of separators, and perhaps a run at the end. -/
inductive Spaced (separates : Char → Bool) : List String → List Char → Prop where
  | done {trail : List Char} (parts : ∀ c ∈ trail, separates c = true) : Spaced separates [] trail
  | next {gap text : List Char} {word : String} {words : List String} (gapped : gap ≠ [])
      (parts : ∀ c ∈ gap, separates c = true) (later : Spaced separates words text) :
      Spaced separates (word :: words) (gap ++ (word.toList ++ text))

def Opens (keyword line : String) (text : List Char) : Prop :=
  ∃ lead, (∀ c ∈ lead, isBlank c = true) ∧ line.toList = lead ++ (keyword.toList ++ text)

def SpellsDefinition (keyword : String) (words : List String) (line : String) : Prop :=
  ∃ text, Opens keyword line text ∧ Spaced isBlank words text

/-- The line spells an insertion: blanks and colons part its words, and there is a colon. -/
def SpellsInsertion (keyword : String) (words : List String) (line : String) : Prop :=
  ∃ text, Opens keyword line text ∧ Spaced isSeparator words text ∧ ':' ∈ text

theorem isSeparator_of_isBlank {c : Char} (blank : isBlank c = true) : isSeparator c = true := by
  simp [isSeparator, blank]

theorem isBlank_of_clear {c : Char} (clear : isSeparator c = false) : isBlank c = false := by
  simp only [isSeparator, Bool.or_eq_false_iff] at clear
  exact clear.1

namespace Spaced

variable {separates : Char → Bool} {words : List String} {text : List Char}

theorem starts (spaced : Spaced separates words text) :
    ∀ c later, text = c :: later → separates c = true := by
  intro c later same
  cases spaced with
  | done parts =>
    subst same
    exact parts c (List.mem_cons_self ..)
  | next gapped parts _ =>
    obtain ⟨d, gap, rfl⟩ := List.exists_cons_of_ne_nil gapped
    obtain ⟨rfl, -⟩ := List.cons.inj same
    exact parts _ (List.mem_cons_self ..)

theorem mem (spaced : Spaced separates words text) {c : Char} (member : c ∈ text) :
    separates c = true ∨ ∃ word ∈ words, c ∈ word.toList := by
  induction spaced with
  | done parts => exact .inl (parts c member)
  | next _ parts _ ih =>
    rcases List.mem_append.1 member with inGap | member
    · exact .inl (parts c inGap)
    rcases List.mem_append.1 member with inWord | inLater
    · exact .inr ⟨_, List.mem_cons_self .., inWord⟩
    · rcases ih inLater with separator | ⟨word, later, inside⟩
      · exact .inl separator
      · exact .inr ⟨word, List.mem_cons_of_mem _ later, inside⟩

theorem words_eq (spaced : Spaced separates words text)
    (proper : ∀ word ∈ words, word.toList ≠ [] ∧ ∀ c ∈ word.toList, separates c = false) :
    Text.words separates text = words.map String.toList := by
  induction spaced with
  | @done trail parts =>
    rw [← List.append_nil trail, words_gap parts, Text.words, List.map_nil]
  | next gapped parts later ih =>
    have here := proper _ (List.mem_cons_self ..)
    rw [words_gap parts, words_word here.1 here.2 later.starts,
      ih fun word member => proper word (List.mem_cons_of_mem _ member)]
    rfl

end Spaced

theorem IsKeyword.toLower {keyword : String} (is : IsKeyword keyword) :
    keyword.toList.map Char.toLower = macroWord := by
  rw [← toList_lower, is]
  rfl

theorem IsKeyword.length {keyword : String} (is : IsKeyword keyword) :
    keyword.toList.length = macroWord.length := by
  rw [← is.toLower, List.length_map]

theorem clear_of_toLower {text letters : List Char} (same : text.map Char.toLower = letters)
    (clear : ∀ c ∈ letters, isSeparator c = false) : ∀ c ∈ text, isSeparator c = false := by
  intro c member
  have small : isSeparator c.toLower = false := clear _ (same ▸ List.mem_map_of_mem member)
  cases separator : isSeparator c with
  | false => rfl
  | true =>
    simp only [isSeparator, isBlank, Bool.or_eq_true, beq_iff_eq] at separator
    rcases separator with (rfl | rfl) | rfl <;> exact absurd small (by decide)

theorem IsKeyword.clear {keyword : String} (is : IsKeyword keyword) :
    ∀ c ∈ keyword.toList, isSeparator c = false :=
  clear_of_toLower is.toLower (by simp [macroWord, isSeparator, isBlank])

theorem IsKeyword.filled {keyword : String} (is : IsKeyword keyword) : keyword.toList ≠ [] := by
  intro empty
  have letters := is.toLower
  rw [empty] at letters
  cases letters

theorem keyword?_of_isKeyword {keyword : String} (is : IsKeyword keyword) {text : List Char}
    (ends : ∀ c later, text = c :: later → isSeparator c = true) :
    keyword? macroWord (keyword.toList ++ text) = some (keyword.toList, text) := by
  have complete : endsWord text = true := by
    cases text with
    | nil => rfl
    | cons c later => exact ends c later rfl
  unfold keyword?
  rw [← is.length, List.take_left, List.drop_left, if_pos ⟨is.toLower, complete⟩]

theorem opens_iff {keyword line : String} {text : List Char} (filled : keyword.toList ≠ [])
    (clear : ∀ c ∈ keyword.toList, isSeparator c = false) :
    Opens keyword line text ↔ line.toList.dropWhile isBlank = keyword.toList ++ text := by
  constructor
  · rintro ⟨lead, blank, same⟩
    obtain ⟨c, later, chars⟩ := List.exists_cons_of_ne_nil filled
    have stands : isBlank c = false := isBlank_of_clear (clear c (chars ▸ List.mem_cons_self ..))
    rw [same, List.dropWhile_append_of_pos blank, chars, List.cons_append,
      List.dropWhile_cons_of_neg (by simp [stands])]
  · intro same
    refine ⟨line.toList.takeWhile isBlank, List.all_eq_true.1 List.all_takeWhile, ?_⟩
    rw [← same, List.takeWhile_append_dropWhile]

theorem Opens.ofLine_eq {keyword line : String} {text : List Char} (opens : Opens keyword line text)
    (is : IsKeyword keyword) : ofLine line = ofText line (keyword.toList ++ text) := by
  rw [ofLine, (opens_iff is.filled is.clear).1 opens]

theorem map_ofList_toList (words : List String) :
    (words.map String.toList).map String.ofList = words := by
  simp

theorem ofLine_definition {keyword line : String} {words : List String} (is : IsKeyword keyword)
    (proper : ∀ word ∈ words, IsWord word) (spells : SpellsDefinition keyword words line) :
    ofLine line = .definition (keyword :: words) := by
  obtain ⟨text, opens, spaced⟩ := spells
  have ends : ∀ c later, text = c :: later → isSeparator c = true :=
    fun c later same => isSeparator_of_isBlank (spaced.starts c later same)
  have noColon : ':' ∉ text := by
    intro colon
    rcases spaced.mem colon with blank | ⟨word, member, inside⟩
    · exact absurd blank (by decide)
    · exact absurd ((proper word member).2 _ inside) (by decide)
  rw [opens.ofLine_eq is, ofText, keyword?_of_isKeyword is ends]
  simp only [if_neg noColon, List.map_cons, String.ofList_toList]
  rw [spaced.words_eq fun word member =>
    ⟨(proper word member).1, fun c inside => isBlank_of_clear ((proper word member).2 c inside)⟩,
    map_ofList_toList]

theorem ofLine_insertion {keyword line : String} {words : List String} (is : IsKeyword keyword)
    (proper : ∀ word ∈ words, IsWord word) (spells : SpellsInsertion keyword words line) :
    ofLine line = .insertion (keyword :: words) := by
  obtain ⟨text, opens, spaced, colon⟩ := spells
  rw [opens.ofLine_eq is, ofText, keyword?_of_isKeyword is spaced.starts]
  simp only [if_pos colon, List.map_cons, String.ofList_toList]
  rw [spaced.words_eq proper, map_ofList_toList]

end Directive

end QuestScript

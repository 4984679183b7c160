import Mathlib.Data.List.DropRight
import QuestScript.Directive

/-! The grammar of lines as a parsing expression grammar. A choice takes the first alternative that
matches and never comes back to the others, a repetition takes as much as it can, and blanks may
stand between the parts of a directive but not inside a word. Reading a line by the grammar gives
what the scanner gives. -/
namespace QuestScript.LineGrammar

open Text Directive

abbrev Peg := StateT (List Char) Option

variable {α β : Type}

def one (accepts : Char → Bool) : Peg Char := fun text =>
  match text with
  | [] => none
  | c :: rest => if accepts c then some (c, rest) else none

/-- Looks ahead and takes nothing: what comes next must not match. -/
def absent (p : Peg α) : Peg Unit := fun text => if (p.run text).isSome then none else some ((), text)

def repeated (p : Peg α) (text : List Char) : List α × List Char :=
  match p.run text with
  | none => ([], text)
  | some (a, rest) =>
    if rest.length < text.length then (a :: (repeated p rest).1, (repeated p rest).2)
    else ([a], rest)
termination_by text.length

def many (p : Peg α) : Peg (List α) := fun text => some (repeated p text)

def many1 (p : Peg α) : Peg (List α) := do
  let first ← p
  return first :: (← many p)

def caseless (word : List Char) : Peg (List Char) := fun text =>
  if (text.take word.length).map Char.toLower = word then
    some (text.take word.length, text.drop word.length)
  else none

def anything : Peg Char := one fun _ => true

def finish : Peg Unit := absent anything

def skip : Peg Unit := do
  let _ ← many (one isBlank)

/-- A repetition in which blanks may stand between the parts, but not before the first. -/
def spaced (p : Peg α) : Peg (List α) :=
  (do
    let first ← p
    return first :: (← many do skip; p)) <|> return []

def wordChar : Peg Char := do
  absent (one isSeparator)
  anything

def word : Peg (List Char) := many1 wordChar

def term : Peg (List Char) := many1 do
  absent (one isBlank)
  anything

def colon : Peg Unit := do
  let _ ← one (· == ':')

def wordOrColon : Peg (Option (List Char)) := some <$> word <|> (fun _ => none) <$> colon

def keyword (letters : List Char) : Peg (List Char) := do
  let spelled ← caseless letters
  absent wordChar
  return spelled

def pair (letters : List Char) : Peg (List (List Char)) := do
  let first ← keyword letters
  skip
  let second ← keyword macroWord
  skip
  let terms ← spaced term
  return first :: second :: terms

def endMarker : Peg Directive := do
  let _ ← pair endWord
  return .endMarker

def importing : Peg Directive := do
  let tokens ← pair importWord
  return .importing (tokens.map String.ofList)

def insertion : Peg Directive := do
  let first ← keyword macroWord
  skip
  let before ← spaced word
  skip
  colon
  skip
  let behind ← spaced wordOrColon
  return .insertion ((first :: (before ++ behind.reduceOption)).map String.ofList)

def definition : Peg Directive := do
  let first ← keyword macroWord
  skip
  let words ← spaced word
  return .definition ((first :: words).map String.ofList)

def alternatives : Peg Directive := endMarker <|> importing <|> insertion <|> definition

/-- A whole line that is a directive. The choice is made before the end of the line is looked for,
so an alternative that matches and leaves something over makes the line no directive. -/
def directive : Peg Directive := do
  skip
  let found ← alternatives
  skip
  finish
  return found

def ofLine (line : String) : Directive :=
  match directive.run line.toList with
  | some (found, _) => found
  | none => .plain line

@[simp] theorem one_nil (accepts : Char → Bool) : (one accepts).run [] = none := rfl

@[simp] theorem one_cons (accepts : Char → Bool) (c : Char) (rest : List Char) :
    (one accepts).run (c :: rest) = if accepts c then some (c, rest) else none := rfl

@[simp] theorem many_run (p : Peg α) (text : List Char) :
    (many p).run text = some (repeated p text) := rfl

@[simp] theorem absent_run (p : Peg α) (text : List Char) :
    (absent p).run text = if (p.run text).isSome then none else some ((), text) := rfl

@[simp] theorem orElse_run (p q : Peg α) (text : List Char) :
    (p <|> q).run text = (p.run text <|> q.run text) := rfl

def Takes (p : Peg α) : Prop :=
  ∀ text a rest, p.run text = some (a, rest) → rest.length < text.length

theorem repeated_none {p : Peg α} {text : List Char} (stops : p.run text = none) :
    repeated p text = ([], text) := by
  rw [repeated, stops]

theorem repeated_some {p : Peg α} (takes : Takes p) {text rest : List Char} {a : α}
    (matched : p.run text = some (a, rest)) :
    repeated p text = (a :: (repeated p rest).1, (repeated p rest).2) := by
  rw [repeated, matched]
  exact if_pos (takes text a rest matched)

theorem one_takes (accepts : Char → Bool) : Takes (one accepts) := by
  intro text a rest matched
  cases text with
  | nil => simp at matched
  | cons c text =>
    rw [one_cons] at matched
    split at matched
    · cases matched
      simp
    · cases matched

theorem repeated_one (accepts : Char → Bool) (text : List Char) :
    repeated (one accepts) text = (text.takeWhile accepts, text.dropWhile accepts) := by
  induction text with
  | nil => exact repeated_none rfl
  | cons c rest ih =>
    cases accepted : accepts c with
    | true =>
      have matched : (one accepts).run (c :: rest) = some (c, rest) := by simp [accepted]
      rw [repeated_some (one_takes accepts) matched, ih]
      simp [accepted]
    | false =>
      rw [repeated_none (by simp [accepted])]
      simp [accepted]

@[simp] theorem skip_run (text : List Char) : skip.run text = some ((), text.dropWhile isBlank) := by
  simp [skip, repeated_one]

theorem absent_anything (accepts : Char → Bool) :
    (do absent (one accepts); anything) = one fun c => !accepts c := by
  funext text
  cases text with
  | nil => rfl
  | cons c rest =>
    show ((do absent (one accepts); anything) : Peg Char).run (c :: rest) = _
    cases accepted : accepts c <;> simp [anything, accepted, one]

theorem many1_one_run (accepts : Char → Bool) (c : Char) (rest : List Char) :
    (many1 (one accepts)).run (c :: rest) =
      if accepts c then some (c :: rest.takeWhile accepts, rest.dropWhile accepts) else none := by
  cases accepted : accepts c <;> simp [many1, accepted, repeated_one]

def runOf (separates : Char → Bool) : Peg (List Char) := many1 (one fun c => !separates c)

theorem word_eq : word = runOf isSeparator := by
  rw [word, wordChar, absent_anything, runOf]

theorem term_eq : term = runOf isBlank := by
  rw [term, absent_anything, runOf]

@[simp] theorem runOf_nil (separates : Char → Bool) : (runOf separates).run [] = none := rfl

theorem runOf_cons (separates : Char → Bool) (c : Char) (rest : List Char) :
    (runOf separates).run (c :: rest) =
      if separates c then none
      else some (c :: rest.takeWhile fun d => !separates d, rest.dropWhile fun d => !separates d) := by
  rw [runOf, many1_one_run]
  cases separates c <;> rfl

theorem runOf_takes (separates : Char → Bool) : Takes (runOf separates) := by
  intro text a rest matched
  cases text with
  | nil => cases matched
  | cons c text =>
    rw [runOf_cons] at matched
    split at matched
    · cases matched
    · cases matched
      have shorter := (List.dropWhile_suffix (fun d => !separates d) (l := text)).length_le
      rw [List.length_cons]
      omega

theorem colon_run (text : List Char) :
    colon.run text = match text with
      | ':' :: rest => some ((), rest)
      | _ => none := by
  unfold colon
  cases text with
  | nil => rfl
  | cons c rest =>
    by_cases same : c = ':'
    · simp [same]
    · simp [same]

section

variable {p : Peg α}

theorem skipped_run (p : Peg α) (text : List Char) :
    (do skip; p : Peg α).run text = p.run (text.dropWhile isBlank) := by
  simp

theorem skipped_takes (takes : Takes p) : Takes (do skip; p) := by
  intro text a rest matched
  rw [skipped_run] at matched
  have shorter := takes _ a rest matched
  have dropped := (List.dropWhile_suffix isBlank (l := text)).length_le
  omega

theorem repeated_blank (takes : Takes p) {c : Char} (blank : isBlank c = true) (rest : List Char) :
    (repeated (do skip; p) (c :: rest)).1 = (repeated (do skip; p) rest).1 ∧
      (repeated (do skip; p) (c :: rest)).2.dropWhile isBlank =
        (repeated (do skip; p) rest).2.dropWhile isBlank := by
  have same : (do skip; p : Peg α).run (c :: rest) = (do skip; p : Peg α).run rest := by
    rw [skipped_run, skipped_run, List.dropWhile_cons_of_pos blank]
  cases matched : (do skip; p : Peg α).run rest with
  | none =>
    rw [repeated_none matched, repeated_none (same.trans matched)]
    exact ⟨rfl, List.dropWhile_cons_of_pos blank⟩
  | some found =>
    rw [repeated_some (skipped_takes takes) matched,
      repeated_some (skipped_takes takes) (same.trans matched)]
    exact ⟨rfl, rfl⟩

/-- The blanks that stand before a repetition count as blanks inside it. Of those behind it, some
are left over. -/
theorem spaced_run (takes : Takes p) (text : List Char) :
    ∃ left, (spaced p).run (text.dropWhile isBlank) =
        some ((repeated (do skip; p) text).1, left) ∧
      left.dropWhile isBlank = (repeated (do skip; p) text).2.dropWhile isBlank := by
  cases matched : p.run (text.dropWhile isBlank) with
  | none =>
    rw [repeated_none ((skipped_run p text).trans matched)]
    exact ⟨text.dropWhile isBlank, by simp [spaced, matched], List.dropWhile_idempotent ..⟩
  | some found =>
    rw [repeated_some (skipped_takes takes) ((skipped_run p text).trans matched)]
    exact ⟨_, by simp [spaced, matched], rfl⟩

end

def Spent (text : List Char) : Prop := text.dropWhile isBlank = []

theorem repeated_term (text : List Char) :
    (repeated (do skip; term) text).1 = words isBlank text ∧
      Spent (repeated (do skip; term) text).2 := by
  have takes := runOf_takes isBlank
  rw [term_eq]
  fun_induction words isBlank text with
  | case1 =>
    rw [repeated_none (by simp)]
    exact ⟨rfl, rfl⟩
  | case2 c rest blank ih =>
    obtain ⟨found, left⟩ := repeated_blank takes blank rest
    exact ⟨found.trans ih.1, left.trans ih.2⟩
  | case3 c rest stands ih =>
    have matched : (do skip; runOf isBlank : Peg _).run (c :: rest) =
        some (c :: rest.takeWhile fun d => !isBlank d, rest.dropWhile fun d => !isBlank d) := by
      rw [skipped_run, List.dropWhile_cons_of_neg stands, runOf_cons, if_neg stands]
    rw [repeated_some (skipped_takes takes) matched, ih.1]
    exact ⟨rfl, ih.2⟩

theorem wordOrColon_cons (c : Char) (rest : List Char) :
    wordOrColon.run (c :: rest) =
      if isSeparator c then if c = ':' then some (none, rest) else none
      else some (some (c :: rest.takeWhile fun d => !isSeparator d),
        rest.dropWhile fun d => !isSeparator d) := by
  by_cases same : c = ':'
  · subst same
    simp [wordOrColon, word_eq, runOf_cons, colon_run, isSeparator]
  · cases separates : isSeparator c <;>
      simp [wordOrColon, word_eq, runOf_cons, colon_run, separates, same]

theorem wordOrColon_takes : Takes wordOrColon := by
  intro text a rest matched
  cases text with
  | nil => simp [wordOrColon, word_eq, colon_run] at matched
  | cons c text =>
    rw [wordOrColon_cons] at matched
    split at matched
    · split at matched
      · cases matched
        simp
      · cases matched
    · cases matched
      have shorter := (List.dropWhile_suffix (fun d => !isSeparator d) (l := text)).length_le
      rw [List.length_cons]
      omega

theorem repeated_wordOrColon (text : List Char) :
    (repeated (do skip; wordOrColon) text).1.reduceOption = words isSeparator text ∧
      Spent (repeated (do skip; wordOrColon) text).2 := by
  have takes := wordOrColon_takes
  fun_induction words isSeparator text with
  | case1 =>
    rw [repeated_none (by simp [wordOrColon, word_eq, colon_run])]
    exact ⟨rfl, rfl⟩
  | case2 c rest separates ih =>
    cases blank : isBlank c with
    | true =>
      obtain ⟨found, left⟩ := repeated_blank takes blank rest
      rw [found]
      exact ⟨ih.1, left.trans ih.2⟩
    | false =>
      obtain rfl : c = ':' := by simpa [isSeparator, blank] using separates
      have matched : (do skip; wordOrColon : Peg _).run (':' :: rest) = some (none, rest) := by
        rw [skipped_run, List.dropWhile_cons_of_neg (by simp [blank]), wordOrColon_cons,
          if_pos separates, if_pos rfl]
      rw [repeated_some (skipped_takes takes) matched]
      exact ih
  | case3 c rest stands ih =>
    have noBlank : ¬ isBlank c = true := fun blank => stands (by simp [isSeparator, blank])
    have matched : (do skip; wordOrColon : Peg _).run (c :: rest) =
        some (some (c :: rest.takeWhile fun d => !isSeparator d),
          rest.dropWhile fun d => !isSeparator d) := by
      rw [skipped_run, List.dropWhile_cons_of_neg noBlank, wordOrColon_cons, if_neg stands]
    rw [repeated_some (skipped_takes takes) matched]
    refine ⟨?_, ih.2⟩
    rw [← ih.1]
    rfl

theorem mem_dropWhile {drops : Char → Bool} {c : Char} (stays : drops c = false)
    {text : List Char} : c ∈ text.dropWhile drops ↔ c ∈ text := by
  induction text with
  | nil => rfl
  | cons d rest ih =>
    rw [List.dropWhile_cons]
    split
    · next dropped =>
      rw [ih, List.mem_cons, or_iff_right]
      rintro rfl
      rw [stays] at dropped
      cases dropped
    · rfl

theorem repeated_word (text : List Char) :
    (':' ∉ text ∧ (repeated (do skip; word) text).1 = words isSeparator text ∧
        Spent (repeated (do skip; word) text).2) ∨
      ∃ later, ':' ∈ text ∧ (repeated (do skip; word) text).2.dropWhile isBlank = ':' :: later ∧
        words isSeparator text = (repeated (do skip; word) text).1 ++ words isSeparator later := by
  have takes := runOf_takes isSeparator
  rw [word_eq]
  fun_induction words isSeparator text with
  | case1 =>
    rw [repeated_none (by simp)]
    exact .inl ⟨by simp, rfl, rfl⟩
  | case2 c rest separates ih =>
    cases blank : isBlank c with
    | true =>
      obtain ⟨found, left⟩ := repeated_blank takes blank rest
      have colons : ':' ∈ c :: rest ↔ ':' ∈ rest := by
        refine List.mem_cons.trans (or_iff_right ?_)
        rintro rfl
        exact absurd blank (by decide)
      rw [found, Spent, left, colons]
      exact ih
    | false =>
      obtain rfl : c = ':' := by simpa [isSeparator, blank] using separates
      have stops : (do skip; runOf isSeparator : Peg _).run (':' :: rest) = none := by
        rw [skipped_run, List.dropWhile_cons_of_neg (by simp [blank]), runOf_cons, if_pos separates]
      rw [repeated_none stops]
      exact .inr ⟨rest, List.mem_cons_self .., List.dropWhile_cons_of_neg (by simp [blank]), rfl⟩
  | case3 c rest stands ih =>
    have noBlank : ¬ isBlank c = true := fun blank => stands (by simp [isSeparator, blank])
    have matched : (do skip; runOf isSeparator : Peg _).run (c :: rest) =
        some (c :: rest.takeWhile fun d => !isSeparator d,
          rest.dropWhile fun d => !isSeparator d) := by
      rw [skipped_run, List.dropWhile_cons_of_neg noBlank, runOf_cons, if_neg stands]
    have colons : ':' ∈ c :: rest ↔ ':' ∈ rest.dropWhile fun d => !isSeparator d := by
      have first : ':' ≠ c := by
        rintro rfl
        exact stands (by decide)
      rw [List.mem_cons, or_iff_right first]
      exact (mem_dropWhile rfl).symm
    rw [repeated_some (skipped_takes takes) matched, colons]
    rcases ih with ⟨none, found, spent⟩ | ⟨later, some, left, found⟩
    · exact .inl ⟨none, by rw [found], spent⟩
    · exact .inr ⟨later, some, left, by rw [found]; rfl⟩

theorem wordChar_isSome (text : List Char) : (wordChar.run text).isSome = !endsWord text := by
  rw [wordChar, absent_anything]
  cases text with
  | nil => rfl
  | cons c rest => cases separates : isSeparator c <;> simp [endsWord, separates]

theorem caseless_run (letters text : List Char) :
    (caseless letters).run text =
      if (text.take letters.length).map Char.toLower = letters then
        some (text.take letters.length, text.drop letters.length)
      else none := rfl

theorem keyword_run (letters text : List Char) :
    (keyword letters).run text = keyword? letters text := by
  unfold keyword keyword?
  simp only [StateT.run_bind, caseless_run]
  by_cases spelled : (text.take letters.length).map Char.toLower = letters
  · cases complete : endsWord (text.drop letters.length) <;>
      simp [spelled, complete, wordChar_isSome]
  · rw [if_neg spelled, if_neg fun both => spelled both.1]
    rfl

def Reads (rule : Peg Directive) (text : List Char) (found : Directive) : Prop :=
  ∃ left, rule.run text = some (found, left) ∧ Spent left

theorem second?_eq (letters text : List Char) :
    second? letters text =
      (keyword? letters text).bind fun opened =>
        (keyword? macroWord (opened.2.dropWhile isBlank)).map fun next =>
          (opened.1, next.1, next.2) := by
  unfold second?
  cases keyword? letters text with
  | none => rfl
  | some opened =>
    cases next : keyword? macroWord (opened.2.dropWhile isBlank) <;> simp [next]

section Commits

variable {text : List Char}

theorem pair_none {letters : List Char} (other : second? letters text = none) :
    (pair letters).run text = none := by
  rw [second?_eq] at other
  cases first : keyword? letters text with
  | none => simp [pair, keyword_run, first]
  | some opened =>
    have missing : keyword? macroWord (opened.2.dropWhile isBlank) = none := by
      simpa [first] using other
    simp [pair, keyword_run, first, missing]

theorem pair_some {letters spelled next rest : List Char}
    (both : second? letters text = some (spelled, next, rest)) :
    ∃ left, (pair letters).run text = some (spelled :: next :: words isBlank rest, left) ∧
      Spent left := by
  rw [second?_eq] at both
  obtain ⟨opened, first, both⟩ := Option.bind_eq_some_iff.1 both
  obtain ⟨closed, second, same⟩ := Option.map_eq_some_iff.1 both
  cases same
  obtain ⟨left, terms, spent⟩ := spaced_run (runOf_takes isBlank) closed.2
  rw [← term_eq] at terms spent
  obtain ⟨found, left_over⟩ := repeated_term closed.2
  rw [found] at terms
  exact ⟨left, by simp [pair, keyword_run, first, second, terms], spent.trans left_over⟩

theorem endMarker_none (other : second? endWord text = none) : endMarker.run text = none := by
  simp [endMarker, pair_none other]

theorem endMarker_reads {found : List Char × List Char × List Char}
    (both : second? endWord text = some found) : Reads endMarker text .endMarker := by
  obtain ⟨left, matched, spent⟩ := pair_some both
  exact ⟨left, by simp [endMarker, matched], spent⟩

theorem importing_none (other : second? importWord text = none) : importing.run text = none := by
  simp [importing, pair_none other]

theorem importing_reads {spelled next rest : List Char}
    (both : second? importWord text = some (spelled, next, rest)) :
    Reads importing text
      (.importing ((spelled :: next :: words isBlank rest).map String.ofList)) := by
  obtain ⟨left, matched, spent⟩ := pair_some both
  exact ⟨left, by simp [importing, matched], spent⟩

theorem insertion_none (other : keyword? macroWord text = none) : insertion.run text = none := by
  simp [insertion, keyword_run, other]

theorem definition_none (other : keyword? macroWord text = none) : definition.run text = none := by
  simp [definition, keyword_run, other]

variable {spelled rest : List Char}

theorem insertion_reads (opened : keyword? macroWord text = some (spelled, rest))
    (colon : ':' ∈ rest) :
    Reads insertion text (.insertion ((spelled :: words isSeparator rest).map String.ofList)) := by
  obtain ⟨before, named, gap⟩ := spaced_run (runOf_takes isSeparator) rest
  rw [← word_eq] at named gap
  rcases repeated_word rest with ⟨none, -⟩ | ⟨later, -, ends, split⟩
  · exact absurd colon none
  have reaches : before.dropWhile isBlank = ':' :: later := gap.trans ends
  obtain ⟨left, behind, spent⟩ := spaced_run wordOrColon_takes later
  obtain ⟨found, left_over⟩ := repeated_wordOrColon later
  refine ⟨left, ?_, spent.trans left_over⟩
  simp [insertion, keyword_run, opened, named, reaches, colon_run, behind, found, split]

theorem insertion_words (opened : keyword? macroWord text = some (spelled, rest))
    (noColon : ':' ∉ rest) : insertion.run text = none := by
  obtain ⟨before, named, gap⟩ := spaced_run (runOf_takes isSeparator) rest
  rw [← word_eq] at named gap
  rcases repeated_word rest with ⟨-, -, spent⟩ | ⟨later, colon, -⟩
  · have ends : before.dropWhile isBlank = [] := gap.trans spent
    simp [insertion, keyword_run, opened, named, ends, colon_run]
  · exact absurd colon noColon

theorem definition_reads (opened : keyword? macroWord text = some (spelled, rest))
    (noColon : ':' ∉ rest) :
    Reads definition text (.definition ((spelled :: words isSeparator rest).map String.ofList)) := by
  obtain ⟨left, named, gap⟩ := spaced_run (runOf_takes isSeparator) rest
  rw [← word_eq] at named gap
  rcases repeated_word rest with ⟨-, found, spent⟩ | ⟨later, colon, -⟩
  · rw [found] at named
    exact ⟨left, by simp [definition, keyword_run, opened, named], gap.trans spent⟩
  · exact absurd colon noColon

end Commits

theorem while_congr {first second : Char → Bool} {text : List Char}
    (agree : ∀ c ∈ text, first c = second c) :
    text.takeWhile first = text.takeWhile second ∧ text.dropWhile first = text.dropWhile second := by
  induction text with
  | nil => exact ⟨rfl, rfl⟩
  | cons c rest ih =>
    obtain ⟨taken, dropped⟩ := ih fun d member => agree d (List.mem_cons_of_mem _ member)
    rw [List.takeWhile_cons, List.takeWhile_cons, List.dropWhile_cons, List.dropWhile_cons,
      agree c (List.mem_cons_self ..), taken, dropped]
    exact ⟨rfl, rfl⟩

theorem words_congr {first second : Char → Bool} {text : List Char}
    (agree : ∀ c ∈ text, first c = second c) : words first text = words second text := by
  fun_induction words first text with
  | case1 => rw [words]
  | case2 c rest separates ih =>
    rw [words, if_pos ((agree c (List.mem_cons_self ..)).symm.trans separates)]
    exact ih fun d member => agree d (List.mem_cons_of_mem _ member)
  | case3 c rest stands ih =>
    have later : ∀ d ∈ rest, first d = second d :=
      fun d member => agree d (List.mem_cons_of_mem _ member)
    obtain ⟨taken, dropped⟩ := while_congr fun d member => congrArg not (later d member)
    have inside : ∀ d ∈ rest.dropWhile (fun d => !first d), first d = second d :=
      fun d member => later d ((List.dropWhile_suffix _).subset member)
    rw [ih inside, dropped, taken]
    conv_rhs => rw [words, if_neg (agree c (List.mem_cons_self ..) ▸ stands)]

theorem keyword?_initial {letter : Char} {letters text : List Char}
    {found : List Char × List Char} (opened : keyword? (letter :: letters) text = some found) :
    text.head?.map Char.toLower = some letter := by
  unfold keyword? at opened
  split at opened
  · next both =>
    cases text with
    | nil => cases both.1
    | cons c rest =>
      rw [List.length_cons, List.take_succ_cons, List.map_cons] at both
      rw [List.head?_cons, Option.map_some, (List.cons.inj both.1).1]
  · cases opened

theorem keyword?_none {letter other : Char} {letters others text : List Char}
    {found : List Char × List Char} (opened : keyword? (letter :: letters) text = some found)
    (differs : letter ≠ other) : keyword? (other :: others) text = none := by
  cases closed : keyword? (other :: others) text with
  | none => rfl
  | some _ =>
    have same := (keyword?_initial opened).symm.trans (keyword?_initial closed)
    exact absurd (Option.some.inj same) differs

theorem second?_none {letter other : Char} {letters others text : List Char}
    {found : List Char × List Char} (opened : keyword? (letter :: letters) text = some found)
    (differs : letter ≠ other) : second? (other :: others) text = none := by
  rw [second?_eq, keyword?_none opened differs, Option.bind_none]

theorem orElse_reads {p q : Peg Directive} {text : List Char} {found : Directive}
    (fails : p.run text = none) (reads : Reads q text found) : Reads (p <|> q) text found := by
  obtain ⟨left, matched, spent⟩ := reads
  exact ⟨left, by simp [fails, matched], spent⟩

theorem reads_orElse {p q : Peg Directive} {text : List Char} {found : Directive}
    (reads : Reads p text found) : Reads (p <|> q) text found := by
  obtain ⟨left, matched, spent⟩ := reads
  exact ⟨left, by simp [matched], spent⟩

/-- The choice is right: an alternative that matches reads the text to its end. -/
theorem alternatives_ofText (line : String) (text : List Char) :
    Reads alternatives text (ofText line text) ∨
      alternatives.run text = none ∧ ofText line text = .plain line := by
  unfold ofText alternatives
  cases opened : keyword? macroWord text with
  | some found =>
    obtain ⟨spelled, rest⟩ := found
    have noEnd : endMarker.run text = none :=
      endMarker_none (second?_none opened (by decide))
    have noImport : importing.run text = none :=
      importing_none (second?_none opened (by decide))
    refine .inl (orElse_reads noEnd (orElse_reads noImport ?_))
    by_cases colon : ':' ∈ rest
    · simp only [if_pos colon]
      exact reads_orElse (insertion_reads opened colon)
    · simp only [if_neg colon]
      have blanks : words isSeparator rest = words isBlank rest := by
        refine words_congr fun c member => ?_
        have other : c ≠ ':' := fun same => colon (same ▸ member)
        simp [isSeparator, other]
      rw [← blanks]
      exact orElse_reads (insertion_words opened colon) (definition_reads opened colon)
  | none =>
    cases closes : second? endWord text with
    | some found => exact .inl (reads_orElse (endMarker_reads closes))
    | none =>
      cases asks : second? importWord text with
      | some found =>
        exact .inl (orElse_reads (endMarker_none closes) (reads_orElse (importing_reads asks)))
      | none =>
        refine .inr ⟨?_, rfl⟩
        simp [endMarker_none closes, importing_none asks, insertion_none opened,
          definition_none opened]

theorem finish_run (text : List Char) :
    finish.run text = if text = [] then some ((), []) else none := by
  cases text with
  | nil => rfl
  | cons c rest => rfl

theorem ofLine_eq (line : String) : ofLine line = Directive.ofLine line := by
  unfold ofLine Directive.ofLine
  rcases alternatives_ofText line (line.toList.dropWhile isBlank) with
    ⟨left, matched, spent⟩ | ⟨fails, plain⟩
  · have ends : left.dropWhile isBlank = [] := spent
    have reads : directive.run line.toList = some (ofText line (line.toList.dropWhile isBlank), []) := by
      simp only [directive, StateT.run_bind, skip_run, Option.bind_eq_bind, Option.bind_some, matched,
        finish_run, ends]
      rfl
    rw [reads]
  · simp [directive, fails, plain]

end QuestScript.LineGrammar

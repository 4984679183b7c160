import Mathlib.Data.List.Induction
import Mathlib.Data.List.Pairwise
import QuestScript.Expansion

/-! Simultaneous substitution. The replacements in a line run one after the other, each over what
the ones before it wrote. Where parameters and written texts cannot meet, this comes to one pass
over the line from left to right, which looks at characters of the line only and never at what was
written. The order of the parameters is then of no account. -/
namespace QuestScript

namespace Text

variable {c : Char} {cs new : List Char}

theorem replaceWord_here (later : List Char) :
    replaceWord c cs new (c :: cs ++ later) = new ++ replaceWord c cs new later := by
  have here : (c :: cs).isPrefixOf (c :: (cs ++ later)) = true :=
    List.isPrefixOf_iff_prefix.2 (List.prefix_append (c :: cs) later)
  rw [List.cons_append, replaceWord, if_pos here, List.drop_left]

theorem replaceWord_other {d : Char} {rest : List Char} (other : ¬ c :: cs <+: d :: rest) :
    replaceWord c cs new (d :: rest) = d :: replaceWord c cs new rest := by
  rw [replaceWord, if_neg fun here => other (List.isPrefixOf_iff_prefix.1 here)]

theorem replaceWord_append {text : List Char} (absent : c ∉ text) (later : List Char) :
    replaceWord c cs new (text ++ later) = text ++ replaceWord c cs new later := by
  induction text with
  | nil => rfl
  | cons d text ih =>
    have other : ¬ c :: cs <+: d :: (text ++ later) :=
      fun here => List.ne_of_not_mem_cons absent (List.cons_prefix_cons.1 here).1
    rw [List.cons_append, replaceWord_other other, ih (List.not_mem_of_not_mem_cons absent),
      List.cons_append]

end Text

open Text

def starts (text : List Char) (binding : String × String) : Bool :=
  binding.1.toList.isPrefixOf text

theorem starts_iff {text : List Char} {binding : String × String} :
    starts text binding = true ↔ binding.1.toList <+: text :=
  List.isPrefixOf_iff_prefix

/-- One pass over a text. It writes the name for each `$` and the argument for each parameter that
stands where it has come to, and copies every other character. -/
def pass (name : String) (bindings : List (String × String)) : List Char → List Char
  | [] => []
  | c :: rest =>
    if c = '$' then name.toList ++ pass name bindings rest
    else
      match bindings.find? (starts (c :: rest)) with
      | some (param, argument) =>
        argument.toList ++ pass name bindings (rest.drop (param.toList.length - 1))
      | none => c :: pass name bindings rest
termination_by text => text.length
decreasing_by
  all_goals simp only [List.length_drop, List.length_cons]
  all_goals omega

def simultaneous (name : String) (bindings : List (String × String)) (line : String) : String :=
  String.ofList (pass name bindings line.toList)

/-- A text that starts no parameter, and that no parameter runs into. -/
def Inert (bindings : List (String × String)) (text : String) : Prop :=
  '&' ∉ text.toList ∧ ∃ c ∈ text.toList.head?, ∀ binding ∈ bindings, c ∉ binding.1.toList

instance (bindings : List (String × String)) : DecidablePred (Inert bindings) := fun _ =>
  @instDecidableAnd _ _ inferInstance (Option.decidableExistsMem _)

def Unrelated (a b : String × String) : Prop :=
  ¬ a.1.toList <+: b.1.toList ∧ ¬ b.1.toList <+: a.1.toList

instance : DecidableRel Unrelated := fun a b =>
  inferInstanceAs (Decidable (¬ a.1.toList <+: b.1.toList ∧ ¬ b.1.toList <+: a.1.toList))

instance : Std.Symm Unrelated := ⟨fun _ _ => And.symm⟩

/-- Nothing that is written makes, breaks or meets an occurrence of a parameter. -/
structure Apart (name : String) (bindings : List (String × String)) : Prop where
  marked : ∀ binding ∈ bindings, binding.1.toList.head? = some '&' ∧
    '&' ∉ binding.1.toList.tail ∧ '$' ∉ binding.1.toList
  unrelated : bindings.Pairwise Unrelated
  name : Inert bindings name
  arguments : ∀ binding ∈ bindings, Inert bindings binding.2

theorem Inert.mono {bindings fewer : List (String × String)} {text : String}
    (inert : Inert bindings text) (less : ∀ binding ∈ fewer, binding ∈ bindings) :
    Inert fewer text := by
  obtain ⟨unmarked, c, first, foreign⟩ := inert
  exact ⟨unmarked, c, first, fun binding member => foreign binding (less binding member)⟩

def Foreign (word : List Char) (text : String) : Prop := ∃ c ∈ text.toList.head?, c ∉ word

theorem Inert.foreign {bindings : List (String × String)} {text : String}
    (inert : Inert bindings text) {binding : String × String} (member : binding ∈ bindings) :
    Foreign binding.1.toList text := by
  obtain ⟨-, c, first, foreign⟩ := inert
  exact ⟨c, first, foreign binding member⟩

theorem Foreign.tail {c : Char} {word : List Char} {text : String}
    (foreign : Foreign (c :: word) text) : Foreign word text := by
  obtain ⟨d, first, outside⟩ := foreign
  exact ⟨d, first, List.not_mem_of_not_mem_cons outside⟩

theorem Foreign.eq_nil {word later : List Char} {text : String} (foreign : Foreign word text)
    (stands : word <+: text.toList ++ later) : word = [] := by
  obtain ⟨c, first, outside⟩ := foreign
  cases word with
  | nil => rfl
  | cons d word =>
    obtain ⟨tail, whole⟩ := List.head?_eq_some_iff.1 (Option.mem_def.1 first)
    rw [whole] at stands
    obtain ⟨same, -⟩ := List.cons_prefix_cons.1 stands
    exact absurd (same ▸ List.mem_cons_self ..) outside

namespace Apart

variable {name : String} {bindings : List (String × String)}

theorem of_sublist {fewer : List (String × String)} (apart : Apart name bindings)
    (sub : fewer.Sublist bindings) : Apart name fewer where
  marked binding member := apart.marked binding (sub.subset member)
  unrelated := apart.unrelated.sublist sub
  name := apart.name.mono fun _ member => sub.subset member
  arguments binding member :=
    (apart.arguments binding (sub.subset member)).mono fun _ member => sub.subset member

theorem of_perm {other : List (String × String)} (apart : Apart name bindings)
    (perm : other.Perm bindings) : Apart name other where
  marked binding member := apart.marked binding (perm.mem_iff.1 member)
  unrelated := (perm.pairwise_iff And.symm).2 apart.unrelated
  name := apart.name.mono fun _ member => perm.mem_iff.1 member
  arguments binding member :=
    (apart.arguments binding (perm.mem_iff.1 member)).mono fun _ member => perm.mem_iff.1 member

theorem word (apart : Apart name bindings) {binding : String × String}
    (member : binding ∈ bindings) :
    ∃ word, binding.1.toList = '&' :: word ∧ '&' ∉ word ∧ '$' ∉ word := by
  obtain ⟨first, single, plain⟩ := apart.marked binding member
  obtain ⟨word, whole⟩ := List.head?_eq_some_iff.1 first
  rw [whole] at single plain
  exact ⟨word, whole, single, fun inside => plain (List.mem_cons_of_mem _ inside)⟩

theorem unique (apart : Apart name bindings) {a b : String × String} {text : List Char}
    (memberA : a ∈ bindings) (memberB : b ∈ bindings) (startsA : a.1.toList <+: text)
    (startsB : b.1.toList <+: text) : a = b := by
  by_contra differ
  have unrelated := apart.unrelated.forall memberA memberB differ
  rcases List.prefix_or_prefix_of_prefix startsA startsB with inside | inside
  · exact unrelated.1 inside
  · exact unrelated.2 inside

end Apart

section Pass

variable {name : String} {bindings : List (String × String)}

@[simp] theorem pass_nil : pass name bindings [] = [] := by
  rw [pass]

@[simp] theorem pass_placeholder (rest : List Char) :
    pass name bindings ('$' :: rest) = name.toList ++ pass name bindings rest := by
  rw [pass, if_pos rfl]

theorem pass_other {c : Char} {rest : List Char} (plain : c ≠ '$')
    (free : ∀ binding ∈ bindings, ¬ binding.1.toList <+: c :: rest) :
    pass name bindings (c :: rest) = c :: pass name bindings rest := by
  have nothing : bindings.find? (starts (c :: rest)) = none :=
    List.find?_eq_none.2 fun binding member here => free binding member (starts_iff.1 here)
  rw [pass, if_neg plain, nothing]

theorem Apart.pass_bound (apart : Apart name bindings) {binding : String × String}
    (member : binding ∈ bindings) (later : List Char) :
    pass name bindings (binding.1.toList ++ later) =
      binding.2.toList ++ pass name bindings later := by
  obtain ⟨word, whole, -, -⟩ := apart.word member
  have stands : binding.1.toList <+: '&' :: (word ++ later) := whole ▸ List.prefix_append _ later
  cases found : bindings.find? (starts ('&' :: (word ++ later))) with
  | none => exact absurd (starts_iff.2 stands) (List.find?_eq_none.1 found _ member)
  | some other =>
    have here := starts_iff.1 (List.find?_some found)
    have same : other = binding := apart.unique (List.mem_of_find?_eq_some found) member here stands
    subst same
    rw [whole, List.cons_append, pass, if_neg (by decide), found]
    simp only [whole, List.length_cons, Nat.add_sub_cancel, List.drop_left]

@[elab_as_elim]
theorem Apart.walk (apart : Apart name bindings) {motive : List Char → Prop} (text : List Char)
    (nil : motive [])
    (placeholder : ∀ rest, motive rest → motive ('$' :: rest))
    (bound : ∀ binding ∈ bindings, ∀ later, motive later → motive (binding.1.toList ++ later))
    (other : ∀ c rest, c ≠ '$' → (∀ binding ∈ bindings, ¬ binding.1.toList <+: c :: rest) →
      motive rest → motive (c :: rest)) : motive text := by
  induction length : text.length using Nat.strongRecOn generalizing text with
  | ind n ih =>
    subst length
    cases text with
    | nil => exact nil
    | cons c rest =>
      by_cases dollar : c = '$'
      · subst dollar
        exact placeholder rest (ih _ (by simp) rest rfl)
      by_cases free : ∀ binding ∈ bindings, ¬ binding.1.toList <+: c :: rest
      · exact other c rest dollar free (ih _ (by simp) rest rfl)
      · simp only [not_forall, not_not] at free
        obtain ⟨binding, member, later, whole⟩ := free
        obtain ⟨word, param, -, -⟩ := apart.word member
        rw [← whole]
        refine bound binding member later (ih _ ?_ later rfl)
        rw [← whole, param]
        simp only [List.cons_append, List.length_cons, List.length_append]
        omega

theorem Apart.pass_append (apart : Apart name bindings) {text : List Char} (unmarked : '&' ∉ text)
    (plain : '$' ∉ text) (later : List Char) :
    pass name bindings (text ++ later) = text ++ pass name bindings later := by
  induction text with
  | nil => rfl
  | cons c text ih =>
    have free : ∀ binding ∈ bindings, ¬ binding.1.toList <+: c :: (text ++ later) := by
      intro binding member here
      obtain ⟨word, whole, -, -⟩ := apart.word member
      rw [whole] at here
      exact List.ne_of_not_mem_cons unmarked (List.cons_prefix_cons.1 here).1
    rw [List.cons_append, pass_other (Ne.symm (List.ne_of_not_mem_cons plain)) free,
      ih (List.not_mem_of_not_mem_cons unmarked) (List.not_mem_of_not_mem_cons plain),
      List.cons_append]

/-- A word stands in the text if it stands in what the pass makes of it, unless what is written
opens with a character of the word. -/
theorem Apart.prefix_of_pass (apart : Apart name bindings) {word text : List Char}
    (named : Foreign word name) (given : ∀ binding ∈ bindings, Foreign word binding.2)
    (stands : word <+: pass name bindings text) : word <+: text := by
  induction text using apart.walk generalizing word with
  | nil => simpa using stands
  | placeholder rest _ =>
    rw [pass_placeholder] at stands
    rw [named.eq_nil stands]
    exact List.nil_prefix
  | bound binding member later _ =>
    rw [apart.pass_bound member] at stands
    rw [(given binding member).eq_nil stands]
    exact List.nil_prefix
  | other c rest plain free ih =>
    rw [pass_other plain free] at stands
    cases word with
    | nil => exact List.nil_prefix
    | cons d word =>
      obtain ⟨rfl, inside⟩ := List.cons_prefix_cons.1 stands
      have later := ih named.tail (fun binding member => (given binding member).tail) inside
      exact List.cons_prefix_cons.2 ⟨rfl, later⟩

/-- One more replacement, over what a pass has written, is one more parameter of the pass. -/
theorem Apart.replace_pass {binding : String × String} (apart : Apart name (bindings ++ [binding]))
    (text : List Char) :
    replaceChars binding.1.toList binding.2.toList (pass name bindings text) =
      pass name (bindings ++ [binding]) text := by
  have before : Apart name bindings := apart.of_sublist (List.sublist_append_left ..)
  have last : binding ∈ bindings ++ [binding] := by simp
  have fresh : ∀ earlier ∈ bindings, Unrelated earlier binding := by
    simpa using (List.pairwise_append.1 apart.unrelated).2.2
  obtain ⟨word, whole, unmarked, plain⟩ := apart.word last
  rw [whole, replaceChars]
  induction text using apart.walk with
  | nil => simp [replaceWord]
  | placeholder rest ih =>
    rw [pass_placeholder, pass_placeholder, replaceWord_append apart.name.1, ih]
  | bound other member later ih =>
    rw [apart.pass_bound member]
    rcases List.mem_append.1 member with earlier | same
    · rw [before.pass_bound earlier, replaceWord_append (apart.arguments other member).1, ih]
    · -- no earlier parameter stands where this one does, so the pass has left it as it was
      obtain rfl := List.mem_singleton.1 same
      have free : ∀ earlier ∈ bindings, ¬ earlier.1.toList <+: '&' :: (word ++ later) := by
        intro earlier member here
        have both := List.prefix_or_prefix_of_prefix here
          (whole ▸ List.prefix_append ('&' :: word) later : other.1.toList <+: '&' :: (word ++ later))
        exact both.elim (fresh earlier member).1 (fresh earlier member).2
      rw [whole, List.cons_append, pass_other (by decide) free, before.pass_append unmarked plain,
        ← List.cons_append, replaceWord_here, ih]
  | other c rest dollar free ih =>
    have others : ∀ earlier ∈ bindings, ¬ earlier.1.toList <+: c :: rest :=
      fun earlier member => free earlier (List.mem_append_left _ member)
    have absent : ¬ '&' :: word <+: c :: pass name bindings rest := by
      intro here
      obtain ⟨rfl, inside⟩ := List.cons_prefix_cons.1 here
      have outside : ∀ {text : String}, Inert (bindings ++ [binding]) text → Foreign word text :=
        fun inert => (whole ▸ inert.foreign last).tail
      have stands := before.prefix_of_pass (outside apart.name)
        (fun earlier member => outside (apart.arguments earlier (List.mem_append_left _ member)))
        inside
      exact free binding last (whole ▸ List.cons_prefix_cons.2 ⟨rfl, stands⟩)
    rw [pass_other dollar others, pass_other dollar free, replaceWord_other absent, ih]

theorem replaceChars_placeholder (name : String) (text : List Char) :
    replaceChars placeholder.toList name.toList text = pass name [] text := by
  show replaceWord '$' [] name.toList text = _
  induction text with
  | nil => simp [replaceWord]
  | cons c rest ih =>
    by_cases dollar : c = '$'
    · rw [dollar, pass_placeholder, ← ih]
      exact replaceWord_here rest
    · have other : ¬ ['$'] <+: c :: rest :=
        fun here => dollar (List.cons_prefix_cons.1 here).1.symm
      rw [pass_other dollar (by simp), replaceWord_other other, ih]

theorem Apart.substitute_eq (apart : Apart name bindings) (line : String) :
    substitute name bindings line = simultaneous name bindings line := by
  refine String.toList_injective ?_
  rw [simultaneous, String.toList_ofList]
  induction bindings using List.reverseRecOn with
  | nil => rw [substitute, List.foldl_nil, toList_replace, replaceChars_placeholder]
  | append_singleton earlier binding ih =>
    have before := ih (apart.of_sublist (List.sublist_append_left ..))
    rw [substitute] at before ⊢
    rw [List.foldl_append, List.foldl_cons, List.foldl_nil, toList_replace, before,
      apart.replace_pass]

theorem Apart.simultaneous_perm (apart : Apart name bindings) {other : List (String × String)}
    (perm : other.Perm bindings) (line : String) :
    simultaneous name other line = simultaneous name bindings line := by
  have same := apart.of_perm perm
  refine congrArg String.ofList ?_
  induction line.toList using apart.walk with
  | nil => rw [pass_nil, pass_nil]
  | placeholder rest ih => rw [pass_placeholder, pass_placeholder, ih]
  | bound binding member later ih =>
    rw [apart.pass_bound member, same.pass_bound (perm.mem_iff.2 member), ih]
  | other c rest plain free ih =>
    have here : ∀ binding ∈ other, ¬ binding.1.toList <+: c :: rest :=
      fun binding member => free binding (perm.mem_iff.1 member)
    rw [pass_other plain free, pass_other plain here, ih]

end Pass

def replaceTail (count : Nat) (tokens tail : List String) : List String := tokens.take count ++ tail

section ReplaceTail

variable {tokens tail : List String} {count : Nat}

theorem replaceTail_short (short : tokens.length < count)
    (same : tail.length = (tokens.drop count).length) : replaceTail count tokens tail = tokens := by
  rw [List.drop_eq_nil_of_le (Nat.le_of_lt short)] at same
  rw [replaceTail, List.take_of_length_le (Nat.le_of_lt short), List.length_eq_zero_iff.1 same,
    List.append_nil]

theorem drop_replaceTail (same : tail.length = (tokens.drop count).length) :
    (replaceTail count tokens tail).drop count = tail := by
  by_cases short : tokens.length < count
  · rw [replaceTail_short short same]
    rw [List.drop_eq_nil_of_le (Nat.le_of_lt short)] at same ⊢
    exact (List.length_eq_zero_iff.1 same).symm
  · exact List.drop_left' (List.length_take_of_le (Nat.le_of_not_lt short))

theorem getElem?_replaceTail {index : Nat} (before : index < count)
    (same : tail.length = (tokens.drop count).length) :
    (replaceTail count tokens tail)[index]? = tokens[index]? := by
  by_cases short : tokens.length < count
  · rw [replaceTail_short short same]
  · rw [replaceTail, List.getElem?_append_left (by simp; omega), List.getElem?_take_of_lt before]

end ReplaceTail

def withArguments (invocation : List String) (pairs : List (String × String)) : List String :=
  replaceTail 3 invocation (pairs.map Prod.snd ++ (arguments invocation).drop pairs.length)

namespace Macro

def withParams (m : Macro) (pairs : List (String × String)) : Macro :=
  { m with
    signature := replaceTail 2 m.signature (pairs.map Prod.fst ++ m.params.drop pairs.length) }

variable {m : Macro} {invocation : List String} {pairs : List (String × String)}

theorem length_bindings (m : Macro) (invocation : List String) :
    (m.bindings invocation).length = min m.params.length (arguments invocation).length :=
  List.length_zip

theorem length_tail {few : List String} (f : String × String → String)
    (enough : pairs.length ≤ few.length) :
    (pairs.map f ++ few.drop pairs.length).length = few.length := by
  simp only [List.length_append, List.length_map, List.length_drop]
  omega

theorem params_withParams (enough : pairs.length ≤ m.params.length) :
    (m.withParams pairs).params = pairs.map Prod.fst ++ m.params.drop pairs.length :=
  drop_replaceTail (length_tail Prod.fst enough)

theorem name_withParams (enough : pairs.length ≤ m.params.length) :
    (m.withParams pairs).name = m.name := by
  have same := getElem?_replaceTail (by decide : 1 < 2) (length_tail Prod.fst enough)
  exact congrArg (·.getD "") same

theorem arguments_withArguments (enough : pairs.length ≤ (arguments invocation).length) :
    arguments (withArguments invocation pairs) =
      pairs.map Prod.snd ++ (arguments invocation).drop pairs.length :=
  drop_replaceTail (length_tail Prod.snd enough)

theorem fullName_withArguments (parent : Option String)
    (enough : pairs.length ≤ (arguments invocation).length) :
    fullName parent (withArguments invocation pairs) = fullName parent invocation := by
  have same := getElem?_replaceTail (by decide : 1 < 3) (length_tail Prod.snd enough)
  exact fullName_congr parent (congrArg (·.getD "") same)

theorem zip_pairs {params arguments : List String}
    (full : pairs.length = min params.length arguments.length) :
    (pairs.map Prod.fst ++ params.drop pairs.length).zip
      (pairs.map Prod.snd ++ arguments.drop pairs.length) = pairs := by
  have unpaired : (params.drop pairs.length).zip (arguments.drop pairs.length) = [] := by
    refine List.eq_nil_of_length_eq_zero ?_
    simp only [List.length_zip, List.length_drop]
    omega
  rw [List.zip_append (by simp), unpaired, List.append_nil]
  exact (List.zip_of_prod rfl rfl).symm

theorem frame_withParams {name : String} (apart : Apart name (m.bindings invocation))
    (perm : pairs.Perm (m.bindings invocation)) :
    (m.withParams pairs).frame (withArguments invocation pairs) name = m.frame invocation name := by
  have full : pairs.length = min m.params.length (arguments invocation).length :=
    perm.length_eq.trans (length_bindings m invocation)
  have enough : pairs.length ≤ m.params.length ∧ pairs.length ≤ (arguments invocation).length := by
    omega
  have params := params_withParams enough.1
  have given := arguments_withArguments enough.2
  have bound : (m.withParams pairs).bindings (withArguments invocation pairs) = pairs := by
    rw [bindings, params, given, zip_pairs full]
  have written : ∀ line, substitute name pairs line =
      substitute name (m.bindings invocation) line := fun line => by
    rw [(apart.of_perm perm).substitute_eq, apart.simultaneous_perm perm, apart.substitute_eq]
  have lines : (m.withParams pairs).frameLines (withArguments invocation pairs) name =
      m.frameLines invocation name := by
    simp only [frameLines, bound, written]
    rfl
  have log : (m.withParams pairs).frameLog (withArguments invocation pairs) =
      m.frameLog invocation := by
    simp only [frameLog, params, given, length_tail _ enough.1, length_tail _ enough.2,
      name_withParams enough.1]
  rw [frame, frame, lines, log]

/-- Where parameters and written texts cannot meet, a frame is written as by one pass over each of
its lines. The bound parameters may then be put in any order, and their arguments in the same. -/
theorem expand_simultaneous (m : Macro) (invocation : List String) (parent : Option String)
    (out : Output) (apart : Apart (fullName parent invocation) (m.bindings invocation)) :
    (m.expand invocation parent out).lines =
        out.lines ++ (m.lines.map (fun line =>
          trim (simultaneous (fullName parent invocation) (m.bindings invocation) line)) ++
            (expansions m.insertions (fullName parent invocation)).lines) ∧
      ∀ pairs, pairs.Perm (m.bindings invocation) →
        (m.withParams pairs).expand (withArguments invocation pairs) parent out =
          m.expand invocation parent out := by
  have own : m.frameLines invocation (fullName parent invocation) = m.lines.map (fun line =>
      trim (simultaneous (fullName parent invocation) (m.bindings invocation) line)) := by
    simp only [frameLines, apart.substitute_eq]
  refine ⟨?_, fun pairs perm => ?_⟩
  · rw [expand, expansion_eq, Output.lines_append, Output.lines_append, frame, own]
  · have enough : pairs.length ≤ (arguments invocation).length := by
      rw [perm.length_eq, length_bindings]
      omega
    rw [expand, expand, expansion_eq, expansion_eq, fullName_withArguments parent enough,
      frame_withParams apart perm, withParams]

def greeting : Macro :=
  ⟨["macro", "Greet", "&who", "&what", "&rest"],
    some ["  $: &what&who, &wh&what &rest", "&&who$"],
    [⟨["macro", "a", "Bye"], ⟨["macro", "Bye"], some ["bye $"], []⟩⟩]⟩

theorem expand_simultaneous_greeting :
    (greeting.expand ["macro", "m", "Greet", "Bob", "$5"] (some "x") Output.empty).lines =
        [] ++ (greeting.lines.map (fun line => trim (simultaneous "x.m"
          [("&who", "Bob"), ("&what", "$5")] line)) ++
            (expansions greeting.insertions "x.m").lines) ∧
      (greeting.withParams [("&what", "$5"), ("&who", "Bob")]).expand
          (withArguments ["macro", "m", "Greet", "Bob", "$5"] [("&what", "$5"), ("&who", "Bob")])
          (some "x") Output.empty =
        greeting.expand ["macro", "m", "Greet", "Bob", "$5"] (some "x") Output.empty ∧
      (greeting.expand ["macro", "m", "Greet", "Bob", "$5"] (some "x") Output.empty).lines =
        ["x.m: $5Bob, &wh$5 &rest", "&Bobx.m", "bye x.m.a"] := by
  have apart : Apart (fullName (some "x") ["macro", "m", "Greet", "Bob", "$5"])
      (greeting.bindings ["macro", "m", "Greet", "Bob", "$5"]) :=
    ⟨by decide +kernel, by decide +kernel, by decide +kernel, by decide +kernel⟩
  obtain ⟨lines, reordered⟩ := expand_simultaneous greeting ["macro", "m", "Greet", "Bob", "$5"]
    (some "x") Output.empty apart
  exact ⟨lines, reordered _ (.swap _ _ []), by decide +kernel⟩

end Macro

end QuestScript

import QuestScript.Proofs.Instances
import QuestScript.Proofs.TopLevel

/-! What the lines of an instance are made of. They have characters of the body, of the full name
and of the arguments that a parameter takes; `$` comes from the body only as the full name. Nothing
else of the invocation counts, and to the insertions inside it gives its instance name alone: their
lines are the same whatever its arguments are. -/
namespace QuestScript

namespace Text

variable {c d : Char} {ds new text : List Char}

theorem mem_replaceWord (member : c ∈ replaceWord d ds new text) :
    c ∈ new ∨ c ∈ text ∧ (ds = [] → c ≠ d) := by
  fun_induction replaceWord d ds new text with
  | case1 => cases member
  | case2 e rest here ih =>
    rcases List.mem_append.1 member with fresh | later
    · exact .inl fresh
    · rcases ih later with fresh | ⟨kept, other⟩
      · exact .inl fresh
      · exact .inr ⟨.tail _ (List.mem_of_mem_drop kept), other⟩
  | case3 e rest elsewhere ih =>
    rcases List.mem_cons.1 member with rfl | later
    · -- a word of this one letter would stand here and be replaced
      refine .inr ⟨.head _, ?_⟩
      rintro rfl rfl
      exact elsewhere (by simp)
    · rcases ih later with fresh | ⟨kept, other⟩
      · exact .inl fresh
      · exact .inr ⟨.tail _ kept, other⟩

theorem mem_replaceChars {old : List Char} (member : c ∈ replaceChars old new text) :
    c ∈ new ∨ c ∈ text := by
  cases old with
  | nil =>
    simp only [replaceChars, List.mem_append, List.mem_flatMap, List.mem_cons] at member
    rcases member with fresh | ⟨e, kept, rfl | fresh⟩
    · exact .inl fresh
    · exact .inr kept
    · exact .inl fresh
  | cons e es => exact (mem_replaceWord member).imp_right And.left

theorem mem_trim {s : String} (member : c ∈ (trim s).toList) : c ∈ s.toList := by
  rw [toList_trim] at member
  have back := (List.dropWhile_sublist _).subset (List.mem_reverse.1 member)
  exact (List.dropWhile_sublist _).subset (List.mem_reverse.1 back)

end Text

open Text Instance

theorem mem_replace_placeholder {c : Char} {name line : String}
    (member : c ∈ (replace placeholder name line).toList) :
    c ∈ name.toList ∨ c ∈ line.toList ∧ c ≠ '$' := by
  rw [toList_replace] at member
  exact (mem_replaceWord member).imp_right fun kept => ⟨kept.1, kept.2 rfl⟩

theorem mem_replaced {c : Char} {bindings : List (String × String)} {text : String}
    (member : c ∈ (bindings.foldl (fun text binding => replace binding.1 binding.2 text)
      text).toList) :
    (∃ binding ∈ bindings, c ∈ binding.2.toList) ∨ c ∈ text.toList := by
  induction bindings generalizing text with
  | nil => exact .inr member
  | cons binding later ih =>
    rcases ih member with ⟨other, among, inside⟩ | kept
    · exact .inl ⟨other, .tail _ among, inside⟩
    · rw [toList_replace] at kept
      rcases mem_replaceChars kept with inside | kept
      · exact .inl ⟨binding, .head _, inside⟩
      · exact .inr kept

namespace Macro

variable {m : Macro} {tokens : List String} {parent : Option String}

theorem zip_take_length (params given : List String) :
    params.zip (given.take params.length) = params.zip given := by
  induction params generalizing given with
  | nil => rfl
  | cons param params ih =>
    cases given with
    | nil => rfl
    | cons argument given => simp only [List.length_cons, List.take_succ_cons, List.zip_cons_cons, ih]

theorem bindings_eq (m : Macro) (tokens : List String) :
    m.bindings tokens = m.params.zip ((arguments tokens).take m.params.length) :=
  (zip_take_length m.params (arguments tokens)).symm

theorem mem_frameLines {name line : String} {c : Char} (written : line ∈ m.frameLines tokens name)
    (member : c ∈ line.toList) :
    c ∈ name.toList ∨ (∃ argument ∈ (arguments tokens).take m.params.length, c ∈ argument.toList) ∨
      ∃ text ∈ m.lines, c ∈ text.toList ∧ c ≠ '$' := by
  obtain ⟨text, own, rfl⟩ := List.mem_map.1 written
  rcases mem_replaced (mem_trim member) with ⟨⟨param, argument⟩, bound, inside⟩ | kept
  · rw [bindings_eq] at bound
    exact .inr (.inl ⟨argument, (List.of_mem_zip bound).2, inside⟩)
  · rcases mem_replace_placeholder kept with named | ⟨plain, other⟩
    · exact .inl named
    · exact .inr (.inr ⟨text, own, plain, other⟩)

def Settled (tokens : List String) : Prop :=
  '$' ∉ (instanceName tokens).toList ∧ ∀ argument ∈ arguments tokens, '$' ∉ argument.toList

instance : DecidablePred Settled := fun _ => @instDecidableAnd _ _ _ (List.decidableBAll _ _)

def InsertsSettled (m : Macro) : Prop := ∀ insertion ∈ m.insertions, Settled insertion.tokens

instance : DecidablePred InsertsSettled := fun _ => List.decidableBAll _ _

theorem fullName_settled (outside : ∀ outer ∈ parent, '$' ∉ outer.toList)
    (settled : Settled tokens) : '$' ∉ (fullName parent tokens).toList := by
  cases parent with
  | none => exact settled.1
  | some outer =>
    simp only [fullName_some, String.toList_append, List.mem_append, not_or]
    exact ⟨⟨outside outer rfl, by decide⟩, settled.1⟩

theorem instance_settled (outside : ∀ outer ∈ parent, '$' ∉ outer.toList)
    (settled : Settled tokens) (inside : m.Throughout InsertsSettled) {position : List Nat}
    {i : Instance} (here : m.instanceAt? tokens parent position = some i) :
    '$' ∉ i.name.toList ∧ Settled i.tokens := by
  induction position generalizing m tokens parent i with
  | nil =>
    cases here
    exact ⟨fullName_settled outside settled, settled⟩
  | cons index later ih =>
    obtain ⟨insertion, inner, there, leads, rfl⟩ := instanceAt?_cons.1 here
    have member := List.mem_of_getElem? there
    have around : ∀ outer ∈ some (fullName parent tokens), '$' ∉ outer.toList := by
      rintro outer ⟨⟩
      exact fullName_settled outside settled
    have within : '$' ∉ inner.name.toList ∧ Settled inner.tokens :=
      ih around (inside.here insertion member) (inside.target member) leads
    exact within

/-- If no name and no argument brings one in, no line that is written holds a `$`, whatever the
lines and the parameters of the macros are. -/
theorem expand_settled (m : Macro) (tokens : List String) (parent : Option String) (out : Output)
    (outside : ∀ outer ∈ parent, '$' ∉ outer.toList) (settled : Settled tokens)
    (inside : m.Throughout InsertsSettled) :
    out.lines <+: (m.expand tokens parent out).lines ∧
      ∀ line ∈ (m.expand tokens parent out).lines.drop out.lines.length, '$' ∉ line.toList := by
  rw [expand, Output.lines_append, List.drop_left, expansion_eq_written]
  refine ⟨List.prefix_append .., ?_⟩
  intro line written mark
  obtain ⟨i, member, own⟩ := List.mem_flatMap.1 written
  obtain ⟨named, given⟩ := instance_settled outside settled inside (instanceAt?_position member)
  rcases mem_frameLines own mark with inName | ⟨argument, bound, inArgument⟩ | ⟨text, -, -, other⟩
  · exact named inName
  · exact given.2 argument (List.mem_of_mem_take bound) inArgument
  · exact other rfl

def tangle : Macro :=
  ⟨["macro", "Tangle", "&n", "&npc", "$x", "", "&rest"], some ["$x &npc", "  $&rest $$"],
    [⟨["macro", "a", "Leaf"], leaf⟩]⟩

theorem expand_settled_tangle :
    (tangle.expand ["macro", "m", "Tangle", "X", "Y", "1", "-"] (some "p") ⟨["$"], []⟩).lines =
        ["$", "-p-.-m-x- -X-p-c-", "- - -p-.-m-&-r-e-s-t- -p-.-m-p-.-m-", "leaf p.m.a"] ∧
      ∀ line ∈ (tangle.expand ["macro", "m", "Tangle", "X", "Y", "1", "-"] (some "p")
        ⟨["$"], []⟩).lines.drop 1, '$' ∉ line.toList := by
  have outside : ∀ outer ∈ some "p", '$' ∉ outer.toList := by decide +kernel
  have settled : Settled ["macro", "m", "Tangle", "X", "Y", "1", "-"] := by decide +kernel
  have inside : tangle.Throughout InsertsSettled :=
    (throughout_iff ["macro", "m", "Tangle", "X", "Y", "1", "-"] (some "p")).2 (by decide +kernel)
  have free := expand_settled tangle _ (some "p") ⟨["$"], []⟩ outside settled inside
  exact ⟨by decide +kernel, free.2⟩

section

variable {a b : List String}

theorem take_arguments (count : Nat) (given : ∀ k < count, a[3 + k]? = b[3 + k]?) :
    (arguments a).take count = (arguments b).take count := by
  refine List.ext_getElem? fun k => ?_
  by_cases bound : k < count
  · simp only [arguments, List.getElem?_take_of_lt bound, List.getElem?_drop, given k bound]
  · rw [List.getElem?_take_eq_none (by omega), List.getElem?_take_eq_none (by omega)]

theorem frame_congr {name : String}
    (given : (arguments a).take m.params.length = (arguments b).take m.params.length) :
    m.frame a name = m.frame b name := by
  have bound : m.bindings a = m.bindings b := by rw [bindings_eq, given, bindings_eq]
  have counts : min m.params.length (arguments a).length =
      min m.params.length (arguments b).length := by
    rw [← List.length_take, given, List.length_take]
  have log : m.frameLog a = m.frameLog b := by
    unfold frameLog
    by_cases few : (arguments a).length < m.params.length
    · -- too few arguments are all among those that agree, so there are as many on both sides
      have same : (arguments a).length = (arguments b).length := by omega
      rw [same]
    · rw [if_neg few, if_neg (by omega)]
  simp only [frame, frameLines, bound, log]

theorem instances_tail (m : Macro) (parent : Option String)
    (named : instanceName a = instanceName b) :
    (m.instances a parent).tail = (m.instances b parent).tail := by
  rw [instances_eq, instances_eq, List.tail_cons, List.tail_cons, fullName_congr parent named]

theorem drop_expand (m : Macro) (tokens : List String) (parent : Option String) (out : Output) :
    (m.expand tokens parent out).lines.drop (out.lines.length + m.lines.length) =
      (written (m.instances tokens parent).tail).lines := by
  have own : (m.frame tokens (fullName parent tokens)).lines.length = m.lines.length :=
    List.length_map ..
  rw [expand, expansion_eq_written, instances_eq, written_cons, List.tail_cons,
    Output.lines_append, Output.lines_append, ← List.append_assoc]
  exact List.drop_left' (by rw [List.length_append, ← own]; rfl)

/-- Of an invocation, only the instance name and the arguments that a parameter takes have a say in
what is written, and outside the lines of the macro itself only the instance name has. -/
theorem expand_arguments (m : Macro) (a b : List String) (parent : Option String) (out : Output)
    (named : instanceName a = instanceName b) :
    ((∀ k < m.params.length, a[3 + k]? = b[3 + k]?) →
        m.expand a parent out = m.expand b parent out) ∧
      (m.expand a parent out).lines.length = (m.expand b parent out).lines.length ∧
      ∃ inner, (m.instances a parent).tail = inner ∧ (m.instances b parent).tail = inner ∧
        (m.expand a parent out).lines.drop (out.lines.length + m.lines.length) =
          (written inner).lines ∧
        (m.expand b parent out).lines.drop (out.lines.length + m.lines.length) =
          (written inner).lines := by
  have tails := instances_tail m parent named
  refine ⟨?_, ?_, _, rfl, tails.symm, drop_expand m a parent out, ?_⟩
  · intro given
    rw [expand, expand, expansion_eq, expansion_eq, fullName_congr parent named,
      frame_congr (take_arguments m.params.length given)]
  · rw [expand, expand, Output.lines_append, Output.lines_append, List.length_append,
      List.length_append, length_expansion, length_expansion]
  · rw [drop_expand, tails]

def wrap : Macro :=
  ⟨["macro", "Wrap", "&msg"], some ["wrap $ &msg"],
    [⟨["macro", "s", "Say", "&msg", "$"],
      ⟨["macro", "Say", "&what", "&who"], some ["say $ &what &who"], []⟩⟩]⟩

theorem expand_arguments_wrap :
    wrap.expand ["macro", "w", "Wrap", "hello"] none Output.empty =
        wrap.expand ["MACRO", "w", "wrap", "hello", "there"] none Output.empty ∧
      (wrap.expand ["macro", "w", "Wrap", "hello"] none Output.empty).lines =
        ["wrap w hello", "say w.s &msg $"] ∧
      (wrap.expand ["macro", "w", "Wrap"] none Output.empty).lines =
        ["wrap w &msg", "say w.s &msg $"] ∧
      (wrap.expand ["macro", "w", "Wrap", "hello"] none Output.empty).lines.length =
        (wrap.expand ["macro", "w", "Wrap"] none Output.empty).lines.length := by
  have more := expand_arguments wrap ["macro", "w", "Wrap", "hello"]
    ["MACRO", "w", "wrap", "hello", "there"] none Output.empty rfl
  have fewer := expand_arguments wrap ["macro", "w", "Wrap", "hello"] ["macro", "w", "Wrap"] none
    Output.empty rfl
  exact ⟨more.1 (by decide +kernel), by decide +kernel, by decide +kernel, fewer.2.1⟩

end

end Macro

end QuestScript

import Mathlib.Data.List.Forall2
import QuestScript.Proofs.WellFormed

/-! Insertions inside a macro as lines of their own. The frame around an insertion hands down its
name and nothing else, so the insertion expands to what a line would that writes it at the top of a
script under its full name. It is of no account either whether the frames write into lists of their
own or into one that is passed from frame to frame. -/
namespace QuestScript

open Text Directive

def insertionLine (keyword place name : String) (arguments : List String) : String :=
  keyword ++ " " ++ place ++ ": " ++ name ++ String.join (arguments.map (" " ++ ·))

namespace Insertion

/-- The line that writes the insertion under its full name expands to this, wherever the name of
its macro has the target that was recorded. -/
def ExpandsAlone (outer : String) (insertion : Insertion) (out : Output) : Prop :=
  ∃ keyword place name arguments, insertion.tokens = keyword :: place :: name :: arguments ∧
    ∀ registry : Registry, registry.get? name = some insertion.target →
      (Registry.expandLine (insertionLine keyword (outer ++ "." ++ place) name arguments)).run
        registry = ⟨.ok out.lines, registry, out.log⟩

end Insertion

theorem spaced_arguments (arguments : List String) :
    Spaced isSeparator arguments (String.join (arguments.map (" " ++ ·))).toList := by
  induction arguments with
  | nil => exact .done nofun
  | cons argument later ih =>
    rw [List.map_cons, String.join_cons, String.toList_append, String.toList_append,
      List.append_assoc]
    exact .next (List.cons_ne_nil _ _) (by simp [isSeparator, isBlank]) ih

theorem spells_insertionLine (keyword place name : String) (arguments : List String) :
    SpellsInsertion keyword (place :: name :: arguments)
      (insertionLine keyword place name arguments) := by
  let behind := (String.join (arguments.map (" " ++ ·))).toList
  refine ⟨' ' :: (place.toList ++ (':' :: ' ' :: (name.toList ++ behind))), ?_, ?_, by simp⟩
  · exact ⟨[], nofun, by simp [insertionLine, behind]⟩
  · have named : Spaced isSeparator (name :: arguments) ([':', ' '] ++ (name.toList ++ behind)) :=
      .next (List.cons_ne_nil _ _) (by simp [isSeparator, isBlank]) (spaced_arguments arguments)
    have placed : Spaced isSeparator (place :: name :: arguments)
        ([' '] ++ (place.toList ++ ([':', ' '] ++ (name.toList ++ behind)))) :=
      .next (List.cons_ne_nil _ _) (by simp [isSeparator, isBlank]) named
    exact placed

namespace Directive

theorem IsWord.dotted {outer place : String} (is : IsWord outer) (is' : IsWord place) :
    IsWord (outer ++ "." ++ place) := by
  constructor
  · intro empty
    rw [String.toList_append, String.toList_append] at empty
    simp at empty
  · intro c member
    simp only [String.toList_append, List.mem_append] at member
    rcases member with (inOuter | dot) | inPlace
    · exact is.2 c inOuter
    · obtain rfl := List.mem_singleton.1 dot
      decide
    · exact is'.2 c inPlace

theorem Tokenized.ofLine_insertionLine {keyword place name : String} {arguments : List String}
    (tokenized : Tokenized 3 (keyword :: place :: name :: arguments)) {outer : String}
    (is : IsWord outer) :
    ofLine (insertionLine keyword (outer ++ "." ++ place) name arguments) =
      .insertion (keyword :: (outer ++ "." ++ place) :: name :: arguments) := by
  obtain ⟨-, ⟨_, _, same, spells⟩, proper⟩ := tokenized
  obtain ⟨rfl, rfl⟩ := List.cons.inj same
  refine ofLine_insertion spells ?_ (spells_insertionLine ..)
  refine List.forall_mem_cons.2 ⟨is.dotted (proper place (by simp)), fun word member => ?_⟩
  exact proper word (.tail _ (.tail _ member))

end Directive

namespace Registry

theorem expandLine_run {registry : Registry} {line keyword place name : String}
    {arguments : List String} {m : Macro}
    (kind : ofLine line = .insertion (keyword :: place :: name :: arguments))
    (bound : registry.get? name = some m) :
    (expandLine line).run registry =
      ⟨.ok (m.expansion (keyword :: place :: name :: arguments) none).lines, registry,
        (m.expansion (keyword :: place :: name :: arguments) none).log⟩ := by
  have here : Action.get.run registry = ⟨.ok registry, registry, []⟩ := rfl
  have found : (target 1 line (keyword :: place :: name :: arguments)).run registry =
      ⟨.ok m, registry, []⟩ := by
    simp only [target, Action.bind_run_ok here, bound, Action.pure_run, List.append_nil]
  simp only [expandLine, kind, expandTokens, Action.bind_run_ok found, List.nil_append]
  rw [Action.bind_run_ok (rfl : (Action.note _).run registry = _), Action.pure_run, List.append_nil]

end Registry

namespace Macro

theorem expansion_renamed (m : Macro) (outer keyword place : String) (rest : List String) :
    m.expansion (keyword :: place :: rest) (some outer) =
      m.expansion (keyword :: (outer ++ "." ++ place) :: rest) none := by
  rw [expansion_eq, expansion_eq, fullName_some, fullName_none]
  rfl

theorem expansions_eq (insertions : List Insertion) (name : String) :
    expansions insertions name =
      ⟨insertions.flatMap fun insertion =>
          (insertion.target.expansion insertion.tokens (some name)).lines,
        insertions.flatMap fun insertion =>
          (insertion.target.expansion insertion.tokens (some name)).log⟩ := by
  induction insertions with
  | nil => rfl
  | cons insertion rest ih =>
    cases insertion
    rw [expansions, ih]
    rfl

mutual

def pour : Macro → List String → Option String → Output → Output
  | ⟨signature, body, insertions⟩, invocation, parent, out =>
    pourAll insertions (fullName parent invocation)
      (out ++ frame ⟨signature, body, insertions⟩ invocation (fullName parent invocation))

def pourAll : List Insertion → String → Output → Output
  | [], _, out => out
  | ⟨tokens, target⟩ :: rest, name, out => pourAll rest name (pour target tokens (some name) out)

end

mutual

theorem pour_eq (m : Macro) (invocation : List String) (parent : Option String) (out : Output) :
    m.pour invocation parent out = out ++ m.expansion invocation parent := by
  cases m with
  | mk signature body insertions =>
    rw [pour, expansion, pourAll_eq, Output.append_assoc]

theorem pourAll_eq (insertions : List Insertion) (name : String) (out : Output) :
    pourAll insertions name out = out ++ expansions insertions name := by
  cases insertions with
  | nil => exact (Output.append_empty out).symm
  | cons insertion rest =>
    cases insertion with
    | mk tokens target => rw [pourAll, expansions, pour_eq, pourAll_eq, Output.append_assoc]

end

theorem expandsAlone {outer : String} (is : IsWord outer) {insertion : Insertion}
    (tokenized : Tokenized 3 insertion.tokens) :
    insertion.ExpandsAlone outer
      (insertion.target.expansion insertion.tokens (some outer)) := by
  obtain ⟨tokens, target⟩ := insertion
  rcases tokens with _ | ⟨keyword, _ | ⟨place, _ | ⟨name, arguments⟩⟩⟩
  · exact absurd tokenized.many (by simp)
  · exact absurd tokenized.many (by simp)
  · exact absurd tokenized.many (by simp)
  · refine ⟨keyword, place, name, arguments, rfl, fun registry bound => ?_⟩
    rw [expansion_renamed]
    exact Registry.expandLine_run (tokenized.ofLine_insertionLine is) bound

/-- An insertion that resolves writes the lines of its macro and then, insertion by insertion, what
lines would write that make these insertions at the top of a script. Under a name of its own or
under the one around it, into a list of its own or behind what is there: a macro is expanded to the
same lines. -/
theorem expandLine_nested (registry : Registry) (line keyword place name : String)
    (arguments : List String) (m : Macro)
    (kind : ofLine line = .insertion (keyword :: place :: name :: arguments))
    (bound : registry.get? name = some m)
    (carried : ∀ insertion ∈ m.insertions, Tokenized 3 insertion.tokens) :
    (∃ parts : List Output, List.Forall₂ (Insertion.ExpandsAlone place) m.insertions parts ∧
      (Registry.expandLine line).run registry =
        ⟨.ok (m.frameLines (keyword :: place :: name :: arguments) place ++
            parts.flatMap Output.lines), registry,
          m.frameLog (keyword :: place :: name :: arguments) ++ parts.flatMap Output.log⟩) ∧
      (∀ (inner : Macro) (outer keyword place : String) (rest : List String) (out : Output),
        inner.expand (keyword :: place :: rest) (some outer) out =
          inner.expand (keyword :: (outer ++ "." ++ place) :: rest) none out) ∧
      ∀ (inner : Macro) (invocation : List String) (parent : Option String) (out : Output),
        inner.pour invocation parent out = inner.expand invocation parent out ∧
          inner.pour invocation parent out = out ++ inner.pour invocation parent Output.empty := by
  refine ⟨⟨m.insertions.map fun insertion =>
    insertion.target.expansion insertion.tokens (some place), ?_, ?_⟩, ?_, ?_⟩
  · have is : IsWord place := (tokenized_insertion kind).proper place (by simp)
    refine List.forall₂_map_right_iff.2 (List.forall₂_same.2 fun insertion member => ?_)
    exact expandsAlone is (carried insertion member)
  · rw [Registry.expandLine_run kind bound, expansion_eq, expansions_eq, List.flatMap_map,
      List.flatMap_map]
    rfl
  · intro inner outer keyword place rest out
    rw [expand, expand, expansion_renamed]
  · intro inner invocation parent out
    refine ⟨pour_eq inner invocation parent out, ?_⟩
    rw [pour_eq, pour_eq, Output.empty_append]

def sapling : Macro := ⟨["macro", "Leaf", "&v"], some ["leaf $ &v"], []⟩

def tree : Macro :=
  ⟨["macro", "Tree"], some ["  trunk $"],
    [⟨["macro", "a", "Leaf", "1"], sapling⟩, ⟨["MACRO", "b", "Leaf"], sapling⟩]⟩

theorem expandLine_nested_tree :
    (∃ parts : List Output, List.Forall₂ (Insertion.ExpandsAlone "t") tree.insertions parts ∧
      (Registry.expandLine "macro t: Tree").run (Dict.empty.insert "Tree" tree) =
        ⟨.ok (tree.frameLines ["macro", "t", "Tree"] "t" ++ parts.flatMap Output.lines),
          Dict.empty.insert "Tree" tree,
          tree.frameLog ["macro", "t", "Tree"] ++ parts.flatMap Output.log⟩) ∧
      ((Registry.expandLine "macro t: Tree").run (Dict.empty.insert "Tree" tree)).result =
        .ok ["trunk t", "leaf t.a 1", "leaf t.b &v"] ∧
      insertionLine "MACRO" ("t" ++ "." ++ "b") "Leaf" [] = "MACRO t.b: Leaf" ∧
      ((Registry.expandLine "MACRO t.b: Leaf").run (Dict.empty.insert "Leaf" sapling)).result =
        .ok ["leaf t.b &v"] := by
  have kind : ofLine "macro t: Tree" = .insertion ["macro", "t", "Tree"] := by decide +kernel
  have bound : Dict.get? (Dict.empty.insert "Tree" tree) "Tree" = some tree :=
    Dict.get?_insert_self ..
  have carried : ∀ insertion ∈ tree.insertions, Tokenized 3 insertion.tokens := by
    intro insertion member
    rcases List.mem_cons.1 member with rfl | member
    · exact ⟨by decide, ⟨_, _, rfl, by decide +kernel⟩, by decide +kernel⟩
    · obtain rfl := List.mem_singleton.1 member
      exact ⟨by decide, ⟨_, _, rfl, by decide +kernel⟩, by decide +kernel⟩
  obtain ⟨written, -, -⟩ := expandLine_nested (Dict.empty.insert "Tree" tree) "macro t: Tree"
    "macro" "t" "Tree" [] tree kind bound carried
  exact ⟨written, by decide +kernel, by decide +kernel, by decide +kernel⟩

end Macro

end QuestScript

import QuestScript.Directive
import QuestScript.Registry
import QuestScript.Text.Replace

/-! Expansion of an insertion into plain lines. A frame of the expansion writes the body of one
macro, with the full instance name in the place of `$` and the arguments in the place of the
parameters; the frames of the insertions recorded in the macro follow in their order. These keep
the tokens they were recorded with: the arguments of one frame do not reach the next. -/
namespace QuestScript

open Text

def placeholder : String := "$"

structure Output where
  lines : List String
  log : List LogEntry
  deriving DecidableEq

namespace Output

def empty : Output := ⟨[], []⟩

instance : Append Output where
  append first second := ⟨first.lines ++ second.lines, first.log ++ second.log⟩

@[simp] theorem lines_append (first second : Output) :
    (first ++ second).lines = first.lines ++ second.lines := rfl

@[simp] theorem log_append (first second : Output) :
    (first ++ second).log = first.log ++ second.log := rfl

theorem append_assoc (first second third : Output) :
    first ++ second ++ third = first ++ (second ++ third) := by
  show Output.mk (first.lines ++ second.lines ++ third.lines)
    (first.log ++ second.log ++ third.log) = _
  rw [List.append_assoc, List.append_assoc]
  rfl

theorem append_empty (out : Output) : out ++ empty = out := by
  show Output.mk (out.lines ++ []) (out.log ++ []) = out
  rw [List.append_nil, List.append_nil]

theorem empty_append (out : Output) : empty ++ out = out := rfl

end Output

def fullName (parent : Option String) (invocation : List String) : String :=
  match parent with
  | none => instanceName invocation
  | some outer => outer ++ "." ++ instanceName invocation

theorem fullName_none (invocation : List String) :
    fullName none invocation = instanceName invocation := rfl

theorem fullName_some (outer : String) (invocation : List String) :
    fullName (some outer) invocation = outer ++ "." ++ instanceName invocation := rfl

theorem fullName_congr {a b : List String} (parent : Option String)
    (named : instanceName a = instanceName b) : fullName parent a = fullName parent b := by
  simp only [fullName, named]

/-- Replaces the placeholder and then one parameter after the other. -/
def substitute (name : String) (bindings : List (String × String)) (line : String) : String :=
  bindings.foldl (fun text binding => replace binding.1 binding.2 text)
    (replace placeholder name line)

namespace Macro

def bindings (m : Macro) (invocation : List String) : List (String × String) :=
  m.params.zip (arguments invocation)

def frameLines (m : Macro) (invocation : List String) (name : String) : List String :=
  m.lines.map fun line => trim (substitute name (m.bindings invocation) line)

def frameLog (m : Macro) (invocation : List String) : List LogEntry :=
  if (arguments invocation).length < m.params.length then
    [.fewArguments m.name m.params.length (arguments invocation).length]
  else []

def frame (m : Macro) (invocation : List String) (name : String) : Output :=
  ⟨m.frameLines invocation name, m.frameLog invocation⟩

mutual

def expansion : Macro → List String → Option String → Output
  | ⟨signature, body, insertions⟩, invocation, parent =>
    frame ⟨signature, body, insertions⟩ invocation (fullName parent invocation) ++
      expansions insertions (fullName parent invocation)

def expansions : List Insertion → String → Output
  | [], _ => Output.empty
  | ⟨tokens, target⟩ :: rest, name => expansion target tokens (some name) ++ expansions rest name

end

theorem expansion_eq (m : Macro) (invocation : List String) (parent : Option String) :
    m.expansion invocation parent = m.frame invocation (fullName parent invocation) ++
      expansions m.insertions (fullName parent invocation) := by
  cases m
  rw [expansion]

def expand (m : Macro) (invocation : List String) (parent : Option String) (out : Output) :
    Output :=
  out ++ m.expansion invocation parent

end Macro

namespace Registry

def expandTokens (line : Nat) (text : String) (tokens : List String) :
    Action Registry (List String) := do
  let m ← target line text tokens
  let out := m.expansion tokens none
  Action.note out.log
  return out.lines

def expandLine (text : String) : Action Registry (List String) :=
  match Directive.ofLine text with
  | .insertion tokens => expandTokens 1 text tokens
  | _ => Action.fail (.malformedInsertion 1 (trim text))

end Registry

end QuestScript

import QuestScript.Action
import QuestScript.Dict
import QuestScript.Macro
import QuestScript.Text.Blank

/-! The registry of a script: its macros by name. A name keeps the macro it got last; macros that
hold an earlier one in an insertion keep that one. -/
namespace QuestScript

abbrev Registry : Type := Dict String Macro

namespace Registry

/-- Registers a macro under a name of one's own choice, and gives the macro it replaced. -/
def defineAs (name : String) (m : Macro) : Action Registry (Option Macro) := do
  let registry ← Action.get
  Action.update fun r => r.insert name m
  if registry.contains name then Action.note [.redefined name]
  return registry.get? name

def define (m : Macro) : Action Registry (Option Macro) := defineAs m.name m

/-- The macro that an insertion names. The line is the one the insertion stands on. -/
def target (line : Nat) (text : String) (tokens : List String) : Action Registry Macro :=
  match tokens with
  | _ :: _ :: name :: _ => do
    match (← Action.get).get? name with
    | some m => return m
    | none =>
      Action.note [.undefined line name]
      Action.fail (.unknownMacro line name)
  | _ => Action.fail (.malformedInsertion line (Text.trim text))

end Registry

end QuestScript

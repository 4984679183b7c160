import QuestScript.Expansion
import QuestScript.Session

/-! Expansion of whole scripts. A script starts with an empty registry. Its blocks and imports fill
the registry and leave no lines, its insertions are replaced by their expansions, and its plain
lines stay as they are. -/
namespace QuestScript

structure Workspace where
  session : Session
  registry : Registry

namespace Workspace

def onSession {α : Type} (action : Action Session α) : Action Workspace α :=
  Action.focus session (fun space session => { space with session }) action

def onRegistry {α : Type} (action : Action Registry α) : Action Workspace α :=
  Action.focus registry (fun space registry => { space with registry }) action

/-- Registers an imported macro: under the name the directive spells, where that is not the one
the macro declares, and under the declared one. -/
def adopt (name : String) (m : Macro) : Action Workspace Unit := do
  if name ≠ m.name then let _ ← onRegistry (Registry.defineAs name m)
  let _ ← onRegistry (Registry.define m)

end Workspace

namespace Script

open Workspace

def expandFrom (pack : Pack) (line : Nat) : List String → Action Workspace (List String)
  | [] => return []
  | text :: rest =>
    match Directive.ofLine text with
    | .plain text => do
      let later ← expandFrom pack (line + 1) rest
      return text :: later
    | .insertion tokens => do
      let lines ← onRegistry (Registry.expandTokens line text tokens)
      let later ← expandFrom pack (line + 1) rest
      return lines ++ later
    | .definition _ => do
      let (m, count) ← onRegistry (Block.read line text rest)
      Action.note [.registered line m.name]
      let _ ← onRegistry (Registry.define m)
      expandFrom pack (line + 1 + count) (rest.drop count)
    | .importing tokens => do
      match ← onSession (Session.fetchTokens pack text tokens) with
      | (target, none) => Action.fail (.importNotFound line target.name target.file)
      | (target, some m) => do
        adopt target.name m
        expandFrom pack (line + 1) rest
    | .endMarker => Action.fail (.unexpectedEnd line)
termination_by lines => lines.length
decreasing_by
  all_goals simp only [List.length_cons, List.length_drop]
  all_goals omega

def expand (pack : Pack) (lines : List String) : Action Session (List String) := fun session =>
  let ended := expandFrom pack 1 lines ⟨session, Dict.empty⟩
  ⟨ended.result, ended.state.session, ended.log⟩

end Script

end QuestScript

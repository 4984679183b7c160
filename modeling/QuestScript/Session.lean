import QuestScript.Block
import QuestScript.Pack
import QuestScript.Text.Case

/-! Import sessions. A session answers each import from its cache, which holds the macro found for
a file and a name, or the fact that there is none. Only an import that failed leaves no entry.
Names of macros are looked for without regard to the case of ASCII letters. -/
namespace QuestScript

structure Session where
  cache : Dict String (Option Macro)
  /-- How many times a file was asked for. -/
  reads : Nat

structure ImportTarget where
  name : String
  file : String
  deriving DecidableEq

namespace ImportTarget

/-- An import has exactly five words, and the fourth is `from` in any letter case. -/
def ofTokens? : List String → Option ImportTarget
  | [_, _, name, link, file] => if Text.lower link = "from" then some ⟨name, file⟩ else none
  | _ => none

def key (target : ImportTarget) : String := target.file ++ "::" ++ Text.lower target.name

def definedBy (target : ImportTarget) (line : String) : Bool :=
  match Directive.ofLine line with
  | .definition (_ :: name :: _) => decide (Text.Alike name target.name)
  | _ => false

end ImportTarget

namespace Session

def start : Session := ⟨Dict.empty, 0⟩

def readLines (pack : Pack) (path : String) : Action Session (Option (List String)) := do
  Action.update fun session => { session with reads := session.reads + 1 }
  Action.note (pack.read path).log
  match (pack.read path).found with
  | .ok found => return found
  | .error cause => Action.fail (.unreadable cause)

/-- Reads the first block of the file that defines the macro. The block sees no other macros than
those inside it. -/
def load (pack : Pack) (target : ImportTarget) : Action Session (Option Macro) := do
  match ← readLines pack target.file with
  | none => return none
  | some lines =>
    match lines.findIdx? target.definedBy with
    | none => return none
    | some position => do
      let (m, _) ← Action.apart Dict.empty
        (Action.mapFault (.imported target.file) (Block.readAt lines position))
      return some m

def fetch (pack : Pack) (target : ImportTarget) : Action Session (Option Macro) := do
  match (← Action.get).cache.get? target.key with
  | some answer => do
    Action.note [.cacheHit target.key]
    return answer
  | none => do
    Action.note [.cacheMiss target.key]
    let answer ← load pack target
    Action.update fun session => { session with cache := session.cache.insert target.key answer }
    return answer

def fetchTokens (pack : Pack) (text : String) (tokens : List String) :
    Action Session (ImportTarget × Option Macro) :=
  match ImportTarget.ofTokens? tokens with
  | some target => do return (target, ← fetch pack target)
  | none => Action.fail (.malformedImport (Text.trim text))

def fetchLine (pack : Pack) (text : String) : Action Session (Option Macro) :=
  match Directive.ofLine text with
  | .importing tokens => do return (← fetchTokens pack text tokens).2
  | _ => Action.fail (.malformedImport (Text.trim text))

end Session

end QuestScript

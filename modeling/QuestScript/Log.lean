/-! Log entries. A run reports what it does as values; their level and wording are fixed here. -/
namespace QuestScript

inductive Level where
  | debug
  | warn
  | error
  deriving DecidableEq

inductive LogEntry where
  | nested (name outer : String)
  | registered (line : Nat) (name : String)
  | redefined (name : String)
  | undefined (line : Nat) (name : String)
  | fewArguments (name : String) (expected given : Nat)
  | cacheHit (key : String)
  | cacheMiss (key : String)
  | fileMissing (path : String)
  | fileRead (path : String)
  deriving DecidableEq

namespace LogEntry

def level : LogEntry → Level
  | .redefined _ => .warn
  | .fewArguments .. => .warn
  | .undefined .. => .error
  | _ => .debug

def text : LogEntry → String
  | .nested name outer => s!"registered nested macro `{name}` in `{outer}`"
  | .registered line name => s!"line {line}: registered macro `{name}`"
  | .redefined name => s!"macro `{name}` redefined"
  | .undefined line name => s!"line {line}: macro `{name}` is not defined before use"
  | .fewArguments name expected given =>
    s!"macro `{name}` expects {expected} arguments, got {given}"
  | .cacheHit key => s!"import cache hit: {key}"
  | .cacheMiss key => s!"import cache miss: {key}"
  | .fileMissing path => s!"quest pack file not found: \"{path}\""
  | .fileRead path => s!"read quest pack file \"{path}\""

end LogEntry

end QuestScript

import QuestScript.Directive
import QuestScript.Registry

/-! Blocks: the lines from a definition to its end marker. A block inside a block is registered as
soon as it is read, so the lines after it can insert it, and an insertion is bound to the macro
that has the name at that moment. -/
namespace QuestScript

structure Header where
  line : Nat
  keyword : String
  name : String
  params : List String

namespace Header

def signature (header : Header) : List String := header.keyword :: header.name :: header.params

def ofDirective (line : Nat) (text : String) : Directive → Except Fault Header
  | .definition (keyword :: name :: params) => .ok ⟨line, keyword, name, params⟩
  | _ => .error (.malformedDefinition line (Text.trim text))

end Header

structure Contents where
  body : List String
  insertions : List Insertion

namespace Contents

def empty : Contents := ⟨[], []⟩

def addLine (line : String) (contents : Contents) : Contents :=
  { contents with body := line :: contents.body }

def addInsertion (insertion : Insertion) (contents : Contents) : Contents :=
  { contents with insertions := insertion :: contents.insertions }

def toMacro (header : Header) (contents : Contents) : Macro :=
  ⟨header.signature, some contents.body, contents.insertions⟩

end Contents

namespace Block

/-- Reads the lines after a header up to the end marker. Gives what they hold and their number,
the end marker counted. -/
def contents (header : Header) (line : Nat) : List String → Action Registry (Contents × Nat)
  | [] => Action.fail (.unterminated header.line header.name)
  | text :: rest =>
    match Directive.ofLine text with
    | .endMarker => return (Contents.empty, 1)
    | .plain body => do
      let (found, count) ← contents header (line + 1) rest
      return (found.addLine body, count + 1)
    | .insertion tokens => do
      let target ← Registry.target line text tokens
      let (found, count) ← contents header (line + 1) rest
      return (found.addInsertion ⟨tokens, target⟩, count + 1)
    | .importing _ => Action.fail (.misplacedImport line)
    | .definition tokens => do
      let inner ← Action.ofExcept (Header.ofDirective line text (.definition tokens))
      let (held, length) ← contents inner (line + 1) rest
      Action.note [.nested inner.name header.name]
      let _ ← Registry.define (held.toMacro inner)
      let (found, count) ← contents header (line + 1 + length) (rest.drop length)
      return (found, count + 1 + length)
termination_by lines => lines.length
decreasing_by
  all_goals simp only [List.length_cons, List.length_drop]
  all_goals omega

/-- Reads the block that a line opens. Gives its macro and the number of lines after the opening
one. The macro itself is not registered. -/
def read (line : Nat) (text : String) (rest : List String) : Action Registry (Macro × Nat) := do
  let header ← Action.ofExcept (Header.ofDirective line text (Directive.ofLine text))
  let (found, count) ← contents header (line + 1) rest
  return (found.toMacro header, count)

/-- Reads the block that starts at a position of a list of lines. Gives its macro and the number
of its lines. Past the end there is no line to open a block. -/
def readAt (lines : List String) (start : Nat) : Action Registry (Macro × Nat) :=
  match lines.drop start with
  | [] => Action.fail (.malformedDefinition (start + 1) "")
  | text :: rest => do
    let (m, count) ← read (start + 1) text rest
    return (m, count + 1)

end Block

end QuestScript

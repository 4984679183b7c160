/-! Macros: named templates of script lines. The tokens that open a block are the signature of its
macro, and each insertion recorded in the block holds the macro it was bound to, so a macro is a
finite tree. -/
namespace QuestScript

mutual

structure Macro where
  /-- The keyword, the name and the parameters. -/
  signature : List String
  /-- The plain lines of the block. A macro that is only declared has none. -/
  body : Option (List String)
  insertions : List Insertion

structure Insertion where
  /-- The keyword, the instance name, the name of a macro and the arguments. -/
  tokens : List String
  /-- The macro that had the name when the block was read. -/
  target : Macro

end

def instanceName (tokens : List String) : String := tokens[1]?.getD ""

def arguments (tokens : List String) : List String := tokens.drop 3

namespace Macro

def name (m : Macro) : String := m.signature[1]?.getD ""

def params (m : Macro) : List String := m.signature.drop 2

def declared (signature : List String) : Macro := ⟨signature, none, []⟩

/-- A macro is empty when it was only declared; a block without lines is none the less a body. -/
def isEmpty (m : Macro) : Bool := m.body.isNone

def lines (m : Macro) : List String := m.body.getD []

mutual

def decideEq : (a b : Macro) → Decidable (a = b)
  | ⟨signature, body, insertions⟩, ⟨signature', body', insertions'⟩ =>
    if heads : signature = signature' ∧ body = body' then
      match decideEqAll insertions insertions' with
      | isTrue same => isTrue (by rw [heads.1, heads.2, same])
      | isFalse differ => isFalse fun h => differ (Macro.mk.inj h).2.2
    else isFalse fun h => heads ⟨(Macro.mk.inj h).1, (Macro.mk.inj h).2.1⟩

def decideEqAll : (a b : List Insertion) → Decidable (a = b)
  | [], [] => isTrue rfl
  | [], _ :: _ => isFalse nofun
  | _ :: _, [] => isFalse nofun
  | ⟨tokens, target⟩ :: rest, ⟨tokens', target'⟩ :: rest' =>
    if heads : tokens = tokens' then
      match decideEq target target', decideEqAll rest rest' with
      | isTrue same, isTrue later => isTrue (by rw [heads, same, later])
      | isFalse differ, _ => isFalse fun h => by cases h; exact differ rfl
      | _, isFalse differ => isFalse fun h => by cases h; exact differ rfl
    else isFalse fun h => by cases h; exact heads rfl

end

instance : DecidableEq Macro := decideEq

end Macro

end QuestScript

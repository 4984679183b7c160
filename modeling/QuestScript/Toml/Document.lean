import QuestScript.Toml.Value

/-! Documents. A line of a document gives a value to a key, opens a table or a further table of a
list, or says nothing. Keys belong to the table that was opened last. -/
namespace QuestScript.Toml

open Scanner

inductive Statement where
  | pair (key : Key) (item : Item)
  | header (key : Key)
  | listHeader (key : Key)
  | nothing

def statement : Scanner Statement :=
  (do word ['[', '[']; let key ← key; word [']', ']']; return .listHeader key) <|>
    (do char '['; let key ← key; char ']'; return .header key) <|>
    (do let (key, item) ← pair value; return .pair key item) <|>
    pure .nothing

def line : Scanner Statement := do
  blanks
  let statement ← statement
  lineEnd
  return statement

def lines : Scanner (List Statement) := do
  discard (optional (char '\ufeff'))
  let statements ← many line
  ending
  return statements

structure Draft where
  root : Table
  opened : List String

namespace Draft

def start : Draft := ⟨Table.ofOrigin .stated, []⟩

def add (draft : Draft) : Statement → Option Draft
  | .pair key item => do
    let root ← draft.root.alter false (fun table => table.add key item) draft.opened
    return { draft with root }
  | .header key => do return ⟨← draft.root.addTable key, key.path ++ [key.name]⟩
  | .listHeader key => do return ⟨← draft.root.addToList key, key.path ++ [key.name]⟩
  | .nothing => some draft

end Draft

def read? (text : String) : Option Table := do
  let statements ← lines.run text.toList
  let draft ← statements.value.foldlM Draft.add Draft.start
  return draft.root

end QuestScript.Toml

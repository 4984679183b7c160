import QuestScript.Fault

/-! Paths as text. Components are parted by slashes; nothing is normalised, so a path keeps the
spelling it was built from. -/
namespace QuestScript.Path

/-- Cuts a path at its slashes. There is one component more than there are slashes. -/
def cut : List Char → List (List Char)
  | [] => [[]]
  | '/' :: rest => [] :: cut rest
  | c :: rest =>
    match cut rest with
    | [] => [[c]]
    | component :: later => (c :: component) :: later

def components (path : String) : List String := (cut path.toList).map String.ofList

def isAbsolute (path : String) : Bool := path.toList.head? == some '/'

/-- Why a path is refused before anything is looked for: none holds a NUL byte, is empty, or is
longer than 4095 bytes. -/
def refused? (path : String) : Option ReadFault :=
  if '\x00' ∈ path.toList then some .nulByte
  else if path = "" then some .missing
  else if path.utf8ByteSize > 4095 then some .nameTooLong
  else none

/-- A path after a base. An absolute path takes the place of the base; otherwise a slash comes
between the two, unless the base is empty or ends with one. -/
def join (base path : String) : String :=
  if isAbsolute path then path
  else if base.toList = [] ∨ base.toList.getLast? = some '/' then base ++ path
  else base ++ "/" ++ path

end QuestScript.Path

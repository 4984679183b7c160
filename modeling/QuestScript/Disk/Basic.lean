import QuestScript.Dict
import QuestScript.Disk.Path
import QuestScript.Fault

/-! Files on disk. All of them are in one tree, and a place in it is the list of the names that lead
to it from the top, the innermost first. A path is walked one component after the other: an absolute
one from the top, any other from the working directory. Each step must start in a directory that
exists; `..` leads to the directory around it, and the top has none but itself. There are no links. -/
namespace QuestScript

abbrev Place : Type := List String

structure Disk where
  files : Dict Place ByteArray
  /-- All directories but the top. -/
  directories : List Place
  workingDirectory : Place

inductive DiskEntry where
  | file (content : ByteArray)
  | directory

namespace Disk

def above : Place → List Place
  | [] => []
  | _ :: names => names :: above names

/-- There is one directory, the working directory. -/
def empty : Disk := ⟨Dict.empty, [["work"]], ["work"]⟩

def entry? (disk : Disk) (place : Place) : Option DiskEntry :=
  match disk.files.get? place with
  | some content => some (.file content)
  | none => if place = [] ∨ place ∈ disk.directories then some .directory else none

/-- One step of a walk. No name is longer than 255 bytes. -/
def step (disk : Disk) (place : Place) (component : String) : Except ReadFault Place :=
  match disk.entry? place with
  | none => .error .missing
  | some (.file _) => .error .notDirectory
  | some .directory =>
    if component = "" ∨ component = "." then .ok place
    else if component = ".." then .ok place.tail
    else if component.utf8ByteSize > 255 then .error .nameTooLong
    else if (disk.entry? (component :: place)).isSome then .ok (component :: place)
    else .error .missing

def start (disk : Disk) (path : String) : Place :=
  if Path.isAbsolute path then [] else disk.workingDirectory

def walk (disk : Disk) (path : String) : Except ReadFault Place :=
  match Path.refused? path with
  | some fault => .error fault
  | none => (Path.components path).foldlM disk.step (disk.start path)

def find (disk : Disk) (path : String) : Except ReadFault DiskEntry := do
  match disk.entry? (← disk.walk path) with
  | some entry => return entry
  | none => throw .missing

def isFile (disk : Disk) (path : String) : Bool :=
  match disk.find path with
  | .ok (.file _) => true
  | _ => false

def readText (disk : Disk) (path : String) : Except ReadFault String := do
  match ← disk.find path with
  | .directory => throw .isDirectory
  | .file content =>
    match String.fromUTF8? content with
    | some text => return text
    | none => throw .notText

/-- The place a path names, whatever is there. -/
def placeOf (disk : Disk) (path : String) : Place :=
  (Path.components path).foldl
    (fun place component =>
      if component = "" ∨ component = "." then place
      else if component = ".." then place.tail
      else component :: place)
    (disk.start path)

def write (disk : Disk) (path : String) (content : ByteArray) : Disk :=
  { disk with
    files := disk.files.insert (disk.placeOf path) content
    directories := above (disk.placeOf path) ++ disk.directories }

/-- Removes a file; its directory stays. -/
def remove (disk : Disk) (path : String) : Disk :=
  { disk with files := disk.files.erase (disk.placeOf path) }

end Disk

end QuestScript

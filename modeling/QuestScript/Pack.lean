import QuestScript.Disk.Basic
import QuestScript.Log
import QuestScript.Text.Lines

/-! Quest packs: where imported files come from. A pack is held in memory, as lists of lines that
are not cut again, or it is a directory on disk. -/
namespace QuestScript

inductive Pack where
  | memory (files : Dict String (List String))
  | directory (disk : Disk) (root : String)

structure Reading where
  found : Except ReadFault (Option (List String))
  log : List LogEntry

namespace Pack

def read : Pack → String → Reading
  | .memory files, path => ⟨.ok (files.get? path), []⟩
  | .directory disk root, path =>
    if disk.isFile (Path.join root path) then
      match disk.readText (Path.join root path) with
      | .ok text => ⟨.ok (some (Text.lines text)), [.fileRead (Path.join root path)]⟩
      | .error fault => ⟨.error fault, []⟩
    else ⟨.ok none, [.fileMissing (Path.join root path)]⟩

end Pack

end QuestScript

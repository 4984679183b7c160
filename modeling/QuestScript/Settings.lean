import QuestScript.Disk.Basic
import QuestScript.Toml.Document

/-! Settings: where the files of quest packs are. A settings file gives them as texts, and each has
a default. Keys that are no settings are passed over. -/
namespace QuestScript

structure Settings where
  streamingAssets : String
  questPacksDir : String
  deriving DecidableEq

namespace Settings

def standard : Settings := ⟨"StreamingAssets", "QuestPacks"⟩

def root (settings : Settings) : String := Path.join settings.streamingAssets settings.questPacksDir

def textOr (default : String) (table : Toml.Table) (key : String) : Option String :=
  match table.get? key with
  | none => some default
  | some (.text s) => some s
  | some _ => none

def ofTable? (table : Toml.Table) : Option Settings := do
  return ⟨← textOr standard.streamingAssets table "streaming_assets",
    ← textOr standard.questPacksDir table "quest_packs_dir"⟩

def ofText? (text : String) : Option Settings := Toml.read? text >>= ofTable?

def load (disk : Disk) (path : String) : Except Fault Settings :=
  match disk.readText path with
  | .error cause => .error (.unreadable cause)
  | .ok text =>
    match ofText? text with
    | none => .error (.refusedSettings path)
    | some settings => .ok settings

end Settings

end QuestScript

import QuestScript.Proofs.DiskWalk
import QuestScript.Proofs.SessionUse

/-! Packs on disk and in memory. A file on disk is one text, in which each line ends at a line feed,
with a carriage return before it or without. Cutting that text gives the lines back, so a pack whose
files were written to disk serves a session as it does in memory, under the paths it was written
with. In memory there are no other files. On disk there are more: other spellings that lead to the
same file, which may not be asked for, and files outside the root, which no root keeps out. -/
namespace QuestScript

namespace Text

/-- A line as a text can hold it. A carriage return at its end would be taken for a part of what
ends the line. -/
def IsLine (line : String) : Prop :=
  '\n' ∉ line.toList ∧ line.toList.getLast? ≠ some '\r'

instance (line : String) : Decidable (IsLine line) :=
  inferInstanceAs (Decidable ('\n' ∉ line.toList ∧ line.toList.getLast? ≠ some '\r'))

/-- The text consists of these lines, each with an end of its own. -/
inductive Ended : List String → String → Prop where
  | nil : Ended [] ""
  | cons {line text : String} {later : List String} {stop : String}
      (stops : stop = "\n" ∨ stop = "\r\n") (rest : Ended later text) :
      Ended (line :: later) (line ++ stop ++ text)

theorem cutLines_cons {c : Char} {rest line : List Char} {later : List (List Char)}
    (other : c ≠ '\n') (alone : c = '\r' → rest.head? ≠ some '\n')
    (cut : cutLines rest = line :: later) : cutLines (c :: rest) = (c :: line) :: later := by
  have behind : ∀ later, c = '\r' → rest = '\n' :: later → False := by
    rintro later rfl rfl
    exact alone rfl rfl
  simp only [cutLines, cut]

theorem cutLines_stop {stop : List Char} (stops : stop = ['\n'] ∨ stop = ['\r', '\n'])
    (rest : List Char) : cutLines (stop ++ rest) = [] :: cutLines rest := by
  rcases stops with rfl | rfl
  · simp [cutLines]
  · simp [cutLines]

theorem cutLines_line {line stop : List Char} (clear : '\n' ∉ line)
    (bare : line.getLast? ≠ some '\r') (stops : stop = ['\n'] ∨ stop = ['\r', '\n'])
    (rest : List Char) : cutLines (line ++ (stop ++ rest)) = line :: cutLines rest := by
  -- the first character ends no line: after a carriage return comes another one of the line
  induction line with
  | nil => exact cutLines_stop stops rest
  | cons c line ih =>
    obtain ⟨other, inside⟩ : c ≠ '\n' ∧ '\n' ∉ line := by simpa [eq_comm] using clear
    have behind : line.getLast? ≠ some '\r' := by
      cases line with
      | nil => simp
      | cons d line => simpa using bare
    have alone : c = '\r' → (line ++ (stop ++ rest)).head? ≠ some '\n' := by
      rintro rfl
      cases line with
      | nil => exact absurd rfl bare
      | cons d line =>
        simp only [List.mem_cons, not_or] at inside
        simpa using Ne.symm inside.1
    exact cutLines_cons other alone (ih inside behind)

theorem lines_ended {lines : List String} {text : String} (ended : Ended lines text)
    (each : ∀ line ∈ lines, IsLine line) : Text.lines text = lines := by
  induction ended with
  | nil => rfl
  | @cons line text later stop stops rest ih =>
    obtain ⟨⟨clear, bare⟩, each⟩ := List.forall_mem_cons.1 each
    have chars : stop.toList = ['\n'] ∨ stop.toList = ['\r', '\n'] := by
      rcases stops with rfl | rfl
      · exact .inl rfl
      · exact .inr rfl
    have cut := cutLines_line clear bare chars text.toList
    have whole : (line ++ stop ++ text).toList = line.toList ++ (stop.toList ++ text.toList) := by
      simp
    unfold Text.lines at ih ⊢
    rw [whole, cut, List.map_cons, String.ofList_toList, ih each]

theorem fromUTF8?_toUTF8 (text : String) : String.fromUTF8? text.toUTF8 = some text := by
  unfold String.fromUTF8?
  exact dif_pos text.isValidUTF8

end Text

open Text

namespace Pack

def decoded : Option ByteArray → Except ReadFault (Option (List String))
  | none => .ok none
  | some content =>
    match String.fromUTF8? content with
    | some text => .ok (some (Text.lines text))
    | none => .error .notText

theorem read_content (disk : Disk) (root path : String) :
    ((directory disk root).read path).found = decoded (disk.content? (Path.join root path)) := by
  rw [Disk.content?_find]
  cases found : disk.find (Path.join root path) with
  | error fault => simp only [read, Disk.isFile, found, Bool.false_eq_true, if_false, decoded]
  | ok entry =>
    cases entry with
    | directory => simp only [read, Disk.isFile, found, Bool.false_eq_true, if_false, decoded]
    | file content =>
      simp only [read, Disk.isFile, Disk.readText, found, if_true, decoded, bind, Except.bind]
      cases text : String.fromUTF8? content with
      | none => simp only [throw, throwThe, MonadExceptOf.throw]
      | some text => simp only [pure, Except.pure]

end Pack

namespace Disk

/-- Each of the files is on disk where its path leads from the root, as a text of its lines. -/
def Stores (disk : Disk) (root : String) (files : Dict String (List String)) : Prop :=
  ∀ path lines, files.get? path = some lines →
    ∃ text, Ended lines text ∧ disk.find (Path.join root path) = .ok (.file text.toUTF8)

def leadsUnder (disk : Disk) (root path : String) : Bool :=
  match disk.rootPlace root, disk.walk (Path.join root path) with
  | .ok top, .ok place => top.isSuffixOf place
  | _, _ => false

/-- The path names a regular file under the root. -/
def FileUnder (disk : Disk) (root path : String) : Prop :=
  disk.isFile (Path.join root path) = true ∧ disk.leadsUnder root path = true

def FileOutside (disk : Disk) (root path : String) : Prop :=
  disk.isFile (Path.join root path) = true ∧ disk.leadsUnder root path = false

instance (disk : Disk) (root path : String) : Decidable (disk.FileUnder root path) :=
  inferInstanceAs (Decidable (_ ∧ _))

instance (disk : Disk) (root path : String) : Decidable (disk.FileOutside root path) :=
  inferInstanceAs (Decidable (_ ∧ _))

variable {disk : Disk} {root path : String}

theorem content?_none (under : ¬ disk.FileUnder root path) (outside : ¬ disk.FileOutside root path) :
    disk.content? (Path.join root path) = none := by
  have missing : disk.isFile (Path.join root path) = false := by
    cases leads : disk.leadsUnder root path with
    | true => simpa [FileUnder, leads] using under
    | false => simpa [FileOutside, leads] using outside
  rw [isFile_content] at missing
  exact Option.not_isSome_iff_eq_none.1 (by simp [missing])

end Disk

variable {files : Dict String (List String)} {disk : Disk} {root path : String}

theorem Pack.read_stored
    (each : ∀ path lines, files.get? path = some lines → ∀ line ∈ lines, IsLine line)
    (stores : disk.Stores root files) (held : (files.get? path).isSome) :
    ((Pack.memory files).read path).found = ((Pack.directory disk root).read path).found := by
  obtain ⟨lines, held⟩ := Option.isSome_iff_exists.1 held
  obtain ⟨text, ended, there⟩ := stores path lines held
  rw [read_content, Disk.content?_find, there]
  show Except.ok (files.get? path) = _
  simp only [held, decoded, fromUTF8?_toUTF8]
  rw [lines_ended ended (each path lines held)]

theorem Pack.read_absent (absent : files.get? path = none)
    (under : ¬ disk.FileUnder root path) (outside : ¬ disk.FileOutside root path) :
    ((Pack.memory files).read path).found = ((Pack.directory disk root).read path).found := by
  rw [read_content, Disk.content?_none under outside]
  show Except.ok (files.get? path) = _
  rw [absent, decoded]

namespace Use

/-- Files in memory and the same files on disk, where every file that is asked for is one of them or
names no file under the root: each use is replied to alike, with the same macro, the same lines or
the same fault, and after each of them both sessions have the same cache. This holds as long as no
other file outside the root is asked for. -/
theorem replies_stored (files : Dict String (List String)) (disk : Disk) (root : String)
    (uses : List Use)
    (each : ∀ path lines, files.get? path = some lines → ∀ line ∈ lines, IsLine line)
    (stores : disk.Stores root files)
    (asked : ∀ use ∈ uses, ∀ path ∈ use.files,
      (files.get? path).isSome ∨ ¬ disk.FileUnder root path)
    (inside : ∀ use ∈ uses, ∀ path ∈ use.files,
      (files.get? path).isSome ∨ ¬ disk.FileOutside root path) :
    replies (.memory files) uses Session.start = replies (.directory disk root) uses Session.start ∧
      ∀ count, after (.memory files) (uses.take count) Session.start =
        after (.directory disk root) (uses.take count) Session.start := by
  have same : ∀ use ∈ uses, ∀ path ∈ use.files, ((Pack.memory files).read path).found =
      ((Pack.directory disk root).read path).found := by
    intro use member path wanted
    by_cases held : (files.get? path).isSome
    · exact Pack.read_stored each stores held
    · exact Pack.read_absent (Option.not_isSome_iff_eq_none.1 held)
        ((asked use member path wanted).resolve_left held)
        ((inside use member path wanted).resolve_left held)
  refine ⟨(replies_same same Session.start).1, fun count => ?_⟩
  have first : ∀ use ∈ uses.take count, ∀ path ∈ use.files, ((Pack.memory files).read path).found =
      ((Pack.directory disk root).read path).found :=
    fun use member => same use (List.mem_of_mem_take member)
  exact (replies_same first Session.start).2

def storedFiles : Dict String (List String) :=
  ⟨[("common/hello.txt", ["", "macro Hello &who", "  hello\r &who", "end macro", ""]),
    ("empty.txt", []), ("broken.txt", ["macro Open", "never closed"])]⟩

/-- The same files on disk under an absolute root. The ends of the lines are mixed. -/
def storedDisk : Disk :=
  ((Disk.empty.write "/opt/game/packs/common/hello.txt"
    "\r\nmacro Hello &who\n  hello\r &who\r\nend macro\n\n".toUTF8).write
    "/opt/game/packs/empty.txt" "".toUTF8).write
    "/opt/game/packs/broken.txt" "macro Open\r\nnever closed\n".toUTF8

def storedUses : List Use :=
  [.calling (.importing "import macro hello from common/hello.txt"),
    .calling (.expanding ["import macro Hello from common/hello.txt", "macro h: Hello you"]),
    .calling (.importing "import macro Open from broken.txt"),
    .calling (.importing "import macro Hello from common"),
    .calling (.importing "import macro Hello from hello.txt"),
    .calling (.importing "import macro Hello from ../hello.txt"), .reading "empty.txt"]

theorem isLine_of_entries {files : Dict String (List String)}
    (all : ∀ entry ∈ files.entries, ∀ line ∈ entry.2, IsLine line) (path : String)
    (lines : List String) (held : files.get? path = some lines) : ∀ line ∈ lines, IsLine line :=
  all (path, lines) (Dict.mem_of_get? held)

theorem storedDisk_stores : storedDisk.Stores "/opt/game/packs" storedFiles := by
  intro path lines held
  have member := Dict.mem_of_get? held
  simp only [storedFiles, List.mem_cons, Prod.mk.injEq, List.not_mem_nil, or_false] at member
  rcases member with ⟨rfl, rfl⟩ | ⟨rfl, rfl⟩ | ⟨rfl, rfl⟩
  · exact ⟨_, .cons (.inr rfl) (.cons (.inl rfl) (.cons (.inr rfl) (.cons (.inl rfl)
      (.cons (.inl rfl) .nil)))), rfl⟩
  · exact ⟨_, .nil, rfl⟩
  · exact ⟨_, .cons (.inr rfl) (.cons (.inl rfl) .nil), rfl⟩

theorem replies_stored_mixed :
    replies (.memory storedFiles) storedUses Session.start =
        replies (.directory storedDisk "/opt/game/packs") storedUses Session.start ∧
      (∀ count, after (.memory storedFiles) (storedUses.take count) Session.start =
        after (.directory storedDisk "/opt/game/packs") (storedUses.take count) Session.start) ∧
      (replies (.directory storedDisk "/opt/game/packs") storedUses Session.start)[1]? =
        some (.ok (.answer (.lines ["hello\r you"]))) := by
  have each : ∀ path lines, storedFiles.get? path = some lines → ∀ line ∈ lines, IsLine line :=
    isLine_of_entries (by decide +kernel)
  have asked : ∀ use ∈ storedUses, ∀ path ∈ use.files, (storedFiles.get? path).isSome ∨
      ¬ storedDisk.FileUnder "/opt/game/packs" path := by decide +kernel
  have inside : ∀ use ∈ storedUses, ∀ path ∈ use.files, (storedFiles.get? path).isSome ∨
      ¬ storedDisk.FileOutside "/opt/game/packs" path := by decide +kernel
  have written : (replies (.memory storedFiles) storedUses Session.start)[1]? =
      some (.ok (.answer (.lines ["hello\r you"]))) := by decide +kernel
  obtain ⟨same, sessions⟩ := replies_stored storedFiles storedDisk "/opt/game/packs" storedUses each
    storedDisk_stores asked inside
  exact ⟨same, sessions, same ▸ written⟩

def loneFiles : Dict String (List String) :=
  ⟨[("hello.txt", ["macro Hello", "  hello", "end macro"])]⟩

def sharedDisk : Disk :=
  (Disk.empty.write "StreamingAssets/QuestPacks/hello.txt"
    "macro Hello\n  hello\nend macro\n".toUTF8).write
    "outside.txt" "macro Hello\n  leaked\nend macro\n".toUTF8

theorem sharedDisk_stores : sharedDisk.Stores "StreamingAssets/QuestPacks" loneFiles := by
  intro path lines held
  have member := Dict.mem_of_get? held
  simp only [loneFiles, List.mem_cons, Prod.mk.injEq, List.not_mem_nil, or_false] at member
  obtain ⟨rfl, rfl⟩ := member
  exact ⟨_, .cons (.inl rfl) (.cons (.inl rfl) (.cons (.inl rfl) .nil)), rfl⟩

/-- A path may name no file under the root and lead to one outside. In memory there is none. -/
theorem replies_strayed :
    (∀ path lines, loneFiles.get? path = some lines → ∀ line ∈ lines, IsLine line) ∧
      sharedDisk.Stores "StreamingAssets/QuestPacks" loneFiles ∧
      ¬ sharedDisk.FileUnder "StreamingAssets/QuestPacks" "../../outside.txt" ∧
      replies (.memory loneFiles)
          [.calling (.importing "import macro Hello from ../../outside.txt")] Session.start ≠
        replies (.directory sharedDisk "StreamingAssets/QuestPacks")
          [.calling (.importing "import macro Hello from ../../outside.txt")] Session.start :=
  ⟨isLine_of_entries (by decide +kernel), sharedDisk_stores, by decide +kernel, by decide +kernel⟩

end Use

end QuestScript

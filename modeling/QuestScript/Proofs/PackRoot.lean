import QuestScript.Settings
import QuestScript.Proofs.PackOnDisk

/-! What a session on disk depends on. A path is followed from the root of the pack, and nothing
keeps it there: an absolute one starts at the top, and `..` leads on to the directory above the root,
so that a file outside is read like one of the pack. A path is confined if it does neither. What a
confined path leads to is found in the tree below the root alone, so disks with the same files there
serve a session alike. An absolute path that spells the root out and goes on from there is as good. -/
namespace QuestScript

namespace Path

/-- Whoever follows the components, from so many names below a directory, stays in it. -/
def stays : Nat → List String → Bool
  | _, [] => true
  | depth, component :: rest =>
    if component = "" ∨ component = "." then stays depth rest
    else if component = ".." then
      match depth with
      | 0 => false
      | up + 1 => stays up rest
    else stays (depth + 1) rest

/-- The path does not lead out of the directory it is followed from, not even on its way. -/
def Confined (path : String) : Prop :=
  isAbsolute path = false ∧ stays 0 (components path) = true

instance (path : String) : Decidable (Confined path) :=
  inferInstanceAs (Decidable (isAbsolute path = false ∧ stays 0 (components path) = true))

end Path

namespace Disk

variable {disk : Disk} {root path : String}

theorem mem_above {around names : List String} :
    around ∈ above names ↔ around <:+ names ∧ around ≠ names := by
  induction names with
  | nil => simp [above]
  | cons name names ih =>
    rw [above, List.mem_cons, List.suffix_cons_iff, ih]
    constructor
    · rintro (rfl | ⟨inside, -⟩)
      · exact ⟨.inr (List.suffix_refl _), (List.cons_ne_self _ _).symm⟩
      · refine ⟨.inr inside, ?_⟩
        rintro rfl
        exact Nat.not_succ_le_self _ inside.length_le
    · rintro ⟨rfl | inside, other⟩
      · exact absurd rfl other
      · by_cases whole : around = names
        · exact .inl whole
        · exact .inr ⟨inside, whole⟩

end Disk

abbrev Tree : Type := List String → Option DiskEntry

namespace Tree

def move (tree : Tree) (names : List String) (component : String) : Option (List String) :=
  match tree names with
  | some .directory =>
    if component = "" ∨ component = "." then some names
    else if component = ".." then some names.tail
    else if component.utf8ByteSize > 255 then none
    else if (tree (component :: names)).isSome then some (component :: names)
    else none
  | _ => none

def file? (tree : Tree) (names : List String) : Option ByteArray :=
  match tree names with
  | some (.file content) => some content
  | _ => none

def find? (tree : Tree) (components : List String) : Option ByteArray :=
  components.foldlM tree.move [] >>= tree.file?

/-- No file without the directories around it. -/
def Connected (tree : Tree) : Prop :=
  ∀ names content, tree names = some (.file content) →
    ∀ around ∈ Disk.above names, tree around = some .directory

variable {tree tree' : Tree} {names next last components : List String} {component : String}

theorem file?_eq {content : ByteArray} :
    tree.file? names = some content ↔ tree names = some (.file content) := by
  unfold file?
  split
  · next held => simp [held]
  · next other => simpa using other content

theorem directory_of_move (leads : tree.move names component = some next) :
    tree names = some .directory := by
  unfold move at leads
  split at leads
  · next here => exact here
  · cases leads

theorem move_elsewhere (other : tree names ≠ some .directory) (component : String) :
    tree.move names component = none := by
  unfold move
  split
  · next here => exact absurd here other
  · rfl

/-- A component that does not lead up stays or goes down to a place that is there. It leads there in
every tree that has both places. -/
theorem move_down (leads : tree.move names component = some next) (down : component ≠ "..") :
    names <:+ next ∧ ∀ tree' : Tree, tree' names = some .directory → (tree' next).isSome = true →
      tree'.move names component = some next := by
  have here := directory_of_move leads
  simp only [move, here, if_neg down] at leads
  by_cases same : component = "" ∨ component = "."
  · rw [if_pos same] at leads
    cases leads
    refine ⟨List.suffix_refl names, fun tree' here' _ => ?_⟩
    simp only [move, here', if_pos same]
  rw [if_neg same] at leads
  split at leads
  · cases leads
  · next short =>
    split at leads
    · cases leads
      refine ⟨List.suffix_cons component names, fun tree' here' there => ?_⟩
      simp only [move, here', if_neg same, if_neg down, if_neg short, if_pos there]
    · cases leads

theorem moves_down (leads : components.foldlM tree.move names = some last)
    (down : ".." ∉ components) : names <:+ last := by
  induction components generalizing names with
  | nil =>
    cases leads
    exact List.suffix_refl _
  | cons component rest ih =>
    obtain ⟨next, first, later⟩ := Option.bind_eq_some_iff.1 leads
    simp only [List.mem_cons, not_or] at down
    exact (move_down first (Ne.symm down.1)).1.trans (ih later down.2)

/-- A path that never goes up passes only directories around the file it leads to. A tree with the
same file has them all, so the path leads to it there as well. -/
theorem moves_again {content : ByteArray} (leads : components.foldlM tree.move names = some last)
    (down : ".." ∉ components) (held : tree last = some (.file content))
    (connected : tree'.Connected) (held' : tree' last = some (.file content)) :
    components.foldlM tree'.move names = some last := by
  have there : ∀ around, around <:+ last → (tree' around).isSome = true := by
    intro around part
    by_cases whole : around = last
    · rw [whole, held']
      rfl
    · rw [connected last content held' around (Disk.mem_above.2 ⟨part, whole⟩)]
      rfl
  induction components generalizing names with
  | nil => exact leads
  | cons component rest ih =>
    obtain ⟨next, first, later⟩ := Option.bind_eq_some_iff.1 leads
    simp only [List.mem_cons, not_or] at down
    obtain ⟨part, again⟩ := move_down first (Ne.symm down.1)
    have behind := moves_down later down.2
    have here : tree' names = some .directory := by
      refine connected last content held' names (Disk.mem_above.2 ⟨part.trans behind, ?_⟩)
      rintro rfl
      cases (directory_of_move first).symm.trans held
    exact Option.bind_eq_some_iff.2 ⟨next, again tree' here (there next behind), ih later down.2⟩

theorem find?_same {components : List String} (connected : tree.Connected)
    (connected' : tree'.Connected)
    (same : ∀ names content, tree names = some (.file content) ↔ tree' names = some (.file content))
    (down : ".." ∉ components) : tree.find? components = tree'.find? components := by
  have one : ∀ {tree tree' : Tree}, tree'.Connected →
      (∀ names content, tree names = some (.file content) → tree' names = some (.file content)) →
        ∀ content, tree.find? components = some content → tree'.find? components = some content := by
    intro tree tree' connected' same content found
    obtain ⟨last, leads, held⟩ := Option.bind_eq_some_iff.1 found
    have held' := same last content (file?_eq.1 held)
    exact Option.bind_eq_some_iff.2
      ⟨last, moves_again leads down (file?_eq.1 held) connected' held', file?_eq.2 held'⟩
  exact Option.ext fun content =>
    ⟨one connected' (fun names content => (same names content).1) content,
      one connected (fun names content => (same names content).2) content⟩

end Tree

namespace Disk

variable {disk : Disk} {root path : String}

def treeAt (disk : Disk) (place : Place) : Tree := fun names =>
  disk.entry? (names ++ place)

/-- The tree below a root. Where the root leads nowhere it is empty. -/
def below (disk : Disk) (root : String) : Tree :=
  match disk.rootPlace root with
  | .ok place => disk.treeAt place
  | _ => fun _ => none

theorem below_eq {place : Place} (start : disk.rootPlace root = .ok place) :
    disk.below root = disk.treeAt place := by
  rw [below, start]

theorem step_move (disk : Disk) (place : Place) (names : List String) {component : String}
    (kept : component = ".." → names ≠ []) :
    (disk.step (names ++ place) component).toOption =
      ((disk.treeAt place).move names component).map (· ++ place) := by
  by_cases here : disk.entry? (names ++ place) = some .directory
  · simp only [Tree.move, treeAt, here, step]
    by_cases same : component = "" ∨ component = "."
    · simp [same, Except.toOption]
    by_cases up : component = ".."
    · obtain ⟨name, above, rfl⟩ := List.exists_cons_of_ne_nil (kept up)
      simp [up, Except.toOption]
    by_cases long : component.utf8ByteSize > 255
    · simp [same, up, long, Except.toOption]
    by_cases there : (disk.entry? (component :: (names ++ place))).isSome = true
    · simp [same, up, long, there, Except.toOption]
    · simp [same, up, long, there, Except.toOption]
  · obtain ⟨fault, fails, -⟩ := step_elsewhere here component
    have nothing : disk.treeAt place names ≠ some .directory := here
    rw [fails, Tree.move_elsewhere nothing component]
    rfl

theorem stays_up {names rest : List String} {component : String}
    (stays : Path.stays names.length (component :: rest) = true) : component = ".." → names ≠ [] := by
  rintro rfl rfl
  simp [Path.stays] at stays

theorem stays_move {tree : Tree} {names next rest : List String} {component : String}
    (stays : Path.stays names.length (component :: rest) = true)
    (leads : tree.move names component = some next) : Path.stays next.length rest = true := by
  have here := Tree.directory_of_move leads
  have kept := stays_up stays
  simp only [Tree.move, here] at leads
  simp only [Path.stays] at stays
  by_cases same : component = "" ∨ component = "."
  · rw [if_pos same] at stays leads
    cases leads
    exact stays
  rw [if_neg same] at stays leads
  by_cases up : component = ".."
  · obtain ⟨name, above, rfl⟩ := List.exists_cons_of_ne_nil (kept up)
    rw [if_pos up] at stays leads
    cases leads
    exact stays
  · rw [if_neg up] at stays leads
    split at leads
    · cases leads
    · split at leads
      · cases leads
        exact stays
      · cases leads

theorem toOption_bind {ε α β : Type} (found : Except ε α) (next : α → Except ε β) :
    (found >>= next).toOption = found.toOption.bind fun a => (next a).toOption := by
  cases found with
  | error fault => rfl
  | ok a => rfl

theorem follow_moves (disk : Disk) (place : Place) (names components : List String)
    (stays : Path.stays names.length components = true) :
    (disk.follow (names ++ place) components).toOption =
      (components.foldlM (disk.treeAt place).move names).map (· ++ place) := by
  induction components generalizing names with
  | nil => rfl
  | cons component rest ih =>
    rw [follow, List.foldlM_cons, toOption_bind, step_move disk place names (stays_up stays),
      List.foldlM_cons]
    cases moves : (disk.treeAt place).move names component with
    | none => rfl
    | some next => exact ih next (stays_move stays moves)

/-- A walk along a confined path is one in the tree below the root. -/
theorem walk_confined (disk : Disk) (root : String) {path : String} (confined : Path.Confined path)
    (taken : Path.refused? (Path.join root path) = none) :
    (disk.walk (Path.join root path)).toOption = (disk.rootPlace root).toOption.bind fun top =>
      ((Path.components path).foldlM (disk.treeAt top).move []).map (· ++ top) := by
  rw [walk_join confined.1, taken]
  simp only [toOption_bind]
  congr 1
  funext top
  exact disk.follow_moves top [] _ confined.2

theorem content?_join (disk : Disk) (root : String) {path : String} (confined : Path.Confined path) :
    disk.content? (Path.join root path) =
      if (Path.refused? (Path.join root path)).isSome then none
      else (disk.below root).find? (Path.components path) := by
  cases taken : Path.refused? (Path.join root path) with
  | some fault => simp [content?, walk, taken, Except.toOption]
  | none =>
    rw [content?, walk_confined disk root confined taken]
    cases top : disk.rootPlace root with
    | error fault =>
      obtain ⟨component, rest, filled⟩ := List.exists_cons_of_ne_nil (Path.components_ne_nil path)
      rw [below, top, filled]
      rfl
    | ok place =>
      rw [below_eq top]
      exact Option.bind_map ..

/-- No confined path leads to a file outside the root. -/
theorem not_fileOutside (disk : Disk) (root : String) {path : String}
    (confined : Path.Confined path) : ¬ disk.FileOutside root path := by
  rintro ⟨there, leaves⟩
  rw [isFile_content, content?] at there
  cases taken : Path.refused? (Path.join root path) with
  | some fault => simp [walk, taken, Except.toOption] at there
  | none =>
    have walked := walk_confined disk root confined taken
    cases last : disk.walk (Path.join root path) with
    | error fault => simp [last, Except.toOption] at there
    | ok place =>
      rw [last] at walked
      obtain ⟨top, start, within⟩ := Option.bind_eq_some_iff.1 walked.symm
      obtain ⟨names, -, rfl⟩ := Option.map_eq_some_iff.1 within
      simp only [leadsUnder, Action.ok_of_toOption start, last, Bool.eq_false_iff, ne_eq,
        List.isSuffixOf_iff_suffix] at leaves
      exact leaves (List.suffix_append names top)

/-- Below the root there are the same files, with the same content. -/
def SameFiles (root : String) (a b : Disk) : Prop :=
  ∀ names content, a.below root names = some (.file content) ↔ b.below root names = some (.file content)

def SameDirectories (root : String) (a b : Disk) : Prop :=
  ∀ names, a.below root names = some .directory ↔ b.below root names = some .directory

theorem below_same {a b : Disk} (files : SameFiles root a b) (directories : SameDirectories root a b) :
    a.below root = b.below root := by
  funext names
  refine Option.ext fun entry => ?_
  cases entry with
  | file content => exact files names content
  | directory => exact directories names

def Connected (disk : Disk) : Prop := Tree.Connected disk.entry?

theorem above_append {around names : List String} (member : around ∈ above names)
    (place : Place) : around ++ place ∈ above (names ++ place) := by
  induction names with
  | nil => cases member
  | cons name names ih =>
    rcases List.mem_cons.1 member with rfl | later
    · exact List.mem_cons_self ..
    · exact List.mem_cons_of_mem _ (ih later)

theorem Connected.below (connected : disk.Connected) (root : String) :
    (disk.below root).Connected := by
  unfold Disk.below
  split
  · exact fun names content held around member =>
      connected _ content held _ (above_append member _)
  · exact fun names content held => nomatch held

/-- A confined path leads to the same file on disks with the same files below the root. If it goes
up on its way, the directories it goes through have to be the same too. -/
theorem content?_same {a b : Disk} (connected : a.Connected) (connected' : b.Connected)
    (files : SameFiles root a b) (confined : Path.Confined path)
    (level : ".." ∉ Path.components path ∨ SameDirectories root a b) :
    a.content? (Path.join root path) = b.content? (Path.join root path) := by
  rw [content?_join a root confined, content?_join b root confined]
  rcases level with down | directories
  · rw [Tree.find?_same (connected.below root) (connected'.below root) files down]
  · rw [below_same files directories]

theorem entry?_write {place : Place} (apart : ¬ place <:+ disk.placeOf path) (content : ByteArray) :
    Disk.entry? (disk.write path content) place = disk.entry? place := by
  have other : place ≠ disk.placeOf path := fun same => apart (same ▸ List.suffix_refl _)
  have beside : place ∉ above (disk.placeOf path) := fun member => apart (mem_above.1 member).1
  simp only [write, entry?, Dict.get?_insert_of_ne _ _ other, List.mem_append, beside, false_or]

theorem treeAt_write {place : Place} (apart : ¬ place <:+ disk.placeOf path)
    (content : ByteArray) : (disk.write path content).treeAt place = disk.treeAt place := by
  funext names
  exact entry?_write (fun part => apart ((List.suffix_append names place).trans part)) content

theorem Connected.empty : Disk.empty.Connected := by
  intro names content held
  cases entry?_file.1 held

def Room (disk : Disk) (place : Place) : Prop :=
  place ≠ [] ∧ place ∉ disk.directories ∧ ∀ around ∈ above place, disk.files.get? around = none

instance (disk : Disk) (place : Place) : Decidable (disk.Room place) :=
  inferInstanceAs (Decidable (_ ∧ _ ∧ _))

/-- A write where there is room keeps every file in its directories. -/
theorem Connected.write (connected : disk.Connected) {path : String} (content : ByteArray)
    (room : disk.Room (disk.placeOf path)) : (disk.write path content).Connected := by
  obtain ⟨named, fresh, free⟩ := room
  intro place stored held around member
  have kept : ∀ other, other ≠ disk.placeOf path →
      (disk.write path content).files.get? other = disk.files.get? other :=
    fun other apart => Dict.get?_insert_of_ne disk.files content apart
  by_cases written : place = disk.placeOf path
  · subst written
    have apart := (mem_above.1 member).2
    exact entry?_directory.2
      ⟨(kept around apart).trans (free around member), .inr (List.mem_append_left _ member)⟩
  · have before := entry?_file.2 ((kept place written).symm.trans (entry?_file.1 held))
    obtain ⟨empty, there⟩ := entry?_directory.1 (connected place stored before around member)
    have apart : around ≠ disk.placeOf path := by
      rintro rfl
      exact there.elim named fresh
    exact entry?_directory.2
      ⟨(kept around apart).trans empty, there.imp_right (List.mem_append_right _)⟩

end Disk

namespace Use

/-- On two disks with the same files below the root a session replies alike to whatever it is used
for, as long as every path that is asked for is a confined one, or spells the root out in front of
one. Either no such path goes up, or the directories below the root are the same too. -/
theorem replies_confined (settings : Settings) (a b : Disk) (uses : List Use)
    (connected : a.Connected) (connected' : b.Connected)
    (files : Disk.SameFiles settings.root a b)
    (asked : ∀ use ∈ uses, ∀ path ∈ use.files, ∃ inner,
      Path.join settings.root path = Path.join settings.root inner ∧ Path.Confined inner ∧
        (".." ∉ Path.components inner ∨ Disk.SameDirectories settings.root a b)) :
    replies (.directory a settings.root) uses Session.start =
        replies (.directory b settings.root) uses Session.start ∧
      after (.directory a settings.root) uses Session.start =
        after (.directory b settings.root) uses Session.start := by
  refine replies_same (fun use member path wanted => ?_) Session.start
  obtain ⟨inner, spelled, confined, level⟩ := asked use member path wanted
  rw [Pack.read_content, Pack.read_content, spelled,
    Disk.content?_same connected connected' files confined level]

def installed : Settings := ⟨"/opt/game/data", "QuestPacks"⟩

def withPack (root : String) (disk : Disk) : Disk :=
  (disk.write (Path.join root "hello.txt") "macro Hello\n  hello\nend macro".toUTF8).write
    (Path.join root "sub/open.txt") "macro Open\nnever closed".toUTF8

def packDisk : Disk := withPack installed.root (withPack Settings.standard.root Disk.empty)

def hostDisk : Disk :=
  (packDisk.write "outside.txt" "macro Hello\n  leaked\nend macro".toUTF8).write "/etc/outside.txt"
    "macro Hello\n  leaked\nend macro".toUTF8

theorem packDisk_connected : packDisk.Connected :=
  (((Disk.Connected.empty.write _ (by decide +kernel)).write _ (by decide +kernel)).write _
    (by decide +kernel)).write _ (by decide +kernel)

theorem hostDisk_connected : hostDisk.Connected :=
  (packDisk_connected.write _ (by decide +kernel)).write _ (by decide +kernel)

theorem hostDisk_below {root : String} {top : Place} (start : packDisk.rootPlace root = .ok top)
    (start' : hostDisk.rootPlace root = .ok top) (apart : ¬ top <:+ ["outside.txt", "work"])
    (apart' : ¬ top <:+ ["outside.txt", "etc"]) :
    Disk.SameFiles root packDisk hostDisk ∧ Disk.SameDirectories root packDisk hostDisk := by
  have below : packDisk.below root = hostDisk.below root := by
    rw [Disk.below_eq start, Disk.below_eq start', hostDisk, Disk.treeAt_write apart',
      Disk.treeAt_write apart]
  exact ⟨fun names content => by rw [below], fun names => by rw [below]⟩

theorem hostDisk_standard : Disk.SameFiles Settings.standard.root packDisk hostDisk ∧
    Disk.SameDirectories Settings.standard.root packDisk hostDisk := by
  have start : packDisk.rootPlace Settings.standard.root =
      .ok ["QuestPacks", "StreamingAssets", "work"] := by decide +kernel
  exact hostDisk_below start (by decide +kernel) (by decide) (by decide)

theorem hostDisk_installed : Disk.SameFiles installed.root packDisk hostDisk ∧
    Disk.SameDirectories installed.root packDisk hostDisk := by
  have start : packDisk.rootPlace installed.root =
      .ok ["QuestPacks", "data", "game", "opt"] := by decide +kernel
  exact hostDisk_below start (by decide +kernel) (by decide) (by decide)

def confinedUses : List Use :=
  [.calling (.importing "import macro hello from sub/../hello.txt"),
    .calling (.expanding ["import macro Hello from ./hello.txt", "macro h: Hello"]),
    .calling (.importing "import macro Open from sub//open.txt"), .reading "sub", .reading "outside.txt"]

theorem confinedUses_confined : ∀ use ∈ confinedUses, ∀ path ∈ use.files, Path.Confined path := by
  decide +kernel

/-- Under the standard settings the paths are relative. Under an absolute root one of them may also
be written out from the top. -/
theorem replies_confined_settings :
    (replies (.directory packDisk Settings.standard.root) confinedUses Session.start =
        replies (.directory hostDisk Settings.standard.root) confinedUses Session.start ∧
      after (.directory packDisk Settings.standard.root) confinedUses Session.start =
        after (.directory hostDisk Settings.standard.root) confinedUses Session.start) ∧
      (replies (.directory hostDisk Settings.standard.root) confinedUses Session.start)[1]? =
        some (.ok (.answer (.lines ["hello"]))) ∧
      replies (.directory packDisk installed.root)
          (.reading "/opt/game/data/QuestPacks/hello.txt" :: confinedUses) Session.start =
        replies (.directory hostDisk installed.root)
          (.reading "/opt/game/data/QuestPacks/hello.txt" :: confinedUses) Session.start ∧
      (replies (.directory hostDisk installed.root)
          (.reading "/opt/game/data/QuestPacks/hello.txt" :: confinedUses) Session.start)[0]? =
        some (.ok (.file (some ["macro Hello", "  hello", "end macro"]))) := by
  have standard := replies_confined Settings.standard packDisk hostDisk confinedUses
    packDisk_connected hostDisk_connected hostDisk_standard.1 fun use member path wanted =>
      ⟨path, rfl, confinedUses_confined use member path wanted, .inr hostDisk_standard.2⟩
  have absolute := replies_confined installed packDisk hostDisk
    (.reading "/opt/game/data/QuestPacks/hello.txt" :: confinedUses)
    packDisk_connected hostDisk_connected hostDisk_installed.1 (by
      rintro use member path wanted
      rcases List.mem_cons.1 member with rfl | later
      · obtain rfl : path = "/opt/game/data/QuestPacks/hello.txt" := List.mem_singleton.1 wanted
        exact ⟨"hello.txt", by decide +kernel, by decide +kernel, .inl (by decide +kernel)⟩
      · exact ⟨path, rfl, confinedUses_confined use later path wanted, .inr hostDisk_installed.2⟩)
  exact ⟨standard, by decide +kernel, absolute.1, by decide +kernel⟩

/-- Nothing confines what is asked for: through `..` and from the top an import reads a file of the
host. -/
theorem replies_escape :
    packDisk.Connected ∧ hostDisk.Connected ∧
      Disk.SameFiles Settings.standard.root packDisk hostDisk ∧
      Disk.SameDirectories Settings.standard.root packDisk hostDisk ∧
      replies (.directory packDisk Settings.standard.root)
          [.calling (.importing "import macro Hello from ../../outside.txt")] Session.start ≠
        replies (.directory hostDisk Settings.standard.root)
          [.calling (.importing "import macro Hello from ../../outside.txt")] Session.start ∧
      replies (.directory packDisk Settings.standard.root)
          [.calling (.importing "import macro Hello from /etc/outside.txt")] Session.start ≠
        replies (.directory hostDisk Settings.standard.root)
          [.calling (.importing "import macro Hello from /etc/outside.txt")] Session.start :=
  ⟨packDisk_connected, hostDisk_connected, hostDisk_standard.1, hostDisk_standard.2,
    by decide +kernel, by decide +kernel⟩

end Use

end QuestScript

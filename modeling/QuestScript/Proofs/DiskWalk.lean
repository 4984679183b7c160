import Mathlib.Data.List.Basic
import QuestScript.Disk.Basic

/-! Walks along paths. A path from a root is walked as the root is, and then on from there: slashes
between the two change nothing. An absolute path is walked from the top, whatever the root is. -/
namespace QuestScript

namespace Path

theorem cut_ne_nil (path : List Char) : cut path ≠ [] := by
  fun_cases cut path <;> simp_all

theorem cut_append (base path : List Char) : cut (base ++ '/' :: path) = cut base ++ cut path := by
  induction base with
  | nil => rfl
  | cons c base ih =>
    by_cases slash : c = '/'
    · subst slash
      simp only [List.cons_append, cut, ih]
    · obtain ⟨component, later, whole⟩ := List.exists_cons_of_ne_nil (cut_ne_nil base)
      simp only [List.cons_append, cut, ih, whole]

theorem components_ne_nil (path : String) : components path ≠ [] := by
  simp [components, cut_ne_nil]

theorem isAbsolute_join {root path : String} (relative : isAbsolute path = false) :
    isAbsolute (join root path) = isAbsolute root := by
  unfold join
  rw [if_neg (by simp [relative])]
  by_cases empty : root.toList = []
  · have nothing : root = "" := String.toList_injective empty
    rw [if_pos (.inl empty), nothing, String.empty_append, relative]
    rfl
  · obtain ⟨c, rest, whole⟩ := List.exists_cons_of_ne_nil empty
    split <;> simp [isAbsolute, whole]

end Path

namespace Disk

variable {disk : Disk} {root path : String} {place next : Place} {component : String}

theorem entry?_file {content : ByteArray} :
    disk.entry? place = some (.file content) ↔ disk.files.get? place = some content := by
  cases held : disk.files.get? place with
  | none => simp [held, entry?]
  | some stored => simp [held, entry?]

theorem entry?_directory :
    disk.entry? place = some .directory ↔
      disk.files.get? place = none ∧ (place = [] ∨ place ∈ disk.directories) := by
  cases held : disk.files.get? place with
  | none =>
    simp only [held, entry?, true_and]
    split
    · next there => exact iff_of_true rfl there
    · next nothing => simp [nothing]
  | some stored => simp [held, entry?]

theorem step_elsewhere (other : disk.entry? place ≠ some .directory) (component : String) :
    ∃ fault, disk.step place component = .error fault ∧ disk.step place "" = .error fault := by
  cases here : disk.entry? place with
  | none => exact ⟨.missing, by simp only [step, here], by simp only [step, here]⟩
  | some entry =>
    cases entry with
    | file content => exact ⟨.notDirectory, by simp only [step, here], by simp only [step, here]⟩
    | directory => exact absurd here other

theorem step_here (here : disk.entry? place = some .directory)
    (same : component = "" ∨ component = ".") : disk.step place component = .ok place := by
  simp only [step, here, if_pos same]

def follow (disk : Disk) (place : Place) (components : List String) : Except ReadFault Place :=
  components.foldlM disk.step place

theorem follow_error {fault : ReadFault} (fails : disk.step place component = .error fault)
    (rest : List String) : disk.follow place (component :: rest) = .error fault := by
  rw [follow, List.foldlM_cons, fails]
  rfl

theorem follow_ok (leads : disk.step place component = .ok next) (rest : List String) :
    disk.follow place (component :: rest) = disk.follow next rest := by
  rw [follow, List.foldlM_cons, leads]
  rfl

theorem follow_append (place : Place) (first later : List String) :
    disk.follow place (first ++ later) =
      disk.follow place first >>= fun next => disk.follow next later :=
  List.foldlM_append

/-- An empty component changes nothing where another one follows: both need a directory. -/
theorem follow_blank (place : Place) {components : List String} (filled : components ≠ []) :
    (disk.follow place [""] >>= fun next => disk.follow next components) =
      disk.follow place components := by
  obtain ⟨component, rest, rfl⟩ := List.exists_cons_of_ne_nil filled
  by_cases here : disk.entry? place = some .directory
  · rw [follow_ok (step_here here (.inl rfl))]
    rfl
  · obtain ⟨fault, fails, blank⟩ := step_elsewhere here component
    rw [follow_error blank, follow_error fails]
    rfl

theorem follow_join (relative : Path.isAbsolute path = false) (place : Place) :
    disk.follow place (Path.components (Path.join root path)) =
      disk.follow place (Path.components root) >>= fun next =>
        disk.follow next (Path.components path) := by
  have filled := Path.components_ne_nil path
  unfold Path.join
  rw [if_neg (by simp [relative])]
  by_cases empty : root.toList = []
  · have nothing : root = "" := String.toList_injective empty
    have blank : Path.components "" = [""] := rfl
    rw [if_pos (.inl empty), nothing, String.empty_append, blank, follow_blank place filled]
  by_cases slash : root.toList.getLast? = some '/'
  · obtain ⟨base, ends⟩ := List.getLast?_eq_some_iff.1 slash
    have first : Path.components root = (Path.cut base).map String.ofList ++ [""] := by
      rw [Path.components, ends, Path.cut_append, List.map_append]
      rfl
    have whole : Path.components (root ++ path) =
        (Path.cut base).map String.ofList ++ Path.components path := by
      rw [Path.components, String.toList_append, ends, List.append_assoc, List.singleton_append,
        Path.cut_append, List.map_append, Path.components]
    rw [if_pos (.inr slash), whole, first, follow_append, follow_append]
    simp only [bind_assoc, follow_blank _ filled]
  · have whole : Path.components (root ++ "/" ++ path) =
        Path.components root ++ Path.components path := by
      have chars : (root ++ "/" ++ path).toList = root.toList ++ '/' :: path.toList := by simp
      rw [Path.components, chars, Path.cut_append, List.map_append, Path.components,
        Path.components]
    rw [if_neg (by simp [empty, slash]), whole, follow_append]

/-- Where paths from the root start that are not absolute. -/
def rootPlace (disk : Disk) (root : String) : Except ReadFault Place :=
  disk.follow (disk.start root) (Path.components root)

theorem walk_join (relative : Path.isAbsolute path = false) :
    disk.walk (Path.join root path) =
      match Path.refused? (Path.join root path) with
      | some fault => .error fault
      | none => disk.rootPlace root >>= fun place => disk.follow place (Path.components path) := by
  have same : disk.start (Path.join root path) = disk.start root := by
    rw [start, start, Path.isAbsolute_join relative]
  rw [walk, same, rootPlace, ← follow_join relative]
  rfl

def fileAt? (disk : Disk) (place : Place) : Option ByteArray :=
  match disk.entry? place with
  | some (.file content) => some content
  | _ => none

def content? (disk : Disk) (path : String) : Option ByteArray :=
  (disk.walk path).toOption.bind disk.fileAt?

theorem content?_find (path : String) : disk.content? path =
    match disk.find path with
    | .ok (.file content) => some content
    | _ => none := by
  unfold content? find
  cases disk.walk path with
  | error fault => rfl
  | ok place =>
    simp only [Except.toOption, Option.bind_some, fileAt?, bind, Except.bind]
    cases disk.entry? place with
    | none => rfl
    | some entry => cases entry <;> rfl

theorem isFile_content (path : String) : disk.isFile path = (disk.content? path).isSome := by
  rw [content?_find, isFile]
  cases disk.find path with
  | error fault => rfl
  | ok entry => cases entry <;> rfl

end Disk

end QuestScript

import QuestScript.Proofs.ImportOrigin
import QuestScript.Proofs.Invariant
import QuestScript.Proofs.LineLanguage
import QuestScript.Proofs.ScriptRun
import QuestScript.Proofs.SourceTree

/-! Well-formed macros. What is read from lines is made of tokens that lines can hold, and an
insertion has the name that its target declares. A registry may know a macro by a second name: one
in another letter case, or one with a colon. No insertion can spell the second kind. The cache keeps
each macro under a key of its own name, so that a key shared by two imports gives no macro away
under a plain name that is not its own. -/
namespace QuestScript

open Text QuestScript.Action

namespace Text.Runs

variable {separates : Char → Bool} {text : List Char} {runs : List String}

theorem proper (cut : Runs separates text runs) :
    ∀ run ∈ runs, run.toList ≠ [] ∧ ∀ c ∈ run.toList, separates c = false ∧ c ∈ text := by
  induction cut with
  | nil => exact fun _ member => absurd member (List.not_mem_nil)
  | gap _ _ ih =>
    intro run member
    obtain ⟨filled, clear⟩ := ih run member
    exact ⟨filled, fun c inside => ⟨(clear c inside).1, List.mem_cons_of_mem _ (clear c inside).2⟩⟩
  | run filled clear _ _ ih =>
    intro run member
    rcases List.mem_cons.1 member with rfl | later
    · exact ⟨filled, fun c inside => ⟨clear c inside, List.mem_append_left _ inside⟩⟩
    · obtain ⟨filled', clear'⟩ := ih run later
      exact ⟨filled', fun c inside =>
        ⟨(clear' c inside).1, List.mem_append_right _ (clear' c inside).2⟩⟩

end Text.Runs

namespace Directive

structure Tokenized (least : Nat) (tokens : List String) : Prop where
  many : least ≤ tokens.length
  opens : ∃ keyword others, tokens = keyword :: others ∧ IsKeyword keyword
  proper : ∀ token ∈ tokens, IsWord token

theorem Tokenized.more {least more : Nat} {tokens : List String} (tokenized : Tokenized least tokens)
    (many : more ≤ tokens.length) : Tokenized more tokens :=
  ⟨many, tokenized.opens, tokenized.proper⟩

theorem Tokenized.ofWords {keyword : String} {words : List String} (is : IsKeyword keyword)
    (proper : ∀ word ∈ words, IsWord word) : Tokenized 1 (keyword :: words) := by
  refine ⟨Nat.le_add_left .., ⟨keyword, words, rfl, is⟩, ?_⟩
  intro token member
  rcases List.mem_cons.1 member with rfl | later
  · exact ⟨is.filled, is.clear⟩
  · exact proper token later

theorem tokenized_definition {line : String} {tokens : List String}
    (kind : ofLine line = .definition tokens) : Tokenized 1 tokens := by
  have reading := means_ofLine line
  rw [kind] at reading
  cases reading with
  | definition front noColon runs =>
    refine .ofWords front.spells fun word member => ?_
    obtain ⟨filled, clear⟩ := runs.proper word member
    refine ⟨filled, fun c inside => ?_⟩
    have other : c ≠ ':' := fun same => noColon (same ▸ (clear c inside).2)
    simp [isSeparator, (clear c inside).1, other]

theorem tokenized_insertion {line : String} {tokens : List String}
    (kind : ofLine line = .insertion tokens) : Tokenized 1 tokens := by
  have reading := means_ofLine line
  rw [kind] at reading
  cases reading with
  | insertion front colon runs =>
    refine .ofWords front.spells fun word member => ?_
    obtain ⟨filled, clear⟩ := runs.proper word member
    exact ⟨filled, fun c inside => (clear c inside).1⟩

end Directive

open Directive

/-- An insertion with a place and the name of its target, as the target declares it up to letter
case. -/
def Insertion.Bound (insertion : Insertion) : Prop :=
  Tokenized 3 insertion.tokens ∧
    ∃ name, insertion.tokens[2]? = some name ∧ Text.Alike name insertion.target.name

namespace Macro

inductive Holds : Macro → Macro → Prop where
  | self (m : Macro) : Holds m m
  | deeper {m inner : Macro} {insertion : Insertion} (member : insertion ∈ m.insertions)
      (inside : Holds insertion.target inner) : Holds m inner

/-- What a macro has on its own, whatever its insertions hold. -/
structure Proper (m : Macro) : Prop where
  signed : Tokenized 2 m.signature
  plain : ∃ body, m.body = some body ∧ ∀ line ∈ body, ofLine line = .plain line
  bound : ∀ insertion ∈ m.insertions, insertion.Bound

def WellFormed (m : Macro) : Prop := ∀ inner, m.Holds inner → inner.Proper

theorem WellFormed.of_targets {m : Macro} (proper : m.Proper)
    (targets : ∀ insertion ∈ m.insertions, insertion.target.WellFormed) : m.WellFormed := by
  intro inner holds
  cases holds with
  | self => exact proper
  | deeper member inside => exact targets _ member inner inside

theorem WellFormed.name_plain {m : Macro} (formed : m.WellFormed) : ':' ∉ m.name.toList := by
  have signed := (formed m (.self m)).signed
  have there : 1 < m.signature.length := signed.many
  have named : m.name = m.signature[1] := by
    rw [name, List.getElem?_eq_getElem there, Option.getD_some]
  intro colon
  rw [named] at colon
  exact absurd ((signed.proper _ (List.getElem_mem there)).2 _ colon) (by decide)

end Macro

namespace Registry

/-- Every entry is well formed and has the name it declares, or one with a colon. -/
def Sound (registry : Registry) : Prop :=
  ∀ name m, registry.get? name = some m →
    m.WellFormed ∧ (':' ∉ name.toList → Text.Alike name m.name)

theorem Sound.empty : Sound Dict.empty := by
  intro name m bound
  cases bound

theorem Sound.insert {registry : Registry} (sound : Sound registry) {name : String} {m : Macro}
    (formed : m.WellFormed) (named : ':' ∉ name.toList → Text.Alike name m.name) :
    Sound (Dict.insert registry name m) := by
  intro other m' bound
  rw [Dict.get?_insert] at bound
  split at bound
  · next same =>
    cases bound
    rw [same]
    exact ⟨formed, named⟩
  · exact sound other m' bound

theorem defineAs_keeps {name : String} {m : Macro} (formed : m.WellFormed)
    (named : ':' ∉ name.toList → Text.Alike name m.name) :
    Keeps Sound (fun _ => True) (fun _ => True) (defineAs name m) :=
  .of_gives fun _ sound => ⟨_, _, gives_defineAs.2 ⟨rfl, rfl⟩, trivial, sound.insert formed named⟩

theorem define_keeps {m : Macro} (formed : m.WellFormed) :
    Keeps Sound (fun _ => True) (fun _ => True) (define m) :=
  defineAs_keeps formed fun _ => .refl _

theorem target_keeps (line : Nat) (text : String) {tokens : List String}
    (tokenized : Tokenized 1 tokens) :
    Keeps Sound (fun m => m.WellFormed ∧ Insertion.Bound ⟨tokens, m⟩) (fun _ => True)
      (target line text tokens) := by
  rcases tokens with _ | ⟨keyword, _ | ⟨place, _ | ⟨name, arguments⟩⟩⟩
  · exact .fail trivial
  · exact .fail trivial
  · exact .fail trivial
  have many : 3 ≤ (keyword :: place :: name :: arguments).length := by simp
  have plain : ':' ∉ name.toList := by
    intro colon
    exact absurd ((tokenized.proper name (by simp)).2 _ colon) (by decide)
  apply Keeps.get.bind
  intro registry sound
  cases found : registry.get? name with
  | none => exact (Keeps.note _).bind fun _ _ => .fail trivial
  | some m =>
    obtain ⟨formed, named⟩ := sound name m found
    exact .pure ⟨formed, tokenized.more many, name, rfl, named plain⟩

end Registry

namespace Block

structure Formed (found : Contents) : Prop where
  plain : ∀ line ∈ found.body, ofLine line = .plain line
  bound : ∀ insertion ∈ found.insertions, insertion.target.WellFormed ∧ insertion.Bound

theorem Formed.toMacro {found : Contents} (formed : Formed found) {header : Header}
    (signed : Tokenized 2 header.signature) : (found.toMacro header).WellFormed :=
  .of_targets ⟨signed, ⟨found.body, rfl, formed.plain⟩, fun _ member => (formed.bound _ member).2⟩
    fun _ member => (formed.bound _ member).1

theorem Formed.empty : Formed Contents.empty :=
  ⟨fun _ member => absurd member List.not_mem_nil, fun _ member => absurd member List.not_mem_nil⟩

theorem Formed.addLine {found : Contents} (formed : Formed found) {line : String}
    (plain : ofLine line = .plain line) : Formed (found.addLine line) :=
  ⟨List.forall_mem_cons.2 ⟨plain, formed.plain⟩, formed.bound⟩

theorem Formed.addInsertion {found : Contents} (formed : Formed found) {insertion : Insertion}
    (bound : insertion.target.WellFormed ∧ insertion.Bound) :
    Formed (found.addInsertion insertion) :=
  ⟨formed.plain, List.forall_mem_cons.2 ⟨bound, formed.bound⟩⟩

theorem header_signed {line : Nat} {text text' : String} {header : Header}
    (opens : Header.ofDirective line text (ofLine text') = .ok header) :
    Tokenized 2 header.signature :=
  (tokenized_definition (ofDirective_ok opens).2).more (by simp [Header.signature])

theorem contents_keeps (header : Header) (line : Nat) (lines : List String) :
    Keeps Registry.Sound (fun found => Formed found.1) (fun _ => True)
      (contents header line lines) := by
  induction header, line, lines using contents.induct with
  | case1 header line =>
    rw [contents]
    exact .fail trivial
  | case2 header line text rest kind =>
    rw [contents]
    simp only [kind]
    exact .pure .empty
  | case3 header line text rest body kind ih =>
    rw [contents]
    simp only [kind]
    obtain rfl := plain_eq kind
    exact ih.bind fun _ formed => .pure (formed.addLine kind)
  | case4 header line text rest tokens kind ih =>
    rw [contents]
    simp only [kind]
    apply (Registry.target_keeps line text (tokenized_insertion kind)).bind
    intro target bound
    exact ih.bind fun _ formed => .pure (formed.addInsertion bound)
  | case5 header line text rest tokens kind =>
    rw [contents]
    simp only [kind]
    exact .fail trivial
  | case6 header line text rest tokens kind ihInner ihRest =>
    rw [contents]
    simp only [kind]
    have opening : Keeps Registry.Sound (fun inner : Header => Tokenized 2 inner.signature)
        (fun _ => True) (ofExcept (Header.ofDirective line text (.definition tokens))) := by
      rw [← kind]
      exact .ofExcept (fun _ => header_signed) fun _ _ => trivial
    apply opening.bind
    intro inner signed
    apply (ihInner inner).bind
    intro held formed
    apply (Keeps.note _).bind
    intro _ _
    apply (Registry.define_keeps (formed.toMacro signed)).bind
    intro _ _
    exact (ihRest held.2).bind fun _ formed' => .pure formed'

theorem read_keeps (line : Nat) (text : String) (rest : List String) :
    Keeps Registry.Sound (fun found => found.1.WellFormed) (fun _ => True) (read line text rest) := by
  have opening : Keeps Registry.Sound (fun header : Header => Tokenized 2 header.signature)
      (fun _ => True) (ofExcept (Header.ofDirective line text (ofLine text))) :=
    .ofExcept (fun _ => header_signed) fun _ _ => trivial
  apply opening.bind
  intro header signed
  exact (contents_keeps header (line + 1) rest).bind fun _ formed => .pure (formed.toMacro signed)

theorem readAt_keeps (lines : List String) (start : Nat) :
    Keeps Registry.Sound (fun found => found.1.WellFormed) (fun _ => True)
      (readAt lines start) := by
  unfold readAt
  cases lines.drop start with
  | nil => exact .fail trivial
  | cons text rest => exact (read_keeps (start + 1) text rest).bind fun _ formed => .pure formed

end Block

namespace Session

/-- Every macro in the cache is well formed and stands under a key of its own name. -/
def Sound (session : Session) : Prop :=
  ∀ key m, session.cache.get? key = some (some m) →
    m.WellFormed ∧ ∃ file, key = ImportTarget.key ⟨m.name, file⟩

theorem start_sound : Sound start := by
  intro key m cached
  cases cached

theorem answer_sound {pack : Pack} {target : ImportTarget} {m : Macro}
    (found : answer pack target = .ok (some m)) :
    m.WellFormed ∧ Text.Alike m.name target.name := by
  obtain ⟨named, lines, position, count, after, -, gives⟩ := answer_own found
  exact ⟨(Block.readAt_keeps lines position).value Registry.Sound.empty gives.1, named⟩

/-- A macro that an import of a plain name is given has that name, also where it was cached for
another import. -/
theorem fetch_keeps (pack : Pack) (target : ImportTarget) :
    Keeps Sound (fun found => ∀ m, found = some m →
      m.WellFormed ∧ (target.Plain → Text.Alike target.name m.name)) (fun _ => True)
      (fetch pack target) := by
  intro session sound
  cases cached : session.cache.get? target.key with
  | some found =>
    obtain ⟨result, state⟩ := fetch_cached pack cached
    rw [result, state]
    refine ⟨sound, ?_⟩
    rintro m rfl
    obtain ⟨formed, file, same⟩ := sound target.key m cached
    have declared : ImportTarget.Plain ⟨m.name, file⟩ := formed.name_plain
    exact ⟨formed, fun plain => (ImportTarget.alike_of_key plain declared same).2⟩
  | none =>
    obtain ⟨result, state⟩ := fetch_missed pack cached
    rw [result, state]
    cases anew : answer pack target with
    | error fault => exact ⟨sound, trivial⟩
    | ok found =>
      refine ⟨?_, ?_⟩
      · intro key m kept
        simp only at kept
        rw [Dict.get?_insert] at kept
        split at kept
        · next same =>
          cases kept
          obtain ⟨formed, named⟩ := answer_sound anew
          have alike : target.Alike ⟨m.name, target.file⟩ := ⟨rfl, named.symm⟩
          exact ⟨formed, target.file, same.trans alike.key_eq⟩
        · exact sound key m kept
      · rintro m rfl
        obtain ⟨formed, named⟩ := answer_sound anew
        exact ⟨formed, fun _ => named.symm⟩

theorem fetchTokens_keeps (pack : Pack) (text : String) (tokens : List String) :
    Keeps Sound (fun found => ∀ m, found.2 = some m →
      m.WellFormed ∧ (found.1.Plain → Text.Alike found.1.name m.name)) (fun _ => True)
      (fetchTokens pack text tokens) := by
  unfold fetchTokens
  cases ImportTarget.ofTokens? tokens with
  | none => exact .fail trivial
  | some target => exact (fetch_keeps pack target).bind fun _ found => .pure found

theorem fetchLine_keeps (pack : Pack) (line : String) :
    Keeps Sound (fun found => ∀ m, found = some m → m.WellFormed) (fun _ => True)
      (fetchLine pack line) := by
  unfold fetchLine
  cases ofLine line with
  | importing tokens =>
    exact (fetchTokens_keeps pack line tokens).bind fun _ found =>
      .pure fun m given => (found m given).1
  | definition tokens => exact .fail trivial
  | insertion tokens => exact .fail trivial
  | endMarker => exact .fail trivial
  | plain body => exact .fail trivial

end Session

namespace Workspace

def Sound (space : Workspace) : Prop := space.session.Sound ∧ space.registry.Sound

variable {α : Type} {V : α → Prop} {F : Fault → Prop}

theorem onRegistry_keeps {action : Action Registry α} (keeps : Keeps Registry.Sound V F action) :
    Keeps Sound V F (onRegistry action) :=
  keeps.focus (fun _ sound => sound.2) fun _ _ sound kept => ⟨sound.1, kept⟩

theorem onSession_keeps {action : Action Session α} (keeps : Keeps Session.Sound V F action) :
    Keeps Sound V F (onSession action) :=
  keeps.focus (fun _ sound => sound.1) fun _ _ sound kept => ⟨kept, sound.2⟩

theorem adopt_keeps {name : String} {m : Macro} (formed : m.WellFormed)
    (named : ':' ∉ name.toList → Text.Alike name m.name) :
    Keeps Sound (fun _ => True) (fun _ => True) (adopt name m) := by
  have declared := onRegistry_keeps (Registry.define_keeps formed)
  unfold adopt
  by_cases other : name ≠ m.name
  · simp only [if_pos other]
    apply (onRegistry_keeps (Registry.defineAs_keeps formed named)).bind
    intro _ _
    exact declared.bind fun _ _ => .pure trivial
  · simp only [if_neg other]
    exact declared.bind fun _ _ => .pure trivial

end Workspace

namespace Script

open Workspace

theorem expandFrom_keeps (pack : Pack) (line : Nat) (lines : List String) :
    Keeps Workspace.Sound (fun _ => True) (fun _ => True) (expandFrom pack line lines) := by
  induction line, lines using expandFrom.induct with
  | case1 line =>
    rw [expandFrom]
    exact .pure trivial
  | case2 line text rest body kind ih =>
    rw [expandFrom]
    simp only [kind]
    exact ih.bind fun _ _ => .pure trivial
  | case3 line text rest tokens kind ih =>
    rw [expandFrom]
    simp only [kind]
    have inserting : Keeps Registry.Sound (fun _ => True) (fun _ => True)
        (Registry.expandTokens line text tokens) :=
      (Registry.target_keeps line text (tokenized_insertion kind)).bind fun _ _ =>
        (Keeps.note _).bind fun _ _ => .pure trivial
    apply (onRegistry_keeps inserting).bind
    intro _ _
    exact ih.bind fun _ _ => .pure trivial
  | case4 line text rest tokens kind ih =>
    rw [expandFrom]
    simp only [kind]
    apply (onRegistry_keeps (Block.read_keeps line text rest)).bind
    intro found formed
    apply (Keeps.note _).bind
    intro _ _
    apply (onRegistry_keeps (Registry.define_keeps formed)).bind
    intro _ _
    exact ih found.2
  | case5 line text rest tokens kind ih =>
    rw [expandFrom]
    simp only [kind]
    apply (onSession_keeps (Session.fetchTokens_keeps pack text tokens)).bind
    rintro ⟨target, _ | m⟩ given
    · exact .fail trivial
    · obtain ⟨formed, named⟩ := given m rfl
      exact (adopt_keeps formed named).bind fun _ _ => ih
  | case6 line text rest kind =>
    rw [expandFrom]
    simp only [kind]
    exact .fail trivial

theorem reached_sound {pack : Pack} {session : Session} (sound : session.Sound)
    (lines : List String) : (reached pack session lines).Sound :=
  (expandFrom_keeps pack 1 lines).state ⟨sound, Registry.Sound.empty⟩

theorem expand_keeps (pack : Pack) (lines : List String) :
    Keeps Session.Sound (fun _ => True) (fun _ => True) (expand pack lines) :=
  .of_state fun _ sound => (reached_sound sound lines).1

end Script

open Workspace

inductive Task where
  | reading (lines : List String) (start : Nat)
  | importing (line : String)
  | expanding (script : List String)

namespace Task

def run (pack : Pack) : Task → Action Workspace (Option Macro)
  | reading lines start => do
    let (m, _) ← onRegistry (Block.readAt lines start)
    let _ ← onRegistry (Registry.define m)
    return some m
  | importing line => do
    match ← onSession (Session.fetchLine pack line) with
    | none => return none
    | some m => do
      let _ ← onRegistry (Registry.define m)
      return some m
  | expanding script => do
    let _ ← onSession (Script.expand pack script)
    return none

/-- The task after so many of its lines. What it has registered by then is kept, as by a task that
fails. -/
def cut (count : Nat) : Task → Task
  | reading lines start => reading (lines.take count) start
  | importing line => importing line
  | expanding script => expanding (script.take count)

/-- The workspace that tasks leave. A task goes on from what the one before it left, also when that
failed. -/
def after (pack : Pack) (tasks : List Task) : Workspace :=
  tasks.foldl (fun space task => ((task.run pack).run space).state) ⟨Session.start, Dict.empty⟩

/-- Where a macro can turn up in the course of a task: as what it returns, in the registry, in the
cache, in the registry of a script, or in the one that is dropped when a block of a file is read. -/
inductive Appears (pack : Pack) (space : Workspace) (task : Task) (m : Macro) : Prop where
  | returned (returns : ((task.run pack).run space).result = .ok (some m))
  | registered {count : Nat} {name : String}
      (entry : ((((task.cut count).run pack).run space).state).registry.get? name = some m)
  | cached {count : Nat} {key : String}
      (entry : ((((task.cut count).run pack).run space).state).session.cache.get? key =
        some (some m))
  | inScript {script : List String} {count : Nat} {name : String}
      (expands : task = .expanding script)
      (entry : (Script.reached pack space.session (script.take count)).registry.get? name = some m)
  | inFile {path : String} {lines : List String} {start count : Nat} {name : String}
      (held : (pack.read path).found = .ok (some lines))
      (entry : ((Block.readAt (lines.take count) start).run Dict.empty).state.get? name = some m)

theorem run_keeps (pack : Pack) (task : Task) :
    Keeps Workspace.Sound (fun returned => ∀ m, returned = some m → m.WellFormed) (fun _ => True)
      (task.run pack) := by
  cases task with
  | reading lines start =>
    apply (onRegistry_keeps (Block.readAt_keeps lines start)).bind
    intro found formed
    apply (onRegistry_keeps (Registry.define_keeps formed)).bind
    intro _ _
    refine .pure ?_
    rintro m ⟨⟩
    exact formed
  | importing line =>
    apply (onSession_keeps (Session.fetchLine_keeps pack line)).bind
    rintro (_ | m) given
    · exact .pure nofun
    · exact (onRegistry_keeps (Registry.define_keeps (given m rfl))).bind fun _ _ => .pure given
  | expanding script =>
    exact (onSession_keeps (Script.expand_keeps pack script)).bind fun _ _ => .pure nofun

theorem after_sound (pack : Pack) (tasks : List Task) : (after pack tasks).Sound := by
  unfold after
  have start : Workspace.Sound ⟨Session.start, Dict.empty⟩ :=
    ⟨Session.start_sound, Registry.Sound.empty⟩
  generalize (⟨Session.start, Dict.empty⟩ : Workspace) = space at start
  induction tasks generalizing space with
  | nil => exact start
  | cons task later ih => exact ih _ ((run_keeps pack task).state start)

/-- Whatever turns up in the course of a task, after whatever tasks, is well formed, and so is all
that it holds. -/
theorem appears_proper (pack : Pack) (tasks : List Task) (task : Task) (m inner : Macro)
    (appears : Appears pack (after pack tasks) task m) (holds : m.Holds inner) : inner.Proper := by
  have sound := after_sound pack tasks
  have formed : m.WellFormed := by
    cases appears with
    | returned returns => exact (run_keeps pack task).value sound returns m rfl
    | registered entry => exact (((run_keeps pack _).state sound).2 _ _ entry).1
    | cached entry => exact (((run_keeps pack _).state sound).1 _ _ entry).1
    | inScript _ entry => exact ((Script.reached_sound sound.1 _).2 _ _ entry).1
    | inFile _ entry =>
      exact ((Block.readAt_keeps _ _).state Registry.Sound.empty _ _ entry).1
  exact formed inner holds

def renamingScript : List String :=
  ["import macro B::C from a", "import macro C from a::b", "macro Outer", "macro Inner",
    "macro x: C", "end macro", "macro y: Inner", "end macro"]

def innerMacro : Macro := ⟨["macro", "Inner"], some [], [⟨["macro", "x", "C"], Call.colonMacro⟩]⟩

def outerMacro : Macro := ⟨["macro", "Outer"], some [], [⟨["macro", "y", "Inner"], innerMacro⟩]⟩

theorem appears_proper_renamed :
    Appears Call.colonPack (after Call.colonPack [.importing "import macro c from a::b"])
        (.expanding renamingScript) outerMacro ∧
      outerMacro.Holds innerMacro ∧ innerMacro.Proper := by
  have appears : Appears Call.colonPack
      (after Call.colonPack [.importing "import macro c from a::b"])
      (.expanding renamingScript) outerMacro := by
    have entry : (Script.reached Call.colonPack
        (after Call.colonPack [.importing "import macro c from a::b"]).session
        (renamingScript.take 8)).registry.get? "Outer" = some outerMacro := by decide +kernel
    exact .inScript rfl entry
  have holds : outerMacro.Holds innerMacro := .deeper (List.mem_singleton.2 rfl) (.self innerMacro)
  exact ⟨appears, holds, appears_proper Call.colonPack _ _ outerMacro innerMacro appears holds⟩

end Task

end QuestScript

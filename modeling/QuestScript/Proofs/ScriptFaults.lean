import QuestScript.Proofs.ScriptCuts
import QuestScript.Proofs.ScriptStop

/-! Which line of a script a fault is about. The lines before it pass, so every block that they open
ends and all that they declare and import is registered. The fault of a block is on a line of that
block, with a number that counts from the first line of the script; in an imported file line numbers
start anew. -/
namespace QuestScript

open QuestScript.Action

namespace Script

open Workspace

variable {pack : Pack} {lines written : List String} {before after : Workspace}

theorem Passes.free (passes : Passes pack lines before written after) {name : String}
    (free : after.registry.get? name = none) :
    before.registry.get? name = none ∧ name ∉ Block.declared lines := by
  induction passes with
  | nil => exact ⟨free, List.not_mem_nil⟩
  | plain kind _ ih =>
    rw [Block.declared_other (by simp [kind])]
    exact ih free
  | insertion kind _ _ ih =>
    rw [Block.declared_other (by simp [kind])]
    exact ih free
  | block whole _ ih =>
    obtain ⟨free, behind⟩ := ih free
    obtain ⟨free, inside⟩ := whole.free free
    rw [Block.declared, List.filterMap_append, List.mem_append, not_or]
    exact ⟨free, inside, behind⟩
  | importing kind _ _ ih =>
    obtain ⟨free, behind⟩ := ih free
    rw [Block.declared_other (by simp [kind])]
    exact ⟨(Registry.adopt_free free).2.2, behind⟩

/-- The imports on the lines of a script neither spell the name nor bring a macro that declares it. -/
def Unimported (pack : Pack) (session : Session) (name : String) (lines : List String) : Prop :=
  ∀ ahead text behind target, lines = ahead ++ text :: behind →
    ImportTarget.ofLine? text = some target → name ≠ target.name ∧
      ∀ m, ((Session.fetch pack target).run (reached pack session ahead).session).result =
        .ok (some m) → name ≠ m.name

theorem Unimported.append {pack : Pack} {session : Session} {name : String}
    {first second : List String} (earlier : Unimported pack session name first)
    (later : ImportFree second) : Unimported pack session name (first ++ second) := by
  intro ahead text behind target cut asks
  rcases append_cut cut with ⟨between, rfl, -⟩ | ⟨between, rfl, rfl⟩
  · exact earlier ahead text between target rfl asks
  · obtain ⟨tokens, kind, -⟩ := ImportTarget.importing_of_ofLine? asks
    exact absurd kind (later text (by simp) tokens)

theorem Passes.unimported {pack : Pack} {session : Session} {lines written : List String}
    {after : Workspace} (passes : Passes pack lines ⟨session, Dict.empty⟩ written after)
    {name : String} (free : after.registry.get? name = none) : Unimported pack session name lines := by
  intro ahead text behind target cut asks
  subst cut
  obtain ⟨tokens, kind, spelled⟩ := ImportTarget.importing_of_ofLine? asks
  obtain ⟨first, second, middle, target', m, session', start, fetched, ends⟩ := passes.split kind
  obtain ⟨unspelled, undeclared, -⟩ := Registry.adopt_free (ends.free free).1
  have here : reached pack session ahead = middle := (start.gives 1).2
  obtain ⟨spelled', fetched⟩ := Session.gives_fetchTokens.1 fetched
  cases spelled.symm.trans spelled'
  refine ⟨unspelled, fun m' given => ?_⟩
  rw [here, fetched.1] at given
  cases given
  exact undeclared

/-- The fault of a script is about its line `text`, between the lines `before` and `after`. The faults
of end markers and imports arise at the top, where every block before has ended. Inside an imported file
only the lines from the header of the block on count. -/
inductive Blames (pack : Pack) (session : Session) (before : List String) (text : String)
    (after : List String) : Fault → Prop where
  | block {fault : Fault}
      (blames : Block.Blames (fun name => Undeclared name before ∧ Unimported pack session name before)
        (before.length + 1) before text after fault) : Blames pack session before text after fault
  | unexpectedEnd (kind : Directive.ofLine text = .endMarker) (top : Balanced before) :
      Blames pack session before text after (.unexpectedEnd (before.length + 1))
  | importNotFound {target : ImportTarget} (asks : ImportTarget.ofLine? text = some target)
      (top : Balanced before) : Blames pack session before text after
        (.importNotFound (before.length + 1) target.name target.file)
  | imported {target : ImportTarget} {held : List String} {position : Nat} {source : Fault}
      (asks : ImportTarget.ofLine? text = some target) (top : Balanced before)
      (holds : (pack.read target.file).found = .ok (some held))
      (place : held.findIdx? target.definedBy = some position)
      (blames : Block.BlamesIn Dict.empty (position + 1) (held.drop position) source) :
      Blames pack session before text after (.imported target.file source)
  | malformedImport {tokens : List String} (kind : Directive.ofLine text = .importing tokens)
      (top : Balanced before) (malformed : ImportTarget.ofTokens? tokens = none) :
      Blames pack session before text after (.malformedImport (Text.trim text))
  | unreadable {target : ImportTarget} {cause : ReadFault}
      (asks : ImportTarget.ofLine? text = some target) (top : Balanced before)
      (holds : (pack.read target.file).found = .error cause) :
      Blames pack session before text after (.unreadable cause)

section

variable {pack : Pack} {session : Session} {before after : List String} {text : String} {fault : Fault}

theorem Blames.line_eq (blames : Blames pack session before text after fault) {line : Nat}
    (names : line ∈ fault.line?) : line = before.length + 1 := by
  cases blames with
  | block blames =>
    rw [blames.line_eq] at names
    cases names
    rfl
  | unexpectedEnd =>
    cases names
    rfl
  | importNotFound =>
    cases names
    rfl
  | imported => cases names
  | malformedImport => cases names
  | unreadable => cases names

theorem Blames.imported_line {file : String} {source : Fault}
    (blames : Blames pack session before text after (.imported file source)) :
    ∃ held line, (pack.read file).found = .ok (some held) ∧ source.line? = some line ∧ 1 ≤ line ∧
      line ≤ held.length := by
  cases blames with
  | block blames => cases blames
  | @imported target held position _ asks top holds place blames =>
    obtain ⟨earlier, bad, behind, cut, blames⟩ := blames
    refine ⟨held, _, holds, blames.line_eq, by omega, ?_⟩
    have length := congrArg List.length cut
    simp only [List.length_drop, List.length_append, List.length_cons] at length
    omega

theorem Blames.missing {number : Nat} {name : String}
    (blames : Blames pack session before text after (.unknownMacro number name)) :
    Undeclared name before ∧ Unimported pack session name before := by
  cases blames with
  | block blames =>
    cases blames with
    | unknownMacro kind missing => exact missing

theorem Blames.readable {files : Dict String (List String)} {cause : ReadFault} :
    ¬ Blames (.memory files) session before text after (.unreadable cause) := by
  intro blames
  cases blames with
  | block blames => cases blames
  | unreadable asks top holds => cases holds

end

/-- Behind lines that pass, the line where the script stops is the one that the fault is about, or is
the header of the block that has that line. -/
theorem Stops.blames {pack : Pack} {session : Session} {earlier rest written : List String}
    {text : String} {middle after : Workspace} {fault : Fault}
    (passes : Passes pack earlier ⟨session, Dict.empty⟩ written middle)
    (stops : Stops pack (earlier.length + 1) text rest middle fault after) :
    ∃ before bad behind, earlier ++ text :: rest = before ++ bad :: behind ∧
      Blames pack session before bad behind fault := by
  have top := passes.balanced
  cases stops with
  | insertion kind fails =>
    obtain ⟨fails, -⟩ := fails_onRegistry.1 fails
    simp only [Registry.expandTokens, fails_bind, fails_note, fails_pure, and_false, exists_false,
      or_false] at fails
    refine ⟨earlier, text, rest, rfl, .block (.ofTarget kind fails fun name free => ?_)⟩
    exact ⟨undeclared_of_free (passes.free free).2, passes.unimported free⟩
  | block kind fails =>
    obtain ⟨before, bad, behind, cut, blames⟩ := Block.read_blames kind (fails_onRegistry.1 fails).1
    have number : earlier.length + 1 + before.length = (earlier ++ before).length + 1 := by
      rw [List.length_append]
      omega
    rw [number] at blames
    refine ⟨earlier ++ before, bad, behind, by rw [cut, List.append_assoc], .block ?_⟩
    refine blames.behind fun name missing => ?_
    have free := (passes.free missing.unbound).2
    exact ⟨missing.undeclared.behind free, (passes.unimported missing.unbound).append missing.noImport⟩
  | importing kind fails =>
    rcases Session.fetchTokens_fails (fails_onSession.1 fails).1 with
      ⟨malformed, rfl⟩ | ⟨target, spelled, failed⟩
    · exact ⟨earlier, text, rest, rfl, .malformedImport kind top malformed⟩
    have asks := (ImportTarget.ofLine?_importing kind).trans spelled
    rcases Session.answer_failed failed with
      ⟨cause, holds, rfl⟩ | ⟨held, position, source, _, holds, place, reading, rfl⟩
    · exact ⟨earlier, text, rest, rfl, .unreadable asks top holds⟩
    · have blames := Block.readAt_blames place reading
      exact ⟨earlier, text, rest, rfl, .imported asks top holds place blames⟩
  | missing kind fetched =>
    obtain ⟨spelled, -⟩ := Session.gives_fetchTokens.1 (gives_onSession.1 fetched).1
    have asks := (ImportTarget.ofLine?_importing kind).trans spelled
    exact ⟨earlier, text, rest, rfl, .importNotFound asks top⟩
  | endMarker kind => exact ⟨earlier, text, rest, rfl, .unexpectedEnd kind top⟩

/-- A script that fails has its fault on one of its lines. That line is of the kind the fault speaks of,
and its number, if the fault gives one, is the place of the line in the script. The fault of an
imported macro is on a line of the file, in the block that the import asks for. Files in memory can
all be read. -/
theorem expand_blames (pack : Pack) (session : Session) (lines : List String) (fault : Fault)
    (failed : ((expand pack lines).run session).result = .error fault) :
    (∃ before text after, lines = before ++ text :: after ∧
      Blames pack session before text after fault) ∧
    (∀ line ∈ fault.line?, 1 ≤ line ∧ line ≤ lines.length) ∧
    (∀ file source, fault = .imported file source → ∃ held line,
      (pack.read file).found = .ok (some held) ∧ source.line? = some line ∧ 1 ≤ line ∧
        line ≤ held.length) ∧
    ∀ files, pack = .memory files → ∀ cause, fault ≠ .unreadable cause := by
  obtain ⟨earlier, text, rest, written, middle, rfl, passes, stops⟩ := expandFrom_stopsIn
    (⟨failed, rfl⟩ : (expandFrom pack 1 lines).Fails ⟨session, Dict.empty⟩ fault
      (reached pack session lines))
  rw [Nat.add_comm] at stops
  obtain ⟨before, bad, behind, cut, blames⟩ := stops.blames passes
  rw [cut]
  refine ⟨⟨before, bad, behind, rfl, blames⟩, fun line names => ?_, ?_, ?_⟩
  · rw [blames.line_eq names, List.length_append, List.length_cons]
    omega
  · rintro file source rfl
    exact blames.imported_line
  · rintro files rfl cause rfl
    exact Blames.readable blames

def woodPack : Pack := .memory ⟨[("wood.txt", ["QBN:", "macro Tree", "trunk", "macro r: Root"])]⟩

theorem expand_blames_wood :
    ((expand greetings (treeLines ++ openLines)).run Session.start).result =
        .error (.unknownMacro 9 "Root") ∧
      (∃ before text after, treeLines ++ openLines = before ++ text :: after ∧ before.length = 8 ∧
        Undeclared "Root" before ∧ Unimported greetings Session.start "Root" before) ∧
      ((expand woodPack ["import macro tree from wood.txt"]).run Session.start).result =
        .error (.imported "wood.txt" (.unknownMacro 4 "Root")) ∧
      ∃ held, (woodPack.read "wood.txt").found = .ok (some held) ∧ 4 ≤ held.length := by
  have failed : ((expand greetings (treeLines ++ openLines)).run Session.start).result =
      .error (.unknownMacro 9 "Root") := by decide +kernel
  have failed' : ((expand woodPack ["import macro tree from wood.txt"]).run Session.start).result =
      .error (.imported "wood.txt" (.unknownMacro 4 "Root")) := by decide +kernel
  obtain ⟨⟨before, text, after, cut, blames⟩, -⟩ :=
    expand_blames greetings Session.start (treeLines ++ openLines) _ failed
  obtain ⟨-, -, inside, -⟩ := expand_blames woodPack Session.start _ _ failed'
  obtain ⟨held, line, holds, names, -, within⟩ := inside _ _ rfl
  cases names
  have place : 9 = before.length + 1 := blames.line_eq rfl
  exact ⟨failed, ⟨before, text, after, cut, by omega, blames.missing⟩, failed', held, holds, within⟩

end Script

end QuestScript

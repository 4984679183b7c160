import QuestScript.Proofs.ScriptStop
import QuestScript.Proofs.SessionUse

/-! Reads of a session over files in memory. An import that the cache does not answer reads one
file, and is cached afterwards unless the block in the file has a fault. So there are three kinds of
reads: those that gave the cache an entry, those of imports that ended in such a fault, and those
made without an import. -/
namespace QuestScript

open QuestScript.Action

namespace Fault

def isImported : Fault → Bool
  | .imported .. => true
  | _ => false

theorem Names.not_imported {fault : Fault} {first : Nat} (names : fault.Names first) :
    fault.isImported = false := by
  obtain ⟨line, named, -⟩ := names
  cases fault with
  | imported file source => cases named
  | _ => rfl

end Fault

def endsImported {α : Type} : Except Fault α → Bool
  | .ok _ => false
  | .error fault => fault.isImported

@[simp] theorem endsImported_map {α β : Type} (f : α → β) (result : Except Fault α) :
    endsImported (result.map f) = endsImported result := by
  cases result <;> rfl

namespace Registry

theorem expandLine_names {text : String} {before after : Registry} {fault : Fault}
    (fails : (expandLine text).Fails before fault after) : fault.Names 1 := by
  unfold expandLine at fails
  split at fails
  · exact expandTokens_names fails
  · rw [(fails_fail.1 fails).1]
    exact ⟨1, rfl, Nat.le_refl 1⟩

end Registry

namespace Session

/-- From the one session to the other, files were read so many times more often than the cache got
new entries. -/
def Spent (extra : Nat) (before after : Session) : Prop :=
  after.reads + before.cache.size = before.reads + after.cache.size + extra

theorem Spent.nothing (session : Session) : Spent 0 session session := rfl

theorem Spent.trans {first later : Nat} {before middle after : Session}
    (start : Spent first before middle) (rest : Spent later middle after) :
    Spent (first + later) before after := by
  unfold Spent at start rest ⊢
  omega

variable (files : Dict String (List String))

variable {files} in
theorem answer_memory {target : ImportTarget} {fault : Fault}
    (fails : answer (.memory files) target = .error fault) : fault.isImported = true := by
  rcases answer_failed fails with ⟨cause, unreadable, -⟩ | ⟨_, _, source, _, -, -, -, rfl⟩
  · cases unreadable
  · rfl

theorem fetch_spent (target : ImportTarget) (session : Session) :
    Spent (endsImported ((fetch (.memory files) target).run session).result).toNat session
      ((fetch (.memory files) target).run session).state := by
  cases cached : session.cache.get? target.key with
  | some found =>
    obtain ⟨result, state⟩ := fetch_cached (.memory files) cached
    rw [result, state]
    exact .nothing session
  | none =>
    obtain ⟨result, state⟩ := fetch_missed (.memory files) cached
    have fresh : session.cache.contains target.key = false := by simp [Dict.contains, cached]
    rw [result, state]
    cases anew : answer (.memory files) target with
    | ok found =>
      simp only [endsImported, Bool.toNat_false, Spent, Dict.size_insert, fresh]
      simp only [Bool.false_eq_true, if_false]
      omega
    | error fault =>
      simp only [endsImported, answer_memory anew, Bool.toNat_true, Spent]
      omega

theorem fetchTokens_spent (text : String) (tokens : List String) (session : Session) :
    Spent (endsImported ((fetchTokens (.memory files) text tokens).run session).result).toNat
      session ((fetchTokens (.memory files) text tokens).run session).state := by
  cases asked : ImportTarget.ofTokens? tokens with
  | none =>
    simp only [fetchTokens, asked]
    exact .nothing session
  | some target =>
    obtain ⟨result, state⟩ := map_run (target, ·) (fetch (.memory files) target) session
    rw [fetchTokens_eq asked, result, state, endsImported_map]
    exact fetch_spent files target session

theorem fetchLine_spent (line : String) (session : Session) :
    Spent (endsImported ((fetchLine (.memory files) line).run session).result).toNat session
      ((fetchLine (.memory files) line).run session).state := by
  cases asks : ImportTarget.ofLine? line with
  | none =>
    rw [fetchLine_malformed asks]
    exact .nothing session
  | some target =>
    rw [fetchLine_eq asks]
    exact fetch_spent files target session

end Session

namespace Script

open Session Workspace

variable {files : Dict String (List String)} {before after : Workspace} {fault : Fault}

/-- Of the lines that pass only imports touch the session, and each is answered. -/
theorem Passes.spent {lines written : List String}
    (passes : Passes (.memory files) lines before written after) :
    Spent 0 before.session after.session := by
  induction passes with
  | nil => exact .nothing _
  | plain _ _ ih => exact ih
  | insertion _ _ _ ih => exact ih
  | block _ _ ih => exact ih
  | @importing text tokens _ _ target session session' _ _ m _ fetched _ ih =>
    have here := fetchTokens_spent files text tokens session
    rw [fetched.1, fetched.2] at here
    exact here.trans ih

theorem Stops.spent {line : Nat} {text : String} {rest : List String}
    (stops : Stops (.memory files) line text rest before fault after) :
    Spent fault.isImported.toNat before.session after.session := by
  cases stops with
  | insertion kind fails =>
    obtain ⟨fails, kept⟩ := fails_onRegistry.1 fails
    have names := Registry.expandTokens_names fails
    rw [names.not_imported, kept]
    exact .nothing _
  | block kind fails =>
    obtain ⟨fails, kept⟩ := fails_onRegistry.1 fails
    have names := Block.read_late fails
    rw [names.not_imported, kept]
    exact .nothing _
  | @importing tokens _ _ _ kind fails =>
    obtain ⟨fails, -⟩ := fails_onSession.1 fails
    have here := fetchTokens_spent files text tokens before.session
    rw [fails.1, fails.2] at here
    exact here
  | @missing tokens _ _ _ kind fetched =>
    obtain ⟨gives, -⟩ := gives_onSession.1 fetched
    have here := fetchTokens_spent files text tokens before.session
    rw [gives.1, gives.2] at here
    exact here
  | endMarker kind => exact .nothing _

theorem expand_spent (files : Dict String (List String)) (lines : List String) (session : Session) :
    Spent (endsImported ((expand (.memory files) lines).run session).result).toNat session
      ((expand (.memory files) lines).run session).state := by
  let start : Workspace := ⟨session, Dict.empty⟩
  show Spent (endsImported ((expandFrom (.memory files) 1 lines).run start).result).toNat
    start.session ((expandFrom (.memory files) 1 lines).run start).state.session
  rcases gives_or_fails (expandFrom (.memory files) 1 lines) start with ⟨out, gives⟩ | ⟨fault, fails⟩
  · rw [gives.1]
    exact (expandFrom_passes gives).spent
  · obtain ⟨earlier, text, rest, written, middle, -, passes, stops⟩ := expandFrom_stopsIn fails
    have both := passes.spent.trans stops.spent
    rw [Nat.zero_add] at both
    rw [fails.1]
    exact both

end Script

namespace Use

open Session

def isReading : Use → Bool
  | reading _ => true
  | _ => false

variable (files : Dict String (List String))

theorem call_spent (call : Call) (session : Session) :
    Spent (endsImported ((call.run (.memory files)).run session).result).toNat session
      ((call.run (.memory files)).run session).state := by
  cases call with
  | importing line =>
    obtain ⟨result, state⟩ := Call.importing_run (.memory files) line session
    rw [result, state, endsImported_map]
    exact fetchLine_spent files line session
  | expanding script =>
    obtain ⟨result, state⟩ := Call.expanding_run (.memory files) script session
    rw [result, state, endsImported_map]
    exact Script.expand_spent files script session

theorem run_spent (use : Use) (session : Session) :
    Spent ((endsImported ((use.run (.memory files)).run session).result).toNat +
      use.isReading.toNat) session ((use.run (.memory files)).run session).state := by
  cases use with
  | calling call =>
    obtain ⟨result, state⟩ := map_run Reply.answer (call.run (.memory files)) session
    rw [run, result, state, endsImported_map]
    exact call_spent files call session
  | resolving line registry =>
    obtain ⟨result, state⟩ := map_run (fun written => Reply.answer (.lines written))
      (apart registry (Registry.expandLine line)) session
    rw [run, result, state, endsImported_map]
    have clear : endsImported ((Registry.expandLine line).run registry).result = false := by
      cases ends : ((Registry.expandLine line).run registry).result with
      | ok written => rfl
      | error fault => exact (Registry.expandLine_names ⟨ends, rfl⟩).not_imported
    show Spent ((endsImported ((Registry.expandLine line).run registry).result).toNat + 0)
      session session
    rw [clear]
    exact .nothing session
  | reading path =>
    obtain ⟨result, state⟩ := map_run Reply.file (readLines (.memory files) path) session
    obtain ⟨found, counted⟩ := readLines_run (.memory files) path session
    rw [run, result, state, endsImported_map, found, counted]
    show session.reads + 1 + session.cache.size = session.reads + session.cache.size + 1
    omega

theorem after_spent (uses : List Use) (session : Session) :
    Spent ((replies (.memory files) uses session).countP endsImported + uses.countP isReading)
      session (after (.memory files) uses session) := by
  induction uses generalizing session with
  | nil => exact .nothing session
  | cons use later ih =>
    have both := (run_spent files use session).trans (ih _)
    have count : ∀ b : Bool, b.toNat = if b = true then 1 else 0 := by decide
    rw [replies, after_cons, List.countP_cons, List.countP_cons, ← count, ← count]
    unfold Spent at both ⊢
    omega

/-- Over files in memory each read gave the cache an entry, or was made by a call that ended in the
fault of an imported block, or was made without an import. So a malformed import and one that is
answered from the cache read nothing and change nothing, and a script that ends otherwise, whatever
fault it has, reads once for each entry it adds. -/
theorem reads_accounted :
    (∀ uses : List Use,
      (after (.memory files) uses Session.start).reads =
        (after (.memory files) uses Session.start).cache.size +
          (replies (.memory files) uses Session.start).countP endsImported +
            uses.countP isReading) ∧
      (∀ session line, ImportTarget.ofLine? line = none →
        (((calling (.importing line)).run (.memory files)).run session).state = session) ∧
      (∀ session line target found, ImportTarget.ofLine? line = some target →
        session.cache.get? target.key = some found →
          (((calling (.importing line)).run (.memory files)).run session).state = session) ∧
      ∀ session script,
        endsImported (((calling (.expanding script)).run (.memory files)).run session).result =
            false →
          (((calling (.expanding script)).run (.memory files)).run session).state.reads +
              session.cache.size =
            session.reads +
              (((calling (.expanding script)).run (.memory files)).run session).state.cache.size := by
  refine ⟨fun uses => ?_, fun session line asks => ?_, ?_, fun session script other => ?_⟩
  · have whole := after_spent files uses Session.start
    simp only [Spent, Session.start, Dict.empty, Dict.size, List.length_nil] at whole
    simp only [Session.start, Dict.empty, Dict.size]
    omega
  · rw [run, (map_run _ _ _).2, (Call.importing_run ..).2, Session.fetchLine_malformed asks]
    rfl
  · intro session line target found asks cached
    rw [run, (map_run _ _ _).2, (Call.importing_run ..).2, Session.fetchLine_eq asks]
    exact (fetch_cached (.memory files) cached).2
  · have here := run_spent files (calling (.expanding script)) session
    rw [other] at here
    exact here

def countedFiles : Dict String (List String) :=
  ⟨[("common.txt", ["macro Hello &who", "hello &who", "end macro"]),
    ("broken.txt", ["macro Open", "never closed"])]⟩

def countedUses : List Use :=
  [.calling (.importing "import macro Hello from common.txt"),
    .calling (.expanding ["import macro hello from common.txt", "import macro Bye from common.txt"]),
    .resolving "macro h: Hello you" Dict.empty,
    .calling (.importing "import macro Open from broken.txt"), .reading "common.txt",
    .calling (.expanding ["macro Ping", "end macro", "import macro Open from broken.txt"])]

def countedSession : Session :=
  ⟨⟨[("common.txt::hello", some ⟨["macro", "Hello", "&who"], some ["hello &who"], []⟩),
    ("common.txt::bye", none)]⟩, 5⟩

def countedScript : List String :=
  ["import macro Hello from common.txt", "import macro Wave from common.txt", "macro h: Hello you"]

deriving instance DecidableEq for Session

theorem reads_accounted_mixed :
    after (.memory countedFiles) countedUses Session.start = countedSession ∧
      countedSession.reads = countedSession.cache.size + 2 + 1 ∧
      ImportTarget.ofLine? "import macro Hello" = none ∧
      (((calling (.importing "import macro Hello")).run (.memory countedFiles)).run
        countedSession).state = countedSession ∧
      (((calling (.importing "IMPORT macro bye FROM common.txt")).run (.memory countedFiles)).run
        countedSession).state = countedSession ∧
      (((calling (.expanding countedScript)).run (.memory countedFiles)).run countedSession).result =
        .error (.importNotFound 2 "Wave" "common.txt") ∧
      (((calling (.expanding countedScript)).run (.memory countedFiles)).run
          countedSession).state.reads + countedSession.cache.size =
        countedSession.reads +
          (((calling (.expanding countedScript)).run (.memory countedFiles)).run
            countedSession).state.cache.size := by
  obtain ⟨counts, malformed, cached, otherwise⟩ := reads_accounted countedFiles
  have told : after (.memory countedFiles) countedUses Session.start = countedSession ∧
      (replies (.memory countedFiles) countedUses Session.start).countP endsImported = 2 := by
    decide +kernel
  have direct : countedUses.countP isReading = 1 := by decide
  have asked : ImportTarget.ofLine? "import macro Hello" = none := by decide +kernel
  have known : ImportTarget.ofLine? "IMPORT macro bye FROM common.txt" =
      some ⟨"bye", "common.txt"⟩ := by decide +kernel
  have held : countedSession.cache.get? (ImportTarget.key ⟨"bye", "common.txt"⟩) = some none := by
    decide +kernel
  have stops : (((calling (.expanding countedScript)).run (.memory countedFiles)).run
      countedSession).result = .error (.importNotFound 2 "Wave" "common.txt") := by decide +kernel
  have total := counts countedUses
  rw [told.1, told.2, direct] at total
  have script := otherwise countedSession countedScript
  rw [stops] at script
  exact ⟨told.1, total, asked, malformed countedSession _ asked,
    cached countedSession _ _ _ known held, stops, script rfl⟩

end Use

end QuestScript

import QuestScript.Proofs.ImportOrigin

/-! Uses of a session by a host. Besides making calls, a host expands single insertions with macros
of its own, which leaves the session alone, and reads files without an import, which counts as a
read and leaves the cache alone. What a use replies depends on the pack through the files it asks
for and on nothing else: two packs that hold the same there serve it alike. -/
namespace QuestScript

open QuestScript.Action

namespace Session

variable {pack pack' : Pack} {target : ImportTarget}

theorem fetchTokens_eq {text : String} {tokens : List String}
    (asked : ImportTarget.ofTokens? tokens = some target) :
    fetchTokens pack text tokens = (target, ·) <$> fetch pack target := by
  simp only [fetchTokens, asked, map_eq_pure_bind]

theorem answer_same (same : (pack.read target.file).found = (pack'.read target.file).found) :
    answer pack target = answer pack' target := by
  unfold answer
  rw [same]

theorem fetch_same (same : (pack.read target.file).found = (pack'.read target.file).found) :
    Agree Eq (fetch pack target) (fetch pack' target) := by
  rintro session _ rfl
  cases cached : session.cache.get? target.key with
  | some found =>
    have here := fetch_cached pack cached
    have there := fetch_cached pack' cached
    exact ⟨here.1.trans there.1.symm, here.2.trans there.2.symm⟩
  | none =>
    have here := fetch_missed pack cached
    have there := fetch_missed pack' cached
    rw [answer_same same] at here
    exact ⟨here.1.trans there.1.symm, here.2.trans there.2.symm⟩

theorem readLines_same {path : String} (same : (pack.read path).found = (pack'.read path).found) :
    Agree Eq (readLines pack path) (readLines pack' path) := by
  rintro session _ rfl
  have here := readLines_run pack path session
  have there := readLines_run pack' path session
  rw [same] at here
  exact ⟨here.1.trans there.1.symm, here.2.trans there.2.symm⟩

end Session

inductive Use where
  | calling (call : Call)
  /-- An insertion is expanded with the macros of a registry that is not the session's. -/
  | resolving (line : String) (registry : Registry)
  | reading (path : String)

inductive Reply where
  | answer (given : Answer)
  | file (lines : Option (List String))
  deriving DecidableEq

namespace Use

def run (pack : Pack) : Use → Action Session Reply
  | calling call => .answer <$> call.run pack
  | resolving line registry =>
    (fun written => .answer (.lines written)) <$> apart registry (Registry.expandLine line)
  | reading path => .file <$> Session.readLines pack path

/-- The session that uses leave. A use goes on from what the one before it left, also when that
failed. -/
def after (pack : Pack) (uses : List Use) (session : Session) : Session :=
  uses.foldl (fun session use => ((use.run pack).run session).state) session

def replies (pack : Pack) : List Use → Session → List (Except Fault Reply)
  | [], _ => []
  | use :: later, session =>
    ((use.run pack).run session).result :: replies pack later ((use.run pack).run session).state

theorem after_cons (pack : Pack) (use : Use) (later : List Use) (session : Session) :
    after pack (use :: later) session = after pack later ((use.run pack).run session).state := rfl

def files : Use → List String
  | calling call => (Call.asked call.lines).map ImportTarget.file
  | resolving .. => []
  | reading path => [path]

theorem run_same {pack pack' : Pack} {use : Use}
    (same : ∀ file ∈ use.files, (pack.read file).found = (pack'.read file).found) :
    Agree Eq (use.run pack) (use.run pack') := by
  cases use with
  | calling call =>
    rw [run, run]
    refine (Call.run_agree call fun line member target asks => Session.fetch_same ?_).map _
    have asked : target ∈ Call.asked call.lines := List.mem_filterMap.2 ⟨line, member, asks⟩
    exact same target.file (List.mem_map_of_mem asked)
  | resolving line registry =>
    rw [run, run]
    rintro session _ rfl
    exact ⟨rfl, rfl⟩
  | reading path =>
    rw [run, run]
    exact (Session.readLines_same (same path (List.mem_singleton.2 rfl))).map _

/-- Packs that hold the same in all the files that are asked for serve the same session alike: with
the same replies, and with the same session in the end. -/
theorem replies_same {pack pack' : Pack} {uses : List Use}
    (same : ∀ use ∈ uses, ∀ file ∈ use.files, (pack.read file).found = (pack'.read file).found)
    (session : Session) :
    replies pack uses session = replies pack' uses session ∧
      after pack uses session = after pack' uses session := by
  induction uses generalizing session with
  | nil => simp only [replies, after, List.foldl_nil, and_self]
  | cons use later ih =>
    obtain ⟨here, behind⟩ := List.forall_mem_cons.1 same
    obtain ⟨result, state⟩ := run_same here session session rfl
    obtain ⟨more, left⟩ := ih behind ((use.run pack).run session).state
    refine ⟨?_, ?_⟩
    · rw [replies, result, more, state, replies]
    · rw [after_cons, left, state, after_cons]

end Use

end QuestScript

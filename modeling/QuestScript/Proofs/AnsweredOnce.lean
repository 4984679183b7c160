import Mathlib.Data.List.Basic
import QuestScript.Proofs.ImportOrigin
import QuestScript.Proofs.ScriptStop
import QuestScript.Proofs.TopLevel

/-! Answers of a session in a world that changes. Between the calls of a session files are read, and
on disk anything may be written or removed. All that touches the cache are the queries, which calls
make one after the other, also inside a script and also when the script then fails: each starts from
the cache that the one before it left. An answer stays, and a failed query leaves nothing behind. -/
namespace QuestScript

open QuestScript.Action

structure Query where
  pack : Pack
  target : ImportTarget
  session : Session

namespace Query

def outcome (query : Query) : Outcome Session (Option Macro) :=
  (Session.fetch query.pack query.target).run query.session

end Query

namespace Session

def Kept (before after : Dict String (Option Macro)) : Prop :=
  ∀ key found, before.get? key = some found → after.get? key = some found

theorem answer_error {pack : Pack} {target : ImportTarget} {fault : Fault}
    (fails : answer pack target = .error fault) :
    (∃ source, fault = .imported target.file source) ∨ ∃ cause, fault = .unreadable cause := by
  rcases answer_failed fails with ⟨cause, -, rfl⟩ | ⟨_, _, source, _, -, -, -, rfl⟩
  · exact .inr ⟨cause, rfl⟩
  · exact .inl ⟨source, rfl⟩

end Session

namespace Query

variable {query : Query}

theorem outcome_cached {found : Option Macro}
    (cached : query.session.cache.get? query.target.key = some found) :
    query.outcome = ⟨.ok found, query.session, [.cacheHit query.target.key]⟩ := by
  have opened : (Action.get : Action Session Session).run query.session =
      ⟨.ok query.session, query.session, []⟩ := rfl
  have noted : (Action.note [.cacheHit query.target.key] : Action Session Unit).run query.session =
      ⟨.ok (), query.session, [.cacheHit query.target.key]⟩ := rfl
  rw [outcome, Session.fetch, bind_run_ok opened]
  simp only [cached]
  rw [bind_run_ok noted]
  rfl

theorem missed_of_error {fault : Fault} (fails : query.outcome.result = .error fault) :
    query.session.cache.get? query.target.key = none := by
  cases cached : query.session.cache.get? query.target.key with
  | none => rfl
  | some found =>
    rw [outcome_cached cached] at fails
    cases fails

theorem outcome_error {fault : Fault} (fails : query.outcome.result = .error fault) :
    query.outcome.state.cache = query.session.cache ∧
      ((∃ source, fault = .imported query.target.file source) ∨
        ∃ cause, fault = .unreadable cause) := by
  obtain ⟨result, state⟩ := Session.fetch_missed query.pack (missed_of_error fails)
  have anew := result.symm.trans fails
  rw [anew] at state
  rw [outcome, state]
  exact ⟨rfl, Session.answer_error anew⟩

theorem outcome_other {key : String} (other : key ≠ query.target.key) :
    query.outcome.state.cache.get? key = query.session.cache.get? key := by
  cases cached : query.session.cache.get? query.target.key with
  | some answer => rw [outcome_cached cached]
  | none =>
    obtain ⟨-, state⟩ := Session.fetch_missed query.pack cached
    rw [outcome, state]
    split
    · exact Dict.get?_insert_of_ne _ _ other
    · rfl

theorem outcome_kept (query : Query) :
    Session.Kept query.session.cache query.outcome.state.cache := by
  intro key found known
  by_cases same : key = query.target.key
  · rw [outcome_cached (same ▸ known)]
    exact known
  · exact (outcome_other same).trans known

theorem outcome_ok {found : Option Macro} (answers : query.outcome.result = .ok found) :
    query.outcome.state.cache.get? query.target.key = some found := by
  cases cached : query.session.cache.get? query.target.key with
  | some known =>
    rw [outcome_cached cached] at answers ⊢
    cases answers
    exact cached
  | none =>
    obtain ⟨result, state⟩ := Session.fetch_missed query.pack cached
    have anew := result.symm.trans answers
    rw [anew] at state
    rw [outcome, state]
    exact Dict.get?_insert_self ..

end Query

inductive Linked : Dict String (Option Macro) → List Query → Dict String (Option Macro) → Prop where
  | nil {cache : Dict String (Option Macro)} : Linked cache [] cache
  | cons {query : Query} {later : List Query} {after : Dict String (Option Macro)}
      (rest : Linked query.outcome.state.cache later after) :
      Linked query.session.cache (query :: later) after

namespace Linked

variable {before middle after : Dict String (Option Macro)} {queries more : List Query}

theorem one (query : Query) : Linked query.session.cache [query] query.outcome.state.cache :=
  .cons .nil

theorem append (first : Linked before queries middle) (second : Linked middle more after) :
    Linked before (queries ++ more) after := by
  induction first with
  | nil => exact second
  | cons _ ih => exact .cons (ih second)

theorem kept (linked : Linked before queries after) : Session.Kept before after := by
  induction linked with
  | nil => exact fun _ _ known => known
  | cons _ ih => exact fun key found known => ih key found (Query.outcome_kept _ key found known)

theorem split {query : Query} (linked : Linked before (queries ++ query :: more) after) :
    Linked before queries query.session.cache ∧ Linked query.outcome.state.cache more after := by
  induction queries generalizing before with
  | nil =>
    cases linked with
    | cons rest => exact ⟨.nil, rest⟩
  | cons first queries ih =>
    cases linked with
    | cons rest => exact ⟨.cons (ih rest).1, (ih rest).2⟩

theorem missing {key : String} (linked : Linked before queries after)
    (others : ∀ query ∈ queries, key ≠ query.target.key) (absent : before.get? key = none) :
    after.get? key = none := by
  induction linked with
  | nil => exact absent
  | cons _ ih =>
    obtain ⟨other, later⟩ := List.forall_mem_cons.1 others
    exact ih later ((Query.outcome_other other).trans absent)

theorem answered (linked : Linked before queries after) :
    queries.Pairwise fun query later => ∀ found, query.outcome.result = .ok found →
      later.target.Alike query.target →
        later.outcome = ⟨.ok found, later.session, [.cacheHit later.target.key]⟩ := by
  induction linked with
  | nil => exact .nil
  | @cons query later after rest ih =>
    refine List.pairwise_cons.2 ⟨?_, ih⟩
    intro next member found answers alike
    obtain ⟨between, behind, rfl⟩ := List.append_of_mem member
    refine Query.outcome_cached ?_
    rw [alike.key_eq]
    exact rest.split.1.kept _ found (Query.outcome_ok answers)

end Linked

namespace Script

open Workspace

/-- The query made at a line of a script, if the lines before it expand and it is an import. -/
def queriesAt (pack : Pack) (start : Workspace) (place : List String × String) : List Query :=
  match (expandFrom pack 1 place.1).run start with
  | ⟨.ok _, space, _⟩ => (ImportTarget.ofLine? place.2).toList.map (⟨pack, ·, space.session⟩)
  | ⟨.error _, _, _⟩ => []

def queries (pack : Pack) (session : Session) (lines : List String) : List Query :=
  (placed [] lines).flatMap (queriesAt pack ⟨session, Dict.empty⟩)

variable {pack : Pack} {start before after : Workspace} {text : String} {line : Nat}
  {fault : Fault} {earlier rest written : List String}

theorem queriesAt_reached (reaches : Passes pack earlier start written before) (text : String) :
    queriesAt pack start (earlier, text) =
      (ImportTarget.ofLine? text).toList.map (⟨pack, ·, before.session⟩) := by
  obtain ⟨result, state⟩ := reaches.gives 1
  unfold queriesAt
  rcases ends : (expandFrom pack 1 earlier).run start with ⟨fault | written', space, log⟩
  · rw [ends] at result
    cases result
  · rw [ends] at state
    rw [← state]

theorem queriesAt_stopped (fails : (expandFrom pack 1 earlier).Fails start fault after)
    (text : String) : queriesAt pack start (earlier, text) = [] := by
  obtain ⟨result, -⟩ := fails
  unfold queriesAt
  rcases ends : (expandFrom pack 1 earlier).run start with ⟨fault | written, space, log⟩
  · rfl
  · rw [ends] at result
    cases result

theorem mem_placed {lines : List String} {place : List String × String}
    (member : place ∈ placed earlier lines) :
    ∃ used behind, place.1 = earlier ++ used ∧ lines = used ++ place.2 :: behind := by
  induction lines generalizing earlier with
  | nil => cases member
  | cons text lines ih =>
    rw [placed] at member
    rcases List.mem_cons.1 member with rfl | later
    · exact ⟨[], lines, (List.append_nil _).symm, rfl⟩
    · obtain ⟨used, behind, same, rfl⟩ := ih later
      exact ⟨text :: used, behind, by rw [same, List.append_assoc, List.singleton_append], rfl⟩

theorem ofLine?_other (other : ∀ tokens, Directive.ofLine text ≠ .importing tokens) :
    ImportTarget.ofLine? text = none := by
  unfold ImportTarget.ofLine?
  split
  · next tokens kind => exact absurd kind (other tokens)
  · rfl

theorem queriesAt_other (other : ∀ tokens, Directive.ofLine text ≠ .importing tokens)
    (start : Workspace) (earlier : List String) : queriesAt pack start (earlier, text) = [] := by
  unfold queriesAt
  rw [ofLine?_other other]
  split <;> rfl

theorem importing_linked {tokens : List String} (kind : Directive.ofLine text = .importing tokens)
    (pack : Pack) (session : Session) :
    Linked session.cache ((ImportTarget.ofLine? text).toList.map (⟨pack, ·, session⟩))
      ((Session.fetchTokens pack text tokens).run session).state.cache := by
  rw [ImportTarget.ofLine?_importing kind]
  unfold Session.fetchTokens
  cases ImportTarget.ofTokens? tokens with
  | none => exact .nil
  | some target =>
    have mapped := map_run (target, ·) (Session.fetch pack target) session
    rw [map_eq_pure_bind] at mapped
    rw [mapped.2]
    exact Linked.one ⟨pack, target, session⟩

theorem Passes.linked {lines : List String} (passes : Passes pack lines before written after)
    {earlier out : List String} (reaches : Passes pack earlier start out before) :
    Linked before.session.cache ((placed earlier lines).flatMap (queriesAt pack start))
      after.session.cache := by
  induction passes generalizing earlier out with
  | nil => exact .nil
  | @plain text body rest written before after kind _ ih =>
    have other : ∀ tokens, Directive.ofLine text ≠ .importing tokens := by simp [kind]
    rw [placed, List.flatMap_cons, queriesAt_other other]
    exact ih (reaches.append (.plain kind .nil))
  | @insertion text keyword place name arguments rest written before after m kind bound _ ih =>
    have other : ∀ tokens, Directive.ofLine text ≠ .importing tokens := by simp [kind]
    rw [placed, List.flatMap_cons, queriesAt_other other]
    exact ih (reaches.append (.insertion kind bound .nil))
  | @block block rest written session registry middle after m whole _ ih =>
    have none : (placed earlier block).flatMap (queriesAt pack start) = [] := by
      rw [List.flatMap_eq_nil_iff]
      rintro ⟨used, text⟩ member
      obtain ⟨_, _, -, stands⟩ := mem_placed member
      exact queriesAt_other (whole.no_import (by rw [stands]; simp)) start used
    rw [placed_append, List.flatMap_append, none]
    exact ih (reaches.append (.ofWhole whole session))
  | @importing text tokens rest written target session session' registry after m kind fetched _ ih =>
    have here := importing_linked kind pack session
    rw [fetched.2, ← queriesAt_reached reaches text] at here
    rw [placed, List.flatMap_cons]
    exact here.append (ih (reaches.append (.importing kind fetched .nil)))

theorem Stops.linked (stops : Stops pack line text rest before fault after) :
    Linked before.session.cache
      ((ImportTarget.ofLine? text).toList.map (⟨pack, ·, before.session⟩)) after.session.cache := by
  have none : (∀ tokens, Directive.ofLine text ≠ .importing tokens) →
      (ImportTarget.ofLine? text).toList.map (⟨pack, ·, before.session⟩ : ImportTarget → Query) = [] := by
    intro other
    rw [ofLine?_other other]
    rfl
  cases stops with
  | insertion kind fails =>
    rw [none (by simp [kind]), (fails_onRegistry.1 fails).2]
    exact .nil
  | block kind fails =>
    rw [none (by simp [kind]), (fails_onRegistry.1 fails).2]
    exact .nil
  | importing kind fails =>
    rw [← (fails_onSession.1 fails).1.2]
    exact importing_linked kind pack before.session
  | missing kind fetched =>
    rw [← (gives_onSession.1 fetched).1.2]
    exact importing_linked kind pack before.session
  | endMarker kind =>
    rw [none (by simp [kind])]
    exact .nil

theorem Stops.stuck (stops : Stops pack line text rest before fault after) {used behind : List String}
    (cut : rest = used ++ behind) :
    ∃ fault' after', (expandFrom pack line (text :: used)).Fails before fault' after' := by
  have here : ∀ {fault' : Fault} {after' : Workspace}, Stops pack line text used before fault' after' →
      ∃ fault' after', (expandFrom pack line (text :: used)).Fails before fault' after' :=
    fun stops => ⟨_, _, stops.fails⟩
  cases stops with
  | insertion kind fails => exact here (.insertion kind fails)
  | importing kind fails => exact here (.importing kind fails)
  | missing kind fetched => exact here (.missing kind fetched)
  | endMarker kind => exact here (.endMarker kind)
  | block kind fails =>
    rcases gives_or_fails (expandFrom pack line (text :: used)) before with
      ⟨out, gives⟩ | ⟨fault', stops⟩
    · have passes := expandFrom_passes gives
      generalize ((expandFrom pack line (text :: used)).run before).state = reached at passes
      generalize lines : text :: used = block at passes
      cases passes with
      | nil => cases lines
      | plain kind' _ => cases lines; cases kind.symm.trans kind'
      | insertion kind' _ _ => cases lines; cases kind.symm.trans kind'
      | importing kind' _ _ => cases lines; cases kind.symm.trans kind'
      | @block _ left _ _ _ _ _ _ whole _ =>
        cases whole with
        | @block text' keyword name params used' _ _ found kind' reads =>
          -- The block would be complete, and then it is read however the lines go on.
          obtain ⟨rfl, rfl⟩ := List.cons.inj lines
          subst cut
          have reading := (Block.Whole.block kind' reads).read_gives line (left ++ behind)
          rw [← List.append_assoc] at reading
          exact absurd (fails_onRegistry.1 fails).1 reading.not_fails
    · exact ⟨fault', _, stops⟩

/-- The queries of a script, also of one that fails, take the cache from that of its session to the
one that it leaves. -/
theorem queries_linked (pack : Pack) (session : Session) (lines : List String) :
    Linked session.cache (queries pack session lines)
      ((expand pack lines).run session).state.cache := by
  let start : Workspace := ⟨session, Dict.empty⟩
  show Linked start.session.cache ((placed [] lines).flatMap (queriesAt pack start))
    ((expandFrom pack 1 lines).run start).state.session.cache
  rcases gives_or_fails (expandFrom pack 1 lines) start with ⟨out, gives⟩ | ⟨fault, fails⟩
  · exact (expandFrom_passes gives).linked .nil
  · obtain ⟨earlier, text, rest, written, middle, rfl, passes, stops⟩ := expandFrom_stopsIn fails
    have behind : (placed (earlier ++ [text]) rest).flatMap (queriesAt pack start) = [] := by
      rw [List.flatMap_eq_nil_iff]
      rintro ⟨reached, other⟩ member
      obtain ⟨used, later, rfl, cut⟩ := mem_placed member
      obtain ⟨fault', after', stuck⟩ := stops.stuck cut
      have ends := passes.endsAs 1 (text :: used)
      have mapped := map_run (written ++ ·) (expandFrom pack (1 + earlier.length) (text :: used))
        middle
      have result := ends.1.trans mapped.1
      rw [stuck.1] at result
      rw [List.append_assoc, List.singleton_append]
      exact queriesAt_stopped ⟨result, rfl⟩ other
    rw [placed_append, List.nil_append, placed, List.flatMap_append, List.flatMap_cons, behind,
      List.append_nil, queriesAt_reached passes]
    exact (passes.linked .nil).append stops.linked

end Script

structure World where
  pack : Pack
  session : Session

inductive Event where
  | calling (call : Call)
  | reading (path : String)
  /-- Files on disk are written or removed. A pack in memory stays as it is. -/
  | changing (change : Disk → Disk)

def Pack.change (change : Disk → Disk) : Pack → Pack
  | .memory files => .memory files
  | .directory disk root => .directory (change disk) root

namespace Call

def queries (pack : Pack) (session : Session) : Call → List Query
  | importing line => (ImportTarget.ofLine? line).toList.map (⟨pack, ·, session⟩)
  | expanding script => Script.queries pack session script

theorem queries_linked (pack : Pack) (session : Session) (call : Call) :
    Linked session.cache (call.queries pack session) ((call.run pack).run session).state.cache := by
  cases call with
  | importing line =>
    rw [(importing_run pack line session).2]
    cases asks : ImportTarget.ofLine? line with
    | none =>
      rw [Session.fetchLine_malformed asks, queries, asks]
      exact .nil
    | some target =>
      rw [Session.fetchLine_eq asks, queries, asks]
      exact Linked.one ⟨pack, target, session⟩
  | expanding script =>
    rw [(expanding_run pack script session).2]
    exact Script.queries_linked pack session script

end Call

namespace Event

def step (world : World) : Event → World
  | calling call => ⟨world.pack, ((call.run world.pack).run world.session).state⟩
  | reading path => ⟨world.pack, ((Session.readLines world.pack path).run world.session).state⟩
  | changing change => ⟨world.pack.change change, world.session⟩

def queries (world : World) : Event → List Query
  | calling call => call.queries world.pack world.session
  | reading _ => []
  | changing _ => []

theorem queries_linked (world : World) (event : Event) :
    Linked world.session.cache (event.queries world) (event.step world).session.cache := by
  cases event with
  | calling call => exact call.queries_linked world.pack world.session
  | reading path =>
    rw [step, (Session.readLines_run world.pack path world.session).2]
    exact .nil
  | changing change => exact .nil

end Event

namespace World

def after (world : World) (events : List Event) : World := events.foldl Event.step world

def queries (world : World) : List Event → List Query
  | [] => []
  | event :: later => event.queries world ++ queries (event.step world) later

theorem queries_linked (world : World) (events : List Event) :
    Linked world.session.cache (world.queries events) (world.after events).session.cache := by
  induction events generalizing world with
  | nil => exact .nil
  | cons event later ih => exact (event.queries_linked world).append (ih (event.step world))

/-- Whatever happens to the files: the cache changes by queries alone and keeps all its entries. An
answer given to a query is given to each later one that is alike, which reads no file. A query that
fails leaves the cache as it is, and the next one that is alike reads the file anew, unless one that
swallows it or that it swallows came between. -/
theorem answered_once (world : World) (events : List Event) :
    Linked world.session.cache (world.queries events) (world.after events).session.cache ∧
      (∀ key found, world.session.cache.get? key = some found →
        (world.after events).session.cache.get? key = some found) ∧
      ((world.queries events).Pairwise fun query later =>
        ∀ found, query.outcome.result = .ok found → later.target.Alike query.target →
          later.outcome = ⟨.ok found, later.session, [.cacheHit later.target.key]⟩) ∧
      (∀ query ∈ world.queries events, ∀ fault, query.outcome.result = .error fault →
        query.outcome.state.cache = query.session.cache ∧
          ((∃ source, fault = .imported query.target.file source) ∨
            ∃ cause, fault = .unreadable cause)) ∧
      ∀ earlier query between next later,
        world.queries events = earlier ++ query :: (between ++ next :: later) →
          ∀ fault, query.outcome.result = .error fault → next.target.Alike query.target →
            (∀ other ∈ between, ¬ other.target.Alike query.target ∧
              ¬ other.target.Swallows query.target ∧ ¬ query.target.Swallows other.target) →
              next.outcome.result = Session.answer next.pack next.target ∧
                next.outcome.state.reads = next.session.reads + 1 := by
  have linked := world.queries_linked events
  refine ⟨linked, linked.kept, linked.answered, fun _ _ _ => Query.outcome_error, ?_⟩
  intro earlier query between next later cut fault fails alike apart
  rw [cut] at linked
  obtain ⟨here, -⟩ := linked.split.2.split
  have others : ∀ other ∈ between, query.target.key ≠ other.target.key := by
    intro other member same
    obtain ⟨different, swallows, swallowed⟩ := apart other member
    rcases ImportTarget.key_eq_iff.1 same with both | first | second
    · exact different ⟨both.1.symm, both.2.symm⟩
    · exact swallowed first
    · exact swallows second
  have absent : query.outcome.state.cache.get? query.target.key = none := by
    rw [(Query.outcome_error fails).1]
    exact Query.missed_of_error fails
  have missed := here.missing others absent
  rw [← alike.key_eq] at missed
  obtain ⟨result, state⟩ := Session.fetch_missed next.pack missed
  refine ⟨result, ?_⟩
  rw [Query.outcome, state]
  split <;> rfl

def brokenWorld : World :=
  ⟨.directory (Disk.empty.write "packs/a::b" "macro c\nof a::b".toUTF8) "packs", Session.start⟩

def mend : Event :=
  .changing fun disk => disk.write "packs/a::b" "macro c\nof a::b\nend macro".toUTF8

def mendingEvents : List Event :=
  [.calling (.importing "import macro c from a::b"), .reading "a::b", mend,
    .calling (.expanding ["import macro C from a::b", "macro x: d"]),
    .changing fun disk => disk.remove "packs/a::b",
    .calling (.importing "IMPORT macro c FROM a::b")]

theorem answered_once_mended :
    ∃ failed mended cached, brokenWorld.queries mendingEvents = [failed, mended, cached] ∧
      failed.outcome.result = .error (.imported "a::b" (.unterminated 1 "c")) ∧
      (mended.outcome.result = Session.answer mended.pack mended.target ∧
        mended.outcome.state.reads = mended.session.reads + 1) ∧
      mended.outcome.result = .ok (some Call.colonMacro) ∧
      cached.outcome =
        ⟨.ok (some Call.colonMacro), cached.session, [.cacheHit cached.target.key]⟩ := by
  have three : (brokenWorld.queries mendingEvents).length = 3 := by decide +kernel
  have told : (brokenWorld.queries mendingEvents).map
        (fun query => (query.target, query.outcome.result)) =
      [(⟨"c", "a::b"⟩, .error (.imported "a::b" (.unterminated 1 "c"))),
        (⟨"C", "a::b"⟩, .ok (some Call.colonMacro)), (⟨"c", "a::b"⟩, .ok (some Call.colonMacro))] := by
    decide +kernel
  obtain ⟨failed, mended, cached, all⟩ := List.length_eq_three.1 three
  rw [all] at told
  simp only [List.map_cons, List.map_nil, List.cons.injEq, Prod.mk.injEq, and_true] at told
  obtain ⟨⟨asked, fails⟩, ⟨asked', gives⟩, asked'', -⟩ := told
  obtain ⟨-, -, answered, -, anew⟩ := answered_once brokenWorld mendingEvents
  rw [all] at answered
  have later := (List.pairwise_cons.1 (List.pairwise_cons.1 answered).2).1 cached
    (List.mem_singleton.2 rfl) _ gives
  have alike : mended.target.Alike failed.target := by
    rw [asked, asked']
    exact ⟨rfl, by decide +kernel⟩
  have alike' : cached.target.Alike mended.target := by
    rw [asked', asked'']
    exact ⟨rfl, by decide +kernel⟩
  exact ⟨failed, mended, cached, all, fails,
    anew [] failed [] mended [cached] all _ fails alike nofun, gives, later alike'⟩

def retryEvents : List Event :=
  [.calling (.importing "import macro c from a::b"), .calling (.importing "import macro b::c from a"),
    mend, .calling (.importing "import macro c from a::b")]

/-- Between the import that fails and the one that tries again, another is answered under the same
key: with no macro, as its file is missing. So the last import is given no macro and reads no file,
although the file now has the macro. -/
theorem retry_unread :
    ∃ failed other retried, brokenWorld.queries retryEvents = [failed, other, retried] ∧
      failed.outcome.result = .error (.imported "a::b" (.unterminated 1 "c")) ∧
      retried.target = failed.target ∧ ¬ other.target.Alike failed.target ∧
      retried.outcome.result = .ok none ∧
      retried.outcome.state.reads = retried.session.reads ∧
      Session.answer retried.pack retried.target = .ok (some Call.colonMacro) := by
  have three : (brokenWorld.queries retryEvents).length = 3 := by decide +kernel
  have told : (brokenWorld.queries retryEvents).map (fun query => (query.target,
        query.outcome.result, query.outcome.state.reads, query.session.reads,
        Session.answer query.pack query.target)) =
      [(⟨"c", "a::b"⟩, .error (.imported "a::b" (.unterminated 1 "c")), 1, 0,
          .error (.imported "a::b" (.unterminated 1 "c"))),
        (⟨"b::c", "a"⟩, .ok none, 2, 1, .ok none),
        (⟨"c", "a::b"⟩, .ok none, 2, 2, .ok (some Call.colonMacro))] := by
    decide +kernel
  obtain ⟨failed, other, retried, all⟩ := List.length_eq_three.1 three
  rw [all] at told
  simp only [List.map_cons, List.map_nil, List.cons.injEq, Prod.mk.injEq, and_true] at told
  obtain ⟨⟨asked, fails, -⟩, ⟨asked', -⟩, asked'', given, reads, reads', anew⟩ := told
  refine ⟨failed, other, retried, all, fails, asked''.trans asked.symm, ?_, given,
    reads.trans reads'.symm, anew⟩
  intro alike
  rw [asked, asked'] at alike
  exact absurd alike.1 (by decide +kernel)

end World

end QuestScript

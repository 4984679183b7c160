import QuestScript.Proofs.BlockGrammar
import QuestScript.Proofs.SessionCalls

/-! Where imported macros come from. What a file gives for an import has the name that was asked
for; what the cache gives was found by an import with the same key. So in a run of imports of which
none swallows another, each macro that is given has the name that was asked for and comes from the
file that was asked for. Where one does, the second import can be given the macro of the first. -/
namespace QuestScript

open QuestScript.Action

namespace Block

theorem readAt_header {lines : List String} {position count : Nat} {before after : Registry}
    {m : Macro} (gives : (readAt lines position).Gives before (m, count) after) :
    ∃ text, lines[position]? = some text ∧ declares? text = some m.name := by
  have whole := readAt_whole gives
  have first : ((lines.drop position).take count)[0]? = lines[position]? := by
    cases count with
    | zero => rw [List.take_zero] at whole; cases whole
    | succ count => simp
  generalize (lines.drop position).take count = block at whole first
  cases whole with
  | @block text keyword name params used _ _ found kind reads =>
    exact ⟨text, first.symm, declares?_definition kind⟩

end Block

namespace Session

def HoldsBlock (pack : Pack) (file : String) (m : Macro) : Prop :=
  ∃ lines position count after, (pack.read file).found = .ok (some lines) ∧
    (Block.readAt lines position).Gives Dict.empty (m, count) after

theorem answer_own {pack : Pack} {target : ImportTarget} {m : Macro}
    (found : answer pack target = .ok (some m)) :
    Text.Alike m.name target.name ∧ HoldsBlock pack target.file m := by
  obtain ⟨lines, position, count, after, held, place, gives⟩ := answer_found found
  obtain ⟨text, stands, declares⟩ := Block.readAt_header gives
  obtain ⟨inside, defines, -⟩ := List.findIdx?_eq_some_iff_getElem.1 place
  rw [List.getElem?_eq_getElem inside] at stands
  cases stands
  refine ⟨?_, lines, position, count, after, held, gives⟩
  unfold Block.declares? at declares
  unfold ImportTarget.definedBy at defines
  split at declares
  · next keyword name params kind =>
    cases declares
    simp only [kind, decide_eq_true_eq] at defines
    exact defines
  · contradiction

theorem fetchLine_eq {pack : Pack} {line : String} {target : ImportTarget}
    (asks : ImportTarget.ofLine? line = some target) : fetchLine pack line = fetch pack target := by
  obtain ⟨tokens, kind, spelled⟩ := ImportTarget.importing_of_ofLine? asks
  simp only [fetchLine, kind, fetchTokens, spelled, bind_assoc, pure_bind, bind_pure]

theorem fetchLine_malformed {pack : Pack} {line : String} (asks : ImportTarget.ofLine? line = none) :
    fetchLine pack line = Action.fail (.malformedImport (Text.trim line)) := by
  unfold fetchLine
  cases kind : Directive.ofLine line with
  | importing tokens =>
    have spelled : ImportTarget.ofTokens? tokens = none :=
      (ImportTarget.ofLine?_importing kind).symm.trans asks
    simp only [fetchTokens, spelled]
    rfl
  | definition tokens => rfl
  | insertion tokens => rfl
  | endMarker => rfl
  | plain body => rfl

/-- Every macro in the cache was found by an import that was asked for and has the key of the
entry. -/
def Sourced (pack : Pack) (asked : List ImportTarget) (session : Session) : Prop :=
  ∀ key m, session.cache.get? key = some (some m) →
    ∃ source ∈ asked, source.key = key ∧ answer pack source = .ok (some m)

theorem start_sourced (pack : Pack) : Sourced pack [] start := by
  intro key m cached
  cases cached

theorem Sourced.grow {pack : Pack} {asked : List ImportTarget} {session : Session}
    (sourced : Sourced pack asked session) (target : ImportTarget) :
    Sourced pack (target :: asked) session := by
  intro key m cached
  obtain ⟨source, member, rest⟩ := sourced key m cached
  exact ⟨source, List.mem_cons_of_mem _ member, rest⟩

theorem Sourced.fetch {pack : Pack} {asked : List ImportTarget} {session : Session}
    (sourced : Sourced pack asked session) (target : ImportTarget) :
    (∀ m, ((Session.fetch pack target).run session).result = .ok (some m) →
      ∃ source ∈ target :: asked, source.key = target.key ∧ answer pack source = .ok (some m)) ∧
      Sourced pack (target :: asked) ((Session.fetch pack target).run session).state := by
  cases cached : session.cache.get? target.key with
  | some found =>
    obtain ⟨result, state⟩ := fetch_cached pack cached
    rw [result, state]
    refine ⟨?_, sourced.grow target⟩
    intro m given
    cases given
    exact sourced.grow target target.key m cached
  | none =>
    obtain ⟨result, state⟩ := fetch_missed pack cached
    rw [result, state]
    refine ⟨fun m given => ⟨target, List.mem_cons_self .., rfl, given⟩, ?_⟩
    split
    · next found anew =>
      intro key m kept
      simp only at kept
      rw [Dict.get?_insert] at kept
      split at kept
      · next same =>
        cases kept
        exact ⟨target, List.mem_cons_self .., same.symm, anew⟩
      · exact sourced.grow target key m kept
    · exact sourced.grow target

end Session

namespace Call

def asked (lines : List String) : List ImportTarget := lines.filterMap ImportTarget.ofLine?

theorem importing_run (pack : Pack) (line : String) (session : Session) :
    (((importing line).run pack).run session).result =
        ((Session.fetchLine pack line).run session).result.map .found ∧
      (((importing line).run pack).run session).state =
        ((Session.fetchLine pack line).run session).state := by
  have same : (importing line).run pack = .found <$> Session.fetchLine pack line :=
    (map_eq_pure_bind ..).symm
  rw [same]
  exact map_run _ _ _

theorem expanding_run (pack : Pack) (script : List String) (session : Session) :
    (((expanding script).run pack).run session).result =
        ((Script.expand pack script).run session).result.map .lines ∧
      (((expanding script).run pack).run session).state =
        ((Script.expand pack script).run session).state := by
  have same : (expanding script).run pack = .lines <$> Script.expand pack script :=
    (map_eq_pure_bind ..).symm
  rw [same]
  exact map_run _ _ _

theorem answers_sourced (pack : Pack) (lines : List String) (session : Session)
    (before : List ImportTarget) (sourced : Session.Sourced pack before session) (i : Nat)
    (line : String) (m : Macro) (stands : lines[i]? = some line)
    (given : (answers pack (lines.map .importing) session)[i]? = some (.ok (.found (some m)))) :
    ∃ target, ImportTarget.ofLine? line = some target ∧
      ∃ source ∈ before ++ asked lines, source.key = target.key ∧
        Session.answer pack source = .ok (some m) := by
  -- the session of each call is sourced by the imports before it
  induction lines generalizing session before i with
  | nil => cases stands
  | cons first later ih =>
    obtain ⟨result, state⟩ := importing_run pack first session
    rw [List.map_cons, answers] at given
    cases asks : ImportTarget.ofLine? first with
    | none =>
      rw [Session.fetchLine_malformed asks] at result state
      have kept : asked (first :: later) = asked later := List.filterMap_cons_none asks
      rw [kept]
      cases i with
      | zero =>
        rw [List.getElem?_cons_zero, result] at given
        cases given
      | succ i => exact ih _ before (state ▸ sourced) i stands given
    | some target =>
      rw [Session.fetchLine_eq asks] at result state
      have grown : asked (first :: later) = target :: asked later := List.filterMap_cons_some asks
      rw [grown]
      have step := sourced.fetch target
      cases i with
      | zero =>
        cases stands
        rw [List.getElem?_cons_zero, result] at given
        cases found : ((Session.fetch pack target).run session).result with
        | error fault =>
          rw [found] at given
          cases given
        | ok answered =>
          rw [found] at given
          cases given
          obtain ⟨source, member, rest⟩ := step.1 m found
          have among := List.mem_append_left (asked later) member
          exact ⟨target, asks, source, List.perm_middle.mem_iff.2 among, rest⟩
      | succ i =>
        obtain ⟨target', asks', source, member, rest⟩ :=
          ih _ (target :: before) (state ▸ step.2) i stands given
        exact ⟨target', asks', source, List.perm_middle.mem_iff.2 member, rest⟩

/-- Two imports share an entry of the cache if and only if they ask for the same file and the same
name up to letter case, or one swallows the other, for which it needs a colon in its name. In a run
of imports none of which swallows another, each macro that is given has the name that was asked for
and was read from the file that was asked for. -/
theorem imports_own (pack : Pack) :
    (∀ a b : ImportTarget, a.key = b.key ↔ a.Alike b ∨ a.Swallows b ∨ b.Swallows a) ∧
      (∀ a b : ImportTarget, a.Swallows b → ':' ∈ a.name.toList) ∧
      ∀ lines : List String, (∀ a ∈ asked lines, ∀ b ∈ asked lines, ¬ a.Swallows b) →
        ∀ (i : Nat) (line : String) (m : Macro), lines[i]? = some line →
          (answers pack (lines.map .importing) Session.start)[i]? = some (.ok (.found (some m))) →
            ∃ target, ImportTarget.ofLine? line = some target ∧
              Text.Alike m.name target.name ∧ Session.HoldsBlock pack target.file m := by
  refine ⟨fun _ _ => ImportTarget.key_eq_iff, ?_, ?_⟩
  · intro a b swallows
    exact Decidable.not_not.1 swallows.not_plain
  · intro lines apart i line m stands given
    obtain ⟨target, asks, source, member, same, found⟩ :=
      answers_sourced pack lines Session.start [] (Session.start_sourced pack) i line m stands given
    rw [List.nil_append] at member
    have here : target ∈ asked lines :=
      List.mem_filterMap.2 ⟨line, List.mem_of_getElem? stands, asks⟩
    have alike : source.Alike target := by
      rcases ImportTarget.key_eq_iff.1 same with alike | swallows | swallows
      · exact alike
      · exact absurd swallows (apart source member target here)
      · exact absurd swallows (apart target here source member)
    obtain ⟨named, held⟩ := Session.answer_own found
    exact ⟨target, asks, named.trans alike.2, alike.1 ▸ held⟩

def colonPack : Pack := .memory ⟨[("a::b", ["macro c", "of a::b", "end macro"])]⟩

def colonMacro : Macro := ⟨["macro", "c"], some ["of a::b"], []⟩

deriving instance DecidableEq for Answer

def colonLines : List String :=
  ["import macro C from a::b", "import macro d from a::b", "IMPORT macro c FROM a::b"]

/-- Colons in the name of a file do no harm: the first and the last of these imports share an entry
and ask for the same macro. -/
theorem imports_own_colons :
    (∀ a ∈ asked colonLines, ∀ b ∈ asked colonLines, ¬ a.Swallows b) ∧
      (answers colonPack (colonLines.map .importing) Session.start)[2]? =
        some (.ok (.found (some colonMacro))) ∧
      ∃ target, ImportTarget.ofLine? "IMPORT macro c FROM a::b" = some target ∧
        Text.Alike colonMacro.name target.name ∧
        Session.HoldsBlock colonPack target.file colonMacro := by
  have plain : ∀ a ∈ asked colonLines, a.Plain := by decide +kernel
  have apart : ∀ a ∈ asked colonLines, ∀ b ∈ asked colonLines, ¬ a.Swallows b :=
    fun a member _ _ swallows => swallows.not_plain (plain a member)
  have given : (answers colonPack (colonLines.map .importing) Session.start)[2]? =
      some (.ok (.found (some colonMacro))) := by decide +kernel
  exact ⟨apart, given, (imports_own colonPack).2.2 colonLines apart 2 _ colonMacro rfl given⟩

/-- The second import asks for another name and another file, one that is missing, and is given
the macro of the first from the entry that both share. -/
theorem swallowing_import :
    asked ["import macro c from a::b", "import macro b::c from a"] =
        [⟨"c", "a::b"⟩, ⟨"b::c", "a"⟩] ∧
      (⟨"c", "a::b"⟩ : ImportTarget).key = (⟨"b::c", "a"⟩ : ImportTarget).key ∧
      ¬ (⟨"c", "a::b"⟩ : ImportTarget).Alike ⟨"b::c", "a"⟩ ∧
      answers colonPack (["import macro c from a::b", "import macro b::c from a"].map .importing)
        Session.start = [.ok (.found (some colonMacro)), .ok (.found (some colonMacro))] ∧
      ¬ Text.Alike colonMacro.name "b::c" ∧ (colonPack.read "a").found = .ok none := by
  refine ⟨by decide +kernel, by decide +kernel, ?_, by decide +kernel, by decide +kernel, rfl⟩
  intro alike
  exact absurd alike.1 (by decide +kernel)

end Call

end QuestScript

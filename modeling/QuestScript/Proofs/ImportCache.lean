import QuestScript.Session
import QuestScript.Proofs.Ending

/-! The cache of a session. A key is the file of an import, two colons and the name in small
letters, so a name that has colons of its own can swallow the end of another file: the two imports
then share one entry. No other two imports do. Names without a colon, which are all that a block can
declare, keep file and name apart, and then every entry is what reading the file would give. -/
namespace QuestScript

namespace ImportTarget

def Plain (target : ImportTarget) : Prop := ':' ∉ target.name.toList

instance (target : ImportTarget) : Decidable target.Plain :=
  inferInstanceAs (Decidable (':' ∉ target.name.toList))

def ofLine? (line : String) : Option ImportTarget :=
  match Directive.ofLine line with
  | .importing tokens => ofTokens? tokens
  | _ => none

theorem ofLine?_importing {line : String} {tokens : List String}
    (kind : Directive.ofLine line = .importing tokens) : ofLine? line = ofTokens? tokens := by
  simp [ofLine?, kind]

theorem importing_of_ofLine? {line : String} {target : ImportTarget}
    (asks : ofLine? line = some target) :
    ∃ tokens, Directive.ofLine line = .importing tokens ∧ ofTokens? tokens = some target := by
  unfold ofLine? at asks
  split at asks
  · next tokens kind => exact ⟨tokens, kind, asks⟩
  · contradiction

def Alike (a b : ImportTarget) : Prop := a.file = b.file ∧ Text.Alike a.name b.name

theorem colon_of_toLower {c : Char} (small : c.toLower = ':') : c = ':' := by
  by_cases upper : c.val ≥ 'A'.val ∧ c.val ≤ 'Z'.val
  · have moved : c.toLower.val = c.val + ('a'.val - 'A'.val) := congrArg Char.val (dif_pos upper)
    rw [small] at moved
    have value := congrArg UInt32.toNat moved
    have low := UInt32.le_iff_toNat_le.1 upper.1
    have high := UInt32.le_iff_toNat_le.1 upper.2
    simp at value low high
    omega
  · have kept : c.toLower = c := dif_neg upper
    exact kept.symm.trans small

theorem Plain.lower {target : ImportTarget} (plain : target.Plain) :
    ':' ∉ (Text.lower target.name).toList := by
  intro colon
  rw [Text.toList_lower] at colon
  obtain ⟨c, member, small⟩ := List.mem_map.1 colon
  exact plain (colon_of_toLower small ▸ member)

theorem no_more_colons {more last last' : List Char} (plain : ':' ∉ last)
    (same : ':' :: ':' :: last = more ++ ':' :: ':' :: last') : more = [] := by
  rcases more with _ | ⟨c, _ | ⟨d, more⟩⟩
  · rfl
  · simp only [List.cons_append, List.nil_append, List.cons.injEq] at same
    exact absurd (same.2.2 ▸ List.mem_cons_self ..) plain
  · simp only [List.cons_append, List.cons.injEq] at same
    exact absurd (same.2.2 ▸ List.mem_append_right more (List.mem_cons_self ..)) plain

theorem toList_key (target : ImportTarget) :
    target.key.toList = target.file.toList ++ ':' :: ':' :: (Text.lower target.name).toList := by
  simp [key]

/-- The file of `b` goes on where that of `a` ends, and what it goes on with stands in the name
that `a` asks for, before the two colons and the name that `b` asks for. -/
def Swallows (a b : ImportTarget) : Prop :=
  ∃ more, more ≠ "" ∧ b.file = a.file ++ more ∧
    "::" ++ Text.lower a.name = more ++ "::" ++ Text.lower b.name

theorem Swallows.key_eq {a b : ImportTarget} (swallows : a.Swallows b) : a.key = b.key := by
  obtain ⟨more, -, files, names⟩ := swallows
  calc a.key = a.file ++ ("::" ++ Text.lower a.name) := String.append_assoc
    _ = a.file ++ (more ++ "::" ++ Text.lower b.name) := by rw [names]
    _ = b.file ++ "::" ++ Text.lower b.name := by simp only [files, String.append_assoc]
    _ = b.key := rfl

theorem Alike.key_eq {a b : ImportTarget} (alike : a.Alike b) : a.key = b.key := by
  have names : Text.lower a.name = Text.lower b.name := alike.2
  rw [key, key, alike.1, names]

theorem Swallows.not_plain {a b : ImportTarget} (swallows : a.Swallows b) : ¬ a.Plain := by
  intro plain
  obtain ⟨more, filled, -, names⟩ := swallows
  have chars := congrArg String.toList names
  simp only [String.toList_append] at chars
  rw [List.append_assoc] at chars
  exact filled (String.toList_injective (no_more_colons plain.lower chars))

theorem alike_or_swallows {a b : ImportTarget} {more : List Char}
    (files : b.file.toList = a.file.toList ++ more)
    (names : ':' :: ':' :: (Text.lower a.name).toList =
      more ++ ':' :: ':' :: (Text.lower b.name).toList) : a.Alike b ∨ a.Swallows b := by
  cases more with
  | nil =>
    left
    rw [List.append_nil] at files
    have lowered : (Text.lower a.name).toList = (Text.lower b.name).toList := by simpa using names
    exact ⟨String.toList_injective files.symm, String.toList_injective lowered⟩
  | cons c more =>
    right
    refine ⟨String.ofList (c :: more), ?_, String.toList_injective ?_, String.toList_injective ?_⟩
    · intro empty
      have chars := congrArg String.toList empty
      simp at chars
    · simpa using files
    · simpa using names

/-- Which imports share an entry of the cache. -/
theorem key_eq_iff {a b : ImportTarget} :
    a.key = b.key ↔ a.Alike b ∨ a.Swallows b ∨ b.Swallows a := by
  constructor
  · intro same
    have chars := congrArg String.toList same
    rw [toList_key, toList_key] at chars
    rcases List.append_eq_append_iff.1 chars with ⟨more, files, names⟩ | ⟨more, files, names⟩
    · rcases alike_or_swallows files names with alike | swallows
      · exact .inl alike
      · exact .inr (.inl swallows)
    · rcases alike_or_swallows files names with alike | swallows
      · exact .inl ⟨alike.1.symm, alike.2.symm⟩
      · exact .inr (.inr swallows)
  · rintro (alike | swallows | swallows)
    · exact alike.key_eq
    · exact swallows.key_eq
    · exact swallows.key_eq.symm

theorem alike_of_key {a b : ImportTarget} (plain : a.Plain) (plain' : b.Plain)
    (same : a.key = b.key) : a.Alike b := by
  rcases key_eq_iff.1 same with alike | swallows | swallows
  · exact alike
  · exact absurd plain swallows.not_plain
  · exact absurd plain' swallows.not_plain

theorem definedBy_eq {a b : ImportTarget} (alike : a.Alike b) : a.definedBy = b.definedBy := by
  funext line
  have names : ∀ name, Text.Alike name a.name ↔ Text.Alike name b.name :=
    fun name => ⟨fun h => h.trans alike.2, fun h => h.trans alike.2.symm⟩
  unfold definedBy
  split <;> simp [names]

end ImportTarget

def PlainImport (line : String) : Prop := ∀ target ∈ ImportTarget.ofLine? line, target.Plain

instance (line : String) : Decidable (PlainImport line) :=
  inferInstanceAs (Decidable (∀ target ∈ ImportTarget.ofLine? line, target.Plain))

theorem PlainImport.plain {line : String} (plain : PlainImport line) {tokens : List String}
    (kind : Directive.ofLine line = .importing tokens) {target : ImportTarget}
    (asks : ImportTarget.ofTokens? tokens = some target) : target.Plain :=
  plain target ((ImportTarget.ofLine?_importing kind).trans asks)

namespace Session

/-- What an import finds where nothing is cached. -/
def answer (pack : Pack) (target : ImportTarget) : Except Fault (Option Macro) :=
  match (pack.read target.file).found with
  | .error cause => .error (.unreadable cause)
  | .ok none => .ok none
  | .ok (some lines) =>
    match lines.findIdx? target.definedBy with
    | none => .ok none
    | some position =>
      match ((Block.readAt lines position).run Dict.empty).result with
      | .error fault => .error (.imported target.file fault)
      | .ok (m, _) => .ok (some m)

theorem answer_eq {a b : ImportTarget} (alike : a.Alike b) (pack : Pack) :
    answer pack a = answer pack b := by
  unfold answer
  rw [alike.1, ImportTarget.definedBy_eq alike]

theorem answer_found {pack : Pack} {target : ImportTarget} {m : Macro}
    (found : answer pack target = .ok (some m)) :
    ∃ lines position count after, (pack.read target.file).found = .ok (some lines) ∧
      lines.findIdx? target.definedBy = some position ∧
      (Block.readAt lines position).Gives Dict.empty (m, count) after := by
  unfold answer at found
  split at found
  · cases found
  · cases found
  · next lines held =>
    split at found
    · cases found
    · next position place =>
      split at found
      · cases found
      · next m' count reading =>
        cases found
        exact ⟨lines, position, count, _, held, place, reading, rfl⟩

/-- An import that fails meets a file that cannot be read, or a fault in the first block of its file
that defines the macro. -/
theorem answer_failed {pack : Pack} {target : ImportTarget} {fault : Fault}
    (failed : answer pack target = .error fault) :
    (∃ cause, (pack.read target.file).found = .error cause ∧ fault = .unreadable cause) ∨
      ∃ lines position source after, (pack.read target.file).found = .ok (some lines) ∧
        lines.findIdx? target.definedBy = some position ∧
        (Block.readAt lines position).Fails Dict.empty source after ∧
        fault = .imported target.file source := by
  unfold answer at failed
  split at failed
  · next cause held =>
    cases failed
    exact .inl ⟨cause, held, rfl⟩
  · cases failed
  · next lines held =>
    split at failed
    · cases failed
    · next position place =>
      split at failed
      · next source reading =>
        cases failed
        exact .inr ⟨lines, position, source, _, held, place, ⟨reading, rfl⟩, rfl⟩
      · cases failed

theorem readLines_run (pack : Pack) (path : String) (session : Session) :
    ((readLines pack path).run session).result = (pack.read path).found.mapError .unreadable ∧
      ((readLines pack path).run session).state = { session with reads := session.reads + 1 } := by
  unfold readLines
  cases (pack.read path).found with
  | error cause => exact ⟨rfl, rfl⟩
  | ok lines => exact ⟨rfl, rfl⟩

theorem load_run (pack : Pack) (target : ImportTarget) (session : Session) :
    ((load pack target).run session).result = answer pack target ∧
      ((load pack target).run session).state = { session with reads := session.reads + 1 } := by
  have reading := readLines_run pack target.file session
  cases found : (pack.read target.file).found with
  | error cause =>
    have anew : answer pack target = .error (.unreadable cause) := by simp [answer, found]
    rw [found] at reading
    rw [anew]
    exact Action.fails_bind.2 (.inl reading)
  | ok lines =>
    rw [found] at reading
    cases lines with
    | none =>
      have anew : answer pack target = .ok none := by simp [answer, found]
      rw [anew]
      exact Action.gives_bind.2 ⟨none, _, reading, Action.gives_pure.2 ⟨rfl, rfl⟩⟩
    | some lines =>
      cases place : lines.findIdx? target.definedBy with
      | none =>
        have anew : answer pack target = .ok none := by simp [answer, found, place]
        rw [anew]
        refine Action.gives_bind.2 ⟨some lines, _, reading, ?_⟩
        simp only [place]
        exact Action.gives_pure.2 ⟨rfl, rfl⟩
      | some position =>
        rcases Action.gives_or_fails (Block.readAt lines position) Dict.empty with
          ⟨⟨m, count⟩, gives⟩ | ⟨fault, fails⟩
        · have anew : answer pack target = .ok (some m) := by simp [answer, found, place, gives.1]
          rw [anew]
          refine Action.gives_bind.2 ⟨some lines, _, reading, ?_⟩
          simp only [place]
          exact Action.gives_bind.2 ⟨(m, count), _, Action.gives_apart.2 ⟨gives.mapFault _, rfl⟩,
            Action.gives_pure.2 ⟨rfl, rfl⟩⟩
        · have anew : answer pack target = .error (.imported target.file fault) := by
            simp [answer, found, place, fails.1]
          rw [anew]
          refine Action.fails_bind.2 (.inr ⟨some lines, _, reading, ?_⟩)
          simp only [place]
          exact Action.fails_bind.2 (.inl (Action.fails_apart.2 ⟨fails.mapFault _, rfl⟩))

theorem fetch_cached (pack : Pack) {target : ImportTarget} {session : Session}
    {answer : Option Macro} (cached : session.cache.get? target.key = some answer) :
    (fetch pack target).Gives session answer session := by
  refine Action.gives_get_bind.2 ?_
  simp only [cached]
  exact Action.gives_bind.2 ⟨(), session, Action.gives_note.2 rfl, Action.gives_pure.2 ⟨rfl, rfl⟩⟩

theorem fetch_missed (pack : Pack) {target : ImportTarget} {session : Session}
    (missed : session.cache.get? target.key = none) :
    ((fetch pack target).run session).result = answer pack target ∧
      ((fetch pack target).run session).state =
        match answer pack target with
        | .ok found => ⟨session.cache.insert target.key found, session.reads + 1⟩
        | .error _ => { session with reads := session.reads + 1 } := by
  have loading := load_run pack target session
  cases found : answer pack target with
  | error fault =>
    rw [found] at loading
    refine Action.fails_get_bind.2 ?_
    simp only [missed]
    exact Action.fails_bind.2 (.inr ⟨(), session, Action.gives_note.2 rfl,
      Action.fails_bind.2 (.inl loading)⟩)
  | ok m =>
    rw [found] at loading
    refine Action.gives_get_bind.2 ?_
    simp only [missed]
    exact Action.gives_bind.2 ⟨(), session, Action.gives_note.2 rfl, Action.gives_bind.2
      ⟨m, _, loading, Action.gives_bind.2 ⟨(), _, Action.gives_update.2 rfl,
        Action.gives_pure.2 ⟨rfl, rfl⟩⟩⟩⟩

theorem fetch_fails {pack : Pack} {target : ImportTarget} {session after : Session} {fault : Fault}
    (fails : (fetch pack target).Fails session fault after) : answer pack target = .error fault := by
  cases cached : session.cache.get? target.key with
  | some found => exact absurd fails (fetch_cached pack cached).not_fails
  | none => exact (fetch_missed pack cached).1.symm.trans fails.1

theorem gives_fetchTokens {pack : Pack} {text : String} {tokens : List String}
    {session after : Session} {target : ImportTarget} {found : Option Macro} :
    (fetchTokens pack text tokens).Gives session (target, found) after ↔
      ImportTarget.ofTokens? tokens = some target ∧ (fetch pack target).Gives session found after := by
  unfold fetchTokens
  cases asked : ImportTarget.ofTokens? tokens with
  | none => simp
  | some wanted =>
    simp only [Action.gives_bind, Action.gives_pure, Prod.mk.injEq, Option.some.injEq]
    constructor
    · rintro ⟨_, _, fetched, ⟨rfl, rfl⟩, rfl⟩
      exact ⟨rfl, fetched⟩
    · rintro ⟨rfl, fetched⟩
      exact ⟨found, after, fetched, ⟨rfl, rfl⟩, rfl⟩

theorem fetchTokens_fails {pack : Pack} {text : String} {tokens : List String}
    {session after : Session} {fault : Fault}
    (fails : (fetchTokens pack text tokens).Fails session fault after) :
    (ImportTarget.ofTokens? tokens = none ∧ fault = .malformedImport (Text.trim text)) ∨
      ∃ target, ImportTarget.ofTokens? tokens = some target ∧ answer pack target = .error fault := by
  unfold fetchTokens at fails
  cases asked : ImportTarget.ofTokens? tokens with
  | none =>
    simp only [asked, Action.fails_fail] at fails
    exact .inl ⟨rfl, fails.1⟩
  | some target =>
    simp only [asked, Action.fails_bind, Action.fails_pure, and_false, exists_false, or_false] at fails
    exact .inr ⟨target, rfl, fetch_fails fails⟩

/-- Every entry under the key of a plain import is what that import finds anew. -/
def Faithful (pack : Pack) (session : Session) : Prop :=
  ∀ target found, target.Plain → session.cache.get? target.key = some found →
    answer pack target = .ok found

theorem start_faithful (pack : Pack) : Faithful pack start := by
  intro target found _ cached
  cases cached

theorem Faithful.insert {pack : Pack} {session : Session} (faithful : Faithful pack session)
    {target : ImportTarget} (plain : target.Plain) {found : Option Macro}
    (anew : answer pack target = .ok found) (reads : Nat) :
    Faithful pack ⟨session.cache.insert target.key found, reads⟩ := by
  intro other found' plain' cached
  rw [Dict.get?_insert] at cached
  split at cached
  · next same =>
    cases cached
    rw [answer_eq (ImportTarget.alike_of_key plain' plain same), anew]
  · exact faithful other found' plain' cached

/-- In a faithful session a plain import is answered as it would be anew, and the session stays
faithful. -/
theorem Faithful.fetch {pack : Pack} {session : Session} (faithful : Faithful pack session)
    {target : ImportTarget} (plain : target.Plain) :
    ((Session.fetch pack target).run session).result = answer pack target ∧
      Faithful pack ((Session.fetch pack target).run session).state := by
  cases cached : session.cache.get? target.key with
  | some found =>
    have ends := fetch_cached pack cached
    rw [ends.1, ends.2, faithful target found plain cached]
    exact ⟨rfl, faithful⟩
  | none =>
    obtain ⟨result, state⟩ := fetch_missed pack cached
    rw [result, state]
    refine ⟨rfl, ?_⟩
    split
    · next found anew => exact faithful.insert plain anew _
    · exact faithful

theorem Faithful.fetchTokens_answer {pack : Pack} {session session' : Session}
    (faithful : Faithful pack session) {text : String} {tokens : List String}
    (plain : ∀ target, ImportTarget.ofTokens? tokens = some target → target.Plain)
    {target : ImportTarget} {found : Option Macro}
    (gives : (fetchTokens pack text tokens).Gives session (target, found) session') :
    ImportTarget.ofTokens? tokens = some target ∧ answer pack target = .ok found ∧
      Faithful pack session' := by
  obtain ⟨asked, fetched⟩ := gives_fetchTokens.1 gives
  obtain ⟨result, kept⟩ := faithful.fetch (plain target asked)
  rw [fetched.1] at result
  rw [fetched.2] at kept
  exact ⟨asked, result.symm, kept⟩

theorem Faithful.fetchTokens_gives {pack : Pack} {session : Session}
    (faithful : Faithful pack session) (text : String) {tokens : List String} {target : ImportTarget}
    (asks : ImportTarget.ofTokens? tokens = some target) (plain : target.Plain)
    {found : Option Macro} (anew : answer pack target = .ok found) :
    ∃ session', (fetchTokens pack text tokens).Gives session (target, found) session' ∧
      Faithful pack session' := by
  obtain ⟨result, kept⟩ := faithful.fetch plain
  exact ⟨_, gives_fetchTokens.2 ⟨asks, result.trans anew, rfl⟩, kept⟩

end Session

end QuestScript

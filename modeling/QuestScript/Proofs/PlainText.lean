import QuestScript.Proofs.AnsweredOnce
import QuestScript.Proofs.Instances
import QuestScript.Proofs.ScriptCuts
import QuestScript.Proofs.Simultaneous

/-! Plain text stays plain. Where nothing is replaced, an expansion writes the lines of the bodies
without the white space at their ends. What is plain in a body is then plain in a script as well, as long
as only blanks are taken off. Other white space belongs to the words of a directive: a keyword next to it
is none, and becomes one when it is gone. -/
namespace QuestScript

open QuestScript.Action

namespace Text

def trimBlanks (s : String) : String := String.ofList (strip isBlank s.toList)

/-- White space other than blanks stands at an end of the text, next to blanks at most. -/
def Ragged (s : String) : Prop := trim s ≠ trimBlanks s

instance : DecidablePred Ragged := fun s => inferInstanceAs (Decidable (trim s ≠ trimBlanks s))

theorem strip_cut (drop : Char → Bool) (cs : List Char) :
    ∃ lead trail, cs = lead ++ (strip drop cs ++ trail) ∧ (∀ c ∈ lead, drop c = true) ∧
      ∀ c ∈ trail, drop c = true := by
  have back := List.takeWhile_append_dropWhile (p := drop) (l := (cs.dropWhile drop).reverse)
  refine ⟨cs.takeWhile drop, ((cs.dropWhile drop).reverse.takeWhile drop).reverse, ?_,
    List.all_eq_true.1 List.all_takeWhile, fun c member => ?_⟩
  · calc cs = cs.takeWhile drop ++ cs.dropWhile drop := List.takeWhile_append_dropWhile.symm
      _ = cs.takeWhile drop ++ ((cs.dropWhile drop).reverse.takeWhile drop ++
          (cs.dropWhile drop).reverse.dropWhile drop).reverse := by rw [back, List.reverse_reverse]
      _ = _ := by rw [List.reverse_append, strip]
  · exact List.all_eq_true.1 List.all_takeWhile c (List.mem_reverse.1 member)

theorem replace_absent {new text : String} (absent : '$' ∉ text.toList) :
    replace placeholder new text = text := by
  refine String.toList_injective ?_
  rw [toList_replace]
  have kept : replaceWord '$' [] new.toList (text.toList ++ []) =
      text.toList ++ replaceWord '$' [] new.toList [] := replaceWord_append absent []
  rw [List.append_nil, replaceWord, List.append_nil] at kept
  exact kept

end Text

open Text

namespace Directive

variable {line inner : String} {lead trail : List Char}

theorem not_begins_of_plain {body : String} (plain : ofLine line = .plain body) : ¬ Begins line := by
  have reading := means_ofLine line
  rw [plain] at reading
  cases reading with
  | plain noFront => exact noFront

theorem Complete.append {rest : List Char} (complete : Complete rest)
    (blank : ∀ c ∈ trail, isBlank c = true) : Complete (rest ++ trail) := by
  intro c later same
  cases rest with
  | nil => exact isSeparator_of_isBlank (blank c (by rw [← List.nil_append trail, same]; simp))
  | cons d rest =>
    obtain ⟨rfl, -⟩ := List.cons.inj same
    exact complete d rest rfl

theorem Begins.surround (begins : Begins inner) (same : line.toList = lead ++ (inner.toList ++ trail))
    (blank : ∀ c ∈ lead, isBlank c = true) (blank' : ∀ c ∈ trail, isBlank c = true) :
    Begins line := by
  have opens {keyword : String} {text : List Char} (opened : Opens keyword inner text) :
      Opens keyword line (text ++ trail) := by
    obtain ⟨gap, blanks, spelled⟩ := opened
    refine ⟨lead ++ gap, fun c member => ?_, by rw [same, spelled]; simp⟩
    exact (List.mem_append.1 member).elim (blank c) (blanks c)
  rcases begins with ⟨keyword, rest, opened, spells, complete⟩ |
    ⟨name, first, second, rest, named, ⟨gap, filled, blanks, opened⟩, names, spells, complete⟩
  · exact .inl ⟨keyword, rest ++ trail, opens opened, spells, complete.append blank'⟩
  · have pair := opens opened
    rw [List.append_assoc, List.append_assoc] at pair
    exact .inr ⟨name, first, second, rest ++ trail, named, ⟨gap, filled, blanks, pair⟩, names, spells,
      complete.append blank'⟩

theorem ofLine_trim {body : String} (plain : ofLine line = .plain body) (even : ¬ Ragged line) :
    ofLine (trim line) = .plain (trim line) := by
  obtain ⟨lead, trail, cut, blank, blank'⟩ := strip_cut isBlank line.toList
  have same : line.toList = lead ++ ((trim line).toList ++ trail) := by
    rw [Decidable.not_not.1 even, trimBlanks, String.toList_ofList]
    exact cut
  have noFront : ¬ Begins (trim line) := fun begins =>
    not_begins_of_plain plain (begins.surround same blank blank')
  exact (Means.plain noFront).ofLine_eq

end Directive

namespace Macro

variable {m inner : Macro} {tokens : List String} {name : String} {parent : Option String}

def Fixed (m : Macro) : Prop := m.params = [] ∧ ∀ line ∈ m.lines, '$' ∉ line.toList

instance : DecidablePred Fixed := fun m =>
  inferInstanceAs (Decidable (m.params = [] ∧ ∀ line ∈ m.lines, '$' ∉ line.toList))

theorem Fixed.frameLines_eq (fixed : m.Fixed) : m.frameLines tokens name = m.lines.map trim := by
  obtain ⟨none, absent⟩ := fixed
  refine List.map_congr_left fun line member => ?_
  rw [bindings, none, List.zip_nil_left, substitute, List.foldl_nil, replace_absent (absent line member)]

theorem mem_sources : inner ∈ (m.instances tokens parent).map Instance.source ↔ m.Holds inner := by
  rw [List.mem_map]
  constructor
  · rintro ⟨i, member, rfl⟩
    exact source_holds (instanceAt?_position member)
  · intro holds
    obtain ⟨position, i, here, same⟩ := holds.has_instance tokens parent
    exact ⟨i, (instanceAt?_eq_some.1 here).1, same⟩

end Macro

namespace Script

open Directive Workspace

/-- The macros of all the instances that a line at the top writes. -/
def expandedAt (pack : Pack) (session : Session) (place : List String × String) : List Macro :=
  match ofLine place.2 with
  | .insertion tokens =>
    match latest? (registered pack session place.1) tokens with
    | some m => (m.instances tokens none).map Instance.source
    | none => []
  | _ => []

/-- All macros that are expanded in the course of a script, at any depth. -/
def expanded (pack : Pack) (session : Session) (lines : List String) : List Macro :=
  (topLines lines).flatMap (expandedAt pack session)

theorem mem_expandedAt {pack : Pack} {session : Session} {place : List String × String} {m : Macro} :
    m ∈ expandedAt pack session place ↔ ∃ tokens target, ofLine place.2 = .insertion tokens ∧
      latest? (registered pack session place.1) tokens = some target ∧ target.Holds m := by
  unfold expandedAt
  cases ofLine place.2 with
  | insertion tokens =>
    cases known : latest? (registered pack session place.1) tokens with
    | none => simp [known]
    | some target => simp [known, Macro.mem_sources]
  | definition tokens => simp
  | importing tokens => simp
  | endMarker => simp
  | plain body => simp

variable {pack : Pack} {session : Session} {lines out : List String} {after : Workspace}

theorem expanded_proper (sound : session.Sound)
    (passes : Passes pack lines ⟨session, Dict.empty⟩ out after) {m : Macro}
    (member : m ∈ expanded pack session lines) : m.Proper := by
  obtain ⟨⟨earlier, text⟩, stands, inserted⟩ := List.mem_flatMap.1 member
  obtain ⟨tokens, target, -, known, holds⟩ := mem_expandedAt.1 inserted
  obtain ⟨stands, top⟩ := List.mem_filter.1 stands
  obtain ⟨used, behind, same, rfl⟩ := mem_placed stands
  rw [List.nil_append] at same
  subst same
  obtain ⟨_, _, middle, -, start, -⟩ := passes.cut (of_decide_eq_true top)
  have keeps := ((Reaches.start pack session).passes start).1.registered
  rw [List.nil_append] at keeps
  have registry : middle.registry.Sound := (start.gives 1).2 ▸ (reached_sound sound earlier).2
  rcases tokens with _ | ⟨keyword, _ | ⟨place, _ | ⟨name, arguments⟩⟩⟩
  · cases known
  · cases known
  · cases known
  · exact (registry name target ((keeps name).trans known)).1 m holds

/-- A line that is written stands at the top of the script or is a trimmed line of a macro. -/
theorem writes_line {place : List String × String} {line : String}
    (fixed : ∀ m ∈ expandedAt pack session place, m.Fixed)
    (written : line ∈ writes pack session place) :
    ofLine line = .plain line ∨
      ∃ m ∈ expandedAt pack session place, ∃ body ∈ m.lines, line = trim body := by
  unfold writes at written
  cases kind : ofLine place.2 with
  | plain body =>
    simp only [kind, List.mem_singleton] at written
    rw [written]
    exact .inl (plain_eq kind ▸ kind)
  | insertion tokens =>
    cases known : latest? (registered pack session place.1) tokens with
    | none => simp [kind, known] at written
    | some m =>
      simp only [kind, known, m.expansion_eq_written, Instance.written, List.mem_flatMap] at written
      obtain ⟨i, member, written⟩ := written
      have source : i.source ∈ expandedAt pack session place :=
        mem_expandedAt.2 ⟨tokens, m, kind, known, Macro.mem_sources.1 (List.mem_map_of_mem member)⟩
      have lines : i.output.lines = i.source.lines.map trim := (fixed i.source source).frameLines_eq
      rw [lines] at written
      obtain ⟨body, stands, rfl⟩ := List.mem_map.1 written
      exact .inr ⟨i.source, source, body, stands, rfl⟩
  | definition tokens => simp [kind] at written
  | importing tokens => simp [kind] at written
  | endMarker => simp [kind] at written

/-- The lines that a script writes, all of whose macros are fixed. One that is no plain text comes from
a ragged line of a macro. -/
theorem written_line (sound : session.Sound)
    (passes : Passes pack lines ⟨session, Dict.empty⟩ out after)
    (fixed : ∀ m ∈ expanded pack session lines, m.Fixed) {line : String} (written : line ∈ out) :
    ofLine line = .plain line ∨
      ∃ m ∈ expanded pack session lines, ∃ body ∈ m.lines, Ragged body ∧ line = trim body := by
  have accounts := ((Reaches.start pack session).passes passes).2
  rw [accounts.written_eq] at written
  obtain ⟨place, stands, written⟩ := List.mem_flatMap.1 written
  have among {m : Macro} (member : m ∈ expandedAt pack session place) : m ∈ expanded pack session lines :=
    List.mem_flatMap.2 ⟨place, stands, member⟩
  rcases writes_line (fun m member => fixed m (among member)) written with
    plain | ⟨m, member, body, held, rfl⟩
  · exact .inl plain
  by_cases ragged : Ragged body
  · exact .inr ⟨m, among member, body, held, ragged, rfl⟩
  obtain ⟨own, same, plain⟩ := (expanded_proper sound passes (among member)).plain
  rw [Macro.lines, same, Option.getD_some] at held
  exact .inl (ofLine_trim (plain body held) ragged)

theorem expandFrom_plain (plain : ∀ text ∈ lines, ofLine text = .plain text) (pack : Pack) (line : Nat)
    (space : Workspace) : (expandFrom pack line lines).run space = ⟨.ok lines, space, []⟩ := by
  induction lines generalizing line with
  | nil =>
    rw [expandFrom]
    rfl
  | cons text rest ih =>
    obtain ⟨here, later⟩ := List.forall_mem_cons.1 plain
    rw [expandFrom]
    simp only [here]
    rw [bind_run_ok (ih later (line + 1))]
    rfl

end Script

namespace Event

theorem step_sound {world : World} (sound : world.session.Sound) (event : Event) :
    (event.step world).session.Sound := by
  cases event with
  | calling call =>
    cases call with
    | importing line =>
      rw [step, (Call.importing_run world.pack line world.session).2]
      exact (Session.fetchLine_keeps world.pack line).state sound
    | expanding script =>
      rw [step, (Call.expanding_run world.pack script world.session).2]
      exact (Script.expand_keeps world.pack script).state sound
  | reading path =>
    rw [step, (Session.readLines_run world.pack path world.session).2]
    exact sound
  | changing change => exact sound

end Event

namespace World

theorem after_sound {world : World} (sound : world.session.Sound) (events : List Event) :
    (world.after events).session.Sound := by
  induction events generalizing world with
  | nil => exact sound
  | cons event later ih => exact ih (event.step_sound sound)

def Reached (world : World) : Prop :=
  ∃ pack events, world = World.after ⟨pack, Session.start⟩ events

theorem Reached.sound {world : World} (reached : world.Reached) : world.session.Sound := by
  obtain ⟨pack, events, rfl⟩ := reached
  exact after_sound Session.start_sound events

/-- After whatever happened to a session, a script is expanded in which nothing is replaced: no macro
that is expanded has parameters, and none has a `$` in its lines. Each line that is written is plain
text, or comes from a ragged line of a macro. If no macro has such a line, all that is written is plain
text, and expands to itself in every session. -/
theorem expand_plain_text (world : World) (reached : world.Reached) (lines out : List String)
    (succeeds : ((Script.expand world.pack lines).run world.session).result = .ok out)
    (fixed : ∀ m ∈ Script.expanded world.pack world.session lines, m.Fixed) :
    (∀ line ∈ out, Directive.ofLine line = .plain line ∨
      ∃ m ∈ Script.expanded world.pack world.session lines, ∃ body ∈ m.lines,
        Ragged body ∧ line = trim body) ∧
    ((∀ m ∈ Script.expanded world.pack world.session lines, ∀ body ∈ m.lines, ¬ Ragged body) →
      (∀ line ∈ out, Directive.ofLine line = .plain line) ∧
        ∀ (pack' : Pack) (session' : Session),
          (Script.expand pack' out).run session' = ⟨.ok out, session', []⟩) := by
  have passes := Script.expand_passes succeeds
  have each {line : String} (written : line ∈ out) :=
    Script.written_line reached.sound passes fixed written
  refine ⟨fun line => each, fun even => ?_⟩
  have plain : ∀ line ∈ out, Directive.ofLine line = .plain line := by
    intro line written
    refine (each written).resolve_right ?_
    rintro ⟨m, member, body, held, ragged, -⟩
    exact even m member body held ragged
  refine ⟨plain, fun pack' session' => ?_⟩
  have same := Script.expandFrom_plain plain pack' 1 ⟨session', Dict.empty⟩
  have run : (Script.expand pack' out).run session' =
      ⟨((Script.expandFrom pack' 1 out).run ⟨session', Dict.empty⟩).result,
        ((Script.expandFrom pack' 1 out).run ⟨session', Dict.empty⟩).state.session,
        ((Script.expandFrom pack' 1 out).run ⟨session', Dict.empty⟩).log⟩ := rfl
  rw [run, same]

def notesWorld : World :=
  World.after ⟨.memory ⟨[("notes.txt", ["macro Note", "  in short\t", "end macro"])]⟩, Session.start⟩
    [.calling (.importing "import macro note from notes.txt")]

def notesScript : List String :=
  ["import macro Note from notes.txt", "macro Aside", " by the way", "macro n: Note", "end macro",
    "  QBN:", "macro a: Aside"]

theorem expand_plain_text_notes :
    notesWorld.Reached ∧
      ((Script.expand notesWorld.pack notesScript).run notesWorld.session).result =
        .ok ["  QBN:", "by the way", "in short"] ∧
      (∀ m ∈ Script.expanded notesWorld.pack notesWorld.session notesScript, m.Fixed) ∧
      (∀ m ∈ Script.expanded notesWorld.pack notesWorld.session notesScript,
        ∀ body ∈ m.lines, ¬ Ragged body) ∧
      ((Script.expand notesWorld.pack ["  QBN:", "by the way", "in short"]).run Session.start) =
        ⟨.ok ["  QBN:", "by the way", "in short"], Session.start, []⟩ := by
  have reached : notesWorld.Reached := ⟨_, _, rfl⟩
  have succeeds : ((Script.expand notesWorld.pack notesScript).run notesWorld.session).result =
      .ok ["  QBN:", "by the way", "in short"] := by decide +kernel
  have fixed : ∀ m ∈ Script.expanded notesWorld.pack notesWorld.session notesScript, m.Fixed := by
    decide +kernel
  have even : ∀ m ∈ Script.expanded notesWorld.pack notesWorld.session notesScript,
      ∀ body ∈ m.lines, ¬ Ragged body := by decide +kernel
  have again := (expand_plain_text notesWorld reached notesScript _ succeeds fixed).2 even
  exact ⟨reached, succeeds, fixed, even, again.2 notesWorld.pack Session.start⟩

def raggedScript : List String := ["macro M", "\u00a0end macro", "end macro", "macro x: M"]

theorem expand_ragged :
    ((Script.expand (.memory Dict.empty) raggedScript).run Session.start).result =
        .ok ["end macro"] ∧
      (∀ m ∈ Script.expanded (.memory Dict.empty) Session.start raggedScript, m.Fixed) ∧
      Directive.ofLine "\u00a0end macro" = .plain "\u00a0end macro" ∧
      Directive.ofLine "end macro" = .endMarker ∧
      ((Script.expand (.memory Dict.empty) ["end macro"]).run Session.start).result =
        .error (.unexpectedEnd 1) := by
  refine ⟨by decide +kernel, by decide +kernel, by decide +kernel, by decide +kernel, by decide +kernel⟩

end World

end QuestScript

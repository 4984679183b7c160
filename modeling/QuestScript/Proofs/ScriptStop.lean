import QuestScript.Proofs.BlockFaults
import QuestScript.Proofs.Unreferenced

/-! Where a script stops. A run that fails has passed the lines before some line and fails at that
one; `Stops` says how. Only a block that is still open looks at all the lines that are left. Every
other fault is settled by the lines up to the one where it arises, so it is the same whatever is
written behind them, and a script that expands only grows by the lines behind it. -/
namespace QuestScript

open QuestScript.Action

namespace Fault

def NotBefore (first : Nat) (fault : Fault) : Prop := ∀ line ∈ fault.line?, first ≤ line

/-- The lines did not run out inside a block, so those behind them cannot mend it. -/
def Settled (fault : Fault) : Prop := ∀ line name, fault ≠ .unterminated line name

def Names (first : Nat) (fault : Fault) : Prop := ∃ line, fault.line? = some line ∧ first ≤ line

theorem Names.notBefore {fault : Fault} {first : Nat} (names : fault.Names first) :
    fault.NotBefore first := by
  obtain ⟨line, named, later⟩ := names
  intro other member
  rw [named] at member
  cases member
  exact later

theorem NotBefore.of_inside {fault : Fault} (inside : fault.line? = none) (first : Nat) :
    fault.NotBefore first := by
  intro line member
  rw [inside] at member
  cases member

end Fault

namespace Registry

theorem expandTokens_names {line : Nat} {text : String} {tokens : List String}
    {before after : Registry} {fault : Fault}
    (fails : (expandTokens line text tokens).Fails before fault after) : fault.Names line := by
  simp only [expandTokens, fails_bind, fails_note, fails_pure, and_false, exists_false, or_false]
    at fails
  rcases target_fails fails with ⟨_, _, _, _, -, -, rfl⟩ | ⟨-, rfl⟩
  · exact ⟨line, rfl, Nat.le_refl line⟩
  · exact ⟨line, rfl, Nat.le_refl line⟩

end Registry

namespace Block

theorem ofDirective_error {line : Nat} {text : String} {directive : Directive} {fault : Fault}
    (fails : Header.ofDirective line text directive = .error fault) : fault.line? = some line := by
  unfold Header.ofDirective at fails
  split at fails
  · cases fails
  · cases fails
    rfl

theorem read_late {line : Nat} {text : String} {rest : List String} {before after : Registry}
    {fault : Fault} (fails : (read line text rest).Fails before fault after) : fault.Names line := by
  have reading := fails
  unfold read at reading
  rw [fails_bind, fails_ofExcept] at reading
  rcases reading with ⟨malformed, -⟩ | ⟨header, _, opens, -⟩
  · exact ⟨line, ofDirective_error malformed, Nat.le_refl line⟩
  · have kind := (ofDirective_ok (gives_ofExcept.1 opens).1).2
    obtain ⟨earlier, bad, behind, -, blames⟩ := read_blames kind fails
    exact ⟨_, blames.line_eq, Nat.le_add_right ..⟩

theorem drop_append {lines : List String} {used left : List String} (cut : lines = used ++ left)
    (more : List String) : (lines ++ more).drop used.length = left ++ more := by
  rw [cut, List.append_assoc, List.drop_left]

theorem contents_fails_append {header : Header} {line : Nat} {lines : List String}
    {before after : Registry} {fault : Fault}
    (fails : (contents header line lines).Fails before fault after) (settled : fault.Settled)
    (more : List String) : (contents header line (lines ++ more)).Fails before fault after := by
  -- a block inside that was read whole is read the same again
  induction header, line, lines using contents.induct generalizing before after with
  | case1 header line =>
    rw [contents, fails_fail] at fails
    exact absurd fails.1 (settled _ _)
  | case2 header line text rest kind =>
    rw [contents] at fails
    simp [kind] at fails
  | case3 header line text rest body kind ih =>
    rw [contents] at fails
    rw [List.cons_append, contents]
    simp only [kind, fails_bind, fails_pure, and_false, exists_false, or_false] at fails ⊢
    exact ih fails
  | case4 header line text rest tokens kind ih =>
    rw [contents] at fails
    rw [List.cons_append, contents]
    simp only [kind, fails_bind, fails_pure, and_false, exists_false, or_false] at fails ⊢
    rcases fails with fails | ⟨target, middle, found, fails⟩
    · exact .inl fails
    · exact .inr ⟨target, middle, found, ih fails⟩
  | case5 header line text rest tokens kind =>
    rw [contents] at fails
    rw [List.cons_append, contents]
    simp only [kind] at fails ⊢
    exact fails
  | case6 header line text rest tokens kind ihInner ihRest =>
    rw [contents] at fails
    rw [List.cons_append, contents]
    simp only [kind] at fails ⊢
    rcases fails_bind.1 fails with opening | ⟨inner, _, opening, fails⟩
    · exact fails_bind.2 (.inl opening)
    apply fails_bind.2
    refine .inr ⟨inner, _, opening, ?_⟩
    rcases fails_bind.1 fails with inside | ⟨⟨held, length⟩, middle, inside, fails⟩
    · exact fails_bind.2 (.inl (ihInner inner inside))
    apply fails_bind.2
    obtain ⟨used, left, cut, rfl, reads⟩ := contents_reads inside
    have again := reads.contents_gives inner (line + 1) (left ++ more)
    rw [← List.append_assoc, ← cut] at again
    refine .inr ⟨(held, used.length), middle, again, ?_⟩
    have behind : (rest ++ more).drop used.length = rest.drop used.length ++ more := by
      rw [drop_append cut, cut, List.drop_left]
    simp only [fails_bind, gives_note, fails_note, fails_pure, and_false, exists_false, or_false,
      false_or] at fails ⊢
    obtain ⟨u, _, same, defining | ⟨replaced, reached, defined, fails⟩⟩ := fails
    · exact ⟨u, _, same, .inl defining⟩
    · rw [behind]
      exact ⟨u, _, same, .inr ⟨replaced, reached, defined, ihRest used.length fails⟩⟩

theorem read_fails_append {line : Nat} {text : String} {rest : List String}
    {before after : Registry} {fault : Fault} (fails : (read line text rest).Fails before fault after)
    (settled : fault.Settled) (more : List String) :
    (read line text (rest ++ more)).Fails before fault after := by
  unfold read at fails ⊢
  simp only [fails_bind, fails_pure, and_false, exists_false, or_false] at fails ⊢
  rcases fails with opening | ⟨header, middle, opening, inside⟩
  · exact .inl opening
  · exact .inr ⟨header, middle, opening, contents_fails_append inside settled more⟩

end Block

namespace Workspace

variable {α : Type} {before after : Workspace} {fault : Fault}

@[simp] theorem fails_onRegistry {action : Action Registry α} :
    (onRegistry action).Fails before fault after ↔
      action.Fails before.registry fault after.registry ∧ after.session = before.session := by
  rcases before with ⟨session, registry⟩
  rcases after with ⟨session', registry'⟩
  simp only [Fails, onRegistry, focus, run, mk.injEq]
  constructor
  · rintro ⟨ends, kept, reached⟩
    exact ⟨⟨ends, reached⟩, kept.symm⟩
  · rintro ⟨⟨ends, reached⟩, kept⟩
    exact ⟨ends, kept.symm, reached⟩

@[simp] theorem fails_onSession {action : Action Session α} :
    (onSession action).Fails before fault after ↔
      action.Fails before.session fault after.session ∧ after.registry = before.registry := by
  rcases before with ⟨session, registry⟩
  rcases after with ⟨session', registry'⟩
  simp only [Fails, onSession, focus, run, mk.injEq]
  constructor
  · rintro ⟨ends, reached, kept⟩
    exact ⟨⟨ends, reached⟩, kept.symm⟩
  · rintro ⟨⟨ends, reached⟩, kept⟩
    exact ⟨ends, reached, kept.symm⟩

theorem adopt_not_fails {name : String} {m : Macro} :
    ¬ (adopt name m).Fails before fault after := by
  have adopted : (adopt name m).Gives before () ⟨before.session, before.registry.adopt name m⟩ :=
    gives_adopt.2 ⟨rfl, rfl⟩
  exact adopted.not_fails

end Workspace

namespace Script

open Workspace

/-- From the workspace `before` the script fails at its line `text`, with the lines `rest` behind
it, and leaves the workspace `after`. -/
inductive Stops (pack : Pack) (line : Nat) (text : String) (rest : List String) :
    Workspace → Fault → Workspace → Prop where
  | insertion {tokens : List String} {before after : Workspace} {fault : Fault}
      (kind : Directive.ofLine text = .insertion tokens)
      (fails : (onRegistry (Registry.expandTokens line text tokens)).Fails before fault after) :
      Stops pack line text rest before fault after
  | block {tokens : List String} {before after : Workspace} {fault : Fault}
      (kind : Directive.ofLine text = .definition tokens)
      (fails : (onRegistry (Block.read line text rest)).Fails before fault after) :
      Stops pack line text rest before fault after
  | importing {tokens : List String} {before after : Workspace} {fault : Fault}
      (kind : Directive.ofLine text = .importing tokens)
      (fails : (onSession (Session.fetchTokens pack text tokens)).Fails before fault after) :
      Stops pack line text rest before fault after
  | missing {tokens : List String} {target : ImportTarget} {before after : Workspace}
      (kind : Directive.ofLine text = .importing tokens)
      (fetched : (onSession (Session.fetchTokens pack text tokens)).Gives before (target, none)
        after) :
      Stops pack line text rest before (.importNotFound line target.name target.file) after
  | endMarker {before : Workspace} (kind : Directive.ofLine text = .endMarker) :
      Stops pack line text rest before (.unexpectedEnd line) before

variable {pack : Pack} {line : Nat} {text : String} {rest : List String}
  {before after : Workspace} {fault : Fault}

theorem Stops.fails (stops : Stops pack line text rest before fault after) :
    (expandFrom pack line (text :: rest)).Fails before fault after := by
  cases stops with
  | insertion kind fails =>
    rw [expandFrom]
    simp only [kind]
    exact fails_bind.2 (.inl fails)
  | block kind fails =>
    rw [expandFrom]
    simp only [kind]
    exact fails_bind.2 (.inl fails)
  | importing kind fails =>
    rw [expandFrom]
    simp only [kind]
    exact fails_bind.2 (.inl fails)
  | missing kind fetched =>
    rw [expandFrom]
    simp only [kind]
    exact fails_bind.2 (.inr ⟨_, _, fetched, fails_fail.2 ⟨rfl, rfl⟩⟩)
  | endMarker kind =>
    rw [expandFrom]
    simp only [kind]
    exact fails_fail.2 ⟨rfl, rfl⟩

theorem Stops.late (stops : Stops pack line text rest before fault after) :
    fault.NotBefore line := by
  cases stops with
  | insertion kind fails =>
    exact (Registry.expandTokens_names (fails_onRegistry.1 fails).1).notBefore
  | block kind fails => exact (Block.read_late (fails_onRegistry.1 fails).1).notBefore
  | importing kind fails =>
    exact .of_inside (Session.fetchTokens_fault (fails_onSession.1 fails).1) line
  | missing kind fetched => exact Fault.Names.notBefore ⟨line, rfl, Nat.le_refl line⟩
  | endMarker kind => exact Fault.Names.notBefore ⟨line, rfl, Nat.le_refl line⟩

theorem Stops.append (stops : Stops pack line text rest before fault after)
    (settled : fault.Settled) (more : List String) :
    Stops pack line text (rest ++ more) before fault after := by
  cases stops with
  | insertion kind fails => exact .insertion kind fails
  | block kind fails =>
    obtain ⟨fails, kept⟩ := fails_onRegistry.1 fails
    exact .block kind (fails_onRegistry.2 ⟨Block.read_fails_append fails settled more, kept⟩)
  | importing kind fails => exact .importing kind fails
  | missing kind fetched => exact .missing kind fetched
  | endMarker kind => exact .endMarker kind

def StopsIn (pack : Pack) (line : Nat) (lines : List String) (before : Workspace) (fault : Fault)
    (after : Workspace) : Prop :=
  ∃ earlier text rest written middle, lines = earlier ++ text :: rest ∧
    Passes pack earlier before written middle ∧
    Stops pack (line + earlier.length) text rest middle fault after

theorem Stops.here (stops : Stops pack line text rest before fault after) :
    StopsIn pack line (text :: rest) before fault after :=
  ⟨[], text, rest, [], before, rfl, .nil, stops⟩

theorem StopsIn.behind {used left written : List String} {middle : Workspace}
    (passes : Passes pack used before written middle)
    (stops : StopsIn pack (line + used.length) left middle fault after) :
    StopsIn pack line (used ++ left) before fault after := by
  obtain ⟨earlier, text, rest, written', middle', rfl, passes', stops⟩ := stops
  have number : line + used.length + earlier.length = line + (used ++ earlier).length := by
    rw [List.length_append]
    omega
  exact ⟨used ++ earlier, text, rest, _, middle', (List.append_assoc ..).symm,
    passes.append passes', number ▸ stops⟩

theorem expandFrom_stopsIn {lines : List String}
    (fails : (expandFrom pack line lines).Fails before fault after) :
    StopsIn pack line lines before fault after := by
  induction line, lines using expandFrom.induct generalizing before with
  | case1 line =>
    rw [expandFrom] at fails
    exact absurd fails fails_pure
  | case2 line text rest body kind ih =>
    rw [expandFrom] at fails
    simp only [kind, fails_bind, fails_pure, and_false, exists_false, or_false] at fails
    have passes : Passes pack [text] before [body] before := .plain kind .nil
    exact .behind passes (ih fails)
  | case3 line text rest tokens kind ih =>
    rw [expandFrom] at fails
    simp only [kind] at fails
    rcases fails_bind.1 fails with here | ⟨lines, middle, inserted, fails⟩
    · exact (Stops.insertion kind here).here
    simp only [fails_bind, fails_pure, and_false, exists_false, or_false] at fails
    exact .behind (.ofInsertion kind inserted) (ih fails)
  | case4 line text rest tokens kind ih =>
    rw [expandFrom] at fails
    simp only [kind] at fails
    rcases fails_bind.1 fails with here | ⟨⟨m, count⟩, middle, reading, registering⟩
    · exact (Stops.block kind here).here
    rcases fails_bind.1 registering with never | ⟨_, _, noted, defining⟩
    · exact absurd never fails_note
    rcases fails_bind.1 defining with never | ⟨_, reached, defined, later⟩
    · exact absurd (fails_onRegistry.1 never).1 (Registry.define_gives m _).not_fails
    cases gives_note.1 noted
    obtain ⟨used, left, rfl, rfl, passes⟩ := Passes.ofBlock reading defined
    have stops := ih used.length later
    rw [List.drop_left] at stops
    have number : line + 1 + used.length = line + (text :: used).length := by
      rw [List.length_cons]
      omega
    exact .behind passes (number ▸ stops)
  | case5 line text rest tokens kind ih =>
    rw [expandFrom] at fails
    simp only [kind] at fails
    rcases fails_bind.1 fails with here | ⟨⟨target, found⟩, middle, fetched, fails⟩
    · exact (Stops.importing kind here).here
    cases found with
    | none =>
      obtain ⟨rfl, rfl⟩ := fails_fail.1 fails
      exact (Stops.missing kind fetched).here
    | some m =>
      rcases fails_bind.1 fails with never | ⟨_, reached, adopted, fails⟩
      · exact absurd never adopt_not_fails
      exact .behind (.ofImport kind fetched adopted) (ih fails)
  | case6 line text rest kind =>
    rw [expandFrom] at fails
    simp only [kind] at fails
    obtain ⟨rfl, rfl⟩ := fails_fail.1 fails
    exact (Stops.endMarker kind).here

theorem StopsIn.late {lines : List String} (stops : StopsIn pack line lines before fault after) :
    fault.NotBefore line := by
  obtain ⟨earlier, text, rest, written, middle, rfl, -, stops⟩ := stops
  intro named member
  have here := stops.late named member
  omega

/-- The fault of a script stays where it is when more lines are written behind, unless the lines
ran out inside a block. -/
theorem StopsIn.fails_append {lines : List String}
    (stops : StopsIn pack line lines before fault after) (settled : fault.Settled)
    (more : List String) : (expandFrom pack line (lines ++ more)).Fails before fault after := by
  obtain ⟨earlier, text, rest, written, middle, rfl, passes, stops⟩ := stops
  have ends := passes.endsAs line (text :: (rest ++ more))
  have mapped := map_run (written ++ ·)
    (expandFrom pack (line + earlier.length) (text :: (rest ++ more))) middle
  obtain ⟨result, state⟩ := (stops.append settled more).fails
  rw [List.append_assoc, List.cons_append]
  refine ⟨?_, ?_⟩
  · rw [ends.1, mapped.1, result]
    rfl
  · rw [ends.2, mapped.2, state]

/-- A script that expands still writes its lines first when more are written behind it, and a fault
that arises then stands behind its last line. A script that fails keeps its fault, whatever is
written behind it, unless its lines ran out inside a block. -/
theorem expand_extended (pack : Pack) (session : Session) (lines more : List String) :
    (∀ out, ((expand pack lines).run session).result = .ok out →
      (∃ later, ((expand pack (lines ++ more)).run session).result = .ok (out ++ later)) ∨
        ∃ fault, ((expand pack (lines ++ more)).run session).result = .error fault ∧
          ∀ line ∈ fault.line?, lines.length < line) ∧
    ∀ fault, ((expand pack lines).run session).result = .error fault →
      (∀ line name, fault ≠ .unterminated line name) →
        ((expand pack (lines ++ more)).run session).result = .error fault ∧
          ((expand pack (lines ++ more)).run session).state =
            ((expand pack lines).run session).state := by
  constructor
  · intro out succeeds
    have ends := (expand_passes succeeds).endsAs 1 more
    have mapped := map_run (out ++ ·) (expandFrom pack (1 + lines.length) more)
      (reached pack session lines)
    have result : ((expand pack (lines ++ more)).run session).result =
        ((expandFrom pack (1 + lines.length) more).run (reached pack session lines)).result.map
          (out ++ ·) := ends.1.trans mapped.1
    rw [result]
    rcases gives_or_fails (expandFrom pack (1 + lines.length) more) (reached pack session lines) with
      ⟨later, gives⟩ | ⟨fault, fails⟩
    · exact .inl ⟨later, by rw [gives.1]; rfl⟩
    · refine .inr ⟨fault, by rw [fails.1]; rfl, fun line member => ?_⟩
      have behind := (expandFrom_stopsIn fails).late line member
      omega
  · intro fault failed settled
    have stops := expandFrom_stopsIn (⟨failed, rfl⟩ : (expandFrom pack 1 lines).Fails
      ⟨session, Dict.empty⟩ fault (reached pack session lines))
    obtain ⟨result, state⟩ := stops.fails_append settled more
    exact ⟨result, congrArg Workspace.session state⟩

def openLines : List String := ["macro Bed", "macro l: Leaf", "macro r: Root"]

theorem expand_extended_garden :
    ((expand greetings treeLines).run Session.start).result = .ok [] ∧
      ((∃ later, ((expand greetings (treeLines ++ openLines)).run Session.start).result =
          .ok ([] ++ later)) ∨
        ∃ fault, ((expand greetings (treeLines ++ openLines)).run Session.start).result =
          .error fault ∧ ∀ line ∈ fault.line?, treeLines.length < line) ∧
      ((expand greetings (treeLines ++ openLines)).run Session.start).result =
        .error (.unknownMacro 9 "Root") ∧
      (∀ line name, Fault.unknownMacro 9 "Root" ≠ .unterminated line name) ∧
      ((expand greetings (treeLines ++ openLines ++ ["macro Root", "end macro", "end macro"])).run
        Session.start).result = .error (.unknownMacro 9 "Root") := by
  have succeeds : ((expand greetings treeLines).run Session.start).result = .ok [] := by
    decide +kernel
  have failed : ((expand greetings (treeLines ++ openLines)).run Session.start).result =
      .error (.unknownMacro 9 "Root") := by decide +kernel
  have settled : ∀ line name, Fault.unknownMacro 9 "Root" ≠ .unterminated line name := nofun
  have first := (expand_extended greetings Session.start treeLines openLines).1 [] succeeds
  have second := (expand_extended greetings Session.start (treeLines ++ openLines)
    ["macro Root", "end macro", "end macro"]).2 _ failed settled
  exact ⟨succeeds, first, failed, settled, second.1⟩

end Script

end QuestScript

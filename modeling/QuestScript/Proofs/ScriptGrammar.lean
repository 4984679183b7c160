import QuestScript.Proofs.ImportCache
import QuestScript.Proofs.ScriptRun

/-! The grammar of scripts that expand. `Expands` cuts a script into plain lines, insertions, whole
blocks and imports, and says what each of them writes and registers. Line numbers, the log and the
cache have no part in it; imports are answered as in a new session. -/
namespace QuestScript

theorem Block.Whole.plainImport {block : List String} {before after : Registry} {m : Macro}
    (whole : Block.Whole block before m after) {text : String} (member : text ∈ block) :
    PlainImport text := by
  intro target asks
  obtain ⟨tokens, imports, -⟩ := ImportTarget.importing_of_ofLine? asks
  exact absurd imports (whole.no_import member tokens)

namespace Script

/-- The script `lines` writes `written` and turns the registry `before` into `after`. -/
inductive Expands (pack : Pack) : List String → Registry → List String → Registry → Prop where
  | nil {before : Registry} : Expands pack [] before [] before
  | plain {text body : String} {rest written : List String} {before after : Registry}
      (kind : Directive.ofLine text = .plain body) (later : Expands pack rest before written after) :
      Expands pack (text :: rest) before (body :: written) after
  | insertion {text keyword place name : String} {arguments rest written : List String}
      {before after : Registry} {m : Macro}
      (kind : Directive.ofLine text = .insertion (keyword :: place :: name :: arguments))
      (bound : before.get? name = some m) (later : Expands pack rest before written after) :
      Expands pack (text :: rest) before
        ((m.expansion (keyword :: place :: name :: arguments) none).lines ++ written) after
  | block {block rest written : List String} {before middle after : Registry} {m : Macro}
      (whole : Block.Whole block before m middle)
      (later : Expands pack rest (middle.insert m.name m) written after) :
      Expands pack (block ++ rest) before written after
  | importing {text : String} {target : ImportTarget} {rest written : List String}
      {before after : Registry} {m : Macro} (asks : ImportTarget.ofLine? text = some target)
      (found : Session.answer pack target = .ok (some m))
      (later : Expands pack rest (before.adopt target.name m) written after) :
      Expands pack (text :: rest) before written after

theorem Passes.expands {pack : Pack} {lines written : List String} {before after : Workspace}
    (passes : Passes pack lines before written after)
    (faithful : Session.Faithful pack before.session) (plain : ∀ text ∈ lines, PlainImport text) :
    Expands pack lines before.registry written after.registry := by
  induction passes with
  | nil => exact .nil
  | plain kind _ ih => exact .plain kind (ih faithful (List.forall_mem_cons.1 plain).2)
  | insertion kind bound _ ih =>
    exact .insertion kind bound (ih faithful (List.forall_mem_cons.1 plain).2)
  | block whole _ ih =>
    exact .block whole (ih faithful fun other member =>
      plain other (List.mem_append_right _ member))
  | importing kind fetched _ ih =>
    obtain ⟨here, later⟩ := List.forall_mem_cons.1 plain
    obtain ⟨asks, anew, faithful'⟩ := faithful.fetchTokens_answer (fun _ => here.plain kind) fetched
    exact .importing ((ImportTarget.ofLine?_importing kind).trans asks) anew (ih faithful' later)

/-- A script that has the grammar passes in every faithful session. -/
theorem Expands.passes {pack : Pack} {lines written : List String} {before after : Registry}
    (expands : Expands pack lines before written after) (plain : ∀ text ∈ lines, PlainImport text)
    {session : Session} (faithful : Session.Faithful pack session) :
    ∃ session', Passes pack lines ⟨session, before⟩ written ⟨session', after⟩ := by
  induction expands generalizing session with
  | nil => exact ⟨session, .nil⟩
  | plain kind _ ih =>
    obtain ⟨session', later⟩ := ih (List.forall_mem_cons.1 plain).2 faithful
    exact ⟨session', .plain kind later⟩
  | insertion kind bound _ ih =>
    obtain ⟨session', later⟩ := ih (List.forall_mem_cons.1 plain).2 faithful
    exact ⟨session', .insertion kind bound later⟩
  | block whole _ ih =>
    obtain ⟨session', later⟩ :=
      ih (fun other member => plain other (List.mem_append_right _ member)) faithful
    exact ⟨session', .block whole later⟩
  | @importing text target rest written before after m asks anew _ ih =>
    obtain ⟨here, others⟩ := List.forall_mem_cons.1 plain
    obtain ⟨tokens, kind, spelled⟩ := ImportTarget.importing_of_ofLine? asks
    obtain ⟨middle, fetched, faithful'⟩ :=
      faithful.fetchTokens_gives text spelled (here target asks) anew
    obtain ⟨session', later⟩ := ih others faithful'
    exact ⟨session', .importing kind fetched later⟩

theorem Expands.append {pack : Pack} {first second written written' : List String}
    {before middle after : Registry} (start : Expands pack first before written middle)
    (later : Expands pack second middle written' after) :
    Expands pack (first ++ second) before (written ++ written') after := by
  induction start with
  | nil => exact later
  | plain kind _ ih => exact .plain kind (ih later)
  | insertion kind bound _ ih =>
    rw [List.append_assoc]
    exact .insertion kind bound (ih later)
  | block whole _ ih =>
    rw [List.append_assoc]
    exact .block whole (ih later)
  | importing asks found _ ih => exact .importing asks found (ih later)

theorem Expands.split {pack : Pack} {earlier later written : List String} {line : String}
    {target : ImportTarget} {before after : Registry} (asks : ImportTarget.ofLine? line = some target)
    (expands : Expands pack (earlier ++ line :: later) before written after) :
    ∃ first second middle m, written = first ++ second ∧ Expands pack earlier before first middle ∧
      Session.answer pack target = .ok (some m) ∧
      Expands pack later (middle.adopt target.name m) second after := by
  obtain ⟨tokens, imports, -⟩ := ImportTarget.importing_of_ofLine? asks
  generalize cut : earlier ++ line :: later = lines at expands
  induction expands generalizing earlier with
  | nil => simp at cut
  | @plain text body rest written before after kind more ih =>
    rcases earlier with _ | ⟨text', earlier⟩
    · cases cut
      simp [kind] at imports
    · cases cut
      obtain ⟨first, second, middle, m, rfl, start, anew, ends⟩ := ih rfl
      exact ⟨body :: first, second, middle, m, rfl, .plain kind start, anew, ends⟩
  | @insertion text keyword place name arguments rest written before after m kind bound more ih =>
    rcases earlier with _ | ⟨text', earlier⟩
    · cases cut
      simp [kind] at imports
    · cases cut
      obtain ⟨first, second, middle, m', rfl, start, anew, ends⟩ := ih rfl
      exact ⟨_ ++ first, second, middle, m', (List.append_assoc ..).symm, .insertion kind bound start,
        anew, ends⟩
  | @block block rest written before middle after m whole more ih =>
    -- the import is no line of the block, so the cut lies behind it
    obtain ⟨between, rfl, rfl⟩ := whole.ends_before_import imports cut
    obtain ⟨first, second, middle, m', rfl, start, anew, ends⟩ := ih rfl
    exact ⟨first, second, middle, m', rfl, .block whole start, anew, ends⟩
  | @importing text target' rest written before after m asks' anew more ih =>
    rcases earlier with _ | ⟨text', earlier⟩
    · cases cut
      cases asks.symm.trans asks'
      exact ⟨[], written, before, m, rfl, .nil, anew, more⟩
    · cases cut
      obtain ⟨first, second, middle, m', rfl, start, anew', ends⟩ := ih rfl
      exact ⟨first, second, middle, m', rfl, .importing asks' anew start, anew', ends⟩

theorem Expands.weaken {pack : Pack} {lines written : List String} {before after wide : Registry}
    (expands : Expands pack lines before written after) (within : before.Within wide) :
    ∃ wide', Expands pack lines wide written wide' := by
  induction expands generalizing wide with
  | nil => exact ⟨wide, .nil⟩
  | plain kind _ ih =>
    obtain ⟨wide', more⟩ := ih within
    exact ⟨wide', .plain kind more⟩
  | insertion kind bound _ ih =>
    obtain ⟨wide', more⟩ := ih within
    exact ⟨wide', .insertion kind (within _ _ bound) more⟩
  | @block block rest written before middle after m whole _ ih =>
    obtain ⟨wideMiddle, whole', names⟩ := whole.weaken within
    obtain ⟨wide', more⟩ := ih ((whole.within_after within names).insert m.name m)
    exact ⟨wide', .block whole' more⟩
  | importing asks anew _ ih =>
    obtain ⟨wide', more⟩ := ih (within.adopt _ _)
    exact ⟨wide', .importing asks anew more⟩

end Script

end QuestScript

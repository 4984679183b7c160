import QuestScript.Script
import QuestScript.Proofs.BlockGrammar

/-! Runs of scripts that succeed, in any session. `Passes` cuts a script as its run does and keeps
the workspace, so imports are answered by the session as it stands. It describes exactly the
successful runs of `expandFrom`. A script that passes can be taken off the front of a longer one:
what follows is expanded from the workspace it leaves, with a fault of its own or without. -/
namespace QuestScript

open QuestScript.Action

namespace Registry

/-- The registry after an import: the macro stands under the name that was asked for, where that is
not the one it declares, and under the one it declares. -/
def adopt (registry : Registry) (name : String) (m : Macro) : Registry :=
  if name ≠ m.name then Dict.insert (Dict.insert registry name m) m.name m
  else Dict.insert registry m.name m

theorem Within.adopt {narrow wide : Registry} (within : narrow.Within wide) (name : String)
    (m : Macro) : (narrow.adopt name m).Within (wide.adopt name m) := by
  unfold Registry.adopt
  split
  · exact (within.insert name m).insert m.name m
  · exact within.insert m.name m

@[simp] theorem gives_expandTokens {line : Nat} {text : String} {tokens : List String}
    {before after : Registry} {written : List String} :
    (expandTokens line text tokens).Gives before written after ↔
      ∃ m, (target line text tokens).Gives before m after ∧
        written = (m.expansion tokens none).lines := by
  simp only [expandTokens, gives_bind, gives_note, gives_pure]
  constructor
  · rintro ⟨m, _, found, _, _, rfl, rfl, rfl⟩
    exact ⟨m, found, rfl⟩
  · rintro ⟨m, found, rfl⟩
    exact ⟨m, _, found, (), _, rfl, rfl, rfl⟩

end Registry

namespace Workspace

variable {α : Type}

@[simp] theorem gives_onRegistry {action : Action Registry α} {before after : Workspace} {a : α} :
    (onRegistry action).Gives before a after ↔
      action.Gives before.registry a after.registry ∧ after.session = before.session := by
  rcases before with ⟨session, registry⟩
  rcases after with ⟨session', registry'⟩
  simp only [Gives, onRegistry, focus, run, mk.injEq]
  constructor
  · rintro ⟨ends, kept, reached⟩
    exact ⟨⟨ends, reached⟩, kept.symm⟩
  · rintro ⟨⟨ends, reached⟩, kept⟩
    exact ⟨ends, kept.symm, reached⟩

@[simp] theorem gives_onSession {action : Action Session α} {before after : Workspace} {a : α} :
    (onSession action).Gives before a after ↔
      action.Gives before.session a after.session ∧ after.registry = before.registry := by
  rcases before with ⟨session, registry⟩
  rcases after with ⟨session', registry'⟩
  simp only [Gives, onSession, focus, run, mk.injEq]
  constructor
  · rintro ⟨ends, reached, kept⟩
    exact ⟨⟨ends, reached⟩, kept.symm⟩
  · rintro ⟨⟨ends, reached⟩, kept⟩
    exact ⟨ends, reached, kept.symm⟩

@[simp] theorem gives_adopt {name : String} {m : Macro} {before after : Workspace} {u : Unit} :
    (adopt name m).Gives before u after ↔
      after.registry = before.registry.adopt name m ∧ after.session = before.session := by
  unfold adopt Registry.adopt
  by_cases other : name ≠ m.name
  · simp only [if_pos other, gives_bind, gives_pure, gives_onRegistry, Registry.gives_defineAs,
      Registry.gives_define]
    constructor
    · rintro ⟨_, first, ⟨⟨-, spelled⟩, kept⟩, _, second, ⟨⟨-, declared⟩, kept'⟩, -, rfl⟩
      exact ⟨by rw [declared, spelled], kept'.trans kept⟩
    · rintro ⟨declared, kept⟩
      exact ⟨_, ⟨before.session, before.registry.insert name m⟩, ⟨⟨rfl, rfl⟩, rfl⟩,
        _, after, ⟨⟨rfl, declared⟩, kept⟩, trivial, rfl⟩
  · simp only [if_neg other, gives_bind, gives_pure, gives_onRegistry, Registry.gives_define]
    constructor
    · rintro ⟨_, first, ⟨⟨-, declared⟩, kept⟩, -, rfl⟩
      exact ⟨declared, kept⟩
    · rintro ⟨declared, kept⟩
      exact ⟨_, after, ⟨⟨rfl, declared⟩, kept⟩, trivial, rfl⟩

end Workspace

namespace Script

open Workspace

/-- The script `lines` writes `written` and turns the workspace `before` into `after`. -/
inductive Passes (pack : Pack) : List String → Workspace → List String → Workspace → Prop where
  | nil {space : Workspace} : Passes pack [] space [] space
  | plain {text body : String} {rest written : List String} {before after : Workspace}
      (kind : Directive.ofLine text = .plain body) (later : Passes pack rest before written after) :
      Passes pack (text :: rest) before (body :: written) after
  | insertion {text keyword place name : String} {arguments rest written : List String}
      {before after : Workspace} {m : Macro}
      (kind : Directive.ofLine text = .insertion (keyword :: place :: name :: arguments))
      (bound : before.registry.get? name = some m) (later : Passes pack rest before written after) :
      Passes pack (text :: rest) before
        ((m.expansion (keyword :: place :: name :: arguments) none).lines ++ written) after
  | block {block rest written : List String} {session : Session} {before middle : Registry}
      {after : Workspace} {m : Macro} (whole : Block.Whole block before m middle)
      (later : Passes pack rest ⟨session, middle.insert m.name m⟩ written after) :
      Passes pack (block ++ rest) ⟨session, before⟩ written after
  | importing {text : String} {tokens rest written : List String} {target : ImportTarget}
      {session session' : Session} {before : Registry} {after : Workspace} {m : Macro}
      (kind : Directive.ofLine text = .importing tokens)
      (fetched : (Session.fetchTokens pack text tokens).Gives session (target, some m) session')
      (later : Passes pack rest ⟨session', before.adopt target.name m⟩ written after) :
      Passes pack (text :: rest) ⟨session, before⟩ written after

theorem Passes.append {pack : Pack} {first second written written' : List String}
    {before middle after : Workspace} (start : Passes pack first before written middle)
    (later : Passes pack second middle written' after) :
    Passes pack (first ++ second) before (written ++ written') after := by
  induction start with
  | nil => exact later
  | plain kind _ ih => exact .plain kind (ih later)
  | insertion kind bound _ ih =>
    rw [List.append_assoc]
    exact .insertion kind bound (ih later)
  | block whole _ ih =>
    rw [List.append_assoc]
    exact .block whole (ih later)
  | importing kind fetched _ ih => exact .importing kind fetched (ih later)

theorem Passes.ofWhole {pack : Pack} {block : List String} {before middle : Registry} {m : Macro}
    (whole : Block.Whole block before m middle) (session : Session) :
    Passes pack block ⟨session, before⟩ [] ⟨session, middle.insert m.name m⟩ := by
  have passes : Passes pack (block ++ []) ⟨session, before⟩ [] ⟨session, middle.insert m.name m⟩ :=
    .block whole .nil
  rw [List.append_nil] at passes
  exact passes

section

variable {pack : Pack} {line : Nat} {text : String} {rest tokens : List String}
  {before middle after : Workspace}

theorem Passes.ofInsertion {written : List String}
    (kind : Directive.ofLine text = .insertion tokens)
    (inserted : (onRegistry (Registry.expandTokens line text tokens)).Gives before written after) :
    Passes pack [text] before written after := by
  rcases before with ⟨session, registry⟩
  rcases after with ⟨session', registry'⟩
  simp only [gives_onRegistry, Registry.gives_expandTokens, Registry.gives_target] at inserted
  obtain ⟨⟨m, ⟨⟨keyword, place, name, arguments, rfl, bound⟩, rfl⟩, rfl⟩, rfl⟩ := inserted
  rw [← List.append_nil (m.expansion _ none).lines]
  exact .insertion kind bound .nil

theorem Passes.ofBlock {m : Macro} {count : Nat} {replaced : Option Macro}
    (reading : (onRegistry (Block.read line text rest)).Gives before (m, count) middle)
    (defined : (onRegistry (Registry.define m)).Gives middle replaced after) :
    ∃ used left, rest = used ++ left ∧ used.length = count ∧
      Passes pack (text :: used) before [] after := by
  rcases before with ⟨session, registry⟩
  rcases middle with ⟨session', registry'⟩
  rcases after with ⟨session'', registry''⟩
  simp only [gives_onRegistry, Registry.gives_define] at reading defined
  obtain ⟨reading, rfl⟩ := reading
  obtain ⟨⟨-, rfl⟩, rfl⟩ := defined
  obtain ⟨used, left, rfl, rfl, whole⟩ := Block.read_whole reading
  exact ⟨used, left, rfl, rfl, .ofWhole whole _⟩

theorem Passes.ofImport {target : ImportTarget} {m : Macro} {u : Unit}
    (kind : Directive.ofLine text = .importing tokens)
    (fetched : (onSession (Session.fetchTokens pack text tokens)).Gives before (target, some m)
      middle)
    (adopted : (adopt target.name m).Gives middle u after) : Passes pack [text] before [] after := by
  rcases before with ⟨session, registry⟩
  rcases middle with ⟨session', registry'⟩
  rcases after with ⟨session'', registry''⟩
  simp only [gives_onSession, gives_adopt] at fetched adopted
  obtain ⟨fetched, rfl⟩ := fetched
  obtain ⟨rfl, rfl⟩ := adopted
  exact .importing kind fetched .nil

end

theorem expandFrom_passes {pack : Pack} {line : Nat} {lines written : List String}
    {before after : Workspace} (gives : (expandFrom pack line lines).Gives before written after) :
    Passes pack lines before written after := by
  induction line, lines using expandFrom.induct generalizing before written with
  | case1 line =>
    rw [expandFrom, gives_pure] at gives
    obtain ⟨rfl, rfl⟩ := gives
    exact .nil
  | case2 line text rest body kind ih =>
    rw [expandFrom] at gives
    simp only [kind, gives_bind, gives_pure] at gives
    obtain ⟨later, _, gives, rfl, rfl⟩ := gives
    exact .plain kind (ih gives)
  | case3 line text rest tokens kind ih =>
    rw [expandFrom] at gives
    simp only [kind, gives_bind, gives_pure] at gives
    obtain ⟨lines, middle, inserted, later, _, gives, rfl, rfl⟩ := gives
    exact (Passes.ofInsertion kind inserted).append (ih gives)
  | case4 line text rest tokens kind ih =>
    rw [expandFrom] at gives
    simp only [kind, gives_bind, gives_note] at gives
    obtain ⟨⟨m, count⟩, _, reading, _, middle, rfl, _, reached, defined, gives⟩ := gives
    obtain ⟨used, left, rfl, rfl, passes⟩ := Passes.ofBlock reading defined
    have later := ih used.length gives
    rw [List.drop_left] at later
    exact passes.append later
  | case5 line text rest tokens kind ih =>
    rw [expandFrom] at gives
    simp only [kind, gives_bind] at gives
    obtain ⟨⟨target, found⟩, middle, fetched, gives⟩ := gives
    cases found with
    | none => simp at gives
    | some m =>
      obtain ⟨_, reached, adopted, gives⟩ := gives_bind.1 gives
      exact (Passes.ofImport kind fetched adopted).append (ih gives)
  | case6 line text rest kind =>
    rw [expandFrom] at gives
    simp [kind] at gives

def reached (pack : Pack) (session : Session) (lines : List String) : Workspace :=
  ((expandFrom pack 1 lines).run ⟨session, Dict.empty⟩).state

theorem expand_passes {pack : Pack} {session : Session} {lines out : List String}
    (succeeds : ((expand pack lines).run session).result = .ok out) :
    Passes pack lines ⟨session, Dict.empty⟩ out (reached pack session lines) :=
  expandFrom_passes ⟨succeeds, rfl⟩

/-- A script that passes, with more lines behind it. The lines it writes come first; the rest is
expanded from the workspace it leaves and counts its own lines on from there. -/
theorem Passes.endsAs {pack : Pack} {lines written : List String} {before after : Workspace}
    (passes : Passes pack lines before written after) (line : Nat) (rest : List String) :
    (expandFrom pack line (lines ++ rest)).EndsAs before
      ((written ++ ·) <$> expandFrom pack (line + lines.length) rest) after := by
  induction passes generalizing line with
  | nil =>
    have unchanged : (([] : List String) ++ ·) = id := by
      funext later
      rfl
    rw [unchanged, id_map]
    exact ⟨rfl, rfl⟩
  | @plain text body used written before after kind _ ih =>
    have number : line + 1 + used.length = line + (used.length + 1) := by omega
    have more := (ih (line + 1)).map (body :: ·)
    rw [Functor.map_map, number] at more
    rw [List.cons_append, expandFrom]
    simp only [kind, bind_pure_comp]
    exact more
  | @insertion text keyword place name arguments used written before after m kind bound _ ih =>
    have number : line + 1 + used.length = line + (used.length + 1) := by omega
    have first : (onRegistry (Registry.expandTokens line text
        (keyword :: place :: name :: arguments))).Gives before
        (m.expansion (keyword :: place :: name :: arguments) none).lines before := by
      have found : (Registry.target line text (keyword :: place :: name :: arguments)).Gives
          before.registry m before.registry :=
        Registry.gives_target.2 ⟨⟨keyword, place, name, arguments, rfl, bound⟩, rfl⟩
      exact gives_onRegistry.2 ⟨Registry.gives_expandTokens.2 ⟨m, found, rfl⟩, rfl⟩
    have more := (ih (line + 1)).map
      ((m.expansion (keyword :: place :: name :: arguments) none).lines ++ ·)
    rw [Functor.map_map, number] at more
    rw [List.cons_append, expandFrom]
    simp only [kind, bind_pure_comp, List.append_assoc]
    exact (first.endsAs_bind _).trans more
  | @block block used written session before middle after m whole _ ih =>
    cases whole with
    | @block text keyword name params inner _ _ found kind reads =>
      have number : line + 1 + inner.length + used.length =
          line + ((inner ++ used).length + 1) := by
        rw [List.length_append]
        omega
      have reading := (Block.Whole.block kind reads).read_gives line (used ++ rest)
      have first : (onRegistry (Block.read line text (inner ++ (used ++ rest)))).Gives
          ⟨session, before⟩ (_, inner.length) ⟨session, middle⟩ :=
        gives_onRegistry.2 ⟨reading, rfl⟩
      have noted : (note [.registered line name] : Action Workspace Unit).Gives ⟨session, middle⟩ ()
          ⟨session, middle⟩ := gives_note.2 rfl
      have defined : (onRegistry (Registry.define ⟨keyword :: name :: params, some found.body,
          found.insertions⟩)).Gives ⟨session, middle⟩ _ ⟨session, middle.insert name _⟩ :=
        gives_onRegistry.2 ⟨Registry.gives_define.2 ⟨rfl, rfl⟩, rfl⟩
      have more := ih (line + 1 + inner.length)
      rw [number] at more
      rw [List.cons_append, List.cons_append, List.append_assoc, expandFrom]
      simp only [kind]
      apply (first.endsAs_bind _).trans
      apply (noted.endsAs_bind _).trans
      apply (defined.endsAs_bind _).trans
      rw [List.drop_left]
      exact more
  | @importing text tokens used written target session session' before after m kind fetched _ ih =>
    have number : line + 1 + used.length = line + (used.length + 1) := by omega
    have first : (onSession (Session.fetchTokens pack text tokens)).Gives ⟨session, before⟩
        (target, some m) ⟨session', before⟩ := gives_onSession.2 ⟨fetched, rfl⟩
    have adopted : (adopt target.name m).Gives ⟨session', before⟩ ()
        ⟨session', before.adopt target.name m⟩ := gives_adopt.2 ⟨rfl, rfl⟩
    have more := ih (line + 1)
    rw [number] at more
    rw [List.cons_append, expandFrom]
    simp only [kind]
    apply (first.endsAs_bind _).trans
    exact (adopted.endsAs_bind _).trans more

theorem Passes.gives {pack : Pack} {lines written : List String} {before after : Workspace}
    (passes : Passes pack lines before written after) (line : Nat) :
    (expandFrom pack line lines).Gives before written after := by
  obtain ⟨result, state⟩ := passes.endsAs line []
  rw [List.append_nil] at result state
  rw [expandFrom, map_pure, List.append_nil] at result state
  exact ⟨result, state⟩

end Script

end QuestScript

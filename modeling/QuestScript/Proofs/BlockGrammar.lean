import QuestScript.Block
import QuestScript.Proofs.Ending

/-! The grammar of blocks. `Reads` says which lines end a block and what they hold, without line
numbers and without the lines that follow. It describes exactly the successful runs of
`Block.contents`, so facts about blocks that were read are proved by induction on it. -/
namespace QuestScript

namespace Registry

@[simp] theorem gives_defineAs {name : String} {m : Macro} {before after : Registry}
    {replaced : Option Macro} :
    (defineAs name m).Gives before replaced after ↔
      replaced = before.get? name ∧ after = before.insert name m := by
  rw [defineAs, Action.gives_get_bind]
  by_cases known : before.contains name = true <;> simp [known, and_comm, eq_comm]

@[simp] theorem gives_define {m : Macro} {before after : Registry} {replaced : Option Macro} :
    (define m).Gives before replaced after ↔
      replaced = before.get? m.name ∧ after = before.insert m.name m :=
  gives_defineAs

@[simp] theorem gives_target {line : Nat} {text : String} {tokens : List String}
    {before after : Registry} {m : Macro} :
    (target line text tokens).Gives before m after ↔
      (∃ keyword place name arguments, tokens = keyword :: place :: name :: arguments ∧
        before.get? name = some m) ∧ after = before := by
  rcases tokens with _ | ⟨keyword, _ | ⟨place, _ | ⟨name, arguments⟩⟩⟩
  · simp [target]
  · simp [target]
  · simp [target]
  rw [target, Action.gives_get_bind]
  cases found : before.get? name with
  | none => simp [found]
  | some m' =>
    simp only [Action.gives_pure]
    constructor
    · rintro ⟨rfl, rfl⟩
      exact ⟨⟨keyword, place, name, arguments, rfl, found⟩, rfl⟩
    · rintro ⟨⟨_, _, _, _, same, bound⟩, rfl⟩
      cases same
      exact ⟨Option.some.inj (bound.symm.trans found), rfl⟩

theorem define_gives (m : Macro) (registry : Registry) :
    (define m).Gives registry (registry.get? m.name) (registry.insert m.name m) :=
  gives_define.2 ⟨rfl, rfl⟩

def Within (narrow wide : Registry) : Prop :=
  ∀ name m, narrow.get? name = some m → wide.get? name = some m

theorem Within.empty (wide : Registry) : Within Dict.empty wide := by
  intro name m bound
  rw [Dict.get?_empty] at bound
  contradiction

theorem Within.insert {narrow wide : Registry} (within : narrow.Within wide) (name : String)
    (m : Macro) : Within (Dict.insert narrow name m) (Dict.insert wide name m) := by
  intro other m' bound
  rw [Dict.get?_insert] at bound ⊢
  split at bound
  · next same => rw [if_pos same, bound]
  · next differ =>
    rw [if_neg differ]
    exact within other m' bound

end Registry

theorem append_cut {first second ahead behind : List String} {text : String}
    (cut : first ++ second = ahead ++ text :: behind) :
    (∃ between, first = ahead ++ text :: between ∧ behind = between ++ second) ∨
      ∃ between, ahead = first ++ between ∧ second = between ++ text :: behind := by
  rcases List.append_eq_append_iff.1 cut with ⟨between, rfl, rfl⟩ | ⟨between, rfl, left⟩
  · exact .inr ⟨between, rfl, rfl⟩
  · cases between with
    | nil => exact .inr ⟨[], by simp, left.symm⟩
    | cons line between =>
      cases left
      exact .inl ⟨between, rfl, rfl⟩

namespace Block

def declares? (line : String) : Option String :=
  match Directive.ofLine line with
  | .definition (_ :: name :: _) => some name
  | _ => none

def declared (lines : List String) : List String := lines.filterMap declares?

theorem declares?_definition {line keyword name : String} {params : List String}
    (kind : Directive.ofLine line = .definition (keyword :: name :: params)) :
    declares? line = some name := by
  simp [declares?, kind]

/-- The lines `used`, from the one after a header to its end marker, hold `found`. Reading them
turns the registry `before` into `after`. -/
inductive Reads : List String → Registry → Contents → Registry → Prop where
  | close {text : String} {before : Registry} (kind : Directive.ofLine text = .endMarker) :
      Reads [text] before Contents.empty before
  | plain {text body : String} {used : List String} {before after : Registry} {found : Contents}
      (kind : Directive.ofLine text = .plain body) (later : Reads used before found after) :
      Reads (text :: used) before (found.addLine body) after
  | insertion {text keyword place name : String} {arguments used : List String}
      {before after : Registry} {target : Macro} {found : Contents}
      (kind : Directive.ofLine text = .insertion (keyword :: place :: name :: arguments))
      (bound : before.get? name = some target) (later : Reads used before found after) :
      Reads (text :: used) before
        (found.addInsertion ⟨keyword :: place :: name :: arguments, target⟩) after
  | block {text keyword name : String} {params inner used : List String}
      {before middle after : Registry} {held found : Contents}
      (kind : Directive.ofLine text = .definition (keyword :: name :: params))
      (inside : Reads inner before held middle)
      (later : Reads used
        (middle.insert name ⟨keyword :: name :: params, some held.body, held.insertions⟩) found after) :
      Reads (text :: (inner ++ used)) before found after

theorem ofDirective_ok {line : Nat} {text : String} {directive : Directive} {header : Header}
    (opens : Header.ofDirective line text directive = .ok header) :
    header.line = line ∧ directive = .definition header.signature := by
  unfold Header.ofDirective at opens
  split at opens
  · cases opens
    exact ⟨rfl, rfl⟩
  · contradiction

theorem contents_reads {header : Header} {line : Nat} {lines : List String}
    {before after : Registry} {found : Contents} {count : Nat}
    (gives : (contents header line lines).Gives before (found, count) after) :
    ∃ used rest, lines = used ++ rest ∧ used.length = count ∧ Reads used before found after := by
  induction header, line, lines using contents.induct generalizing before after found count with
  | case1 header line => simp [contents] at gives
  | case2 header line text rest kind =>
    simp only [contents, kind, Action.gives_pure, Prod.mk.injEq] at gives
    obtain ⟨⟨rfl, rfl⟩, rfl⟩ := gives
    exact ⟨[text], rest, rfl, rfl, .close kind⟩
  | case3 header line text rest body kind ih =>
    simp only [contents, kind, Action.gives_bind, Action.gives_pure, Prod.mk.injEq] at gives
    obtain ⟨⟨found', count'⟩, after', first, ⟨rfl, rfl⟩, rfl⟩ := gives
    obtain ⟨used, rest', rfl, rfl, reads⟩ := ih first
    exact ⟨text :: used, rest', rfl, rfl, .plain kind reads⟩
  | case4 header line text rest tokens kind ih =>
    simp only [contents, kind, Action.gives_bind, Action.gives_pure, Prod.mk.injEq,
      Registry.gives_target] at gives
    obtain ⟨target, _, ⟨⟨keyword, place, name, arguments, rfl, bound⟩, rfl⟩, ⟨found', count'⟩, after',
      first, ⟨rfl, rfl⟩, rfl⟩ := gives
    obtain ⟨used, rest', rfl, rfl, reads⟩ := ih first
    exact ⟨text :: used, rest', rfl, rfl, .insertion kind bound reads⟩
  | case5 header line text rest tokens kind => simp [contents, kind] at gives
  | case6 header line text rest tokens kind ihInner ihRest =>
    simp only [contents, kind, Action.gives_bind, Action.gives_pure, Prod.mk.injEq,
      Action.gives_ofExcept, Action.gives_note, Registry.gives_define] at gives
    obtain ⟨inner, _, ⟨opens, rfl⟩, ⟨held, length⟩, middle, inside, _, _, rfl, _, _, ⟨-, rfl⟩,
      ⟨found', count'⟩, after', later, ⟨rfl, rfl⟩, rfl⟩ := gives
    cases (ofDirective_ok opens).2
    obtain ⟨lines, left, rfl, rfl, reads⟩ := ihInner inner inside
    obtain ⟨used, rest', cut, rfl, reads'⟩ := ihRest _ later
    rw [List.drop_left] at cut
    subst cut
    refine ⟨text :: (lines ++ used), rest', by simp, by simp; omega, ?_⟩
    exact .block kind reads reads'

/-- Lines that end a block are read as such wherever they stand, whatever header they follow and
whatever lines come after them. -/
theorem Reads.contents_gives {used : List String} {before after : Registry} {found : Contents}
    (reads : Reads used before found after) (header : Header) (line : Nat) (rest : List String) :
    (contents header line (used ++ rest)).Gives before (found, used.length) after := by
  induction reads generalizing header line rest with
  | close kind => simp [contents, kind]
  | plain kind _ ih =>
    simp only [List.cons_append, contents, kind, Action.gives_bind]
    exact ⟨_, _, ih header (line + 1) rest, by simp⟩
  | insertion kind bound _ ih =>
    simp only [List.cons_append, contents, kind, Action.gives_bind, Registry.gives_target]
    exact ⟨_, _, ⟨⟨_, _, _, _, rfl, bound⟩, rfl⟩, _, _, ih header (line + 1) rest, by simp⟩
  | @block text keyword name params inner used before middle after held found kind _ _ ihInner ihRest =>
    have inside : (contents ⟨line, keyword, name, params⟩ (line + 1) (inner ++ used ++ rest)).Gives
        before (held, inner.length) middle := by
      rw [List.append_assoc]
      exact ihInner _ _ _
    have cut : (inner ++ used ++ rest).drop inner.length = used ++ rest := by simp
    have later := ihRest header (line + 1 + inner.length) rest
    rw [← cut] at later
    simp only [List.cons_append, contents, kind, Action.gives_bind, Header.ofDirective,
      Action.ofExcept_ok, Action.gives_pure, Action.gives_note, Registry.gives_define]
    exact ⟨_, _, ⟨rfl, rfl⟩, _, _, inside, (), _, rfl, _, _, ⟨rfl, rfl⟩, _, _, later,
      by simp; omega, rfl⟩

theorem Reads.no_import {used : List String} {before after : Registry} {found : Contents}
    (reads : Reads used before found after) {line : String} (member : line ∈ used)
    (tokens : List String) : Directive.ofLine line ≠ .importing tokens := by
  induction reads with
  | close kind =>
    cases List.mem_singleton.1 member
    simp [kind]
  | plain kind _ ih =>
    rcases List.mem_cons.1 member with rfl | later
    · simp [kind]
    · exact ih later
  | insertion kind _ _ ih =>
    rcases List.mem_cons.1 member with rfl | later
    · simp [kind]
    · exact ih later
  | block kind _ _ ihInner ihRest =>
    rcases List.mem_cons.1 member with rfl | later
    · simp [kind]
    · rcases List.mem_append.1 later with inside | behind
      · exact ihInner inside
      · exact ihRest behind

theorem declared_definition {text keyword name : String} {params inner used : List String}
    (kind : Directive.ofLine text = .definition (keyword :: name :: params)) :
    declared (text :: (inner ++ used)) = name :: (declared inner ++ declared used) := by
  simp [declared, declares?_definition kind]

theorem declared_other {text : String} {used : List String}
    (kind : ∀ tokens, Directive.ofLine text ≠ .definition tokens) :
    declared (text :: used) = declared used := by
  have none : declares? text = none := by
    unfold declares?
    split
    · next tokens same => exact absurd same (kind _)
    · rfl
  simp [declared, none]

theorem Reads.get?_of_not_declared {used : List String} {before after : Registry} {found : Contents}
    (reads : Reads used before found after) {name : String} (fresh : name ∉ declared used) :
    after.get? name = before.get? name := by
  induction reads with
  | close kind => rfl
  | plain kind _ ih =>
    rw [declared_other (by simp [kind])] at fresh
    exact ih fresh
  | insertion kind _ _ ih =>
    rw [declared_other (by simp [kind])] at fresh
    exact ih fresh
  | block kind _ _ ihInner ihRest =>
    rw [declared_definition kind] at fresh
    simp only [List.mem_cons, List.mem_append, not_or] at fresh
    rw [ihRest fresh.2.2, Dict.get?_insert_of_ne _ _ fresh.1, ihInner fresh.2.1]

theorem Reads.within_after {used : List String} {before after wide wide' : Registry}
    {found : Contents} (reads : Reads used before found after) (within : before.Within wide)
    (names : ∀ name, wide'.get? name =
      if name ∈ declared used then after.get? name else wide.get? name) : after.Within wide' := by
  intro name m bound
  rw [names]
  split
  · exact bound
  · next fresh =>
    rw [reads.get?_of_not_declared fresh] at bound
    exact within name m bound

/-- A registry that has more names reads the same. It ends with the same macros for the names that
the lines declare and keeps its own for all others. -/
theorem Reads.weaken {used : List String} {before after wide : Registry} {found : Contents}
    (reads : Reads used before found after) (within : before.Within wide) :
    ∃ wide', Reads used wide found wide' ∧
      ∀ name, wide'.get? name = if name ∈ declared used then after.get? name else wide.get? name := by
  induction reads generalizing wide with
  | close kind =>
    refine ⟨wide, .close kind, fun name => ?_⟩
    rw [declared_other (by simp [kind])]
    simp [declared]
  | plain kind _ ih =>
    obtain ⟨wide', reads, names⟩ := ih within
    refine ⟨wide', .plain kind reads, fun name => ?_⟩
    rw [declared_other (by simp [kind])]
    exact names name
  | insertion kind bound _ ih =>
    obtain ⟨wide', reads, names⟩ := ih within
    refine ⟨wide', .insertion kind (within _ _ bound) reads, fun name => ?_⟩
    rw [declared_other (by simp [kind])]
    exact names name
  | @block text keyword name params inner used before middle after held found kind inside later
      ihInner ihRest =>
    obtain ⟨wideMiddle, insideWide, namesInner⟩ := ihInner within
    obtain ⟨wide', laterWide, namesRest⟩ :=
      ihRest ((inside.within_after within namesInner).insert name _)
    refine ⟨wide', .block kind insideWide laterWide, fun other => ?_⟩
    rw [declared_definition kind, namesRest]
    -- a name gets its last macro: from the lines behind the block, the block, or inside it
    by_cases behind : other ∈ declared used
    · rw [if_pos behind, if_pos (by simp [behind])]
    rw [if_neg behind, later.get?_of_not_declared behind]
    by_cases same : other = name
    · rw [same, Dict.get?_insert_self, Dict.get?_insert_self, if_pos (by simp)]
    rw [Dict.get?_insert_of_ne _ _ same, Dict.get?_insert_of_ne _ _ same, namesInner]
    by_cases held : other ∈ declared inner
    · rw [if_pos held, if_pos (by simp [held])]
    · rw [if_neg held, if_neg (by simp [same, held, behind])]

/-- The lines are one whole block: a header and the lines up to its end marker. Its macro is `m`;
reading it turns the registry `before` into `after`, and does not register `m` itself. -/
inductive Whole : List String → Registry → Macro → Registry → Prop where
  | block {text keyword name : String} {params used : List String} {before after : Registry}
      {found : Contents} (kind : Directive.ofLine text = .definition (keyword :: name :: params))
      (reads : Reads used before found after) :
      Whole (text :: used) before ⟨keyword :: name :: params, some found.body, found.insertions⟩ after

theorem Whole.no_import {block : List String} {before after : Registry} {m : Macro}
    (whole : Whole block before m after) {line : String} (member : line ∈ block)
    (tokens : List String) : Directive.ofLine line ≠ .importing tokens := by
  cases whole with
  | block kind reads =>
    rcases List.mem_cons.1 member with rfl | inside
    · simp [kind]
    · exact reads.no_import inside tokens

theorem Whole.ends_before_import {block rest earlier later : List String} {before after : Registry}
    {m : Macro} (whole : Whole block before m after) {line : String} {tokens : List String}
    (imports : Directive.ofLine line = .importing tokens)
    (cut : earlier ++ line :: later = block ++ rest) :
    ∃ between, earlier = block ++ between ∧ rest = between ++ line :: later := by
  rcases append_cut cut.symm with ⟨between, rfl, -⟩ | behind
  · exact absurd imports (whole.no_import (by simp) tokens)
  · exact behind

theorem read_whole {line count : Nat} {text : String} {rest : List String} {before after : Registry}
    {m : Macro} (gives : (read line text rest).Gives before (m, count) after) :
    ∃ used later, rest = used ++ later ∧ used.length = count ∧ Whole (text :: used) before m after := by
  simp only [read, Action.gives_bind, Action.gives_ofExcept, Action.gives_pure, Prod.mk.injEq] at gives
  obtain ⟨header, _, ⟨opens, rfl⟩, ⟨found, length⟩, after', gives, ⟨rfl, rfl⟩, rfl⟩ := gives
  obtain ⟨used, later, rfl, rfl, reads⟩ := contents_reads gives
  exact ⟨used, later, rfl, rfl, .block (ofDirective_ok opens).2 reads⟩

theorem Whole.read_gives {text : String} {used : List String} {before after : Registry} {m : Macro}
    (whole : Whole (text :: used) before m after) (line : Nat) (later : List String) :
    (read line text (used ++ later)).Gives before (m, used.length) after := by
  cases whole with
  | block kind reads =>
    simp only [read, kind, Header.ofDirective, Action.ofExcept_ok, Action.gives_bind,
      Action.gives_pure]
    exact ⟨_, _, ⟨rfl, rfl⟩, _, _, reads.contents_gives _ _ _, rfl, rfl⟩

theorem readAt_cut {lines : List String} {start count : Nat} {before after : Registry} {m : Macro}
    (gives : (readAt lines start).Gives before (m, count) after) :
    ∃ earlier block later, lines = earlier ++ block ++ later ∧ earlier.length = start ∧
      block.length = count ∧ Whole block before m after := by
  unfold readAt at gives
  cases left : lines.drop start with
  | nil => simp [left] at gives
  | cons text rest =>
    simp only [left, Action.gives_bind, Action.gives_pure, Prod.mk.injEq] at gives
    obtain ⟨⟨m', count'⟩, _, gives, ⟨rfl, rfl⟩, rfl⟩ := gives
    obtain ⟨used, later, rfl, rfl, whole⟩ := read_whole gives
    have inside : start < lines.length := by
      have length := congrArg List.length left
      simp only [List.length_drop, List.length_cons] at length
      omega
    refine ⟨lines.take start, text :: used, later, ?_,
      List.length_take_of_le (Nat.le_of_lt inside), rfl, whole⟩
    rw [List.append_assoc, List.cons_append, ← left, List.take_append_drop]

theorem readAt_whole {lines : List String} {start count : Nat} {before after : Registry} {m : Macro}
    (gives : (readAt lines start).Gives before (m, count) after) :
    Whole ((lines.drop start).take count) before m after := by
  obtain ⟨earlier, block, later, rfl, rfl, rfl, whole⟩ := readAt_cut gives
  simpa using whole

theorem Whole.readAt_gives {block : List String} {before after : Registry} {m : Macro}
    (whole : Whole block before m after) (earlier later : List String) :
    (readAt (earlier ++ block ++ later) earlier.length).Gives before (m, block.length) after := by
  cases whole with
  | @block text keyword name params used _ _ found kind reads =>
    have left : (earlier ++ text :: used ++ later).drop earlier.length = text :: (used ++ later) := by
      simp
    unfold readAt
    rw [left]
    simp only [Action.gives_bind, Action.gives_pure]
    exact ⟨_, _, (Whole.block kind reads).read_gives _ _, rfl, rfl⟩

theorem Whole.weaken {block : List String} {before after wide : Registry} {m : Macro}
    (whole : Whole block before m after) (within : before.Within wide) :
    ∃ wide', Whole block wide m wide' ∧ ∀ name, wide'.get? name =
      if name ∈ declared block.tail then after.get? name else wide.get? name := by
  cases whole with
  | block kind reads =>
    obtain ⟨wide', reads', names⟩ := reads.weaken within
    exact ⟨wide', .block kind reads', names⟩

theorem Whole.within_after {block : List String} {before after wide wide' : Registry} {m : Macro}
    (whole : Whole block before m after) (within : before.Within wide)
    (names : ∀ name, wide'.get? name =
      if name ∈ declared block.tail then after.get? name else wide.get? name) :
    after.Within wide' := by
  cases whole with
  | block kind reads => exact reads.within_after within names

end Block

end QuestScript

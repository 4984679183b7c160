import QuestScript.Proofs.BlockGrammar
import QuestScript.Proofs.Spelling

/-! Source trees of definitions and the lines that spell them. A tree has many spellings; reading
any of them gives the macro of the tree back. Insertions are bound in the order of the lines, so a
block that was closed earlier is what a later insertion of its name gets. -/
namespace QuestScript

/-- What stands between a header and its end marker, the first item outermost. -/
inductive Outline where
  | nil
  | line (text : String) (rest : Outline)
  | insertion (keyword place name : String) (arguments : List String) (rest : Outline)
  | block (keyword name : String) (params : List String) (inner rest : Outline)

namespace Outline

/-- The plain lines, without those of the blocks inside. -/
def lines : Outline → List String
  | nil => []
  | line text rest => text :: rest.lines
  | insertion _ _ _ _ rest => rest.lines
  | block _ _ _ _ rest => rest.lines

def insertions : Outline → List (List String)
  | nil => []
  | line _ rest => rest.insertions
  | insertion keyword place name arguments rest =>
    (keyword :: place :: name :: arguments) :: rest.insertions
  | block _ _ _ _ rest => rest.insertions

def names : Outline → List String
  | nil => []
  | line _ rest => rest.names
  | insertion _ _ _ _ rest => rest.names
  | block _ name _ inner rest => name :: (inner.names ++ rest.names)

/-- Every item can be written on a line of its own kind. -/
def Proper : Outline → Prop
  | nil => True
  | line text rest => (∃ body, Directive.ofLine text = .plain body) ∧ rest.Proper
  | insertion keyword place name arguments rest =>
    Directive.IsKeyword keyword ∧ (∀ word ∈ place :: name :: arguments, Directive.IsWord word) ∧
      rest.Proper
  | block keyword name params inner rest =>
    Directive.IsKeyword keyword ∧ (∀ word ∈ name :: params, Directive.IsWord word) ∧
      inner.Proper ∧ rest.Proper

/-- Every insertion names a macro that is known where it stands: from the start, or from a block
that was closed before. -/
def Bound : Outline → (String → Prop) → Prop
  | nil, _ => True
  | line _ rest, known => rest.Bound known
  | insertion _ _ name _ rest, known => known name ∧ rest.Bound known
  | block _ name _ inner rest, known =>
    inner.Bound known ∧ rest.Bound fun other => other = name ∨ other ∈ inner.names ∨ known other

/-- The insertions with the macros they get, and the registry with the blocks inside. -/
def read? : Outline → Registry → Option (List Insertion × Registry)
  | nil, registry => some ([], registry)
  | line _ rest, registry => rest.read? registry
  | insertion keyword place name arguments rest, registry => do
    let target ← registry.get? name
    let (later, after) ← rest.read? registry
    return (⟨keyword :: place :: name :: arguments, target⟩ :: later, after)
  | block keyword name params inner rest, registry => do
    let (held, middle) ← inner.read? registry
    rest.read? (middle.insert name ⟨keyword :: name :: params, some inner.lines, held⟩)

/-- The lines spell the items, in any spacing and with any end markers. -/
inductive Printed : Outline → List String → Prop where
  | nil : Printed .nil []
  | line {text : String} {rest : Outline} {lines : List String} (later : Printed rest lines) :
      Printed (.line text rest) (text :: lines)
  | insertion {keyword place name text : String} {arguments lines : List String} {rest : Outline}
      (spells : Directive.SpellsInsertion keyword (place :: name :: arguments) text)
      (later : Printed rest lines) :
      Printed (.insertion keyword place name arguments rest) (text :: lines)
  | block {keyword name header footer : String} {params held lines : List String}
      {inner rest : Outline} (spells : Directive.SpellsDefinition keyword (name :: params) header)
      (inside : Printed inner held) (closes : Directive.ofLine footer = .endMarker)
      (later : Printed rest lines) :
      Printed (.block keyword name params inner rest) (header :: (held ++ [footer] ++ lines))

end Outline

structure Source where
  keyword : String
  name : String
  params : List String
  content : Outline

namespace Source

def signature (source : Source) : List String := source.keyword :: source.name :: source.params

def Proper (source : Source) : Prop :=
  Directive.IsKeyword source.keyword ∧
    (∀ word ∈ source.name :: source.params, Directive.IsWord word) ∧ source.content.Proper

def Bound (source : Source) (registry : Registry) : Prop :=
  source.content.Bound fun name => registry.contains name = true

def read? (source : Source) (registry : Registry) : Option (Macro × Registry) := do
  let (insertions, after) ← source.content.read? registry
  return (⟨source.signature, some source.content.lines, insertions⟩, after)

def Printed (source : Source) (lines : List String) : Prop :=
  ∃ header held footer, lines = header :: (held ++ [footer]) ∧
    Directive.SpellsDefinition source.keyword (source.name :: source.params) header ∧
    source.content.Printed held ∧ Directive.ofLine footer = .endMarker

end Source

theorem Directive.plain_eq {line body : String} (kind : Directive.ofLine line = .plain body) :
    body = line := by
  unfold ofLine ofText at kind
  split at kind
  · split at kind <;> contradiction
  · split at kind
    · contradiction
    · split at kind
      · contradiction
      · exact (Directive.plain.inj kind).symm

namespace Outline

/-- The lines of a tree and an end marker are read as the tree says. The induction is on the
spelling, whose blocks are those of the grammar. -/
theorem Printed.reads {outline : Outline} {lines : List String} (printed : outline.Printed lines)
    (proper : outline.Proper) {before after : Registry} {insertions : List Insertion}
    (meaning : outline.read? before = some (insertions, after)) {footer : String}
    (closes : Directive.ofLine footer = .endMarker) :
    Block.Reads (lines ++ [footer]) before ⟨outline.lines, insertions⟩ after := by
  induction printed generalizing before after insertions footer with
  | nil =>
    cases meaning
    exact .close closes
  | line _ ih =>
    obtain ⟨⟨body, kind⟩, proper⟩ := proper
    cases Directive.plain_eq kind
    exact .plain kind (ih proper meaning closes)
  | insertion spells _ ih =>
    obtain ⟨keyword, words, proper⟩ := proper
    simp only [read?, Option.bind_eq_bind, Option.bind_eq_some_iff] at meaning
    obtain ⟨target, bound, ⟨later, after'⟩, meaning, same⟩ := meaning
    cases same
    exact .insertion (Directive.ofLine_insertion keyword words spells) bound (ih proper meaning closes)
  | block spells _ closesInner _ ihInner ihRest =>
    obtain ⟨keyword, words, properInner, properRest⟩ := proper
    simp only [read?, Option.bind_eq_bind, Option.bind_eq_some_iff] at meaning
    obtain ⟨⟨held, middle⟩, inner, rest⟩ := meaning
    rw [List.cons_append, List.append_assoc]
    exact .block (Directive.ofLine_definition keyword words spells)
      (ihInner properInner inner closesInner) (ihRest properRest rest closes)

theorem isSome_insert {registry : Registry} {name other : String} {m : Macro}
    (known : other = name ∨ (registry.get? other).isSome) :
    ((Dict.insert registry name m).get? other).isSome := by
  rw [Dict.get?_insert]
  split
  · rfl
  · next differ => exact known.resolve_left differ

theorem read?_of_bound {outline : Outline} {known : String → Prop} (bound : outline.Bound known)
    (registry : Registry) (has : ∀ name, known name → (registry.get? name).isSome) :
    ∃ insertions after, outline.read? registry = some (insertions, after) ∧
      insertions.map Insertion.tokens = outline.insertions ∧
      ∀ name, name ∈ outline.names ∨ known name → (after.get? name).isSome := by
  induction outline generalizing known registry with
  | nil =>
    exact ⟨[], registry, rfl, rfl, fun name either => has name (either.resolve_left (by simp [names]))⟩
  | line text rest ih => exact ih bound registry has
  | insertion keyword place name arguments rest ih =>
    obtain ⟨target, found⟩ := Option.isSome_iff_exists.1 (has name bound.1)
    obtain ⟨later, after, meaning, tokens, total⟩ := ih bound.2 registry has
    exact ⟨⟨keyword :: place :: name :: arguments, target⟩ :: later, after,
      by simp [read?, found, meaning], by simp [insertions, tokens], total⟩
  | block keyword name params inner rest ihInner ihRest =>
    obtain ⟨held, middle, meaning, -, total⟩ := ihInner bound.1 registry has
    obtain ⟨later, after, meaning', tokens, total'⟩ := ihRest bound.2
      (middle.insert name ⟨keyword :: name :: params, some inner.lines, held⟩)
      fun other either => isSome_insert (either.imp_right fun known => total other known)
    refine ⟨later, after, by simp [read?, meaning, meaning'], tokens, fun other either => ?_⟩
    simp only [names, List.mem_cons, List.mem_append] at either
    rcases either with (same | held | behind) | known
    · exact total' other (.inr (.inl same))
    · exact total' other (.inr (.inr (.inl held)))
    · exact total' other (.inl behind)
    · exact total' other (.inr (.inr (.inr known)))

end Outline

/-- Every spelling of a tree whose insertions are bound is read as the macro of the tree, wherever
it stands: its own tokens, its own plain lines, and each insertion with the macro that has its name
at that point. All its lines are used and no others, and the blocks inside it are registered. -/
theorem Source.readAt_printed (source : Source) (lines : List String) (registry : Registry)
    (proper : source.Proper) (printed : source.Printed lines) (bound : source.Bound registry)
    (earlier later : List String) :
    ∃ m after, source.read? registry = some (m, after) ∧ m.signature = source.signature ∧
      m.body = some source.content.lines ∧
      m.insertions.map Insertion.tokens = source.content.insertions ∧
      (Block.readAt (earlier ++ lines ++ later) earlier.length).Gives registry (m, lines.length)
        after := by
  obtain ⟨keyword, words, properContent⟩ := proper
  obtain ⟨header, held, footer, rfl, spells, printed, closes⟩ := printed
  obtain ⟨insertions, after, meaning, tokens, -⟩ :=
    Outline.read?_of_bound bound registry fun name known => known
  have reads := printed.reads properContent meaning closes
  have whole := Block.Whole.block (Directive.ofLine_definition keyword words spells) reads
  exact ⟨_, after, by simp [read?, meaning]; rfl, rfl, rfl, tokens, whole.readAt_gives earlier later⟩

namespace Source

def shadowing : Source :=
  ⟨"macro", "Outer", ["&p"],
    .insertion "macro" "a" "Leaf" []
      (.block "MACRO" "Leaf" ["&v"] (.line "  leaf &v" .nil)
        (.line "say &p" (.insertion "Macro" "b" "Leaf" ["7"] .nil)))⟩

def shadowingLines : List String :=
  ["  macro Outer\t&p ", "macro a: Leaf", "MACRO  Leaf &v", "  leaf &v", "End Macro", "say &p",
    "Macro b :Leaf 7", "end macro of Outer"]

def leafRegistry : Registry := ⟨[("Leaf", .declared ["macro", "Leaf"])]⟩

theorem shadowing_proper : shadowing.Proper := by
  have first : ∃ body, Directive.ofLine "  leaf &v" = .plain body := ⟨"  leaf &v", by decide +kernel⟩
  have second : ∃ body, Directive.ofLine "say &p" = .plain body := ⟨"say &p", by decide +kernel⟩
  simp only [Proper, shadowing, Outline.Proper, first, second]
  decide +kernel

theorem shadowing_printed : shadowing.Printed shadowingLines := by
  have empty {separates : Char → Bool} : ∀ c ∈ [], separates c = true := List.all_eq_true.1 rfl
  have space : ∀ c ∈ [' '], Text.isBlank c = true := List.all_eq_true.1 rfl
  have tab : ∀ c ∈ ['\t'], Text.isBlank c = true := List.all_eq_true.1 rfl
  have spaces : ∀ c ∈ [' ', ' '], Text.isBlank c = true := List.all_eq_true.1 rfl
  have gap : ∀ c ∈ [' '], Directive.isSeparator c = true := List.all_eq_true.1 rfl
  have colonFirst : ∀ c ∈ [':', ' '], Directive.isSeparator c = true := List.all_eq_true.1 rfl
  have colonLast : ∀ c ∈ [' ', ':'], Directive.isSeparator c = true := List.all_eq_true.1 rfl
  have header : Directive.SpellsDefinition "macro" ["Outer", "&p"] "  macro Outer\t&p " :=
    ⟨_, ⟨[' ', ' '], spaces, by decide⟩,
      .next (by decide) space (.next (by decide) tab (.done space))⟩
  have first : Directive.SpellsInsertion "macro" ["a", "Leaf"] "macro a: Leaf" :=
    ⟨_, ⟨[], empty, by decide⟩, .next (by decide) gap (.next (by decide) colonFirst (.done empty)),
      by decide⟩
  have inner : Directive.SpellsDefinition "MACRO" ["Leaf", "&v"] "MACRO  Leaf &v" :=
    ⟨_, ⟨[], empty, by decide⟩, .next (by decide) spaces (.next (by decide) space (.done empty))⟩
  have second : Directive.SpellsInsertion "Macro" ["b", "Leaf", "7"] "Macro b :Leaf 7" :=
    ⟨_, ⟨[], empty, by decide⟩,
      .next (by decide) gap (.next (by decide) colonLast (.next (by decide) gap (.done empty))),
      by decide⟩
  have closes : Directive.ofLine "End Macro" = .endMarker := by decide +kernel
  have held : shadowing.content.Printed (["macro a: Leaf"] ++ ("MACRO  Leaf &v" :: (["  leaf &v"] ++
      ["End Macro"] ++ ["say &p", "Macro b :Leaf 7"]))) :=
    .insertion first (.block inner (.line .nil) closes (.line (.insertion second .nil)))
  exact ⟨"  macro Outer\t&p ", _, "end macro of Outer", rfl, header, held, by decide +kernel⟩

theorem shadowing_bound : shadowing.Bound leafRegistry := by
  simp [Bound, shadowing, Outline.Bound]
  decide +kernel

theorem shadowing_readAt :
    shadowing.Proper ∧ shadowing.Printed shadowingLines ∧ shadowing.Bound leafRegistry ∧
      ∃ m after, shadowing.read? leafRegistry = some (m, after) ∧
        m.signature = ["macro", "Outer", "&p"] ∧ m.body = some ["say &p"] ∧
        m.insertions.map Insertion.tokens = [["macro", "a", "Leaf"], ["Macro", "b", "Leaf", "7"]] ∧
        (Block.readAt (["before"] ++ shadowingLines ++ ["after"]) 1).Gives leafRegistry (m, 8) after :=
  ⟨shadowing_proper, shadowing_printed, shadowing_bound,
    readAt_printed shadowing shadowingLines leafRegistry shadowing_proper shadowing_printed
      shadowing_bound ["before"] ["after"]⟩

end Source

end QuestScript

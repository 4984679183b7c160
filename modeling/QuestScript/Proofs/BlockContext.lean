import QuestScript.Proofs.ScriptStop

/-! What reading a block depends on. Of the lines only its own count: they are told by the lines that
open and end blocks, and what stands before and behind them changes nothing, except that a block that
is still open where the lines run out may go on. Of the registry only the macros that it inserts count:
more names do not show in the macro, and they stay as they are where no block inside takes them. -/
namespace QuestScript

open QuestScript.Action Script

namespace Block

/-- The names that the blocks inside a block declare; the block has so many lines from `start` on. -/
def innerNames (lines : List String) (start count : Nat) : List String :=
  declared ((lines.drop start).take count).tail

/-- A block that is read with some macros at hand is read the same with more. The names that it has
registered then have the same macros; of all others, those that were free stay free, and those that
had a macro keep it. With no macros at hand it is read as in any registry. -/
theorem readAt_monotone (lines : List String) (start : Nat) :
    (∀ (narrow wide narrow' : Registry) (m : Macro) (count : Nat), narrow.Within wide →
      (readAt lines start).Gives narrow (m, count) narrow' →
        ∃ wide', (readAt lines start).Gives wide (m, count) wide' ∧ narrow'.Within wide' ∧
          (∀ name, narrow'.get? name = none → wide.get? name = none → wide'.get? name = none) ∧
          ∀ name, name ∉ innerNames lines start count → wide'.get? name = wide.get? name) ∧
    ∀ (m : Macro) (count : Nat) (after : Registry),
      (readAt lines start).Gives Dict.empty (m, count) after →
        ∀ registry, ∃ after', (readAt lines start).Gives registry (m, count) after' := by
  have monotone : ∀ (narrow wide narrow' : Registry) (m : Macro) (count : Nat),
      narrow.Within wide → (readAt lines start).Gives narrow (m, count) narrow' →
        ∃ wide', (readAt lines start).Gives wide (m, count) wide' ∧ narrow'.Within wide' ∧
          ∀ name, wide'.get? name =
            if name ∈ innerNames lines start count then narrow'.get? name else wide.get? name := by
    intro narrow wide narrow' m count within gives
    obtain ⟨earlier, block, later, rfl, rfl, rfl, whole⟩ := readAt_cut gives
    obtain ⟨wide', whole', names⟩ := whole.weaken within
    have cut : innerNames (earlier ++ block ++ later) earlier.length block.length =
        declared block.tail := by simp [innerNames]
    rw [cut]
    exact ⟨wide', whole'.readAt_gives earlier later, whole.within_after within names, names⟩
  constructor
  · intro narrow wide narrow' m count within gives
    obtain ⟨wide', gives', kept, names⟩ := monotone narrow wide narrow' m count within gives
    refine ⟨wide', gives', kept, fun name free free' => ?_, fun name outside => ?_⟩
    · rw [names]
      split <;> assumption
    · rw [names, if_neg outside]
  · intro m count after gives registry
    obtain ⟨after', gives', -⟩ :=
      monotone Dict.empty registry after m count (.empty registry) gives
    exact ⟨after', gives'⟩

def twigLines : List String :=
  ["QBN:", "macro Tree", "macro Twig", "thin", "end macro", "macro l: Leaf", "macro t: Twig",
    "end macro", "macro Twig"]

def twigMacro : Macro :=
  ⟨["macro", "Tree"], some [],
    [⟨["macro", "l", "Leaf"], .declared ["macro", "Leaf"]⟩,
      ⟨["macro", "t", "Twig"], ⟨["macro", "Twig"], some ["thin"], []⟩⟩]⟩

def gardenRegistry : Registry :=
  ⟨[("Twig", .declared ["macro", "Twig"]), ("Leaf", .declared ["macro", "Leaf"]),
    ("Root", .declared ["macro", "Root"])]⟩

theorem readAt_monotone_twig :
    Source.leafRegistry.Within gardenRegistry ∧
      (readAt twigLines 1).Gives Source.leafRegistry (twigMacro, 7)
        ((readAt twigLines 1).run Source.leafRegistry).state ∧
      ∃ wide, (readAt twigLines 1).Gives gardenRegistry (twigMacro, 7) wide ∧
        wide.get? "Twig" = some ⟨["macro", "Twig"], some ["thin"], []⟩ ∧
        wide.get? "Root" = gardenRegistry.get? "Root" ∧ wide.get? "Tree" = none := by
  have within : Source.leafRegistry.Within gardenRegistry := by
    intro name m bound
    cases List.mem_singleton.1 (Dict.mem_of_get? bound)
    rfl
  have gives : (readAt twigLines 1).Gives Source.leafRegistry (twigMacro, 7)
      ((readAt twigLines 1).run Source.leafRegistry).state := ⟨by decide +kernel, rfl⟩
  obtain ⟨wide, gives', kept, free, outside⟩ :=
    (readAt_monotone twigLines 1).1 Source.leafRegistry gardenRegistry _ twigMacro 7 within gives
  exact ⟨within, gives, wide, gives', kept _ _ (by decide +kernel), outside "Root" (by decide +kernel),
    free "Tree" (by decide +kernel) (by decide +kernel)⟩

theorem read_moved (count : Nat) (text : String) (rest : List String) (registry : Registry) :
    ((read (1 + count) text rest).run registry).result =
        ((read 1 text rest).run registry).result.mapError (Fault.moved count) ∧
      ((read (1 + count) text rest).run registry).state = ((read 1 text rest).run registry).state := by
  have avoids : ∀ other ∈ rest, Avoids [] other := fun _ _ _ _ => List.not_mem_nil
  have follows := read_follows (Registry.eq_usedAlike []) count 1 text rest avoids
  exact ⟨follows.result_eq rfl, (follows registry registry rfl).1.symm⟩

theorem read_fails_iff {count : Nat} {text : String} {rest : List String} {before after : Registry}
    {fault : Fault} :
    (read (1 + count) text rest).Fails before fault after ↔
      ∃ own, fault = own.moved count ∧ (read 1 text rest).Fails before own after := by
  obtain ⟨result, state⟩ := read_moved count text rest before
  unfold Fails
  rw [result, state]
  constructor
  · rintro ⟨failed, reached⟩
    cases ends : ((read 1 text rest).run before).result with
    | ok found => simp [ends, Except.mapError] at failed
    | error own =>
      rw [ends] at failed
      cases failed
      exact ⟨own, rfl, rfl, reached⟩
  · rintro ⟨own, rfl, failed, reached⟩
    exact ⟨by rw [failed]; rfl, reached⟩

theorem readAt_fails_iff {earlier rest : List String} {text : String} {before after : Registry}
    {fault : Fault} :
    (readAt (earlier ++ text :: rest) earlier.length).Fails before fault after ↔
      (read (1 + earlier.length) text rest).Fails before fault after := by
  have left : (earlier ++ text :: rest).drop earlier.length = text :: rest := List.drop_left
  unfold readAt
  simp only [left, fails_bind, fails_pure, and_false, exists_false, or_false,
    Nat.add_comm earlier.length 1]

/-- A block that is read ends at its end marker, the first line at which as many blocks have ended as
opened, and is read the same between any other lines. A block that is not read has its fault on a
line of its own, which moves with it; lines behind the last one change that only if the block was
still open there. -/
theorem readAt_own_lines (lines : List String) (start : Nat) (inside : start < lines.length)
    (registry : Registry) :
    (∀ (m : Macro) (count : Nat) (after : Registry),
      (readAt lines start).Gives registry (m, count) after →
        2 ≤ count ∧ start + count ≤ lines.length ∧
        (∃ last, lines[start + count - 1]? = some last ∧ Directive.ofLine last = .endMarker) ∧
        AtTop ((lines.drop start).take count) ∧
        (∀ fewer, 0 < fewer → fewer < count → ¬ AtTop ((lines.drop start).take fewer)) ∧
        ∀ earlier later : List String,
          (readAt (earlier ++ (lines.drop start).take count ++ later) earlier.length).Gives registry
            (m, count) after) ∧
    ∀ (fault : Fault) (after : Registry), (readAt lines start).Fails registry fault after →
      (∃ own : Fault, own.Names 1 ∧ fault = own.moved start ∧ ∀ earlier : List String,
        (readAt (earlier ++ lines.drop start) earlier.length).Fails registry
          (own.moved earlier.length) after) ∧
      ((∀ line name, fault ≠ .unterminated line name) → ∀ more : List String,
        (readAt (lines ++ more) start).Fails registry fault after) := by
  constructor
  · intro m count after gives
    obtain ⟨earlier, block, later, rfl, rfl, rfl, whole⟩ := readAt_cut gives
    obtain ⟨many, ⟨last, stands, ends⟩, top, least⟩ := whole.extent
    have cut : (earlier ++ block ++ later).drop earlier.length = block ++ later := by simp
    have marker : (earlier ++ block ++ later)[earlier.length + block.length - 1]? = some last := by
      have place : earlier.length + block.length - 1 = earlier.length + (block.length - 1) := by omega
      rw [place, List.append_assoc, List.getElem?_append_right (Nat.le_add_right ..),
        Nat.add_sub_cancel_left, List.getElem?_append_left (by omega), stands]
    rw [cut, List.take_left]
    refine ⟨many, by simp, ⟨last, marker, ends⟩, top, fun fewer some_lines short => ?_,
      whole.readAt_gives⟩
    rw [List.take_append_of_le_length (Nat.le_of_lt short)]
    exact least fewer some_lines short
  · intro fault after fails
    obtain ⟨text, rest, left⟩ := List.exists_cons_of_length_pos (l := lines.drop start)
      (by rw [List.length_drop]; omega)
    have cut : lines = lines.take start ++ text :: rest := by rw [← left, List.take_append_drop]
    have length : (lines.take start).length = start := List.length_take_of_le (Nat.le_of_lt inside)
    rw [left]
    generalize lines.take start = earlier at cut length
    subst cut length
    have reading := readAt_fails_iff.1 fails
    constructor
    · obtain ⟨own, moved, failed⟩ := read_fails_iff.1 reading
      refine ⟨own, read_late failed, moved, fun other => ?_⟩
      exact readAt_fails_iff.2 (read_fails_iff.2 ⟨own, rfl, failed⟩)
    · intro settled more
      rw [List.append_assoc, List.cons_append]
      exact readAt_fails_iff.2 (read_fails_append reading settled more)

def bareLines : List String := ["QBN:", "macro Tree", "trunk", "macro r: Root"]

theorem readAt_own_lines_tree :
    1 < twigLines.length ∧ 1 < bareLines.length ∧
      (readAt twigLines 1).Gives Source.leafRegistry (twigMacro, 7)
        ((readAt twigLines 1).run Source.leafRegistry).state ∧
      (readAt (["end macro", "macro"] ++ (twigLines.drop 1).take 7 ++ ["macro Twig"]) 2).Gives
        Source.leafRegistry (twigMacro, 7) ((readAt twigLines 1).run Source.leafRegistry).state ∧
      (readAt bareLines 1).Fails Source.leafRegistry (.unknownMacro 4 "Root") Source.leafRegistry ∧
      (readAt (["end macro", "macro"] ++ bareLines.drop 1) 2).Fails Source.leafRegistry
        (.unknownMacro 5 "Root") Source.leafRegistry ∧
      (readAt (bareLines ++ ["macro Root", "end macro", "end macro"]) 1).Fails Source.leafRegistry
        (.unknownMacro 4 "Root") Source.leafRegistry := by
  have inside : 1 < twigLines.length := by decide
  have inside' : 1 < bareLines.length := by decide
  have gives : (readAt twigLines 1).Gives Source.leafRegistry (twigMacro, 7)
      ((readAt twigLines 1).run Source.leafRegistry).state := ⟨by decide +kernel, rfl⟩
  have fails : (readAt bareLines 1).Fails Source.leafRegistry (.unknownMacro 4 "Root")
      Source.leafRegistry := ⟨by decide +kernel, by decide +kernel⟩
  obtain ⟨-, -, -, -, -, between⟩ :=
    (readAt_own_lines twigLines 1 inside Source.leafRegistry).1 twigMacro 7 _ gives
  obtain ⟨⟨own, -, same, behind⟩, settled⟩ :=
    (readAt_own_lines bareLines 1 inside' Source.leafRegistry).2 _ _ fails
  have moved : own.moved 2 = .unknownMacro 5 "Root" := by
    cases own <;> simp_all [Fault.moved]
  exact ⟨inside, inside', gives, between ["end macro", "macro"] ["macro Twig"], fails,
    moved ▸ behind ["end macro", "macro"], settled nofun ["macro Root", "end macro", "end macro"]⟩

end Block

end QuestScript

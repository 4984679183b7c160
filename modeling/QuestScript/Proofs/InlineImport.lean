import QuestScript.Proofs.ScriptGrammar

/-! An import against the block it takes the macro from. Where the import asks for the macro by the
name it declares, the block may stand in the place of the import, as long as no block inside it
takes a name, other than the macro's own, that the script had in use before. -/
namespace QuestScript

namespace Session

def block? (pack : Pack) (target : ImportTarget) : Option (Macro × List String) :=
  match (pack.read target.file).found with
  | .ok (some lines) =>
    match lines.findIdx? target.definedBy with
    | some position =>
      match ((Block.readAt lines position).run Dict.empty).result with
      | .ok (m, count) => some (m, (lines.drop position).take count)
      | .error _ => none
    | none => none
  | _ => none

theorem block?_of_answer {pack : Pack} {target : ImportTarget} {m : Macro}
    (found : answer pack target = .ok (some m)) : ∃ block, block? pack target = some (m, block) := by
  obtain ⟨lines, position, count, after, held, place, gives⟩ := answer_found found
  refine ⟨(lines.drop position).take count, ?_⟩
  unfold block?
  simp only [held, place, gives.1]

/-- What an import takes from its file is one whole block, read without other macros. -/
theorem block?_whole {pack : Pack} {target : ImportTarget} {m : Macro} {block : List String}
    (found : block? pack target = some (m, block)) : ∃ after, Block.Whole block Dict.empty m after := by
  unfold block? at found
  split at found
  · next lines held =>
    split at found
    · next position place =>
      split at found
      · next m' count reading =>
        cases found
        exact ⟨_, Block.readAt_whole ⟨reading, rfl⟩⟩
      · contradiction
    · contradiction
  · contradiction

end Session

namespace Registry

/-- What the import leaves in the registry is there too after the block: `wide` is the registry at
the end of the block, where its own names have been taken from `inner`. -/
theorem adopt_within {earlier inner wide : Registry} {names : List String} {m : Macro}
    (taken : ∀ name, wide.get? name = if name ∈ names then inner.get? name else earlier.get? name)
    (free : ∀ name ∈ names, name = m.name ∨ earlier.contains name = false) :
    (earlier.adopt m.name m).Within (wide.insert m.name m) := by
  intro name held bound
  simp only [adopt, ne_eq, not_true_eq_false, if_false] at bound
  rw [Dict.get?_insert] at bound ⊢
  by_cases same : name = m.name
  · rw [if_pos same] at bound ⊢
    exact bound
  rw [if_neg same] at bound ⊢
  have fresh : name ∉ names := by
    intro member
    rcases free name member with here | absent
    · exact same here
    · simp [Dict.contains, bound] at absent
  rw [taken, if_neg fresh]
  exact bound

end Registry

namespace Script

def registryAfter (pack : Pack) (lines : List String) : Registry :=
  ((expandFrom pack 1 lines).run ⟨Session.start, Dict.empty⟩).state.registry

theorem expand_expands {pack : Pack} {lines out : List String}
    (plain : ∀ text ∈ lines, PlainImport text)
    (succeeds : ((expand pack lines).run Session.start).result = .ok out) :
    ∃ after, Expands pack lines Dict.empty out after :=
  ⟨_, (expand_passes succeeds).expands (Session.start_faithful pack) plain⟩

theorem Expands.expand_result {pack : Pack} {lines out : List String} {after : Registry}
    (expands : Expands pack lines Dict.empty out after) (plain : ∀ text ∈ lines, PlainImport text) :
    ((expand pack lines).run Session.start).result = .ok out := by
  obtain ⟨_, passes⟩ := expands.passes plain (Session.start_faithful pack)
  exact (passes.gives 1).1

theorem Expands.registryAfter_eq {pack : Pack} {lines out : List String} {after : Registry}
    (expands : Expands pack lines Dict.empty out after) (plain : ∀ text ∈ lines, PlainImport text) :
    registryAfter pack lines = after := by
  obtain ⟨_, passes⟩ := expands.passes plain (Session.start_faithful pack)
  exact congrArg Workspace.registry (passes.gives 1).2

/-- A script that imports a macro and expands has the same expansion when the block of the macro is
written where the import stood. -/
theorem expand_inline (pack : Pack) (earlier later out : List String) (line : String)
    (target : ImportTarget) (asks : ImportTarget.ofLine? line = some target)
    (plain : ∀ text ∈ earlier ++ line :: later, PlainImport text)
    (succeeds : ((expand pack (earlier ++ line :: later)).run Session.start).result = .ok out) :
    ∃ m block, Session.block? pack target = some (m, block) ∧
      (m.name = target.name →
        (∀ name ∈ Block.declared block.tail,
          name = target.name ∨ (registryAfter pack earlier).contains name = false) →
        ((expand pack (earlier ++ block ++ later)).run Session.start).result = .ok out) := by
  obtain ⟨after, expands⟩ := expand_expands plain succeeds
  obtain ⟨first, second, middle, m, rfl, start, found, ends⟩ := expands.split asks
  obtain ⟨block, located⟩ := Session.block?_of_answer found
  refine ⟨m, block, located, fun spelled free => ?_⟩
  have plainEarlier : ∀ text ∈ earlier, PlainImport text :=
    fun text member => plain text (List.mem_append_left _ member)
  have plainLater : ∀ text ∈ later, PlainImport text :=
    fun text member => plain text (List.mem_append_right _ (List.mem_cons_of_mem _ member))
  rw [start.registryAfter_eq plainEarlier] at free
  obtain ⟨inner, whole⟩ := Session.block?_whole located
  -- the file read the block with no macros at hand; here it is read with those of the script
  have nothing : Registry.Within Dict.empty middle := fun _ _ bound => by simp at bound
  obtain ⟨wide, whole', taken⟩ := whole.weaken nothing
  rw [← spelled] at ends free
  obtain ⟨_, more⟩ := ends.weaken (Registry.adopt_within taken free)
  have inlined := start.append (.block whole' more)
  rw [← List.append_assoc] at inlined
  refine inlined.expand_result fun text member => ?_
  rcases List.mem_append.1 member with before | behind
  · rcases List.mem_append.1 before with ahead | inside
    · exact plainEarlier text ahead
    · exact whole.plainImport inside
  · exact plainLater text behind

def greetings : Pack :=
  .memory ⟨[("common.txt", ["macro Aside", "not this", "end macro",
    "Macro Hello &who", "macro Wave", "$ waves", "end macro", "macro w: Wave", "hello &who",
    "END MACRO", "macro Farewell", "end macro"])]⟩

def helloBlock : List String :=
  ["Macro Hello &who", "macro Wave", "$ waves", "end macro", "macro w: Wave", "hello &who",
    "END MACRO"]

def helloOpening : List String := ["QBN:", "macro Aside", "  by the way", "end macro"]

def helloClosing : List String := ["macro h: Hello world", "macro s: Aside", "_done_ task:"]

def helloWritten : List String := ["QBN:", "hello world", "h.w waves", "by the way", "_done_ task:"]

theorem expand_inline_hello :
    ((expand greetings (helloOpening ++ "import macro Hello from common.txt" :: helloClosing)).run
        Session.start).result = .ok helloWritten ∧
      ((expand greetings (helloOpening ++ helloBlock ++ helloClosing)).run
        Session.start).result = .ok helloWritten := by
  have asks : ImportTarget.ofLine? "import macro Hello from common.txt" =
      some ⟨"Hello", "common.txt"⟩ := by decide +kernel
  have plain : ∀ text ∈ helloOpening ++ "import macro Hello from common.txt" :: helloClosing,
      PlainImport text := by decide +kernel
  have succeeds : ((expand greetings (helloOpening ++ "import macro Hello from common.txt" ::
      helloClosing)).run Session.start).result = .ok helloWritten :=
    Action.ok_of_toOption (by decide +kernel)
  obtain ⟨m, block, located, inlined⟩ := expand_inline greetings helloOpening helloClosing
    helloWritten "import macro Hello from common.txt" ⟨"Hello", "common.txt"⟩ asks plain succeeds
  have found : (Session.block? greetings ⟨"Hello", "common.txt"⟩).map (fun p => (p.1.name, p.2)) =
      some ("Hello", helloBlock) := by decide +kernel
  rw [located] at found
  simp only [Option.map_some, Option.some.injEq, Prod.mk.injEq] at found
  obtain ⟨spelled, rfl⟩ := found
  exact ⟨succeeds, inlined spelled (by decide +kernel)⟩

end Script

end QuestScript

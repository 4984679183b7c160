import QuestScript.Proofs.InlineImport

/-! Scripts one after the other. A script that expands on its own finds every macro it inserts in
its own blocks and imports. It finds the same ones behind another script: whatever that one leaves
in the registry is shadowed, and what it leaves in the cache is what the files say. -/
namespace QuestScript.Script

/-- Two scripts that expand on their own expand one after the other to the lines of both. -/
theorem expand_append (pack : Pack) (first second out out' : List String)
    (plain : ∀ text ∈ first ++ second, PlainImport text)
    (succeeds : ((expand pack first).run Session.start).result = .ok out)
    (succeeds' : ((expand pack second).run Session.start).result = .ok out') :
    ((expand pack (first ++ second)).run Session.start).result = .ok (out ++ out') := by
  have plainFirst : ∀ text ∈ first, PlainImport text :=
    fun text member => plain text (List.mem_append_left _ member)
  have plainSecond : ∀ text ∈ second, PlainImport text :=
    fun text member => plain text (List.mem_append_right _ member)
  obtain ⟨middle, start⟩ := expand_expands plainFirst succeeds
  obtain ⟨after, later⟩ := expand_expands plainSecond succeeds'
  -- the second script needs nothing that the first one left, so all of it may be there
  obtain ⟨wide, behind⟩ := later.weaken (Registry.Within.empty middle)
  exact (start.append behind).expand_result plain

def aliasingScript : List String :=
  ["import macro hello from common.txt", "macro Aside", "one", "macro Wave", "no wave", "end macro",
    "end macro", "macro a: Aside", "macro w: Wave"]

def shadowingScript : List String :=
  ["macro Aside &v", "two &v", "end macro", "import macro Hello from common.txt", "macro hello",
    "macro i: Hello you", "end macro", "macro b: Aside 2", "macro c: hello"]

theorem expand_append_shadowing :
    (∀ text ∈ aliasingScript ++ shadowingScript, PlainImport text) ∧
      ((expand greetings aliasingScript).run Session.start).result = .ok ["one", "no wave"] ∧
      ((expand greetings shadowingScript).run Session.start).result =
        .ok ["two 2", "hello you", "c.i.w waves"] ∧
      ((expand greetings (aliasingScript ++ shadowingScript)).run Session.start).result =
        .ok (["one", "no wave"] ++ ["two 2", "hello you", "c.i.w waves"]) := by
  have plain : ∀ text ∈ aliasingScript ++ shadowingScript, PlainImport text := by decide +kernel
  have first : ((expand greetings aliasingScript).run Session.start).result =
      .ok ["one", "no wave"] := by decide +kernel
  have second : ((expand greetings shadowingScript).run Session.start).result =
      .ok ["two 2", "hello you", "c.i.w waves"] := by decide +kernel
  exact ⟨plain, first, second,
    expand_append greetings aliasingScript shadowingScript _ _ plain first second⟩

end QuestScript.Script

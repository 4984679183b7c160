import QuestScript.Proofs.ScriptRun
import QuestScript.Proofs.InlineImport

/-! Blocks that nobody inserts. A macro is bound when the block around the insertion is read, so a
block written into a script can reach the lines behind it only by the names it registers. Where no
insertion behind it uses one of them, these lines end as they would without the block, and a fault
among them is found as many lines further down as the block is long. -/
namespace QuestScript

open QuestScript.Action

namespace Fault

/-- The fault as it is when the lines of the script stand further down. Those of an imported file
do not move with them. -/
def moved (count : Nat) : Fault → Fault
  | .malformedDefinition line text => .malformedDefinition (line + count) text
  | .unterminated line name => .unterminated (line + count) name
  | .misplacedImport line => .misplacedImport (line + count)
  | .unknownMacro line name => .unknownMacro (line + count) name
  | .importNotFound line name file => .importNotFound (line + count) name file
  | .malformedInsertion line text => .malformedInsertion (line + count) text
  | .unexpectedEnd line => .unexpectedEnd (line + count)
  | fault => fault

theorem moved_eq_self {fault : Fault} (inside : fault.line? = none) (count : Nat) :
    fault.moved count = fault := by
  cases fault <;> first | rfl | cases inside

end Fault

def reference? (line : String) : Option String :=
  match Directive.ofLine line with
  | .insertion (_ :: _ :: name :: _) => some name
  | _ => none

def Avoids (names : List String) (line : String) : Prop := ∀ name ∈ reference? line, name ∉ names

namespace Header

def moved (count : Nat) (header : Header) : Header := { header with line := header.line + count }

end Header

namespace Registry

def SameBut (names : List String) (first second : Registry) : Prop :=
  ∀ name, name ∉ names → first.get? name = second.get? name

variable {names : List String} {first second : Registry}

theorem SameBut.insert (same : first.SameBut names second) (name : String) (m : Macro) :
    SameBut names (Dict.insert first name m) (Dict.insert second name m) := by
  intro other outside
  rw [Dict.get?_insert, Dict.get?_insert, same other outside]

theorem SameBut.adopt (same : first.SameBut names second) (name : String) (m : Macro) :
    (first.adopt name m).SameBut names (second.adopt name m) := by
  unfold Registry.adopt
  split
  · exact (same.insert name m).insert m.name m
  · exact same.insert m.name m

/-- Registries that are used alike by lines which avoid the names: they give the same macros for all
others, also after the same macro is registered in both. -/
structure UsedAlike (names : List String) (R : Registry → Registry → Prop) : Prop where
  lookup : ∀ first second, R first second → ∀ name, name ∉ names → first.get? name = second.get? name
  insert : ∀ first second, R first second → ∀ name m,
    R (Dict.insert first name m) (Dict.insert second name m)

theorem sameBut_usedAlike (names : List String) : UsedAlike names (SameBut names) :=
  ⟨fun _ _ same => same, fun _ _ same => same.insert⟩

theorem eq_usedAlike (names : List String) : UsedAlike names Eq :=
  ⟨fun _ _ same _ _ => same ▸ rfl, fun _ _ same _ _ => same ▸ rfl⟩

variable {R : Registry → Registry → Prop}

theorem define_follows (alike : UsedAlike names R) (m : Macro) (f : Fault → Fault) :
    Follows R (fun _ _ => True) f (define m) (define m) := by
  apply Follows.of_gives
  intro first second same
  exact ⟨_, _, _, _, gives_define.2 ⟨rfl, rfl⟩, gives_define.2 ⟨rfl, rfl⟩, trivial,
    alike.insert first second same m.name m⟩

theorem target_follows (alike : UsedAlike names R) {line count : Nat} {text : String}
    {tokens : List String} (kind : Directive.ofLine text = .insertion tokens)
    (avoids : Avoids names text) :
    Follows R Eq (Fault.moved count) (target line text tokens)
      (target (line + count) text tokens) := by
  rcases tokens with _ | ⟨keyword, _ | ⟨place, _ | ⟨name, arguments⟩⟩⟩
  · exact .fail rfl
  · exact .fail rfl
  · exact .fail rfl
  · have outside : name ∉ names := avoids name (by simp [reference?, kind])
    apply Follows.get.bind
    intro first second same
    rw [alike.lookup first second same name outside]
    cases second.get? name with
    | none => exact (Follows.note _ _).bind fun _ _ _ => .fail rfl
    | some m => exact .pure rfl

theorem expandTokens_follows (alike : UsedAlike names R) {line count : Nat} {text : String}
    {tokens : List String} (kind : Directive.ofLine text = .insertion tokens)
    (avoids : Avoids names text) :
    Follows R Eq (Fault.moved count) (expandTokens line text tokens)
      (expandTokens (line + count) text tokens) := by
  unfold expandTokens
  apply (target_follows alike kind avoids).bind
  rintro m _ rfl
  apply (Follows.note _ _).bind
  intro _ _ _
  exact .pure rfl

end Registry

namespace Block

variable {names : List String} {R : Registry → Registry → Prop}

theorem ofDirective_follows (line count : Nat) (text : String)
    (directive : Directive) :
    Follows R (fun header header' => header' = header.moved count) (Fault.moved count)
      (Action.ofExcept (Header.ofDirective line text directive))
      (Action.ofExcept (Header.ofDirective (line + count) text directive)) := by
  unfold Header.ofDirective
  split
  · exact .pure rfl
  · exact .fail rfl

/-- The lines of a block, read once more further down, with a registry that they use alike. The
induction is that of `contents`: a name that is registered on the way gets the same macro on both
sides, so it may be inserted from there on or not. -/
theorem contents_follows (alike : Registry.UsedAlike names R) (count : Nat) (header : Header)
    (line : Nat) (lines : List String) (avoids : ∀ text ∈ lines, Avoids names text) :
    Follows R Eq (Fault.moved count) (contents header line lines)
      (contents (header.moved count) (line + count) lines) := by
  induction header, line, lines using contents.induct with
  | case1 header line =>
    rw [contents, contents]
    exact .fail rfl
  | case2 header line text rest kind =>
    rw [contents, contents]
    simp only [kind]
    exact .pure rfl
  | case3 header line text rest body kind ih =>
    have next : line + count + 1 = line + 1 + count := by omega
    rw [contents, contents]
    simp only [kind, next]
    apply (ih (List.forall_mem_cons.1 avoids).2).bind
    rintro found _ rfl
    exact .pure rfl
  | case4 header line text rest tokens kind ih =>
    have next : line + count + 1 = line + 1 + count := by omega
    rw [contents, contents]
    simp only [kind, next]
    apply (Registry.target_follows alike kind (List.forall_mem_cons.1 avoids).1).bind
    rintro target _ rfl
    apply (ih (List.forall_mem_cons.1 avoids).2).bind
    rintro found _ rfl
    exact .pure rfl
  | case5 header line text rest tokens kind =>
    rw [contents, contents]
    simp only [kind]
    exact .fail rfl
  | case6 header line text rest tokens kind ihInner ihRest =>
    have next : line + count + 1 = line + 1 + count := by omega
    rw [contents, contents]
    simp only [kind, next]
    apply (ofDirective_follows line count text _).bind
    rintro inner _ rfl
    apply (ihInner inner (List.forall_mem_cons.1 avoids).2).bind
    rintro held _ rfl
    apply (Follows.note _ _).bind
    intro _ _ _
    apply (Registry.define_follows alike _ _).bind
    intro _ _ _
    have behind : line + 1 + count + held.2 = line + 1 + held.2 + count := by omega
    rw [behind]
    have later : ∀ other ∈ rest.drop held.2, Avoids names other := by
      intro other member
      exact avoids other (List.mem_cons_of_mem _ (List.mem_of_mem_drop member))
    apply (ihRest held.2 later).bind
    rintro found _ rfl
    exact .pure rfl

theorem read_follows (alike : Registry.UsedAlike names R) (count line : Nat) (text : String)
    (rest : List String) (avoids : ∀ other ∈ rest, Avoids names other) :
    Follows R Eq (Fault.moved count) (read line text rest)
      (read (line + count) text rest) := by
  have next : line + count + 1 = line + 1 + count := by omega
  unfold read
  rw [next]
  apply (ofDirective_follows line count text _).bind
  rintro header _ rfl
  apply (contents_follows alike count header (line + 1) rest avoids).bind
  rintro found _ rfl
  exact .pure rfl

theorem Whole.sameBut {block : List String} {before after : Registry} {m : Macro}
    (whole : Whole block before m after) :
    before.SameBut (m.name :: declared block.tail) (Dict.insert after m.name m) := by
  intro name outside
  have other : name ≠ m.name := fun same => outside (same ▸ List.mem_cons_self ..)
  have fresh : name ∉ declared block.tail := fun member =>
    outside (List.mem_cons_of_mem _ member)
  rw [Dict.get?_insert_of_ne _ _ other]
  cases whole with
  | block kind reads => exact (reads.get?_of_not_declared fresh).symm

end Block

namespace Workspace

variable {names : List String} {α β : Type} {V : α → β → Prop} {f : Fault → Fault}

def SameBut (names : List String) (first second : Workspace) : Prop :=
  first.session = second.session ∧ first.registry.SameBut names second.registry

theorem onRegistry_follows {first : Action Registry α} {second : Action Registry β}
    (follows : Follows (Registry.SameBut names) V f first second) :
    Follows (SameBut names) V f (onRegistry first) (onRegistry second) := by
  rintro ⟨session, registry⟩ ⟨session', registry'⟩ ⟨same, related⟩
  have ends := follows registry registry' related
  exact ⟨⟨same, ends.1⟩, ends.2⟩

theorem onSession_follows {first : Action Session α} {second : Action Session β}
    (follows : Follows Eq V f first second) :
    Follows (SameBut names) V f (onSession first) (onSession second) := by
  rintro ⟨session, registry⟩ ⟨session', registry'⟩ ⟨same, related⟩
  have ends := follows session session' same
  exact ⟨⟨ends.1, related⟩, ends.2⟩

theorem adopt_follows (name : String) (m : Macro) :
    Follows (SameBut names) Eq f (adopt name m) (adopt name m) := by
  apply Follows.of_gives
  intro first second same
  exact ⟨(), (), ⟨first.session, first.registry.adopt name m⟩,
    ⟨second.session, second.registry.adopt name m⟩, gives_adopt.2 ⟨rfl, rfl⟩,
    gives_adopt.2 ⟨rfl, rfl⟩, rfl, same.1, same.2.adopt name m⟩

end Workspace

namespace Session

theorem fetchTokens_fault {pack : Pack} {text : String} {tokens : List String}
    {session after : Session} {fault : Fault}
    (fails : (fetchTokens pack text tokens).Fails session fault after) : fault.line? = none := by
  rcases fetchTokens_fails fails with ⟨-, rfl⟩ | ⟨target, -, failed⟩
  · rfl
  rcases answer_failed failed with ⟨cause, -, rfl⟩ | ⟨_, _, source, _, -, -, -, rfl⟩
  · rfl
  · rfl

theorem fetchTokens_follows (pack : Pack) (text : String) (tokens : List String) (count : Nat) :
    Follows Eq Eq (Fault.moved count) (fetchTokens pack text tokens)
      (fetchTokens pack text tokens) := by
  apply Follows.self
  intro session fault ends
  exact Fault.moved_eq_self (fetchTokens_fault ⟨ends, rfl⟩) count

end Session

namespace Script

open Workspace

variable {names : List String}

/-- Lines of a script, expanded once more further down and with a registry that differs in names
they do not insert. The induction is that of `expandFrom`. -/
theorem expandFrom_follows (pack : Pack) (count line : Nat) (lines : List String)
    (avoids : ∀ text ∈ lines, Avoids names text) :
    Follows (Workspace.SameBut names) Eq (Fault.moved count) (expandFrom pack line lines)
      (expandFrom pack (line + count) lines) := by
  have alike := Registry.sameBut_usedAlike names
  induction line, lines using expandFrom.induct with
  | case1 line =>
    rw [expandFrom, expandFrom]
    exact .pure rfl
  | case2 line text rest body kind ih =>
    have next : line + count + 1 = line + 1 + count := by omega
    rw [expandFrom, expandFrom]
    simp only [kind, next]
    apply (ih (List.forall_mem_cons.1 avoids).2).bind
    rintro later _ rfl
    exact .pure rfl
  | case3 line text rest tokens kind ih =>
    have next : line + count + 1 = line + 1 + count := by omega
    have here : Avoids names text := (List.forall_mem_cons.1 avoids).1
    rw [expandFrom, expandFrom]
    simp only [kind, next]
    apply (onRegistry_follows (Registry.expandTokens_follows alike kind here)).bind
    rintro written _ rfl
    apply (ih (List.forall_mem_cons.1 avoids).2).bind
    rintro later _ rfl
    exact .pure rfl
  | case4 line text rest tokens kind ih =>
    have next : line + count + 1 = line + 1 + count := by omega
    have reading := Block.read_follows alike count line text rest (List.forall_mem_cons.1 avoids).2
    rw [expandFrom, expandFrom]
    simp only [kind, next]
    apply (onRegistry_follows reading).bind
    rintro ⟨m, length⟩ _ rfl
    apply (Follows.note _ _).bind
    intro _ _ _
    apply (onRegistry_follows (Registry.define_follows alike m _)).bind
    intro _ _ _
    have behind : line + 1 + count + length = line + 1 + length + count := by omega
    simp only [behind]
    apply ih length
    intro other member
    exact avoids other (List.mem_cons_of_mem _ (List.mem_of_mem_drop member))
  | case5 line text rest tokens kind ih =>
    have next : line + count + 1 = line + 1 + count := by omega
    rw [expandFrom, expandFrom]
    simp only [kind, next]
    apply (onSession_follows (Session.fetchTokens_follows pack text tokens count)).bind
    rintro ⟨target, found⟩ _ rfl
    cases found with
    | none => exact .fail rfl
    | some m =>
      apply (adopt_follows target.name m).bind
      intro _ _ _
      exact ih (List.forall_mem_cons.1 avoids).2
  | case6 line text rest kind =>
    rw [expandFrom, expandFrom]
    simp only [kind]
    exact .fail rfl

/-- A block between two parts of a script, where the second part inserts neither its macro nor one
that a block inside it declares. With the block and without it, the script ends with the same lines
or with the same fault, found further down, and leaves the same session. -/
theorem expand_unreferenced (pack : Pack) (session : Session) (earlier block later out : List String)
    (m : Macro) (inner : Registry)
    (succeeds : ((expand pack earlier).run session).result = .ok out)
    (reads : (Block.readAt block 0).Gives (reached pack session earlier).registry (m, block.length)
      inner)
    (unreferenced : ∀ line ∈ later, ∀ name ∈ reference? line,
      name ≠ m.name ∧ name ∉ Block.declared block.tail) :
    ((expand pack (earlier ++ block ++ later)).run session).result =
        ((expand pack (earlier ++ later)).run session).result.mapError (Fault.moved block.length) ∧
      ((expand pack (earlier ++ block ++ later)).run session).state =
        ((expand pack (earlier ++ later)).run session).state := by
  have whole := Block.readAt_whole reads
  rw [List.drop_zero, List.take_length] at whole
  have start := expand_passes succeeds
  have closed := start.append (.ofWhole whole (reached pack session earlier).session)
  rw [List.append_nil] at closed
  have without := start.endsAs 1 later
  have inserted := closed.endsAs 1 later
  have number : 1 + (earlier ++ block).length = 1 + earlier.length + block.length := by
    rw [List.length_append, Nat.add_assoc]
  rw [number] at inserted
  have avoids : ∀ line ∈ later, Avoids (m.name :: Block.declared block.tail) line := by
    intro line member name refers
    have free := unreferenced line member name refers
    exact List.not_mem_cons_of_ne_of_not_mem free.1 free.2
  have follows := (expandFrom_follows pack block.length (1 + earlier.length) later avoids).map
    (out ++ ·)
  have related : Workspace.SameBut (m.name :: Block.declared block.tail)
      (reached pack session earlier)
      ⟨(reached pack session earlier).session, inner.insert m.name m⟩ := ⟨rfl, whole.sameBut⟩
  constructor
  · calc ((expand pack (earlier ++ block ++ later)).run session).result
        = _ := inserted.1
      _ = _ := follows.result_eq related
      _ = ((expand pack (earlier ++ later)).run session).result.mapError (Fault.moved block.length) :=
        congrArg (Except.mapError _) without.1.symm
  · have sessions := (follows _ _ related).1.1
    rw [← without.2, ← inserted.2] at sessions
    exact sessions.symm

def treeLines : List String :=
  ["macro Leaf", "green", "end macro", "macro Tree", "macro l: Leaf", "end macro"]

def leafLines : List String :=
  ["macro Leaf", "red", "macro Twig", "end macro", "macro t: Twig", "end macro"]

def leafMacro : Macro :=
  ⟨["macro", "Leaf"], some ["red"],
    [⟨["macro", "t", "Twig"], ⟨["macro", "Twig"], some [], []⟩⟩]⟩

def gardenLines : List String := ["macro a: Tree", "macro b: Missing"]

theorem expand_unreferenced_tree :
    ((expand greetings treeLines).run Session.start).result = .ok [] ∧
      (Block.readAt leafLines 0).Gives (reached greetings Session.start treeLines).registry
        (leafMacro, leafLines.length)
        ((Block.readAt leafLines 0).run (reached greetings Session.start treeLines).registry).state ∧
      (∀ line ∈ gardenLines, ∀ name ∈ reference? line,
        name ≠ leafMacro.name ∧ name ∉ Block.declared leafLines.tail) ∧
      ((expand greetings (treeLines ++ leafLines ++ ["macro a: Tree"])).run Session.start).result =
        .ok ["green"] ∧
      ((expand greetings (treeLines ++ leafLines ++ gardenLines)).run Session.start).result =
        .error (.unknownMacro 14 "Missing") := by
  have succeeds : ((expand greetings treeLines).run Session.start).result = .ok [] := by
    decide +kernel
  have reads : (Block.readAt leafLines 0).Gives
      (reached greetings Session.start treeLines).registry (leafMacro, leafLines.length)
      ((Block.readAt leafLines 0).run (reached greetings Session.start treeLines).registry).state :=
    ⟨by decide +kernel, rfl⟩
  have unreferenced : ∀ line ∈ gardenLines, ∀ name ∈ reference? line,
      name ≠ leafMacro.name ∧ name ∉ Block.declared leafLines.tail := by decide +kernel
  have green : ((expand greetings (treeLines ++ ["macro a: Tree"])).run Session.start).result =
      .ok ["green"] := by decide +kernel
  have missing : ((expand greetings (treeLines ++ gardenLines)).run Session.start).result =
      .error (.unknownMacro 8 "Missing") := by decide +kernel
  have growing : ∀ line ∈ ["macro a: Tree"], line ∈ gardenLines := by decide
  have first := expand_unreferenced greetings Session.start treeLines leafLines ["macro a: Tree"] []
    leafMacro _ succeeds reads fun line member => unreferenced line (growing line member)
  have second := expand_unreferenced greetings Session.start treeLines leafLines gardenLines []
    leafMacro _ succeeds reads unreferenced
  rw [green] at first
  rw [missing] at second
  exact ⟨succeeds, reads, unreferenced, first.1, second.1⟩

end Script

end QuestScript

import QuestScript.Script
import QuestScript.Proofs.ImportCache

/-! Calls of one session after one another. As long as the names of imports have no colon, no call
can tell what was called before: the cache changes how often files are read and nothing else. -/
namespace QuestScript

open QuestScript.Action

namespace Workspace

variable {S : Session → Session → Prop} {α : Type}

def Beside (S : Session → Session → Prop) (first second : Workspace) : Prop :=
  S first.session second.session ∧ first.registry = second.registry

theorem onRegistry_agree (action : Action Registry α) :
    Agree (Beside S) (onRegistry action) (onRegistry action) := by
  rintro ⟨session, registry⟩ ⟨session', registry'⟩ ⟨related, same⟩
  cases same
  exact ⟨rfl, related, rfl⟩

theorem onSession_agree {first second : Action Session α} (agree : Agree S first second) :
    Agree (Beside S) (onSession first) (onSession second) := by
  rintro ⟨session, registry⟩ ⟨session', registry'⟩ ⟨related, same⟩
  have ends := agree session session' related
  exact ⟨ends.1, ends.2, same⟩

theorem adopt_agree (name : String) (m : Macro) :
    Agree (Beside S) (adopt name m) (adopt name m) := by
  unfold adopt
  by_cases other : name ≠ m.name
  · simp only [if_pos other]
    exact .bind (onRegistry_agree _) fun _ => .bind (onRegistry_agree _) fun _ => .pure _
  · simp only [if_neg other]
    exact .bind (onRegistry_agree _) fun _ => .pure _

end Workspace

namespace Session

def Twins (pack : Pack) (first second : Session) : Prop := Faithful pack first ∧ Faithful pack second

theorem fetch_agree (pack : Pack) {target : ImportTarget} (plain : target.Plain) :
    Agree (Twins pack) (fetch pack target) (fetch pack target) := by
  intro first second twins
  have here := twins.1.fetch plain
  have there := twins.2.fetch plain
  exact ⟨here.1.trans there.1.symm, here.2, there.2⟩

def AgreeOn (S : Session → Session → Prop) (pack pack' : Pack) (line : String) : Prop :=
  ∀ target ∈ ImportTarget.ofLine? line, Agree S (fetch pack target) (fetch pack' target)

theorem agreeOn_plain (pack : Pack) {line : String} (plain : PlainImport line) :
    AgreeOn (Twins pack) pack pack line :=
  fun target asks => fetch_agree pack (plain target asks)

variable {S : Session → Session → Prop} {pack pack' : Pack} {line : String}

theorem fetchTokens_agree {tokens : List String} (agree : AgreeOn S pack pack' line)
    (kind : Directive.ofLine line = .importing tokens) :
    Agree S (fetchTokens pack line tokens) (fetchTokens pack' line tokens) := by
  unfold fetchTokens
  cases asked : ImportTarget.ofTokens? tokens with
  | none => exact .fail _
  | some target =>
    have asks : target ∈ ImportTarget.ofLine? line := (ImportTarget.ofLine?_importing kind).trans asked
    exact .bind (agree target asks) fun _ => .pure _

theorem fetchLine_agree (agree : AgreeOn S pack pack' line) :
    Agree S (fetchLine pack line) (fetchLine pack' line) := by
  unfold fetchLine
  cases kind : Directive.ofLine line with
  | importing tokens => exact .bind (fetchTokens_agree agree kind) fun _ => .pure _
  | definition tokens => exact .fail _
  | insertion tokens => exact .fail _
  | endMarker => exact .fail _
  | plain body => exact .fail _

end Session

namespace Script

open Workspace

variable {S : Session → Session → Prop} {pack pack' : Pack}

/-- Where imports agree, a script ends alike. The induction is that of `expandFrom`; packs and
sessions show in the answers to imports only. -/
theorem expandFrom_agree (line : Nat) (lines : List String)
    (agree : ∀ text ∈ lines, Session.AgreeOn S pack pack' text) :
    Agree (Beside S) (expandFrom pack line lines) (expandFrom pack' line lines) := by
  induction line, lines using expandFrom.induct with
  | case1 line =>
    rw [expandFrom, expandFrom]
    exact .pure _
  | case2 line text rest body kind ih =>
    rw [expandFrom, expandFrom]
    simp only [kind]
    exact .bind (ih (List.forall_mem_cons.1 agree).2) fun _ => .pure _
  | case3 line text rest tokens kind ih =>
    rw [expandFrom, expandFrom]
    simp only [kind]
    exact .bind (onRegistry_agree _) fun _ => .bind (ih (List.forall_mem_cons.1 agree).2) fun _ => .pure _
  | case4 line text rest tokens kind ih =>
    rw [expandFrom, expandFrom]
    simp only [kind]
    refine .bind (onRegistry_agree _) fun found => .bind (.note _ _) fun _ =>
      .bind (onRegistry_agree _) fun _ => ih found.2 fun other member => ?_
    exact agree other (List.mem_cons_of_mem _ (List.mem_of_mem_drop member))
  | case5 line text rest tokens kind ih =>
    rw [expandFrom, expandFrom]
    simp only [kind]
    have here := Session.fetchTokens_agree (agree text (List.mem_cons_self ..)) kind
    refine .bind (onSession_agree here) ?_
    rintro ⟨target, _ | m⟩
    · exact .fail _
    · exact .bind (adopt_agree _ _) fun _ => ih (List.forall_mem_cons.1 agree).2
  | case6 line text rest kind =>
    rw [expandFrom, expandFrom]
    simp only [kind]
    exact .fail _

theorem expand_agree (lines : List String) (agree : ∀ text ∈ lines, Session.AgreeOn S pack pack' text) :
    Agree S (expand pack lines) (expand pack' lines) := by
  intro first second related
  have ends := expandFrom_agree 1 lines agree ⟨first, Dict.empty⟩ ⟨second, Dict.empty⟩
    ⟨related, rfl⟩
  exact ⟨ends.1, ends.2.1⟩

end Script

inductive Call where
  | importing (line : String)
  | expanding (script : List String)

inductive Answer where
  | found (m : Option Macro)
  | lines (written : List String)

namespace Call

def run (pack : Pack) : Call → Action Session Answer
  | importing line => do return .found (← Session.fetchLine pack line)
  | expanding script => do return .lines (← Script.expand pack script)

def lines : Call → List String
  | importing line => [line]
  | expanding script => script

/-- The answers to calls in their order. A call goes on from the session that the one before it
left, also when that failed. -/
def answers (pack : Pack) : List Call → Session → List (Except Fault Answer)
  | [], _ => []
  | call :: later, session =>
    ((call.run pack).run session).result :: answers pack later ((call.run pack).run session).state

def anew (pack : Pack) (call : Call) : Except Fault Answer :=
  ((call.run pack).run Session.start).result

theorem run_agree {S : Session → Session → Prop} {pack pack' : Pack} (call : Call)
    (agree : ∀ line ∈ call.lines, Session.AgreeOn S pack pack' line) :
    Agree S (call.run pack) (call.run pack') := by
  cases call with
  | importing line =>
    exact .bind (Session.fetchLine_agree (agree line (List.mem_singleton.2 rfl))) fun _ => .pure _
  | expanding script => exact .bind (Script.expand_agree script agree) fun _ => .pure _

theorem answers_from (pack : Pack) (calls : List Call)
    (plain : ∀ call ∈ calls, ∀ line ∈ call.lines, PlainImport line) (session : Session)
    (faithful : Session.Faithful pack session) :
    answers pack calls session = calls.map (anew pack) := by
  induction calls generalizing session with
  | nil => rfl
  | cons call later ih =>
    have here : ∀ line ∈ call.lines, Session.AgreeOn (Session.Twins pack) pack pack line :=
      fun line member => Session.agreeOn_plain pack (plain call (List.mem_cons_self ..) line member)
    have agree := run_agree call here session Session.start ⟨faithful, Session.start_faithful pack⟩
    rw [answers, List.map_cons, agree.1,
      ih (List.forall_mem_cons.1 plain).2 _ agree.2.1]
    rfl

/-- Whatever a session was asked before, each call is answered as by a new session: with the same
macro, with none, with the same lines, or with the same fault. -/
theorem answers_anew (pack : Pack) (calls : List Call)
    (plain : ∀ call ∈ calls, ∀ line ∈ call.lines, PlainImport line) :
    answers pack calls Session.start = calls.map (anew pack) :=
  answers_from pack calls plain Session.start (Session.start_faithful pack)

def mixedPack : Pack :=
  .memory ⟨[("common.txt", ["macro Hello &who", "hello &who", "end macro"]),
    ("broken.txt", ["macro Open", "never closed"])]⟩

def mixedCalls : List Call :=
  [.expanding ["import macro hello from common.txt", "macro a: Hello world"],
    .importing "IMPORT macro HELLO from common.txt",
    .importing "import macro Nowhere from common.txt",
    .importing "import macro Open from broken.txt",
    .expanding ["import macro Hello from common.txt", "import macro nowhere from common.txt"],
    .importing "import macro Hello",
    .expanding ["import macro HELLO from common.txt", "macro b: HELLO there"]]

theorem mixedCalls_anew :
    (∀ call ∈ mixedCalls, ∀ line ∈ call.lines, PlainImport line) ∧
      answers mixedPack mixedCalls Session.start = mixedCalls.map (anew mixedPack) := by
  have plain : ∀ call ∈ mixedCalls, ∀ line ∈ call.lines, PlainImport line := by decide +kernel
  exact ⟨plain, answers_anew mixedPack mixedCalls plain⟩

end Call

end QuestScript

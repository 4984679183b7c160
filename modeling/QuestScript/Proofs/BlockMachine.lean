import QuestScript.Block
import QuestScript.Proofs.Ending

/-! Blocks read in one pass. The machine keeps the blocks that are open on a stack of its own and
looks at every line once; nothing is called again for a block inside a block. It reads the same
macros, faults, registries and log entries as `Block.readAt`. -/
namespace QuestScript.BlockMachine

structure Frame where
  header : Header
  body : List String
  insertions : List Insertion

namespace Frame

def opening (line : Nat) (keyword name : String) (params : List String) : Frame :=
  ⟨⟨line, keyword, name, params⟩, [], []⟩

def addLine (frame : Frame) (line : String) : Frame :=
  { frame with body := frame.body ++ [line] }

def addInsertion (frame : Frame) (insertion : Insertion) : Frame :=
  { frame with insertions := frame.insertions ++ [insertion] }

def add (frame : Frame) (found : Contents) : Frame :=
  ⟨frame.header, frame.body ++ found.body, frame.insertions ++ found.insertions⟩

def toMacro (frame : Frame) : Macro :=
  ⟨frame.header.keyword :: frame.header.name :: frame.header.params, some frame.body,
    frame.insertions⟩

end Frame

structure State where
  /-- How many lines were read, the first header counted. -/
  count : Nat
  top : Frame
  below : List Frame

inductive Next where
  | reading (state : State)
  | ended (m : Macro) (count : Nat)

/-- Registers the macro of a block that is closed, under the name in its header. -/
def register (frame : Frame) : Action Registry Unit := fun registry =>
  ⟨.ok (), registry.insert frame.header.name frame.toMacro,
    if (registry.get? frame.header.name).isSome then [.redefined frame.header.name] else []⟩

def step (start : Nat) (text : String) (state : State) : Action Registry Next :=
  let line := start + state.count + 1
  match Directive.ofLine text with
  | .definition (keyword :: name :: params) =>
    return .reading ⟨state.count + 1, .opening line keyword name params, state.top :: state.below⟩
  | .definition _ => Action.fail (.malformedDefinition line (Text.trim text))
  | .plain body => return .reading ⟨state.count + 1, state.top.addLine body, state.below⟩
  | .insertion (keyword :: instanceName :: name :: arguments) => do
    match (← Action.get).get? name with
    | some target =>
      return .reading ⟨state.count + 1,
        state.top.addInsertion ⟨keyword :: instanceName :: name :: arguments, target⟩, state.below⟩
    | none =>
      Action.note [.undefined line name]
      Action.fail (.unknownMacro line name)
  | .insertion _ => Action.fail (.malformedInsertion line (Text.trim text))
  | .importing _ => Action.fail (.misplacedImport line)
  | .endMarker =>
    match state.below with
    | [] => return .ended state.top.toMacro (state.count + 1)
    | outer :: below => do
      Action.note [.nested state.top.header.name outer.header.name]
      register state.top
      return .reading ⟨state.count + 1, outer, below⟩

/-- Reads lines until the first header is closed. When they run out, the innermost block that is
open is to blame. -/
def run (start : Nat) (state : State) : List String → Action Registry (Macro × Nat)
  | [] => Action.fail (.unterminated state.top.header.line state.top.header.name)
  | text :: rest => do
    match ← step start text state with
    | .reading next => run start next rest
    | .ended m count => return (m, count)

def readAt (lines : List String) (start : Nat) : Action Registry (Macro × Nat) :=
  match lines.drop start with
  | [] => Action.fail (.malformedDefinition (start + 1) "")
  | text :: rest =>
    match Directive.ofLine text with
    | .definition (keyword :: name :: params) =>
      run start ⟨1, .opening (start + 1) keyword name params, []⟩ rest
    | _ => Action.fail (.malformedDefinition (start + 1) (Text.trim text))

/-- What the machine does once the block on the top holds all that `Block.contents` found in the
lines: the block is closed, and the rest is read for the block around it. -/
def close (start : Nat) (state : State) (lines : List String) (found : Contents × Nat) :
    Action Registry (Macro × Nat) :=
  match state.below with
  | [] => return ((state.top.add found.1).toMacro, state.count + found.2)
  | outer :: below => do
    Action.note [.nested state.top.header.name outer.header.name]
    register (state.top.add found.1)
    run start ⟨state.count + found.2, outer, below⟩ (lines.drop found.2)

theorem define_run (m : Macro) (registry : Registry) :
    (Registry.define m).run registry = ⟨.ok (registry.get? m.name), registry.insert m.name m,
      if (registry.get? m.name).isSome then [.redefined m.name] else []⟩ := by
  show Registry.define m registry = _
  by_cases known : (registry.get? m.name).isSome = true
  · simp only [Registry.define, Registry.defineAs, bind, Action.andThen, Action.get,
      Action.update, Action.note, pure, Action.ok, Dict.contains, known, if_true, List.nil_append,
      List.append_nil]
  · simp only [Registry.define, Registry.defineAs, bind, Action.andThen, Action.get,
      Action.update, pure, Action.ok, Dict.contains, known, if_false, List.nil_append,
      Bool.false_eq_true]

theorem define_eq_register {α : Type} (frame : Frame) (next : Action Registry α) :
    (Registry.define frame.toMacro >>= fun _ => next) = register frame >>= fun _ => next := by
  funext registry
  have registered : (register frame).run registry =
      ⟨.ok (), registry.insert frame.header.name frame.toMacro, _⟩ := rfl
  exact (Action.bind_run_ok (define_run frame.toMacro registry) fun _ => next).trans
    (Action.bind_run_ok registered fun _ => next).symm

theorem add_addLine (frame : Frame) (line : String) (found : Contents) :
    (frame.addLine line).add found = frame.add (found.addLine line) := by
  simp [Frame.add, Frame.addLine, Contents.addLine]

theorem add_addInsertion (frame : Frame) (insertion : Insertion) (found : Contents) :
    (frame.addInsertion insertion).add found = frame.add (found.addInsertion insertion) := by
  simp [Frame.add, Frame.addInsertion, Contents.addInsertion]

theorem close_later (start : Nat) (state : State) (top : Frame) (lines : List String)
    (read count : Nat) (found found' : Contents) (same : top.add found = state.top.add found')
    (header : top.header = state.top.header) :
    close start ⟨state.count + read, top, state.below⟩ (lines.drop read) (found, count) =
      close start state lines (found', count + read) := by
  have total : state.count + read + count = state.count + (count + read) := by omega
  have left : (lines.drop read).drop count = lines.drop (count + read) := by
    rw [List.drop_drop, Nat.add_comm]
  cases below : state.below with
  | nil => simp only [close, below, same, total]
  | cons outer below' => simp only [close, below, same, total, left, header]

theorem close_inner (start count : Nat) (top outer : Frame) (below : List Frame)
    (lines : List String) (found : Contents × Nat) :
    close start ⟨count, top, outer :: below⟩ lines found = (do
      Action.note [.nested top.header.name outer.header.name]
      register (top.add found.1)
      run start ⟨count + found.2, outer, below⟩ (lines.drop found.2)) := rfl

/-- With any blocks open, the machine first finds what `Block.contents` finds for the innermost one
and then closes it. The induction is that of `Block.contents`; its two calls for a block inside a
block are one run of the machine, cut where that block is closed. -/
theorem run_eq_contents (start : Nat) (header : Header) (line : Nat) (lines : List String)
    (state : State) (same : state.top.header = header) (here : line = start + state.count + 1) :
    run start state lines = Block.contents header line lines >>= close start state lines := by
  induction header, line, lines using Block.contents.induct generalizing state with
  | case1 header line =>
    subst same
    rw [run, Block.contents, Action.fail_bind]
  | case2 header line text rest kind =>
    subst here
    rw [run, Block.contents]
    simp only [kind, step, pure_bind, close, Frame.add, Contents.empty, List.append_nil]
    cases state.below with
    | nil => rw [pure_bind]
    | cons outer below => simp only [bind_assoc, pure_bind, List.drop_one, List.tail_cons]
  | case3 header line text rest body kind ih =>
    subst here
    rw [run, Block.contents]
    simp only [kind, step, pure_bind, bind_assoc]
    rw [ih _ (by simpa [Frame.addLine] using same) (by simp; omega)]
    congr 1
    funext found
    exact close_later start state _ (text :: rest) 1 found.2 found.1 _ (add_addLine ..) rfl
  | case4 header line text rest tokens kind ih =>
    subst here
    rw [run, Block.contents]
    rcases tokens with _ | ⟨keyword, _ | ⟨instanceName, _ | ⟨name, arguments⟩⟩⟩
    · simp only [kind, step, Registry.target, Action.fail_bind]
    · simp only [kind, step, Registry.target, Action.fail_bind]
    · simp only [kind, step, Registry.target, Action.fail_bind]
    simp only [kind, step, Registry.target, bind_assoc]
    congr 1
    funext registry
    cases registry.get? name with
    | none => simp only [bind_assoc, Action.fail_bind]
    | some target =>
      simp only [pure_bind]
      rw [ih _ (by simpa [Frame.addInsertion] using same) (by simp; omega)]
      congr 1
      funext found
      exact close_later start state _ (text :: rest) 1 found.2 found.1 _ (add_addInsertion ..) rfl
  | case5 header line text rest tokens kind =>
    subst here
    rw [run, Block.contents]
    simp only [kind, step, Action.fail_bind]
  | case6 header line text rest tokens kind ihInner ihRest =>
    subst here
    rw [run, Block.contents]
    simp only [kind, step]
    rcases tokens with _ | ⟨keyword, _ | ⟨name, params⟩⟩
    · simp only [Header.ofDirective, Action.ofExcept_error, Action.fail_bind]
    · simp only [Header.ofDirective, Action.ofExcept_error, Action.fail_bind]
    simp only [pure_bind, bind_assoc, Header.ofDirective, Action.ofExcept_ok]
    -- one frame deeper, the machine reads the block inside as the first call does
    rw [ihInner ⟨_, keyword, name, params⟩ _ rfl (by simp; omega)]
    congr 1
    funext held
    rw [close_inner]
    simp only [Frame.opening, same]
    rw [← define_eq_register]
    congr 1
    funext _
    congr 1
    funext _
    -- that frame is gone again, and the rest is read as in the second call
    have moved : state.count + 1 + held.2 = state.count + (held.2 + 1) := by omega
    rw [moved, ihRest held.2 ⟨state.count + (held.2 + 1), state.top, state.below⟩ same
      (by simp only; omega)]
    congr 1
    funext found
    have total : found.2 + 1 + held.2 = found.2 + (held.2 + 1) := by omega
    rw [total]
    exact close_later start state state.top (text :: rest) (held.2 + 1) found.2 found.1 _ rfl rfl

/-- From every registry the machine ends as `Block.readAt` does: with the same macro and number of
lines or the same fault, the same registry and the same log. -/
theorem readAt_in_one_pass (lines : List String) (start : Nat) (registry : Registry) :
    (Block.readAt lines start).run registry = (readAt lines start).run registry := by
  suffices same : Block.readAt lines start = readAt lines start by rw [same]
  unfold Block.readAt readAt
  cases lines.drop start with
  | nil => rfl
  | cons text rest =>
    simp only [Block.read]
    cases kind : Directive.ofLine text with
    | definition tokens =>
      rcases tokens with _ | ⟨keyword, _ | ⟨name, params⟩⟩
      · simp only [Header.ofDirective, Action.ofExcept_error, Action.fail_bind]
      · simp only [Header.ofDirective, Action.ofExcept_error, Action.fail_bind]
      simp only [Header.ofDirective, Action.ofExcept_ok, pure_bind, bind_assoc]
      rw [run_eq_contents start _ (start + 1 + 1) rest _ rfl rfl]
      congr 1
      funext found
      have total : 1 + found.2 = found.2 + 1 := Nat.add_comm ..
      simp only [close, Frame.add, Frame.opening, Frame.toMacro, Contents.toMacro, Header.signature,
        List.nil_append, total]
    | insertion tokens => simp only [Header.ofDirective, Action.ofExcept_error, Action.fail_bind]
    | importing tokens => simp only [Header.ofDirective, Action.ofExcept_error, Action.fail_bind]
    | endMarker => simp only [Header.ofDirective, Action.ofExcept_error, Action.fail_bind]
    | plain body => simp only [Header.ofDirective, Action.ofExcept_error, Action.fail_bind]

end QuestScript.BlockMachine

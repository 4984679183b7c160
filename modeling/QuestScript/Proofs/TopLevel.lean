import QuestScript.Proofs.BlockMachine
import QuestScript.Proofs.InlineImport
import QuestScript.Proofs.ScriptRun
import QuestScript.Proofs.SourceTree

/-! Which lines a script writes. The expansion jumps over a block by the number of lines that were
read for it. A sweep looks at every line once instead: it keeps the blocks that are open on a stack
and lists what is registered, block by block at the end markers. A line stands at the top of a
script when as many blocks end as open before it; only such lines write, each with the macros
that the lines before it have registered. -/
namespace QuestScript

namespace Macro

mutual

/-- The lines of the body, and those of every insertion. -/
def size : Macro → Nat
  | ⟨_, body, insertions⟩ => (body.getD []).length + sizes insertions

def sizes : List Insertion → Nat
  | [] => 0
  | ⟨_, target⟩ :: rest => size target + sizes rest

end

mutual

/-- However an instance is called and whatever its arguments are, a macro expands to as many lines
as it has. -/
theorem length_expansion (m : Macro) (invocation : List String) (parent : Option String) :
    (m.expansion invocation parent).lines.length = m.size := by
  cases m with
  | mk signature body insertions =>
    have own : (frame ⟨signature, body, insertions⟩ invocation
        (fullName parent invocation)).lines.length = (body.getD []).length := by
      simp only [frame, frameLines, Macro.lines, List.length_map]
    rw [expansion, size, Output.lines_append, List.length_append, own, length_expansions]

theorem length_expansions (insertions : List Insertion) (name : String) :
    (expansions insertions name).lines.length = sizes insertions := by
  cases insertions with
  | nil => rw [expansions, sizes, Output.empty, List.length_nil]
  | cons insertion rest =>
    cases insertion with
    | mk tokens target =>
      rw [expansions, sizes, Output.lines_append, List.length_append, length_expansion,
        length_expansions]

end

end Macro

namespace Registry

/-- Every name has the macro that was registered last under it; the list has the latest first. -/
def KeepsLatest (registry : Registry) (known : List (String × Macro)) : Prop :=
  ∀ name, registry.get? name = known.lookup name

theorem KeepsLatest.empty : KeepsLatest Dict.empty [] := by
  intro name
  rw [Dict.get?_empty, List.lookup_nil]

theorem lookup_latest (known : List (String × Macro)) (name other : String) (m : Macro) :
    ((name, m) :: known).lookup other = if other = name then some m else known.lookup other := by
  rw [List.lookup_cons]
  by_cases same : other = name
  · rw [if_pos same, beq_iff_eq.2 same]
  · rw [if_neg same, beq_eq_false_iff_ne.2 same]

theorem KeepsLatest.insert {registry : Registry} {known : List (String × Macro)}
    (keeps : registry.KeepsLatest known) (name : String) (m : Macro) :
    KeepsLatest (Dict.insert registry name m) ((name, m) :: known) := by
  intro other
  rw [Dict.get?_insert, lookup_latest, keeps other]

theorem KeepsLatest.adopt {registry : Registry} {known : List (String × Macro)}
    (keeps : registry.KeepsLatest known) (name : String) (m : Macro) :
    (registry.adopt name m).KeepsLatest ((m.name, m) :: (name, m) :: known) := by
  unfold Registry.adopt
  by_cases spelled : name ≠ m.name
  · rw [if_pos spelled]
    exact (keeps.insert name m).insert m.name m
  · -- the name is the declared one and is registered once more
    rw [if_neg spelled, Decidable.not_not.1 spelled]
    intro other
    rw [keeps.insert m.name m other, lookup_latest, lookup_latest, lookup_latest]
    split <;> rfl

end Registry

namespace Script

open BlockMachine

def opensBlock (text : String) : Bool :=
  match Directive.ofLine text with
  | .definition _ => true
  | _ => false

def endsBlock (text : String) : Bool := decide (Directive.ofLine text = .endMarker)

def isPlain (text : String) : Bool :=
  match Directive.ofLine text with
  | .plain _ => true
  | _ => false

def AtTop (earlier : List String) : Prop := earlier.countP opensBlock = earlier.countP endsBlock

instance (earlier : List String) : Decidable (AtTop earlier) :=
  inferInstanceAs (Decidable (_ = _))

def placed (earlier : List String) : List String → List (List String × String)
  | [] => []
  | text :: rest => (earlier, text) :: placed (earlier ++ [text]) rest

def topFrom (earlier lines : List String) : List (List String × String) :=
  (placed earlier lines).filter fun place => decide (AtTop place.1)

/-- The lines at the top of a script, each with all the lines before it. -/
def topLines (lines : List String) : List (List String × String) := topFrom [] lines

structure Sweep where
  count : Nat
  blocks : List Frame
  known : List (String × Macro)
  session : Session

def latest? (known : List (String × Macro)) : List String → Option Macro
  | _ :: _ :: name :: _ => known.lookup name
  | _ => none

/-- Looks at one line. Nothing is written; a line that cannot stand where it does ends the sweep. -/
def next? (pack : Pack) : Sweep → String → Option Sweep
  | ⟨count, blocks, known, session⟩, text =>
    match Directive.ofLine text, blocks with
    | .plain _, [] => some ⟨count + 1, [], known, session⟩
    | .plain body, top :: below => some ⟨count + 1, top.addLine body :: below, known, session⟩
    | .insertion tokens, [] => do
      let _ ← latest? known tokens
      some ⟨count + 1, [], known, session⟩
    | .insertion tokens, top :: below => do
      let target ← latest? known tokens
      some ⟨count + 1, top.addInsertion ⟨tokens, target⟩ :: below, known, session⟩
    | .definition (keyword :: name :: params), blocks =>
      some ⟨count + 1, .opening (count + 1) keyword name params :: blocks, known, session⟩
    | .endMarker, top :: below =>
      some ⟨count + 1, below, (top.header.name, top.toMacro) :: known, session⟩
    | .importing tokens, [] =>
      match (Session.fetchTokens pack text tokens).run session with
      | ⟨.ok (target, some m), session', _⟩ =>
        some ⟨count + 1, [], (m.name, m) :: (target.name, m) :: known, session'⟩
      | _ => none
    | _, _ => none

def sweep? (pack : Pack) (session : Session) (lines : List String) : Option Sweep :=
  lines.foldlM (next? pack) ⟨0, [], [], session⟩

/-- What the lines of a script register, the latest first: blocks at any depth when they end, and
imports under the name they declare and the one that was asked for. -/
def registered (pack : Pack) (session : Session) (lines : List String) : List (String × Macro) :=
  ((sweep? pack session lines).map Sweep.known).getD []

def writes (pack : Pack) (session : Session) (place : List String × String) : List String :=
  match Directive.ofLine place.2 with
  | .plain _ => [place.2]
  | .insertion tokens =>
    match latest? (registered pack session place.1) tokens with
    | some m => (m.expansion tokens none).lines
    | none => []
  | _ => []

def insertedSize (pack : Pack) (session : Session) (place : List String × String) : Nat :=
  match Directive.ofLine place.2 with
  | .insertion tokens => ((latest? (registered pack session place.1) tokens).map Macro.size).getD 0
  | _ => 0

def insertedSizes (pack : Pack) (session : Session) (places : List (List String × String)) : Nat :=
  places.foldr (fun place later => insertedSize pack session place + later) 0

/-- An insertion names a macro that the lines before it have registered. -/
def Bound (pack : Pack) (session : Session) (place : List String × String) : Prop :=
  ∀ tokens, Directive.ofLine place.2 = .insertion tokens →
    ∃ m, latest? (registered pack session place.1) tokens = some m

structure Accounts (pack : Pack) (session : Session) (places : List (List String × String))
    (written : List String) : Prop where
  written_eq : written = places.flatMap (writes pack session)
  bound : ∀ place ∈ places, Bound pack session place

theorem placed_append (earlier lines rest : List String) :
    placed earlier (lines ++ rest) = placed earlier lines ++ placed (earlier ++ lines) rest := by
  induction lines generalizing earlier with
  | nil => rw [List.append_nil, List.nil_append, placed, List.nil_append]
  | cons text lines ih =>
    rw [List.cons_append, placed, placed, ih, List.cons_append, List.append_assoc,
      List.singleton_append]

theorem topFrom_append (earlier lines rest : List String) :
    topFrom earlier (lines ++ rest) = topFrom earlier lines ++ topFrom (earlier ++ lines) rest := by
  unfold topFrom
  rw [placed_append, List.filter_append]

theorem topFrom_top {earlier : List String} (top : AtTop earlier) (text : String)
    (rest : List String) :
    topFrom earlier (text :: rest) = (earlier, text) :: topFrom (earlier ++ [text]) rest := by
  simp only [topFrom, placed, List.filter_cons, decide_eq_true top, if_true]

theorem topFrom_inside {earlier : List String} (inside : ¬ AtTop earlier) (text : String)
    (rest : List String) : topFrom earlier (text :: rest) = topFrom (earlier ++ [text]) rest := by
  simp only [topFrom, placed, List.filter_cons, decide_eq_false inside, Bool.false_eq_true, if_false]

theorem next?_depth {pack : Pack} {sweep sweep' : Sweep} {text : String}
    (goes : next? pack sweep text = some sweep') :
    sweep'.blocks.length + [text].countP endsBlock =
      sweep.blocks.length + [text].countP opensBlock := by
  rcases sweep with ⟨count, blocks, known, session⟩
  cases kind : Directive.ofLine text with
  | plain body =>
    cases blocks with
    | nil =>
      simp only [next?, kind, Option.some.injEq] at goes
      subst goes
      simp [opensBlock, endsBlock, kind]
    | cons top below =>
      simp only [next?, kind, Option.some.injEq] at goes
      subst goes
      simp [opensBlock, endsBlock, kind]
  | insertion tokens =>
    cases blocks with
    | nil =>
      simp only [next?, kind, Option.bind_eq_bind, Option.bind_eq_some_iff, Option.some.injEq] at goes
      obtain ⟨target, bound, rfl⟩ := goes
      simp [opensBlock, endsBlock, kind]
    | cons top below =>
      simp only [next?, kind, Option.bind_eq_bind, Option.bind_eq_some_iff, Option.some.injEq] at goes
      obtain ⟨target, bound, rfl⟩ := goes
      simp [opensBlock, endsBlock, kind]
  | definition tokens =>
    rcases tokens with _ | ⟨keyword, _ | ⟨name, params⟩⟩
    · simp [next?, kind] at goes
    · simp [next?, kind] at goes
    · simp only [next?, kind, Option.some.injEq] at goes
      subst goes
      simp [opensBlock, endsBlock, kind]
  | endMarker =>
    cases blocks with
    | nil => simp [next?, kind] at goes
    | cons top below =>
      simp only [next?, kind, Option.some.injEq] at goes
      subst goes
      simp [opensBlock, endsBlock, kind]
  | importing tokens =>
    cases blocks with
    | cons top below => simp [next?, kind] at goes
    | nil =>
      rcases fetched : (Session.fetchTokens pack text tokens).run session with
        ⟨fault | ⟨target, _ | m⟩, session', log⟩
      · simp [next?, kind, fetched] at goes
      · simp [next?, kind, fetched] at goes
      · simp only [next?, kind, fetched, Option.some.injEq] at goes
        subst goes
        simp [opensBlock, endsBlock, kind]

theorem foldlM_depth {pack : Pack} {lines : List String} {sweep sweep' : Sweep}
    (goes : lines.foldlM (next? pack) sweep = some sweep') :
    sweep'.blocks.length + lines.countP endsBlock =
      sweep.blocks.length + lines.countP opensBlock := by
  induction lines generalizing sweep with
  | nil =>
    cases goes
    rfl
  | cons text lines ih =>
    simp only [List.foldlM_cons, Option.bind_eq_bind, Option.bind_eq_some_iff] at goes
    obtain ⟨middle, first, later⟩ := goes
    have here := next?_depth first
    have rest := ih later
    rw [← List.singleton_append, List.countP_append, List.countP_append]
    omega

/-- After the lines `earlier` the blocks `blocks` are open, and the sweep knows the session and the
registry of the workspace. -/
def Reaches (pack : Pack) (session : Session) (earlier : List String) (blocks : List Frame)
    (space : Workspace) : Prop :=
  ∃ known, sweep? pack session earlier = some ⟨earlier.length, blocks, known, space.session⟩ ∧
    space.registry.KeepsLatest known

theorem Reaches.start (pack : Pack) (session : Session) :
    Reaches pack session [] [] ⟨session, Dict.empty⟩ :=
  ⟨[], rfl, .empty⟩

section

variable {pack : Pack} {session : Session} {earlier : List String} {blocks : List Frame}
  {space : Workspace} {text : String}

theorem Reaches.next {blocks' : List Frame} {space' : Workspace}
    (reached : Reaches pack session earlier blocks space)
    (goes : ∀ known, space.registry.KeepsLatest known → ∃ known',
      next? pack ⟨earlier.length, blocks, known, space.session⟩ text =
        some ⟨earlier.length + 1, blocks', known', space'.session⟩ ∧
      space'.registry.KeepsLatest known') :
    Reaches pack session (earlier ++ [text]) blocks' space' := by
  obtain ⟨known, swept, keeps⟩ := reached
  obtain ⟨known', goes, keeps'⟩ := goes known keeps
  refine ⟨known', ?_, keeps'⟩
  unfold sweep? at swept ⊢
  rw [List.foldlM_append, swept, List.length_append, List.length_singleton]
  simp only [Option.bind_eq_bind, Option.bind_some, List.foldlM_cons, List.foldlM_nil, goes,
    Option.pure_def]

theorem Reaches.opens {keyword name : String} {params : List String}
    (reached : Reaches pack session earlier blocks space)
    (kind : Directive.ofLine text = .definition (keyword :: name :: params)) :
    Reaches pack session (earlier ++ [text])
      (.opening (earlier.length + 1) keyword name params :: blocks) space :=
  reached.next fun known keeps => ⟨known, by simp only [next?, kind], keeps⟩

theorem Reaches.registered (reached : Reaches pack session earlier blocks space) :
    space.registry.KeepsLatest (registered pack session earlier) := by
  obtain ⟨known, swept, keeps⟩ := reached
  rw [Script.registered, swept]
  exact keeps

theorem Reaches.atTop_iff (reached : Reaches pack session earlier blocks space) :
    AtTop earlier ↔ blocks = [] := by
  obtain ⟨known, swept, -⟩ := reached
  have depth : blocks.length + earlier.countP endsBlock = 0 + earlier.countP opensBlock :=
    foldlM_depth swept
  unfold AtTop
  rw [← List.length_eq_zero_iff]
  omega

theorem Reaches.inside {top : Frame} {below : List Frame}
    (reached : Reaches pack session earlier (top :: below) space) : ¬ AtTop earlier := by
  rw [reached.atTop_iff]
  exact List.cons_ne_nil _ _

theorem latest?_eq {registry : Registry} {known : List (String × Macro)}
    (keeps : registry.KeepsLatest known) {keyword place name : String} {arguments : List String}
    {m : Macro} (bound : registry.get? name = some m) :
    latest? known (keyword :: place :: name :: arguments) = some m := by
  rw [latest?, ← keeps name, bound]

/-- The sweep goes through the lines that end a block. It closes the block on the top with all that
they hold, and none of them stands at the top of the script. -/
theorem Reaches.reads {used : List String} {before after : Registry} {found : Contents}
    (reads : Block.Reads used before found after) {top : Frame} {below : List Frame} {now : Session}
    (reached : Reaches pack session earlier (top :: below) ⟨now, before⟩) :
    Reaches pack session (earlier ++ used) below
        ⟨now, after.insert top.header.name (top.add found).toMacro⟩ ∧
      topFrom earlier used = [] := by
  induction reads generalizing earlier top below with
  | @close text before kind =>
    have whole : top.add Contents.empty = top := by simp [Frame.add, Contents.empty]
    rw [topFrom_inside reached.inside, whole]
    refine ⟨reached.next fun known keeps => ?_, rfl⟩
    exact ⟨_, by simp only [next?, kind], keeps.insert _ _⟩
  | @plain text body used before after found kind _ ih =>
    have next : Reaches pack session (earlier ++ [text]) (top.addLine body :: below)
        ⟨now, before⟩ :=
      reached.next fun known keeps => ⟨known, by simp only [next?, kind], keeps⟩
    have rest := ih next
    rw [add_addLine] at rest
    rw [topFrom_inside reached.inside, List.append_cons]
    exact rest
  | @insertion text keyword place name arguments used before after target found kind bound _ ih =>
    have next : Reaches pack session (earlier ++ [text])
        (top.addInsertion ⟨keyword :: place :: name :: arguments, target⟩ :: below)
        ⟨now, before⟩ :=
      reached.next fun known keeps => ⟨known, by
        simp only [next?, kind, latest?_eq keeps bound, Option.bind_eq_bind, Option.bind_some], keeps⟩
    have rest := ih next
    rw [add_addInsertion] at rest
    rw [topFrom_inside reached.inside, List.append_cons]
    exact rest
  | @block text keyword name params inner used before middle after held found kind _ _ ihInner
      ihRest =>
    -- the block inside lies on the stack while its lines are swept, and is gone for the rest
    obtain ⟨closed, hidden⟩ := ihInner (reached.opens kind)
    obtain ⟨ended, hidden'⟩ := ihRest closed
    rw [topFrom_inside reached.inside, topFrom_append, hidden, hidden', List.append_cons,
      ← List.append_assoc]
    exact ⟨ended, rfl⟩

theorem Reaches.accounts {rest first later : List String}
    (reached : Reaches pack session earlier [] space)
    (here : writes pack session (earlier, text) = first) (bound : Bound pack session (earlier, text))
    (accounts : Accounts pack session (topFrom (earlier ++ [text]) rest) later) :
    Accounts pack session (topFrom earlier (text :: rest)) (first ++ later) := by
  rw [topFrom_top (reached.atTop_iff.2 rfl)]
  constructor
  · rw [List.flatMap_cons, here, ← accounts.written_eq]
  · exact List.forall_mem_cons.2 ⟨bound, accounts.bound⟩

/-- A script that passes, behind lines after which no block is open: the sweep goes through all of
it, and it writes what its lines at the top account for. -/
theorem Reaches.passes {lines written : List String} {before after : Workspace}
    (passes : Passes pack lines before written after)
    (reached : Reaches pack session earlier [] before) :
    Reaches pack session (earlier ++ lines) [] after ∧
      Accounts pack session (topFrom earlier lines) written := by
  induction passes generalizing earlier with
  | nil =>
    rw [List.append_nil]
    exact ⟨reached, rfl, fun _ member => absurd member List.not_mem_nil⟩
  | @plain text body rest written before after kind _ ih =>
    have next : Reaches pack session (earlier ++ [text]) [] before :=
      reached.next fun known keeps => ⟨known, by simp only [next?, kind], keeps⟩
    have here : writes pack session (earlier, text) = [body] := by
      rw [Directive.plain_eq kind]
      simp only [writes, kind]
    obtain ⟨ended, accounts⟩ := ih next
    rw [List.append_cons]
    exact ⟨ended, reached.accounts here (by simp [Bound, kind]) accounts⟩
  | @insertion text keyword place name arguments rest written before after m kind bound _ ih =>
    have next : Reaches pack session (earlier ++ [text]) [] before :=
      reached.next fun known keeps => ⟨known, by
        simp only [next?, kind, latest?_eq keeps bound, Option.bind_eq_bind, Option.bind_some], keeps⟩
    have found : latest? (Script.registered pack session earlier)
        (keyword :: place :: name :: arguments) = some m := latest?_eq reached.registered bound
    have here : writes pack session (earlier, text) =
        (m.expansion (keyword :: place :: name :: arguments) none).lines := by
      simp only [writes, kind, found]
    obtain ⟨ended, accounts⟩ := ih next
    rw [List.append_cons]
    exact ⟨ended, reached.accounts here (by simp [Bound, kind, found]) accounts⟩
  | @block block rest written now before middle after m whole _ ih =>
    cases whole with
    | @block text keyword name params used _ _ found kind reads =>
      obtain ⟨closed, hidden⟩ := (reached.opens kind).reads reads
      obtain ⟨ended, behind⟩ := ih closed
      -- of the whole block only the header stands at the top, and it writes nothing
      have accounts : Accounts pack session (topFrom (earlier ++ [text]) (used ++ rest)) written := by
        rw [topFrom_append, hidden, List.nil_append]
        exact behind
      have here : writes pack session (earlier, text) = [] := by simp only [writes, kind]
      rw [List.cons_append, List.append_cons, ← List.append_assoc]
      exact ⟨ended, reached.accounts here (by simp [Bound, kind]) accounts⟩
  | @importing text tokens rest written target now now' before after m kind fetched _ ih =>
    have next : Reaches pack session (earlier ++ [text]) [] ⟨now', before.adopt target.name m⟩ := by
      refine reached.next fun known keeps => ⟨_, ?_, keeps.adopt target.name m⟩
      rcases ends : (Session.fetchTokens pack text tokens).run now with ⟨result, reached', log⟩
      unfold Action.Gives at fetched
      rw [ends] at fetched
      obtain ⟨rfl, rfl⟩ := fetched
      simp only [next?, kind, ends]
    have here : writes pack session (earlier, text) = [] := by simp only [writes, kind]
    obtain ⟨ended, accounts⟩ := ih next
    rw [List.append_cons]
    exact ⟨ended, reached.accounts here (by simp [Bound, kind]) accounts⟩

end

theorem length_writes {pack : Pack} {session : Session} {place : List String × String} :
    (writes pack session place).length =
      (if isPlain place.2 then 1 else 0) + insertedSize pack session place := by
  cases kind : Directive.ofLine place.2 with
  | insertion tokens =>
    simp only [writes, isPlain, insertedSize, kind]
    cases latest? (registered pack session place.1) tokens with
    | none => rfl
    | some m => simp [m.length_expansion]
  | plain body => simp [writes, isPlain, insertedSize, kind]
  | definition tokens => simp [writes, isPlain, insertedSize, kind]
  | importing tokens => simp [writes, isPlain, insertedSize, kind]
  | endMarker => simp [writes, isPlain, insertedSize, kind]

theorem length_flatMap_writes (pack : Pack) (session : Session)
    (places : List (List String × String)) :
    (places.flatMap (writes pack session)).length =
      places.countP (fun place => isPlain place.2) + insertedSizes pack session places := by
  induction places with
  | nil => rfl
  | cons place rest ih =>
    have sizes : insertedSizes pack session (place :: rest) =
        insertedSize pack session place + insertedSizes pack session rest := rfl
    rw [List.flatMap_cons, List.length_append, ih, length_writes, List.countP_cons, sizes]
    omega

/-- A script that expands writes the lines that stand at its top and nothing else, in their order:
plain ones as they are, insertions as the macro that was registered last before them, blocks and
imports not at all. -/
theorem expand_top_level (pack : Pack) (session : Session) (lines out : List String)
    (succeeds : ((expand pack lines).run session).result = .ok out) :
    (∃ known, sweep? pack session lines =
      some ⟨lines.length, [], known, ((expand pack lines).run session).state⟩) ∧
    (∀ place ∈ topLines lines, Bound pack session place) ∧
    out = (topLines lines).flatMap (writes pack session) ∧
    out.length = (topLines lines).countP (fun place => isPlain place.2) +
      insertedSizes pack session (topLines lines) := by
  obtain ⟨⟨known, swept, -⟩, accounts⟩ :=
    (Reaches.start pack session).passes (expand_passes succeeds)
  have same : out = (topLines lines).flatMap (writes pack session) := accounts.written_eq
  refine ⟨⟨known, swept⟩, accounts.bound, same, ?_⟩
  rw [same]
  exact length_flatMap_writes pack session (topLines lines)

def layeredScript : List String :=
  ["import macro hello from common.txt", "macro Aside", "macro Note", "in short", "end macro",
    "by the way", "macro n: Note", "end macro", "QBN:", "macro a: Aside", "macro Note", "end macro",
    "macro b: Aside", "macro n: Note", "macro h: hello you"]

def layeredWritten : List String :=
  ["QBN:", "by the way", "in short", "by the way", "in short", "hello you", "h.w waves"]

theorem expand_top_level_layered :
    ((expand greetings layeredScript).run Session.start).result = .ok layeredWritten ∧
      (topLines layeredScript).map (fun place => place.2) =
        ["import macro hello from common.txt", "macro Aside", "QBN:", "macro a: Aside", "macro Note",
          "macro b: Aside", "macro n: Note", "macro h: hello you"] ∧
      layeredWritten = (topLines layeredScript).flatMap (writes greetings Session.start) ∧
      layeredWritten.length =
        1 + insertedSizes greetings Session.start (topLines layeredScript) := by
  have succeeds : ((expand greetings layeredScript).run Session.start).result =
      .ok layeredWritten := by decide +kernel
  have plain : (topLines layeredScript).countP (fun place => isPlain place.2) = 1 := by
    decide +kernel
  obtain ⟨-, -, same, size⟩ := expand_top_level greetings Session.start layeredScript
    layeredWritten succeeds
  rw [plain] at size
  exact ⟨succeeds, by decide +kernel, same, size⟩

end Script

end QuestScript

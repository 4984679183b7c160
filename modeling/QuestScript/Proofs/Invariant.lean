import QuestScript.Proofs.Ending

/-! Invariants of actions. An invariant of the state is kept however an action ends, so a run that
fails half way has kept it too. What is known of the value and of the fault stands beside it. -/
namespace QuestScript.Action

variable {σ τ α β : Type}

/-- From a state with `I` the action ends in a state with `I`, with a value that has `V` or with a
fault that has `F`. -/
def Keeps (I : σ → Prop) (V : α → Prop) (F : Fault → Prop) (action : Action σ α) : Prop :=
  ∀ s, I s → I (action.run s).state ∧
    match (action.run s).result with
    | .ok a => V a
    | .error fault => F fault

namespace Keeps

variable {I : σ → Prop} {V : α → Prop} {W : β → Prop} {F : Fault → Prop}

theorem state {action : Action σ α} (keeps : Keeps I V F action) {s : σ} (start : I s) :
    I (action.run s).state :=
  (keeps s start).1

theorem value {action : Action σ α} (keeps : Keeps I V F action) {s : σ} (start : I s) {a : α}
    (ends : (action.run s).result = .ok a) : V a := by
  have here := (keeps s start).2
  rw [ends] at here
  exact here

theorem pure {a : α} (has : V a) : Keeps I V F (Pure.pure a : Action σ α) :=
  fun _ start => ⟨start, has⟩

theorem fail {fault : Fault} (has : F fault) : Keeps I V F (Action.fail fault : Action σ α) :=
  fun _ start => ⟨start, has⟩

theorem note (entries : List LogEntry) : Keeps I (fun _ => True) F (Action.note entries) :=
  fun _ start => ⟨start, trivial⟩

theorem get : Keeps I I F (Action.get : Action σ σ) :=
  fun _ start => ⟨start, start⟩

theorem of_gives {action : Action σ α}
    (ends : ∀ s, I s → ∃ a t, action.Gives s a t ∧ V a ∧ I t) : Keeps I V F action := by
  intro s start
  obtain ⟨a, t, ⟨result, state⟩, has, reached⟩ := ends s start
  rw [result, state]
  exact ⟨reached, has⟩

theorem bind {action : Action σ α} {next : α → Action σ β} (first : Keeps I V F action)
    (later : ∀ a, V a → Keeps I W F (next a)) : Keeps I W F (action >>= next) := by
  intro s start
  have here := first s start
  rcases ends : action.run s with ⟨fault | a, t, log⟩
  · rw [bind_run_error ends]
    rw [ends] at here
    exact here
  · rw [bind_run_ok ends]
    rw [ends] at here
    exact later a here.2 t here.1

theorem ofExcept {found : Except Fault α} (ok : ∀ a, found = .ok a → V a)
    (error : ∀ fault, found = .error fault → F fault) :
    Keeps I V F (Action.ofExcept found : Action σ α) := by
  cases found with
  | ok a => exact .pure (ok a rfl)
  | error fault => exact .fail (error fault rfl)

theorem focus {J : τ → Prop} {part : τ → σ} {withPart : τ → σ → τ} {action : Action σ α}
    (keeps : Keeps I V F action) (enters : ∀ t, J t → I (part t))
    (leaves : ∀ t s, J t → I s → J (withPart t s)) : Keeps J V F (Action.focus part withPart action) :=
  fun t start =>
    have here := keeps (part t) (enters t start)
    ⟨leaves t _ start here.1, here.2⟩

theorem of_state {action : Action σ α} (keeps : ∀ s, I s → I (action.run s).state) :
    Keeps I (fun _ => True) (fun _ => True) action := by
  intro s start
  refine ⟨keeps s start, ?_⟩
  cases (action.run s).result <;> trivial

end Keeps

end QuestScript.Action

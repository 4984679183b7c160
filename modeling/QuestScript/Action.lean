import QuestScript.Fault
import QuestScript.Log

/-! Actions: what reading and expanding do to a state. An action ends with a value or a fault; in
both cases the state it has reached is kept, and its log entries stand in the order in which they
were written. No action reads the log. -/
namespace QuestScript

structure Outcome (σ α : Type) where
  result : Except Fault α
  state : σ
  log : List LogEntry

def Action (σ α : Type) : Type := σ → Outcome σ α

namespace Action

variable {σ τ α β γ : Type}

def run (action : Action σ α) (s : σ) : Outcome σ α := action s

def ok (a : α) : Action σ α := fun s => ⟨.ok a, s, []⟩

def fail (fault : Fault) : Action σ α := fun s => ⟨.error fault, s, []⟩

def andThen (action : Action σ α) (next : α → Action σ β) : Action σ β := fun s =>
  match action s with
  | ⟨.error fault, t, log⟩ => ⟨.error fault, t, log⟩
  | ⟨.ok a, t, log⟩ => ⟨(next a t).result, (next a t).state, log ++ (next a t).log⟩

instance : Monad (Action σ) where
  pure := ok
  bind := andThen

@[simp] theorem pure_run (a : α) (s : σ) : (pure a : Action σ α).run s = ⟨.ok a, s, []⟩ := rfl

theorem bind_run_ok {action : Action σ α} {s t : σ} {a : α} {log : List LogEntry}
    (ends : action.run s = ⟨.ok a, t, log⟩) (next : α → Action σ β) :
    (action >>= next).run s =
      ⟨((next a).run t).result, ((next a).run t).state, log ++ ((next a).run t).log⟩ := by
  show andThen action next s = _
  have first : action s = ⟨.ok a, t, log⟩ := ends
  simp only [andThen, first]
  rfl

theorem bind_run_error {action : Action σ α} {s t : σ} {fault : Fault} {log : List LogEntry}
    (ends : action.run s = ⟨.error fault, t, log⟩) (next : α → Action σ β) :
    (action >>= next).run s = ⟨.error fault, t, log⟩ := by
  show andThen action next s = _
  have first : action s = ⟨.error fault, t, log⟩ := ends
  simp only [andThen, first]

theorem andThen_ok (action : Action σ α) : andThen action ok = action := by
  funext s
  rcases ends : action s with ⟨fault | a, t, log⟩ <;> simp [andThen, ends, ok]

theorem ok_andThen (a : α) (next : α → Action σ β) : andThen (ok a) next = next a := by
  funext s
  simp [andThen, ok]

theorem andThen_assoc (action : Action σ α) (next : α → Action σ β) (last : β → Action σ γ) :
    andThen (andThen action next) last = andThen action fun a => andThen (next a) last := by
  funext s
  rcases ends : action s with ⟨fault | a, t, log⟩
  · simp [andThen, ends]
  · rcases later : next a t with ⟨fault | b, t', log'⟩ <;>
      simp [andThen, ends, later, List.append_assoc]

instance : LawfulMonad (Action σ) :=
  LawfulMonad.mk' (Action σ) andThen_ok ok_andThen andThen_assoc

def ofExcept : Except Fault α → Action σ α
  | .ok a => ok a
  | .error fault => fail fault

def get : Action σ σ := fun s => ⟨.ok s, s, []⟩

def update (f : σ → σ) : Action σ Unit := fun s => ⟨.ok (), f s, []⟩

def note (entries : List LogEntry) : Action σ Unit := fun s => ⟨.ok (), s, entries⟩

def focus (part : τ → σ) (withPart : τ → σ → τ) (action : Action σ α) : Action τ α := fun t =>
  ⟨(action (part t)).result, withPart t (action (part t)).state, (action (part t)).log⟩

/-- Acts on a state of its own, which is dropped afterwards. -/
def apart (start : σ) (action : Action σ α) : Action τ α := fun t =>
  ⟨(action start).result, t, (action start).log⟩

def mapFault (f : Fault → Fault) (action : Action σ α) : Action σ α := fun s =>
  ⟨(action s).result.mapError f, (action s).state, (action s).log⟩

end Action

end QuestScript

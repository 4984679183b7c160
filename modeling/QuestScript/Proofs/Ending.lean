import QuestScript.Action

/-! How an action ends. The value and the last state are kept and the log is left open, so two
runs that end alike may have logged different things. -/
namespace QuestScript.Action

variable {σ τ α β : Type}

def Gives (action : Action σ α) (s : σ) (a : α) (t : σ) : Prop :=
  (action.run s).result = .ok a ∧ (action.run s).state = t

@[simp] theorem gives_pure {s t : σ} {a b : α} :
    (pure a : Action σ α).Gives s b t ↔ b = a ∧ t = s := by
  simp only [Gives, pure_run, Except.ok.injEq]
  constructor
  · rintro ⟨rfl, rfl⟩; exact ⟨rfl, rfl⟩
  · rintro ⟨rfl, rfl⟩; exact ⟨rfl, rfl⟩

@[simp] theorem gives_fail {s t : σ} {a : α} {fault : Fault} :
    ¬ (fail fault : Action σ α).Gives s a t := by
  rintro ⟨ends, _⟩
  cases ends

@[simp] theorem gives_bind {action : Action σ α} {next : α → Action σ β} {s u : σ} {b : β} :
    (action >>= next).Gives s b u ↔ ∃ a t, action.Gives s a t ∧ (next a).Gives t b u := by
  rcases ends : action.run s with ⟨fault | a, t, log⟩
  · rw [Gives, bind_run_error ends]
    simp [Gives, ends]
  · rw [Gives, bind_run_ok ends]
    constructor
    · exact fun later => ⟨a, t, by simp [Gives, ends], later⟩
    · rintro ⟨a', t', first, later⟩
      obtain ⟨rfl, rfl⟩ : a = a' ∧ t = t' := by simpa [Gives, ends] using first
      exact later

@[simp] theorem gives_map {action : Action σ α} {f : α → β} {s t : σ} {b : β} :
    (f <$> action).Gives s b t ↔ ∃ a, action.Gives s a t ∧ f a = b := by
  rw [map_eq_pure_bind, gives_bind]
  constructor
  · rintro ⟨a, t', first, ends⟩
    obtain ⟨rfl, rfl⟩ := gives_pure.1 ends
    exact ⟨a, first, rfl⟩
  · rintro ⟨a, first, rfl⟩
    exact ⟨a, t, first, gives_pure.2 ⟨rfl, rfl⟩⟩

theorem gives_get_bind {next : σ → Action σ β} {s t : σ} {b : β} :
    (get >>= next).Gives s b t ↔ (next s).Gives s b t := by
  rw [gives_bind]
  constructor
  · rintro ⟨a, s', ⟨found, rfl⟩, later⟩
    cases found
    exact later
  · exact fun later => ⟨s, s, ⟨rfl, rfl⟩, later⟩

@[simp] theorem gives_note {s t : σ} {entries : List LogEntry} {u : Unit} :
    (note entries : Action σ Unit).Gives s u t ↔ t = s := by
  constructor
  · exact fun ends => ends.2.symm
  · exact fun same => ⟨rfl, same.symm⟩

@[simp] theorem gives_update {s t : σ} {f : σ → σ} {u : Unit} :
    (update f : Action σ Unit).Gives s u t ↔ t = f s := by
  constructor
  · exact fun ends => ends.2.symm
  · exact fun same => ⟨rfl, same.symm⟩

@[simp] theorem gives_ofExcept {s t : σ} {a : α} {found : Except Fault α} :
    (ofExcept found : Action σ α).Gives s a t ↔ found = .ok a ∧ t = s := by
  cases found with
  | error fault => simp [ofExcept]
  | ok b =>
    constructor
    · rintro ⟨ends, rfl⟩; exact ⟨ends, rfl⟩
    · rintro ⟨ends, rfl⟩; exact ⟨ends, rfl⟩

def Fails (action : Action σ α) (s : σ) (fault : Fault) (t : σ) : Prop :=
  (action.run s).result = .error fault ∧ (action.run s).state = t

theorem fails_bind {action : Action σ α} {next : α → Action σ β} {s u : σ} {fault : Fault} :
    (action >>= next).Fails s fault u ↔
      action.Fails s fault u ∨ ∃ a t, action.Gives s a t ∧ (next a).Fails t fault u := by
  rcases ends : action.run s with ⟨fault' | a, t, log⟩
  · rw [Fails, bind_run_error ends]
    simp [Fails, Gives, ends]
  · rw [Fails, bind_run_ok ends]
    constructor
    · exact fun later => .inr ⟨a, t, by simp [Gives, ends], later⟩
    · rintro (first | ⟨a', t', first, later⟩)
      · simp [Fails, ends] at first
      · obtain ⟨rfl, rfl⟩ : a = a' ∧ t = t' := by simpa [Gives, ends] using first
        exact later

theorem fails_get_bind {next : σ → Action σ β} {s t : σ} {fault : Fault} :
    (get >>= next).Fails s fault t ↔ (next s).Fails s fault t := by
  rw [fails_bind]
  constructor
  · rintro (⟨ends, -⟩ | ⟨a, s', ⟨found, rfl⟩, later⟩)
    · cases ends
    · cases found
      exact later
  · exact fun later => .inr ⟨s, s, ⟨rfl, rfl⟩, later⟩

@[simp] theorem fails_pure {s t : σ} {a : α} {fault : Fault} :
    ¬ (pure a : Action σ α).Fails s fault t := by
  rintro ⟨ends, _⟩
  cases ends

@[simp] theorem fails_fail {s t : σ} {fault fault' : Fault} :
    (fail fault : Action σ α).Fails s fault' t ↔ fault' = fault ∧ t = s := by
  constructor
  · rintro ⟨ends, rfl⟩
    cases ends
    exact ⟨rfl, rfl⟩
  · rintro ⟨rfl, rfl⟩
    exact ⟨rfl, rfl⟩

@[simp] theorem fails_note {s t : σ} {entries : List LogEntry} {fault : Fault} :
    ¬ (note entries : Action σ Unit).Fails s fault t := by
  rintro ⟨ends, _⟩
  cases ends

@[simp] theorem fails_ofExcept {s t : σ} {fault : Fault} {found : Except Fault α} :
    (ofExcept found : Action σ α).Fails s fault t ↔ found = .error fault ∧ t = s := by
  cases found with
  | error fault' => simp [ofExcept, eq_comm]
  | ok a => simp [ofExcept, Fails, ok, run]

theorem Gives.not_fails {action : Action σ α} {s t u : σ} {a : α} {fault : Fault}
    (gives : action.Gives s a t) : ¬ action.Fails s fault u := by
  rintro ⟨ends, _⟩
  rw [gives.1] at ends
  cases ends

theorem gives_or_fails (action : Action σ α) (s : σ) :
    (∃ a, action.Gives s a (action.run s).state) ∨
      ∃ fault, action.Fails s fault (action.run s).state := by
  cases ends : (action.run s).result with
  | error fault => exact .inr ⟨fault, ends, rfl⟩
  | ok a => exact .inl ⟨a, ends, rfl⟩

@[simp] theorem gives_apart {start : σ} {action : Action σ α} {t u : τ} {a : α} :
    (apart start action : Action τ α).Gives t a u ↔
      action.Gives start a (action.run start).state ∧ u = t := by
  constructor
  · rintro ⟨ends, rfl⟩; exact ⟨⟨ends, rfl⟩, rfl⟩
  · rintro ⟨ends, rfl⟩; exact ⟨ends.1, rfl⟩

@[simp] theorem fails_apart {start : σ} {action : Action σ α} {t u : τ} {fault : Fault} :
    (apart start action : Action τ α).Fails t fault u ↔
      action.Fails start fault (action.run start).state ∧ u = t := by
  constructor
  · rintro ⟨ends, rfl⟩; exact ⟨⟨ends, rfl⟩, rfl⟩
  · rintro ⟨ends, rfl⟩; exact ⟨ends.1, rfl⟩

theorem Gives.mapFault {action : Action σ α} {s t : σ} {a : α} (gives : action.Gives s a t)
    (f : Fault → Fault) : (mapFault f action).Gives s a t :=
  ⟨congrArg (Except.mapError f) gives.1, gives.2⟩

theorem Fails.mapFault {action : Action σ α} {s t : σ} {fault : Fault} (fails : action.Fails s fault t)
    (f : Fault → Fault) : (mapFault f action).Fails s (f fault) t :=
  ⟨congrArg (Except.mapError f) fails.1, fails.2⟩

theorem fail_bind (fault : Fault) (next : α → Action σ β) : fail fault >>= next = fail fault := rfl

theorem ofExcept_ok (a : α) : (ofExcept (.ok a) : Action σ α) = pure a := rfl

theorem ofExcept_error (fault : Fault) : (ofExcept (.error fault) : Action σ α) = fail fault := rfl

theorem ok_of_toOption {ε : Type} {found : Except ε α} {a : α} (same : found.toOption = some a) :
    found = .ok a := by
  cases found with
  | error fault => cases same
  | ok b => cases same; rfl

instance [DecidableEq α] : DecidableEq (Except Fault α)
  | .ok a, .ok b =>
    if same : a = b then isTrue (congrArg _ same) else isFalse fun h => same (Except.ok.inj h)
  | .error a, .error b =>
    if same : a = b then isTrue (congrArg _ same) else isFalse fun h => same (Except.error.inj h)
  | .ok _, .error _ => isFalse nofun
  | .error _, .ok _ => isFalse nofun

def EndsAs (first : Action σ α) (s : σ) (second : Action σ α) (t : σ) : Prop :=
  (first.run s).result = (second.run t).result ∧ (first.run s).state = (second.run t).state

theorem EndsAs.trans {first second third : Action σ α} {s t u : σ} (start : first.EndsAs s second t)
    (later : second.EndsAs t third u) : first.EndsAs s third u :=
  ⟨start.1.trans later.1, start.2.trans later.2⟩

theorem Gives.endsAs_bind {action : Action σ α} {s t : σ} {a : α} (gives : action.Gives s a t)
    (next : α → Action σ β) : (action >>= next).EndsAs s (next a) t := by
  rcases ends : action.run s with ⟨fault | a', t', log⟩
  · simp [Gives, ends] at gives
  · obtain ⟨rfl, rfl⟩ : a' = a ∧ t' = t := by simpa [Gives, ends] using gives
    rw [EndsAs, bind_run_ok ends]
    exact ⟨rfl, rfl⟩

theorem map_run (f : α → β) (action : Action σ α) (s : σ) :
    ((f <$> action).run s).result = (action.run s).result.map f ∧
      ((f <$> action).run s).state = (action.run s).state := by
  rw [map_eq_pure_bind]
  rcases ends : action.run s with ⟨fault | a, t, log⟩
  · rw [bind_run_error ends]
    exact ⟨rfl, rfl⟩
  · rw [bind_run_ok ends]
    exact ⟨rfl, rfl⟩

theorem EndsAs.map {first second : Action σ α} {s t : σ} (ends : first.EndsAs s second t)
    (f : α → β) : (f <$> first).EndsAs s (f <$> second) t := by
  have here := map_run f first s
  have there := map_run f second t
  exact ⟨by rw [here.1, there.1, ends.1], by rw [here.2, there.2, ends.2]⟩

/-- From states that are related, the second action ends as the first does: with a value that is
related to its value, or with its fault changed by `f`. The states they reach are related again. -/
def Follows (R : σ → τ → Prop) (V : α → β → Prop) (f : Fault → Fault) (first : Action σ α)
    (second : Action τ β) : Prop :=
  ∀ s t, R s t → R (first.run s).state (second.run t).state ∧
    match (first.run s).result, (second.run t).result with
    | .ok a, .ok b => V a b
    | .error fault, .error fault' => fault' = f fault
    | _, _ => False

namespace Follows

variable {R : σ → τ → Prop} {V : α → β → Prop} {f : Fault → Fault}

theorem pure {a : α} {b : β} (related : V a b) :
    Follows R V f (Pure.pure a : Action σ α) (Pure.pure b : Action τ β) :=
  fun _ _ start => ⟨start, related⟩

theorem fail {fault fault' : Fault} (same : fault' = f fault) :
    Follows R V f (Action.fail fault : Action σ α) (Action.fail fault' : Action τ β) :=
  fun _ _ start => ⟨start, same⟩

theorem note (entries entries' : List LogEntry) :
    Follows R Eq f (Action.note entries) (Action.note entries') :=
  fun _ _ start => ⟨start, rfl⟩

theorem get : Follows R R f (Action.get : Action σ σ) (Action.get : Action τ τ) :=
  fun _ _ start => ⟨start, start⟩

theorem of_gives {first : Action σ α} {second : Action τ β}
    (ends : ∀ s t, R s t → ∃ a b s' t', first.Gives s a s' ∧ second.Gives t b t' ∧ V a b ∧ R s' t') :
    Follows R V f first second := by
  intro s t start
  obtain ⟨a, b, s', t', here, there, related, reached⟩ := ends s t start
  rw [here.1, here.2, there.1, there.2]
  exact ⟨reached, related⟩

theorem bind {γ δ : Type} {W : γ → δ → Prop} {first : Action σ α} {second : Action τ β}
    {next : α → Action σ γ} {next' : β → Action τ δ} (start : Follows R V f first second)
    (later : ∀ a b, V a b → Follows R W f (next a) (next' b)) :
    Follows R W f (first >>= next) (second >>= next') := by
  intro s t related
  have here := start s t related
  rcases ends : first.run s with ⟨fault | a, s', log⟩ <;>
    rcases ends' : second.run t with ⟨fault' | b, t', log'⟩
  · rw [bind_run_error ends, bind_run_error ends']
    simpa only [ends, ends'] using here
  · simp [ends, ends'] at here
  · simp [ends, ends'] at here
  · rw [bind_run_ok ends, bind_run_ok ends']
    simp only [ends, ends'] at here
    exact later a b here.2 s' t' here.1

theorem map {γ : Type} {first : Action σ α} {second : Action τ α} (follows : Follows R Eq f first second)
    (g : α → γ) : Follows R Eq f (g <$> first) (g <$> second) := by
  rw [map_eq_pure_bind, map_eq_pure_bind]
  apply follows.bind
  rintro a _ rfl
  exact .pure rfl

theorem self {action : Action σ α}
    (keeps : ∀ s fault, (action.run s).result = .error fault → f fault = fault) :
    Follows Eq Eq f action action := by
  rintro s _ rfl
  refine ⟨rfl, ?_⟩
  cases ends : (action.run s).result with
  | error fault => exact (keeps s fault ends).symm
  | ok a => exact rfl

theorem result_eq {first : Action σ α} {second : Action τ α} {s : σ} {t : τ}
    (follows : Follows R Eq f first second) (start : R s t) :
    (second.run t).result = (first.run s).result.mapError f := by
  have here := (follows s t start).2
  cases ends : (first.run s).result with
  | error fault =>
    cases ends' : (second.run t).result with
    | error fault' =>
      simp only [ends, ends'] at here
      rw [here]
      rfl
    | ok b => simp [ends, ends'] at here
  | ok a =>
    cases ends' : (second.run t).result with
    | error fault' => simp [ends, ends'] at here
    | ok b =>
      simp only [ends, ends'] at here
      rw [here]
      rfl

end Follows

def Agree (R : σ → τ → Prop) (first : Action σ α) (second : Action τ α) : Prop :=
  ∀ s t, R s t → (first.run s).result = (second.run t).result ∧
    R (first.run s).state (second.run t).state

namespace Agree

variable {R : σ → τ → Prop}

theorem iff_follows {first : Action σ α} {second : Action τ α} :
    Agree R first second ↔ Follows R Eq id first second := by
  constructor
  · intro agree s t start
    obtain ⟨same, reached⟩ := agree s t start
    rw [same]
    refine ⟨reached, ?_⟩
    cases (second.run t).result with
    | error fault => exact rfl
    | ok a => exact rfl
  · intro follows s t start
    refine ⟨?_, (follows s t start).1⟩
    rw [follows.result_eq start]
    cases (first.run s).result with
    | error fault => exact rfl
    | ok a => exact rfl

theorem pure (a : α) : Agree R (Pure.pure a : Action σ α) (Pure.pure a : Action τ α) :=
  iff_follows.2 (.pure rfl)

theorem fail (fault : Fault) : Agree R (Action.fail fault : Action σ α) (Action.fail fault) :=
  iff_follows.2 (.fail rfl)

theorem note (entries entries' : List LogEntry) :
    Agree R (Action.note entries) (Action.note entries') :=
  iff_follows.2 (.note entries entries')

theorem bind {first : Action σ α} {second : Action τ α} {next : α → Action σ β}
    {next' : α → Action τ β} (start : Agree R first second)
    (later : ∀ a, Agree R (next a) (next' a)) : Agree R (first >>= next) (second >>= next') := by
  apply iff_follows.2
  apply (iff_follows.1 start).bind
  rintro a _ rfl
  exact iff_follows.1 (later a)

theorem map {first : Action σ α} {second : Action τ α} (agree : Agree R first second) (f : α → β) :
    Agree R (f <$> first) (f <$> second) :=
  iff_follows.2 ((iff_follows.1 agree).map f)

end Agree

end QuestScript.Action

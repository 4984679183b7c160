import Mathlib.Data.List.Induction
import QuestScript.Proofs.TopLevel

/-! Blocks told by the lines that open and end them. As many end markers as headers stand in a whole
block and in no part of it from the header on, so a block ends at the first line where the counts are
equal. In a script that is read every block is told in this way. -/
namespace QuestScript

open Script

/-- Every block that opens in the lines ends in them, and every end marker among them ends a block
that opens in them. -/
inductive Balanced : List String → Prop where
  | nil : Balanced []
  | line {text : String} {later : List String} (opens : opensBlock text = false)
      (ends : endsBlock text = false) (rest : Balanced later) : Balanced (text :: later)
  | block {text last : String} {inner later : List String} (opens : opensBlock text = true)
      (inside : Balanced inner) (ends : endsBlock last = true) (rest : Balanced later) :
      Balanced (text :: (inner ++ last :: later))

def Contained (lines : List String) : Prop :=
  ∀ front, front <+: lines → front.countP endsBlock ≤ front.countP opensBlock

/-- The block that the first line opens ends in the lines: after some of them, as many blocks have
ended as have opened. -/
def Closes (lines : List String) : Prop := ∃ front, front ≠ [] ∧ front <+: lines ∧ AtTop front

def Finished (lines : List String) : Prop :=
  ∀ ahead text behind, lines = ahead ++ text :: behind → opensBlock text = true →
    Closes (text :: behind)

theorem opensBlock_iff {text : String} :
    opensBlock text = true ↔ ∃ tokens, Directive.ofLine text = .definition tokens := by
  unfold opensBlock
  cases Directive.ofLine text <;> simp

theorem endsBlock_iff {text : String} :
    endsBlock text = true ↔ Directive.ofLine text = .endMarker := by
  simp [endsBlock]

theorem endsBlock_of_opensBlock {text : String} (opens : opensBlock text = true) :
    endsBlock text = false := by
  obtain ⟨tokens, kind⟩ := opensBlock_iff.1 opens
  simp [endsBlock, kind]

theorem opensBlock_of_endsBlock {text : String} (ends : endsBlock text = true) :
    opensBlock text = false := by
  simp [opensBlock, endsBlock_iff.1 ends]

theorem prefix_append_cases {front first second : List String} (part : front <+: first ++ second) :
    front <+: first ∨ ∃ more, more <+: second ∧ front = first ++ more := by
  rcases List.prefix_or_prefix_of_prefix part (List.prefix_append first second) with
    inside | ⟨more, rfl⟩
  · exact .inl inside
  · exact .inr ⟨more, (List.prefix_append_right_inj first).1 part, rfl⟩

section

variable {text : String} {lines first second : List String}

theorem counts_opening (opens : opensBlock text = true) (lines : List String) :
    (text :: lines).countP opensBlock = lines.countP opensBlock + 1 ∧
      (text :: lines).countP endsBlock = lines.countP endsBlock :=
  ⟨List.countP_cons_of_pos opens,
    List.countP_cons_of_neg (by simp [endsBlock_of_opensBlock opens])⟩

theorem counts_ending (ends : endsBlock text = true) (lines : List String) :
    (text :: lines).countP opensBlock = lines.countP opensBlock ∧
      (text :: lines).countP endsBlock = lines.countP endsBlock + 1 :=
  ⟨List.countP_cons_of_neg (by simp [opensBlock_of_endsBlock ends]),
    List.countP_cons_of_pos ends⟩

theorem Contained.append (contained : Contained first) (contained' : Contained second) :
    Contained (first ++ second) := by
  intro front part
  rcases prefix_append_cases part with inside | ⟨more, behind, rfl⟩
  · exact contained front inside
  · have here := contained first (List.prefix_refl first)
    have later := contained' more behind
    simp only [List.countP_append]
    omega

theorem contained_line (stays : endsBlock text = false) : Contained [text] := by
  intro front part
  rcases List.prefix_cons_iff.1 part with rfl | ⟨more, rfl, behind⟩
  · exact Nat.le_refl _
  · simp [List.prefix_nil.1 behind, stays]

theorem closes_iff (opens : opensBlock text = true) :
    Closes (text :: lines) ↔ ¬ Contained lines := by
  constructor
  · rintro ⟨front, filled, part, top⟩ contained
    rcases List.prefix_cons_iff.1 part with rfl | ⟨more, rfl, behind⟩
    · exact filled rfl
    · have here := contained more behind
      have counts := counts_opening opens more
      unfold AtTop at top
      omega
  · intro closed
    apply Classical.byContradiction
    intro never
    refine closed fun front => ?_
    -- one line ends at most one block, and as many as have opened with the header never end
    induction front using List.reverseRecOn with
    | nil => exact fun _ => Nat.le_refl _
    | append_singleton front last ih =>
      intro part
      have before := ih ((List.prefix_append front [last]).trans part)
      have unequal : ¬ AtTop (text :: (front ++ [last])) := fun top =>
        never ⟨_, List.cons_ne_nil _ _, List.cons_prefix_cons.2 ⟨rfl, part⟩, top⟩
      have counts := counts_opening opens (front ++ [last])
      have one : [last].countP endsBlock ≤ 1 := List.countP_le_length
      unfold AtTop at unequal
      simp only [List.countP_append] at counts unequal ⊢
      omega

theorem Closes.append (closes : Closes first) (second : List String) : Closes (first ++ second) := by
  obtain ⟨front, filled, part, top⟩ := closes
  exact ⟨front, filled, part.trans (List.prefix_append first second), top⟩

theorem Finished.append (finished : Finished first) (finished' : Finished second) :
    Finished (first ++ second) := by
  intro ahead text behind cut opens
  rcases append_cut cut with ⟨between, rfl, rfl⟩ | ⟨between, rfl, rfl⟩
  · exact (finished ahead text between rfl opens).append second
  · exact finished' between text behind rfl opens

theorem finished_line (stays : opensBlock text = false) : Finished [text] := by
  intro ahead line behind cut opens
  have member : line ∈ [text] := cut ▸ List.mem_append_right _ (List.mem_cons_self ..)
  cases List.mem_singleton.1 member
  simp [stays] at opens

namespace Balanced

theorem append (balanced : Balanced first) (balanced' : Balanced second) :
    Balanced (first ++ second) := by
  induction balanced with
  | nil => exact balanced'
  | line opens ends _ ih => exact .line opens ends ih
  | block opens inside ends _ _ ih =>
    rw [List.cons_append, List.append_assoc, List.cons_append]
    exact .block opens inside ends ih

theorem atTop (balanced : Balanced lines) : AtTop lines := by
  unfold AtTop
  induction balanced with
  | nil => rfl
  | line opens ends _ ih => simp [opens, ends, ih]
  | @block text last inner later opens _ ends _ ih ih' =>
    have counts := counts_opening opens (inner ++ last :: later)
    have counts' := counts_ending ends later
    simp only [List.countP_append] at counts
    omega

theorem contained (balanced : Balanced lines) : Contained lines := by
  induction balanced with
  | nil =>
    intro front part
    cases List.prefix_nil.1 part
    exact Nat.le_refl _
  | line _ ends _ ih => exact (contained_line ends).append ih
  | @block text last inner later opens inside ends _ ih ih' =>
    intro front part
    rcases List.prefix_cons_iff.1 part with rfl | ⟨more, rfl, behind⟩
    · exact Nat.le_refl _
    have counts := counts_opening opens more
    rcases prefix_append_cases behind with within | ⟨beyond, far, rfl⟩
    · have here := ih more within
      omega
    have top : inner.countP opensBlock = inner.countP endsBlock := inside.atTop
    simp only [List.countP_append] at counts
    rcases List.prefix_cons_iff.1 far with rfl | ⟨rest, rfl, farther⟩
    · simp only [List.countP_nil] at counts
      omega
    · have counts' := counts_ending ends rest
      have there := ih' rest farther
      omega

theorem finished (balanced : Balanced lines) : Finished lines := by
  induction balanced with
  | nil => exact fun _ _ _ cut => by simp at cut
  | line opens _ _ ih => exact (finished_line opens).append ih
  | @block text last inner later opens inside ends rest ih ih' =>
    have whole : Balanced (text :: (inner ++ [last])) := .block opens inside ends .nil
    have closes : Closes (text :: (inner ++ [last])) :=
      ⟨_, List.cons_ne_nil _ _, List.prefix_refl _, whole.atTop⟩
    have behind : Finished (inner ++ last :: later) :=
      ih.append ((finished_line (opensBlock_of_endsBlock ends)).append ih')
    intro ahead line after cut opens'
    cases ahead with
    | nil =>
      cases cut
      have more := closes.append later
      rwa [List.cons_append, List.append_assoc] at more
    | cons header ahead =>
      obtain ⟨-, cut⟩ := List.cons.inj cut
      exact behind ahead line after cut opens'

end Balanced

end

namespace Block

theorem Reads.balanced {used : List String} {before after : Registry} {found : Contents}
    (reads : Reads used before found after) :
    ∃ inner last, used = inner ++ [last] ∧ Directive.ofLine last = .endMarker ∧ Balanced inner := by
  induction reads with
  | @close text _ kind => exact ⟨[], text, rfl, kind, .nil⟩
  | @plain text _ _ _ _ _ kind _ ih =>
    obtain ⟨inner, last, rfl, ends, balanced⟩ := ih
    exact ⟨text :: inner, last, rfl, ends, .line (by simp [opensBlock, kind])
      (by simp [endsBlock, kind]) balanced⟩
  | @insertion text _ _ _ _ _ _ _ _ _ kind _ _ ih =>
    obtain ⟨inner, last, rfl, ends, balanced⟩ := ih
    exact ⟨text :: inner, last, rfl, ends, .line (by simp [opensBlock, kind])
      (by simp [endsBlock, kind]) balanced⟩
  | @block text _ _ _ _ _ _ _ _ _ _ kind _ _ ihInner ihRest =>
    obtain ⟨inner, mark, rfl, ends, inside⟩ := ihInner
    obtain ⟨later, last, rfl, ends', behind⟩ := ihRest
    refine ⟨text :: (inner ++ mark :: later), last, by simp, ends', ?_⟩
    exact .block (opensBlock_iff.2 ⟨_, kind⟩) inside (endsBlock_iff.2 ends) behind

theorem Whole.balanced {block : List String} {before after : Registry} {m : Macro}
    (whole : Whole block before m after) :
    ∃ text inner last, block = text :: (inner ++ [last]) ∧ opensBlock text = true ∧
      Directive.ofLine last = .endMarker ∧ Balanced inner := by
  cases whole with
  | @block text _ _ _ _ _ _ _ kind reads =>
    obtain ⟨inner, last, rfl, ends, balanced⟩ := reads.balanced
    exact ⟨text, inner, last, rfl, opensBlock_iff.2 ⟨_, kind⟩, ends, balanced⟩

theorem Whole.all_balanced {block : List String} {before after : Registry} {m : Macro}
    (whole : Whole block before m after) : Balanced block := by
  obtain ⟨text, inner, last, rfl, opens, ends, balanced⟩ := whole.balanced
  exact .block opens balanced (endsBlock_iff.2 ends) .nil

/-- A block reaches to its end marker. That is the first line at which as many blocks have ended as
opened. -/
theorem Whole.extent {block : List String} {before after : Registry} {m : Macro}
    (whole : Whole block before m after) :
    2 ≤ block.length ∧
      (∃ last, block[block.length - 1]? = some last ∧ Directive.ofLine last = .endMarker) ∧
      AtTop block ∧ ∀ fewer, 0 < fewer → fewer < block.length → ¬ AtTop (block.take fewer) := by
  obtain ⟨text, inner, last, rfl, opens, ends, balanced⟩ := whole.balanced
  refine ⟨by simp, ⟨last, by simp, ends⟩, ?_, ?_⟩
  · exact whole.all_balanced.atTop
  · intro fewer some_lines short
    obtain ⟨fewer, rfl⟩ := Nat.exists_eq_succ_of_ne_zero (Nat.ne_of_gt some_lines)
    have within : fewer ≤ inner.length := by
      simp only [List.length_cons, List.length_append, List.length_nil] at short
      omega
    have counts := counts_opening opens (inner.take fewer)
    have here := balanced.contained _ (List.take_prefix fewer inner)
    rw [List.take_succ_cons, List.take_append_of_le_length within]
    unfold AtTop
    omega

end Block

end QuestScript

import QuestScript.Proofs.Balanced

/-! Where a script can be cut. Between two lines of a script that passes it is cut into two scripts
that pass one after the other, unless the cut goes through a block. It does not where as many blocks
have ended as opened, nor before an import. -/
namespace QuestScript.Script

variable {pack : Pack} {lines first second written : List String} {before after : Workspace}

theorem Passes.balanced (passes : Passes pack lines before written after) : Balanced lines := by
  induction passes with
  | nil => exact .nil
  | plain kind _ ih => exact .line (by simp [opensBlock, kind]) (by simp [endsBlock, kind]) ih
  | insertion kind _ _ ih => exact .line (by simp [opensBlock, kind]) (by simp [endsBlock, kind]) ih
  | block whole _ ih => exact whole.all_balanced.append ih
  | importing kind _ _ ih => exact .line (by simp [opensBlock, kind]) (by simp [endsBlock, kind]) ih

/-- Both parts of a script pass, and together they do what the script does. -/
def CutsAt (pack : Pack) (first second : List String) (before : Workspace) (written : List String)
    (after : Workspace) : Prop :=
  ∃ out out' middle, written = out ++ out' ∧ Passes pack first before out middle ∧
    Passes pack second middle out' after

/-- A block that stands behind whole ones has lines on both sides. -/
def Divides (first second : List String) : Prop :=
  ∃ ahead front back rest before m after, first = ahead ++ front ∧ second = back ++ rest ∧
    front ≠ [] ∧ back ≠ [] ∧ Balanced ahead ∧ Block.Whole (front ++ back) before m after

theorem CutsAt.start (passes : Passes pack lines before written after) :
    CutsAt pack [] lines before written after :=
  ⟨[], written, before, rfl, .nil, passes⟩

theorem Passes.behind {used out : List String} {middle : Workspace}
    (passes : Passes pack used before out middle)
    (either : CutsAt pack first second middle written after ∨ Divides first second) :
    CutsAt pack (used ++ first) second before (out ++ written) after ∨
      Divides (used ++ first) second := by
  rcases either with
    ⟨here, later, reached, rfl, start, ends⟩ |
      ⟨ahead, front, back, rest, old, m, new, rfl, same, filled, filled', top, whole⟩
  · exact .inl ⟨out ++ here, later, reached, (List.append_assoc ..).symm, passes.append start, ends⟩
  · exact .inr ⟨used ++ ahead, front, back, rest, old, m, new, (List.append_assoc ..).symm, same,
      filled, filled', passes.balanced.append top, whole⟩

theorem Passes.cuts_or_divides (passes : Passes pack lines before written after)
    (cut : lines = first ++ second) :
    CutsAt pack first second before written after ∨ Divides first second := by
  -- a cut behind the first line or block is one of the rest
  induction passes generalizing first with
  | nil =>
    obtain ⟨rfl, rfl⟩ := List.append_eq_nil_iff.1 cut.symm
    exact .inl (.start .nil)
  | plain kind later ih =>
    cases first with
    | nil =>
      cases cut
      exact .inl (.start (.plain kind later))
    | cons text first =>
      cases cut
      exact Passes.behind (.plain kind .nil) (ih rfl)
  | insertion kind bound later ih =>
    cases first with
    | nil =>
      cases cut
      exact .inl (.start (.insertion kind bound later))
    | cons text first =>
      cases cut
      have here : Passes pack [_] _ _ _ := .insertion kind bound .nil
      rw [List.append_nil] at here
      exact here.behind (ih rfl)
  | @block block rest written session before middle after m whole later ih =>
    rcases List.append_eq_append_iff.1 cut with ⟨between, rfl, rfl⟩ | ⟨between, rfl, rfl⟩
    · exact (Passes.ofWhole whole session).behind (ih rfl)
    cases first with
    | nil => exact .inl (.start (.block whole later))
    | cons text front =>
      cases between with
      | nil =>
        rw [List.append_nil] at whole
        exact .inl ⟨[], written, _, rfl, .ofWhole whole session, later⟩
      | cons line back =>
        exact .inr ⟨[], _, _, rest, before, m, middle, rfl, rfl, List.cons_ne_nil _ _,
          List.cons_ne_nil _ _, .nil, whole⟩
  | importing kind fetched later ih =>
    cases first with
    | nil =>
      cases cut
      exact .inl (.start (.importing kind fetched later))
    | cons text first =>
      cases cut
      exact Passes.behind (.importing kind fetched .nil) (ih rfl)

theorem Divides.not_atTop (divides : Divides first second) : ¬ AtTop first := by
  obtain ⟨ahead, front, back, rest, _, m, _, rfl, -, filled, filled', balanced, whole⟩ := divides
  obtain ⟨-, -, -, least⟩ := whole.extent
  have short : front.length < (front ++ back).length := by
    rw [List.length_append]
    have some_lines := List.length_pos_iff.2 filled'
    omega
  have inside := least front.length (List.length_pos_iff.2 filled) short
  rw [List.take_left] at inside
  have top : ahead.countP opensBlock = ahead.countP endsBlock := balanced.atTop
  unfold AtTop at inside ⊢
  simp only [List.countP_append]
  omega

theorem Divides.not_import {text : String} {tokens : List String}
    (imports : Directive.ofLine text = .importing tokens) : ¬ Divides first (text :: second) := by
  rintro ⟨ahead, front, back, rest, _, m, _, -, same, -, filled, -, whole⟩
  obtain ⟨line, back, rfl⟩ := List.exists_cons_of_ne_nil filled
  obtain ⟨rfl, -⟩ := List.cons.inj same
  exact whole.no_import (by simp) tokens imports

theorem Passes.cut (passes : Passes pack (first ++ second) before written after)
    (top : AtTop first) : CutsAt pack first second before written after :=
  (passes.cuts_or_divides rfl).resolve_right fun divides => divides.not_atTop top

/-- An import stands between two scripts, never inside a block. -/
theorem Passes.split {text : String} {tokens : List String}
    (imports : Directive.ofLine text = .importing tokens)
    (passes : Passes pack (first ++ text :: second) before written after) :
    ∃ out out' middle target m session, Passes pack first before out middle ∧
      (Session.fetchTokens pack text tokens).Gives middle.session (target, some m) session ∧
      Passes pack second ⟨session, middle.registry.adopt target.name m⟩ out' after := by
  obtain ⟨out, later, middle, -, start, ends⟩ :=
    (passes.cuts_or_divides rfl).resolve_right (Divides.not_import imports)
  generalize lines : text :: second = left at ends
  cases ends with
  | nil => cases lines
  | plain kind => cases lines; cases kind.symm.trans imports
  | insertion kind => cases lines; cases kind.symm.trans imports
  | block whole =>
    cases whole with
    | block kind => cases lines; cases kind.symm.trans imports
  | importing kind fetched more =>
    cases lines
    cases kind.symm.trans imports
    exact ⟨out, later, _, _, _, _, start, fetched, more⟩

end QuestScript.Script

import QuestScript.Proofs.Balanced
import QuestScript.Proofs.WellFormed

/-! Which line of a block a fault is about. A block that is not read has its fault on one line, and
`Block.Blames` goes through the faults, each with what it tells about that line and about those before
and behind it. Line numbers are passed on from block to block; in the end each is the place of its line
among the lines that were read. -/
namespace QuestScript

open QuestScript.Action Script

def Undeclared (name : String) (lines : List String) : Prop :=
  ∀ ahead text behind, lines = ahead ++ text :: behind → Block.declares? text = some name →
    ¬ Closes (text :: behind)

def ImportFree (lines : List String) : Prop :=
  ∀ text ∈ lines, ∀ tokens, Directive.ofLine text ≠ .importing tokens

section

variable {name text : String} {first second : List String}

theorem opensBlock_of_declares? (declares : Block.declares? text = some name) :
    opensBlock text = true := by
  unfold Block.declares? at declares
  split at declares
  · next kind => exact opensBlock_iff.2 ⟨_, kind⟩
  · contradiction

theorem Undeclared.behind (free : name ∉ Block.declared first) (later : Undeclared name second) :
    Undeclared name (first ++ second) := by
  intro ahead text behind cut declares
  rcases append_cut cut with ⟨between, rfl, -⟩ | ⟨between, rfl, rfl⟩
  · exact absurd (List.mem_filterMap.2 ⟨text, by simp, declares⟩) free
  · exact later between text behind rfl declares

theorem undeclared_of_free (free : name ∉ Block.declared first) : Undeclared name first := by
  have none : Undeclared name [] := fun ahead text behind cut => by simp at cut
  simpa using none.behind free

theorem undeclared_line : Undeclared name [text] := by
  intro ahead other behind cut declares
  have alone : [text].length = (ahead ++ other :: behind).length := congrArg List.length cut
  have last : behind = [] := by
    rw [← List.length_eq_zero_iff]
    simp only [List.length_append, List.length_cons, List.length_nil] at alone
    omega
  rw [last, closes_iff (opensBlock_of_declares? declares), not_not]
  exact Balanced.nil.contained

theorem Undeclared.append (earlier : Undeclared name first) (later : Undeclared name second)
    (contained : Contained second) : Undeclared name (first ++ second) := by
  intro ahead text behind cut declares
  rcases append_cut cut with ⟨between, rfl, rfl⟩ | ⟨between, rfl, rfl⟩
  · have opens := opensBlock_of_declares? declares
    have stays := earlier ahead text between rfl declares
    rw [closes_iff opens, not_not] at stays ⊢
    exact stays.append contained
  · exact later between text behind rfl declares

theorem ImportFree.append (earlier : ImportFree first) (later : ImportFree second) :
    ImportFree (first ++ second) := by
  intro text member
  rcases List.mem_append.1 member with inside | behind
  · exact earlier text inside
  · exact later text behind

end

namespace Registry

variable {registry : Registry} {name other : String} {m : Macro}

theorem insert_free (free : (Dict.insert registry name m).get? other = none) :
    other ≠ name ∧ registry.get? other = none := by
  rw [Dict.get?_insert] at free
  split at free
  · contradiction
  · next differ => exact ⟨differ, free⟩

theorem adopt_free (free : (registry.adopt name m).get? other = none) :
    other ≠ name ∧ other ≠ m.name ∧ registry.get? other = none := by
  unfold adopt at free
  split at free
  · obtain ⟨undeclared, free⟩ := insert_free free
    obtain ⟨unspelled, free⟩ := insert_free free
    exact ⟨unspelled, undeclared, free⟩
  · next same =>
    obtain ⟨undeclared, free⟩ := insert_free free
    exact ⟨Decidable.not_not.1 same ▸ undeclared, undeclared, free⟩

theorem target_fails {line : Nat} {text : String} {tokens : List String} {after : Registry}
    {fault : Fault} (fails : (target line text tokens).Fails registry fault after) :
    (∃ keyword place name arguments, tokens = keyword :: place :: name :: arguments ∧
      registry.get? name = none ∧ fault = .unknownMacro line name) ∨
    tokens.length < 3 ∧ fault = .malformedInsertion line (Text.trim text) := by
  rcases tokens with _ | ⟨keyword, _ | ⟨place, _ | ⟨name, arguments⟩⟩⟩
  · exact .inr ⟨by simp, (fails_fail.1 fails).1⟩
  · exact .inr ⟨by simp, (fails_fail.1 fails).1⟩
  · exact .inr ⟨by simp, (fails_fail.1 fails).1⟩
  · left
    rw [target, fails_get_bind] at fails
    cases bound : registry.get? name with
    | some m => simp [bound] at fails
    | none =>
      simp only [bound, fails_bind, fails_note, false_or, fails_fail] at fails
      obtain ⟨_, _, _, rfl, _⟩ := fails
      exact ⟨keyword, place, name, arguments, rfl, bound, rfl⟩

end Registry

namespace Block

/-- The fault of a block is about the line `text`, which has the number `line` and stands between the
lines `before` and `after`. What it means that a macro is not known is left open. -/
inductive Blames (unknown : String → Prop) (line : Nat) (before : List String) (text : String)
    (after : List String) : Fault → Prop where
  | malformedDefinition {keyword : String} (kind : Directive.ofLine text = .definition [keyword]) :
      Blames unknown line before text after (.malformedDefinition line (Text.trim text))
  | unterminated {keyword name : String} {params : List String}
      (kind : Directive.ofLine text = .definition (keyword :: name :: params))
      (stays : ¬ Closes (text :: after)) (last : Finished after) :
      Blames unknown line before text after (.unterminated line name)
  | misplacedImport {tokens : List String} (kind : Directive.ofLine text = .importing tokens)
      (inside : ¬ Finished before) : Blames unknown line before text after (.misplacedImport line)
  | unknownMacro {keyword place name : String} {arguments : List String}
      (kind : Directive.ofLine text = .insertion (keyword :: place :: name :: arguments))
      (missing : unknown name) : Blames unknown line before text after (.unknownMacro line name)
  | malformedInsertion {tokens : List String} (kind : Directive.ofLine text = .insertion tokens)
      (short : tokens.length < 3) :
      Blames unknown line before text after (.malformedInsertion line (Text.trim text))

section

variable {unknown unknown' : String → Prop} {line : Nat} {before after : List String}
  {text : String} {fault : Fault}

theorem Blames.line_eq (blames : Blames unknown line before text after fault) :
    fault.line? = some line := by
  cases blames <;> rfl

theorem Blames.ofTarget {tokens : List String} {registry reached : Registry}
    (kind : Directive.ofLine text = .insertion tokens)
    (fails : (Registry.target line text tokens).Fails registry fault reached)
    (missing : ∀ name, registry.get? name = none → unknown name) :
    Blames unknown line before text after fault := by
  rcases Registry.target_fails fails with
    ⟨keyword, place, name, arguments, rfl, free, rfl⟩ | ⟨short, rfl⟩
  · exact .unknownMacro kind (missing name free)
  · exact .malformedInsertion kind short

theorem Blames.behind {first : List String}
    (blames : Blames unknown line before text after fault)
    (missing : ∀ name, unknown name → unknown' name) :
    Blames unknown' line (first ++ before) text after fault := by
  cases blames with
  | malformedDefinition kind => exact .malformedDefinition kind
  | unterminated kind stays last => exact .unterminated kind stays last
  | misplacedImport kind inside =>
    refine .misplacedImport kind fun finished => inside ?_
    intro ahead text behind cut opens
    subst cut
    exact finished (first ++ ahead) text behind (List.append_assoc ..).symm opens
  | unknownMacro kind free => exact .unknownMacro kind (missing _ free)
  | malformedInsertion kind short => exact .malformedInsertion kind short

theorem Blames.ofHeader {tokens : List String}
    (kind : Directive.ofLine text = .definition tokens)
    (fails : Header.ofDirective line text (.definition tokens) = .error fault) :
    Blames unknown line before text after fault := by
  rcases tokens with _ | ⟨keyword, _ | ⟨name, params⟩⟩
  · exact absurd (Directive.tokenized_definition kind).many (by simp)
  · cases fails
    exact .malformedDefinition kind
  · cases fails

end

theorem Reads.free {used : List String} {before after : Registry} {found : Contents}
    (reads : Reads used before found after) {name : String} (free : after.get? name = none) :
    before.get? name = none ∧ name ∉ declared used := by
  induction reads with
  | close kind =>
    rw [declared_other (by simp [kind])]
    exact ⟨free, List.not_mem_nil⟩
  | plain kind _ ih =>
    rw [declared_other (by simp [kind])]
    exact ih free
  | insertion kind _ _ ih =>
    rw [declared_other (by simp [kind])]
    exact ih free
  | block kind _ _ ihInner ihRest =>
    obtain ⟨free, behind⟩ := ihRest free
    obtain ⟨other, free⟩ := Registry.insert_free free
    obtain ⟨free, inside⟩ := ihInner free
    rw [declared_definition kind]
    simp only [List.mem_cons, List.mem_append, not_or]
    exact ⟨free, other, inside, behind⟩

theorem Whole.free {block : List String} {before after : Registry} {m : Macro}
    (whole : Whole block before m after) {name : String}
    (free : (after.insert m.name m).get? name = none) :
    before.get? name = none ∧ name ∉ declared block := by
  cases whole with
  | @block text keyword name' params used _ _ found kind reads =>
    obtain ⟨other, free⟩ := Registry.insert_free free
    obtain ⟨free, inside⟩ := reads.free free
    have names : declared (text :: used) = name' :: declared used := by
      simp [declared, declares?_definition kind]
    rw [names]
    exact ⟨free, fun member => (List.mem_cons.1 member).elim other inside⟩

/-- The block that `header` opens is the last one of the lines that is open; the first line has the
number `first`. -/
def Opened (first : Nat) (seen : List String) (header : Header) : Prop :=
  ∃ ahead text inside, seen = ahead ++ text :: inside ∧ header.line = first + ahead.length ∧
    Directive.ofLine text = .definition header.signature ∧ Balanced inside

structure Missing (start : Registry) (seen : List String) (name : String) : Prop where
  unbound : start.get? name = none
  undeclared : Undeclared name seen
  noImport : ImportFree seen

def Known (start : Registry) (seen : List String) (now : Registry) : Prop :=
  ∀ name, now.get? name = none → Missing start seen name

section

variable {first : Nat} {start now now' : Registry} {seen more : List String} {header : Header}
  {text : String}

theorem Opened.last (kind : Directive.ofLine text = .definition header.signature)
    (here : header.line = first + seen.length) : Opened first (seen ++ [text]) header :=
  ⟨seen, text, [], rfl, here, kind, .nil⟩

theorem Opened.append (opened : Opened first seen header) (balanced : Balanced more) :
    Opened first (seen ++ more) header := by
  obtain ⟨ahead, text, inside, rfl, here, kind, within⟩ := opened
  exact ⟨ahead, text, inside ++ more, by simp, here, kind, within.append balanced⟩

theorem Opened.not_finished (opened : Opened first seen header) : ¬ Finished seen := by
  obtain ⟨ahead, text, inside, rfl, -, kind, within⟩ := opened
  intro finished
  have opens := opensBlock_iff.2 ⟨_, kind⟩
  exact (closes_iff opens).1 (finished ahead text inside rfl opens) within.contained

theorem Known.nil : Known start [] start := fun _ free =>
  ⟨free, fun _ _ _ cut => by simp at cut, fun _ member => absurd member List.not_mem_nil⟩

theorem Known.append (known : Known start seen now) (contained : Contained more)
    (missing : ∀ name, now'.get? name = none → now.get? name = none ∧ Undeclared name more)
    (noImport : ImportFree more) : Known start (seen ++ more) now' := by
  intro name free
  obtain ⟨free, later⟩ := missing name free
  obtain ⟨unbound, earlier, noImport'⟩ := known name free
  exact ⟨unbound, earlier.append later contained, noImport'.append noImport⟩

theorem Known.line (known : Known start seen now) (stays : endsBlock text = false)
    (noImport : ∀ tokens, Directive.ofLine text ≠ .importing tokens) :
    Known start (seen ++ [text]) now := by
  refine known.append (contained_line stays) (fun name free => ⟨free, undeclared_line⟩) ?_
  intro other member
  cases List.mem_singleton.1 member
  exact noImport

theorem Known.block {m : Macro} (known : Known start seen now) (whole : Whole more now m now') :
    Known start (seen ++ more) (now'.insert m.name m) := by
  refine known.append whole.all_balanced.contained (fun name free => ?_) fun _ => whole.no_import
  obtain ⟨free, undeclared⟩ := whole.free free
  exact ⟨free, undeclared_of_free undeclared⟩

end

def BlamesIn (start : Registry) (first : Nat) (lines : List String) (fault : Fault) : Prop :=
  ∃ before text after, lines = before ++ text :: after ∧
    Blames (Missing start before) (first + before.length) before text after fault

theorem contents_blames {header : Header} {line first : Nat} {lines seen : List String}
    {start now after : Registry} {fault : Fault} (opened : Opened first seen header)
    (known : Known start seen now) (here : line = first + seen.length)
    (fails : (contents header line lines).Fails now fault after) :
    BlamesIn start first (seen ++ lines) fault := by
  -- a line that is read goes over to those before the rest, and so does a block inside as a whole
  induction header, line, lines using contents.induct generalizing seen now with
  | case1 header line =>
    simp only [contents, fails_fail] at fails
    obtain ⟨rfl, -⟩ := fails
    obtain ⟨ahead, text, inside, rfl, number, kind, within⟩ := opened
    refine ⟨ahead, text, inside, by simp, number ▸ .unterminated kind ?_ within.finished⟩
    rw [closes_iff (opensBlock_iff.2 ⟨_, kind⟩), not_not]
    exact within.contained
  | case2 header line text rest kind =>
    simp [contents, kind] at fails
  | case3 header line text rest body kind ih =>
    simp only [contents, kind, fails_bind, fails_pure, and_false, exists_false, or_false] at fails
    have opens : opensBlock text = false := by simp [opensBlock, kind]
    have ends : endsBlock text = false := by simp [endsBlock, kind]
    have later := ih (opened.append (.line opens ends .nil)) (known.line ends (by simp [kind]))
      (by simp; omega) fails
    rwa [List.append_assoc] at later
  | case4 header line text rest tokens kind ih =>
    simp only [contents, kind, fails_bind, fails_pure, and_false, exists_false, or_false] at fails
    rcases fails with fails | ⟨target, middle, found, fails⟩
    · subst here
      exact ⟨seen, text, rest, rfl, .ofTarget kind fails known⟩
    obtain ⟨-, rfl⟩ := Registry.gives_target.1 found
    have opens : opensBlock text = false := by simp [opensBlock, kind]
    have ends : endsBlock text = false := by simp [endsBlock, kind]
    have later := ih (opened.append (.line opens ends .nil)) (known.line ends (by simp [kind]))
      (by simp; omega) fails
    rwa [List.append_assoc] at later
  | case5 header line text rest tokens kind =>
    simp only [contents, kind, fails_fail] at fails
    obtain ⟨rfl, -⟩ := fails
    subst here
    exact ⟨seen, text, rest, rfl, .misplacedImport kind opened.not_finished⟩
  | case6 header line text rest tokens kind ihInner ihRest =>
    simp only [contents, kind] at fails
    -- the header is to blame, or a line of the block that it opens, or one behind that block
    rw [fails_bind, fails_ofExcept] at fails
    rcases fails with ⟨malformed, -⟩ | ⟨inner, _, opens, fails⟩
    · subst here
      exact ⟨seen, text, rest, rfl, .ofHeader kind malformed⟩
    obtain ⟨opening, rfl⟩ := gives_ofExcept.1 opens
    obtain ⟨number, same⟩ := ofDirective_ok opening
    rw [same] at kind
    rw [fails_bind] at fails
    rcases fails with inside | ⟨⟨held, length⟩, middle, inside, fails⟩
    · have ends : endsBlock text = false := by simp [endsBlock, kind]
      have later := ihInner inner (.last kind (number.trans here)) (known.line ends (by simp [kind]))
        (by simp; omega) inside
      rwa [List.append_assoc] at later
    obtain ⟨used, left, rfl, rfl, reads⟩ := contents_reads inside
    have whole : Whole (text :: used) _ (held.toMacro inner) middle := .block kind reads
    simp only [fails_bind, gives_note, fails_note, fails_pure, and_false, exists_false, or_false,
      false_or] at fails
    obtain ⟨_, _, rfl, never | ⟨replaced, reached, defined, fails⟩⟩ := fails
    · exact absurd never (Registry.define_gives _ _).not_fails
    obtain ⟨-, rfl⟩ := Registry.gives_define.1 defined
    have later := ihRest used.length (opened.append whole.all_balanced) (known.block whole)
      (by simp; omega) fails
    rw [List.drop_left] at later
    simpa using later

theorem read_blames {line : Nat} {text : String} {rest tokens : List String}
    {start after : Registry} {fault : Fault} (kind : Directive.ofLine text = .definition tokens)
    (fails : (read line text rest).Fails start fault after) :
    BlamesIn start line (text :: rest) fault := by
  unfold read at fails
  rw [kind] at fails
  rw [fails_bind, fails_ofExcept] at fails
  rcases fails with ⟨malformed, -⟩ | ⟨header, _, opens, fails⟩
  · exact ⟨[], text, rest, rfl, .ofHeader kind malformed⟩
  obtain ⟨opening, rfl⟩ := gives_ofExcept.1 opens
  obtain ⟨number, same⟩ := ofDirective_ok opening
  rw [same] at kind
  simp only [fails_bind, fails_pure, and_false, exists_false, or_false] at fails
  have ends : endsBlock text = false := by simp [endsBlock, kind]
  have opened : Opened line ([] ++ [text]) header := .last kind number
  exact contents_blames opened (Known.nil.line ends (by simp [kind])) rfl fails

theorem readAt_blames {lines : List String} {target : ImportTarget} {position : Nat}
    {start after : Registry} {fault : Fault}
    (place : lines.findIdx? target.definedBy = some position)
    (fails : (readAt lines position).Fails start fault after) :
    BlamesIn start (position + 1) (lines.drop position) fault := by
  obtain ⟨inside, defines, -⟩ := List.findIdx?_eq_some_iff_getElem.1 place
  have left := List.drop_eq_getElem_cons inside
  unfold readAt at fails
  simp only [left, fails_bind, fails_pure, and_false, exists_false, or_false] at fails
  rw [left]
  unfold ImportTarget.definedBy at defines
  split at defines
  · next kind => exact read_blames kind fails
  · contradiction

end Block

end QuestScript

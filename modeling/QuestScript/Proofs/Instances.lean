import Mathlib.Data.List.Nodup
import QuestScript.Proofs.WellFormed

/-! The instances of an expansion: one for the invocation and one for each insertion that is met, at
any depth. The same macro can be met on many ways, so an instance is known by its position, the
indices of the insertions that lead to it. Its full name joins the instance names on the way with
dots. Such a name can be read back as long as none of them has a dot of its own. -/
namespace QuestScript

structure Instance where
  position : List Nat
  way : List String
  source : Macro
  tokens : List String
  /-- What stands for `$` in the lines of this instance. -/
  name : String

namespace Instance

def below (index : Nat) (place : String) (i : Instance) : Instance :=
  { i with position := index :: i.position, way := place :: i.way }

def output (i : Instance) : Output := i.source.frame i.tokens i.name

def written (instances : List Instance) : Output :=
  ⟨instances.flatMap fun i => i.output.lines, instances.flatMap fun i => i.output.log⟩

theorem written_cons (i : Instance) (later : List Instance) :
    written (i :: later) = i.output ++ written later := rfl

theorem written_append (first later : List Instance) :
    written (first ++ later) = written first ++ written later := by
  simp only [written, List.flatMap_append]
  rfl

theorem written_below (index : Nat) (place : String) (instances : List Instance) :
    written (instances.map (below index place)) = written instances := by
  simp only [written, List.flatMap_map]
  rfl

end Instance

open Instance

namespace Macro

def root (m : Macro) (tokens : List String) (name : String) : Instance := ⟨[], [], m, tokens, name⟩

mutual

/-- All instances, in the order in which they write. -/
def instances : Macro → List String → Option String → List Instance
  | ⟨signature, body, insertions⟩, tokens, parent =>
    root ⟨signature, body, insertions⟩ tokens (fullName parent tokens) ::
      instancesFrom 0 insertions (fullName parent tokens)

def instancesFrom (index : Nat) : List Insertion → String → List Instance
  | [], _ => []
  | ⟨tokens, target⟩ :: rest, name =>
    (instances target tokens (some name)).map (below index (instanceName tokens)) ++
      instancesFrom (index + 1) rest name

end

def instanceAt? (m : Macro) (tokens : List String) (parent : Option String) :
    List Nat → Option Instance
  | [] => some (m.root tokens (fullName parent tokens))
  | index :: later => do
    let insertion ← m.insertions[index]?
    let i ← instanceAt? insertion.target insertion.tokens (some (fullName parent tokens)) later
    return i.below index (instanceName insertion.tokens)

/-- Holds of the macro and of all that stands in it, at any depth. -/
def Throughout (P : Macro → Prop) (m : Macro) : Prop := ∀ inner, m.Holds inner → P inner

def SiblingsDiffer (m : Macro) : Prop :=
  (m.insertions.map fun insertion => instanceName insertion.tokens).Nodup

instance : DecidablePred SiblingsDiffer := fun m =>
  inferInstanceAs (Decidable (m.insertions.map fun insertion => instanceName insertion.tokens).Nodup)

def Undotted (m : Macro) : Prop :=
  ∀ insertion ∈ m.insertions, '.' ∉ (instanceName insertion.tokens).toList

instance : DecidablePred Undotted := fun _ => List.decidableBAll _ _

theorem instances_eq (m : Macro) (tokens : List String) (parent : Option String) :
    m.instances tokens parent = m.root tokens (fullName parent tokens) ::
      instancesFrom 0 m.insertions (fullName parent tokens) := by
  cases m
  rw [instances]

mutual

theorem expansion_eq_written (m : Macro) (tokens : List String) (parent : Option String) :
    m.expansion tokens parent = written (m.instances tokens parent) := by
  cases m with
  | mk signature body insertions =>
    rw [expansion, instances, written_cons, expansions_eq_written 0]
    rfl

theorem expansions_eq_written (index : Nat) (insertions : List Insertion) (name : String) :
    expansions insertions name = written (instancesFrom index insertions name) := by
  cases insertions with
  | nil => rfl
  | cons insertion rest =>
    cases insertion with
    | mk tokens target =>
      rw [expansions, instancesFrom, written_append, written_below, expansion_eq_written,
        expansions_eq_written (index + 1)]

end

theorem mem_instancesFrom {insertions : List Insertion} {index : Nat} {name : String}
    {i : Instance} :
    i ∈ instancesFrom index insertions name ↔ ∃ (k : Nat) (insertion : Insertion) (inner : Instance),
      insertions[k]? = some insertion ∧
      inner ∈ insertion.target.instances insertion.tokens (some name) ∧
      inner.below (index + k) (instanceName insertion.tokens) = i := by
  induction insertions generalizing index with
  | nil => simp [instancesFrom]
  | cons insertion rest ih =>
    obtain ⟨tokens, target⟩ := insertion
    rw [instancesFrom, List.mem_append, List.mem_map, ih]
    constructor
    · rintro (⟨inner, member, same⟩ | ⟨k, other, inner, there, member, same⟩)
      · exact ⟨0, ⟨tokens, target⟩, inner, rfl, member, same⟩
      · refine ⟨k + 1, other, inner, there, member, ?_⟩
        rw [← same, Nat.add_right_comm, Nat.add_assoc]
    · rintro ⟨_ | k, other, inner, there, member, same⟩
      · cases there
        exact .inl ⟨inner, member, same⟩
      · refine .inr ⟨k, other, inner, there, member, ?_⟩
        rw [← same, Nat.add_right_comm, Nat.add_assoc]

variable {m : Macro} {tokens : List String} {parent : Option String}

theorem instanceAt?_cons {index : Nat} {later : List Nat} {i : Instance} :
    m.instanceAt? tokens parent (index :: later) = some i ↔
      ∃ insertion inner, m.insertions[index]? = some insertion ∧
        insertion.target.instanceAt? insertion.tokens (some (fullName parent tokens)) later =
          some inner ∧
        inner.below index (instanceName insertion.tokens) = i := by
  simp only [instanceAt?, Option.bind_eq_bind, Option.bind_eq_some_iff, Option.pure_def,
    Option.some.injEq]
  constructor
  · rintro ⟨insertion, there, inner, leads, same⟩
    exact ⟨insertion, inner, there, leads, same⟩
  · rintro ⟨insertion, inner, there, leads, same⟩
    exact ⟨insertion, there, inner, leads, same⟩

theorem instanceAt?_eq_some {position : List Nat} {i : Instance} :
    m.instanceAt? tokens parent position = some i ↔
      i ∈ m.instances tokens parent ∧ i.position = position := by
  induction position generalizing m tokens parent i with
  | nil =>
    rw [instances_eq, List.mem_cons, mem_instancesFrom]
    constructor
    · intro here
      cases here
      exact ⟨.inl rfl, rfl⟩
    · rintro ⟨rfl | ⟨k, insertion, inner, -, -, rfl⟩, top⟩
      · rfl
      · cases top
  | cons index later ih =>
    rw [instanceAt?_cons, instances_eq, List.mem_cons, mem_instancesFrom]
    constructor
    · rintro ⟨insertion, inner, there, leads, rfl⟩
      obtain ⟨member, rfl⟩ := ih.1 leads
      exact ⟨.inr ⟨index, insertion, inner, there, member, by rw [Nat.zero_add]⟩, rfl⟩
    · rintro ⟨rfl | ⟨k, insertion, inner, there, member, rfl⟩, same⟩
      · cases same
      · obtain ⟨rfl, rfl⟩ := List.cons.inj same
        rw [Nat.zero_add]
        exact ⟨insertion, inner, there, ih.2 ⟨member, rfl⟩, rfl⟩

theorem instanceAt?_position {i : Instance} (member : i ∈ m.instances tokens parent) :
    m.instanceAt? tokens parent i.position = some i :=
  instanceAt?_eq_some.2 ⟨member, rfl⟩

mutual

theorem instances_ordered (m : Macro) (tokens : List String) (parent : Option String) :
    (m.instances tokens parent).Pairwise fun a b => a.position < b.position := by
  cases m with
  | mk signature body insertions =>
    rw [instances]
    refine .cons ?_ (instancesFrom_ordered 0 insertions (fullName parent tokens))
    intro i member
    obtain ⟨k, insertion, inner, -, -, rfl⟩ := mem_instancesFrom.1 member
    exact List.nil_lt_cons _ _

theorem instancesFrom_ordered (index : Nat) (insertions : List Insertion) (name : String) :
    (instancesFrom index insertions name).Pairwise fun a b => a.position < b.position := by
  cases insertions with
  | nil => exact .nil
  | cons insertion rest =>
    cases insertion with
    | mk tokens target =>
      rw [instancesFrom, List.pairwise_append, List.pairwise_map]
      refine ⟨?_, instancesFrom_ordered (index + 1) rest name, ?_⟩
      · apply (instances_ordered target tokens (some name)).imp
        intro a b before
        exact List.cons_lt_cons_iff.2 (.inr ⟨rfl, before⟩)
      · intro a first b later
        obtain ⟨inner, -, rfl⟩ := List.mem_map.1 first
        obtain ⟨k, insertion, inner', -, -, rfl⟩ := mem_instancesFrom.1 later
        exact List.cons_lt_cons_iff.2 (.inl (by omega))

end

theorem Throughout.here {P : Macro → Prop} (throughout : m.Throughout P) : P m :=
  throughout m (.self m)

theorem Throughout.target {P : Macro → Prop} (throughout : m.Throughout P) {insertion : Insertion}
    (member : insertion ∈ m.insertions) : insertion.target.Throughout P :=
  fun inner holds => throughout inner (.deeper member holds)

theorem source_holds {position : List Nat} {i : Instance}
    (here : m.instanceAt? tokens parent position = some i) : m.Holds i.source := by
  induction position generalizing m tokens parent i with
  | nil =>
    cases here
    exact .self m
  | cons index later ih =>
    obtain ⟨insertion, inner, there, leads, rfl⟩ := instanceAt?_cons.1 here
    have inside : insertion.target.Holds inner.source := ih leads
    exact .deeper (List.mem_of_getElem? there) inside

theorem Holds.has_instance {inner : Macro} (holds : m.Holds inner) (tokens : List String)
    (parent : Option String) :
    ∃ position i, m.instanceAt? tokens parent position = some i ∧ i.source = inner := by
  induction holds generalizing tokens parent with
  | self m => exact ⟨[], m.root tokens (fullName parent tokens), rfl, rfl⟩
  | @deeper m inner insertion member _ ih =>
    obtain ⟨index, there⟩ := List.getElem?_of_mem member
    obtain ⟨later, i, leads, same⟩ := ih insertion.tokens (some (fullName parent tokens))
    exact ⟨index :: later, _, instanceAt?_cons.2 ⟨insertion, i, there, leads, rfl⟩, same⟩

/-- Every macro that stands in another one has an instance in each of its expansions. -/
theorem throughout_iff {P : Macro → Prop} (tokens : List String) (parent : Option String) :
    m.Throughout P ↔ ∀ i ∈ m.instances tokens parent, P i.source := by
  constructor
  · intro throughout i member
    exact throughout i.source (source_holds (instanceAt?_position member))
  · intro instances inner holds
    obtain ⟨position, i, here, rfl⟩ := holds.has_instance tokens parent
    exact instances i (instanceAt?_eq_some.1 here).1

def dotted (way : List String) : List Char := way.flatMap fun place => '.' :: place.toList

theorem takeWhile_dotted {place : String} (plain : '.' ∉ place.toList) (way : List String) :
    (place.toList ++ dotted way).takeWhile (· ≠ '.') = place.toList := by
  have stops : (dotted way).takeWhile (· ≠ '.') = [] := by
    cases way with
    | nil => rfl
    | cons place way => rfl
  have goes : ∀ c ∈ place.toList, decide (c ≠ '.') = true := by
    intro c member
    exact decide_eq_true fun dot => plain (dot ▸ member)
  rw [List.takeWhile_append_of_pos goes, stops, List.append_nil]

theorem dotted_injective {way other : List String} (plain : ∀ place ∈ way, '.' ∉ place.toList)
    (plain' : ∀ place ∈ other, '.' ∉ place.toList) (same : dotted way = dotted other) :
    way = other := by
  induction way generalizing other with
  | nil =>
    cases other with
    | nil => rfl
    | cons place other => cases same
  | cons place way ih =>
    cases other with
    | nil => cases same
    | cons place' other =>
      have chars : place.toList ++ dotted way = place'.toList ++ dotted other :=
        (List.cons.inj same).2
      -- a name without a dot ends where the dot before the next one stands
      have first : place.toList = place'.toList := by
        rw [← takeWhile_dotted (plain place (List.mem_cons_self ..)) way, chars,
          takeWhile_dotted (plain' place' (List.mem_cons_self ..)) other]
      have later : dotted way = dotted other := List.append_cancel_left (first ▸ chars)
      rw [String.toList_injective first, ih (fun place member => plain place (.tail _ member))
        (fun place member => plain' place (.tail _ member)) later]

theorem toList_name {position : List Nat} {i : Instance}
    (here : m.instanceAt? tokens parent position = some i) :
    i.name.toList = (fullName parent tokens).toList ++ dotted i.way := by
  induction position generalizing m tokens parent i with
  | nil =>
    cases here
    exact (List.append_nil _).symm
  | cons index later ih =>
    obtain ⟨insertion, inner, there, leads, rfl⟩ := instanceAt?_cons.1 here
    have name := ih leads
    rw [fullName_some, String.toList_append, String.toList_append] at name
    simp only [below, dotted, List.flatMap_cons, name, List.append_assoc]
    rfl

theorem way_undotted (undotted : m.Throughout Undotted) {position : List Nat} {i : Instance}
    (here : m.instanceAt? tokens parent position = some i) :
    ∀ place ∈ i.way, '.' ∉ place.toList := by
  induction position generalizing m tokens parent i with
  | nil =>
    cases here
    exact fun _ member => absurd member List.not_mem_nil
  | cons index later ih =>
    obtain ⟨insertion, inner, there, leads, rfl⟩ := instanceAt?_cons.1 here
    have member := List.mem_of_getElem? there
    exact List.forall_mem_cons.2 ⟨undotted.here insertion member, ih (undotted.target member) leads⟩

theorem position_of_way (differ : m.Throughout SiblingsDiffer) {position other : List Nat}
    {a b : Instance} (here : m.instanceAt? tokens parent position = some a)
    (there : m.instanceAt? tokens parent other = some b) (same : a.way = b.way) :
    position = other := by
  induction position generalizing m tokens parent other a b with
  | nil =>
    cases here
    cases other with
    | nil => rfl
    | cons index later =>
      obtain ⟨insertion, inner, -, -, rfl⟩ := instanceAt?_cons.1 there
      cases same
  | cons index later ih =>
    obtain ⟨insertion, inner, entry, leads, rfl⟩ := instanceAt?_cons.1 here
    cases other with
    | nil =>
      cases there
      cases same
    | cons index' later' =>
      obtain ⟨insertion', inner', entry', leads', rfl⟩ := instanceAt?_cons.1 there
      obtain ⟨place, ways⟩ := List.cons.inj same
      obtain ⟨inside, -⟩ := List.getElem?_eq_some_iff.1 entry
      -- siblings with the same name are the same insertion
      have names : (m.insertions.map fun insertion => instanceName insertion.tokens)[index]? =
          (m.insertions.map fun insertion => instanceName insertion.tokens)[index']? := by
        rw [List.getElem?_map, List.getElem?_map, entry, entry', Option.map_some, Option.map_some,
          place]
      have indices : index = index' :=
        (List.getElem?_inj (by rwa [List.length_map]) differ.here).1 names
      subst indices
      obtain rfl := Option.some.inj (entry.symm.trans entry')
      rw [ih (differ.target (List.mem_of_getElem? entry)) leads leads' ways]

theorem dot_of_name_eq (differ : m.Throughout SiblingsDiffer) {a b : Instance}
    (memberA : a ∈ m.instances tokens parent) (memberB : b ∈ m.instances tokens parent)
    (elsewhere : a.position ≠ b.position) (same : a.name = b.name) :
    ∃ place ∈ a.way ++ b.way, '.' ∈ place.toList := by
  by_contra undotted
  have plain : ∀ place ∈ a.way ++ b.way, '.' ∉ place.toList :=
    fun place member dot => undotted ⟨place, member, dot⟩
  have names : (fullName parent tokens).toList ++ dotted a.way =
      (fullName parent tokens).toList ++ dotted b.way := by
    rw [← toList_name (instanceAt?_position memberA), ← toList_name (instanceAt?_position memberB),
      same]
  have ways : a.way = b.way := dotted_injective
    (fun place member => plain place (List.mem_append_left _ member))
    (fun place member => plain place (List.mem_append_right _ member)) (List.append_cancel_left names)
  exact elsewhere
    (position_of_way differ (instanceAt?_position memberA) (instanceAt?_position memberB) ways)

/-- An expansion is written by its instances, and these are told apart by their full names wherever
the insertions next to each other are: only a dot in an instance name can give two of them the
same full name. -/
theorem instances_told_apart (m : Macro) (tokens : List String) (parent : Option String)
    (differ : m.Throughout SiblingsDiffer) :
    m.expansion tokens parent = written (m.instances tokens parent) ∧
      (∀ a ∈ m.instances tokens parent, ∀ b ∈ m.instances tokens parent,
        a.position ≠ b.position → a.name = b.name →
          ∃ place ∈ a.way ++ b.way, '.' ∈ place.toList) ∧
      (m.Throughout Undotted → ((m.instances tokens parent).map Instance.name).Nodup) := by
  refine ⟨expansion_eq_written m tokens parent, ?_, ?_⟩
  · intro a memberA b memberB elsewhere same
    exact dot_of_name_eq differ memberA memberB elsewhere same
  · intro undotted
    rw [List.Nodup, List.pairwise_map]
    apply (instances_ordered m tokens parent).imp_of_mem
    intro a b memberA memberB before same
    have elsewhere : a.position ≠ b.position := fun equal => List.lt_irrefl _ (equal ▸ before)
    obtain ⟨place, member, dot⟩ := dot_of_name_eq differ memberA memberB elsewhere same
    rcases List.mem_append.1 member with inA | inB
    · exact way_undotted undotted (instanceAt?_position memberA) place inA dot
    · exact way_undotted undotted (instanceAt?_position memberB) place inB dot

def leaf : Macro := ⟨["macro", "Leaf"], some ["leaf $"], []⟩

def twig : Macro :=
  ⟨["macro", "Twig"], some ["twig $"], [⟨["macro", "a", "Leaf"], leaf⟩, ⟨["macro", "b", "Leaf"], leaf⟩]⟩

def branch : Macro :=
  ⟨["macro", "Branch"], none,
    [⟨["macro", "a", "Twig"], twig⟩, ⟨["macro", "b", "Leaf"], leaf⟩, ⟨["macro", "c", "Twig"], twig⟩]⟩

def graft : Macro :=
  ⟨["macro", "Graft"], none, [⟨["macro", "a", "Twig"], twig⟩, ⟨["macro", "a.b", "Leaf"], leaf⟩]⟩

theorem instances_told_apart_shared :
    ((branch.instances ["macro", "t.x", "Branch"] none).map Instance.name).Nodup ∧
      (branch.instances ["macro", "t.x", "Branch"] none).map Instance.name =
        ["t.x", "t.x.a", "t.x.a.a", "t.x.a.b", "t.x.b", "t.x.c", "t.x.c.a", "t.x.c.b"] ∧
      (graft.expansion ["macro", "g", "Graft"] (some "t")).lines =
        ["twig t.g.a", "leaf t.g.a.a", "leaf t.g.a.b", "leaf t.g.a.b"] ∧
      ∃ a b, graft.instanceAt? ["macro", "g", "Graft"] (some "t") [0, 1] = some a ∧
        graft.instanceAt? ["macro", "g", "Graft"] (some "t") [1] = some b ∧ a.name = b.name ∧
        ∃ place ∈ a.way ++ b.way, '.' ∈ place.toList := by
  have differ : branch.Throughout SiblingsDiffer :=
    (throughout_iff ["macro", "t.x", "Branch"] none).2 (by decide +kernel)
  have undotted : branch.Throughout Undotted :=
    (throughout_iff ["macro", "t.x", "Branch"] none).2 (by decide +kernel)
  have differ' : graft.Throughout SiblingsDiffer :=
    (throughout_iff ["macro", "g", "Graft"] (some "t")).2 (by decide +kernel)
  obtain ⟨-, -, apart⟩ := instances_told_apart branch ["macro", "t.x", "Branch"] none differ
  obtain ⟨-, collide, -⟩ := instances_told_apart graft ["macro", "g", "Graft"] (some "t") differ'
  let a : Instance := ⟨[0, 1], ["a", "b"], leaf, ["macro", "b", "Leaf"], "t.g.a.b"⟩
  let b : Instance := ⟨[1], ["a.b"], leaf, ["macro", "a.b", "Leaf"], "t.g.a.b"⟩
  have hereA : graft.instanceAt? ["macro", "g", "Graft"] (some "t") [0, 1] = some a := rfl
  have hereB : graft.instanceAt? ["macro", "g", "Graft"] (some "t") [1] = some b := rfl
  refine ⟨apart undotted, by decide +kernel, by decide +kernel, a, b, hereA, hereB, rfl, ?_⟩
  exact collide a (instanceAt?_eq_some.1 hereA).1 b (instanceAt?_eq_some.1 hereB).1 (by decide) rfl

end Macro

end QuestScript

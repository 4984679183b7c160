import QuestScript.Proofs.Instances
import QuestScript.Proofs.ReadCount

/-! What the log says of how a call ends. An error is written for an insertion whose macro is not
known, and the call ends with it, so the log of a call has no error or the one that its fault speaks
of. Answers from the cache and lines that pass write none. An expansion cannot fail; it writes a
warning for each instance with too few arguments. -/
namespace QuestScript

open QuestScript.Action

variable {σ τ α β : Type}

def errors (log : List LogEntry) : List LogEntry := log.filter fun entry => entry.level = .error

theorem errors_append (first later : List LogEntry) :
    errors (first ++ later) = errors first ++ errors later :=
  List.filter_append ..

namespace Fault

/-- An insertion names no known macro, on a line of the call's own or of an imported file. -/
def Misses (line : Nat) (name : String) (fault : Fault) : Prop :=
  fault = .unknownMacro line name ∨ ∃ file, fault = .imported file (.unknownMacro line name)

def report : Fault → List LogEntry
  | .unknownMacro line name => [.undefined line name]
  | .imported _ (.unknownMacro line name) => [.undefined line name]
  | _ => []

theorem mem_report {fault : Fault} {entry : LogEntry} :
    entry ∈ fault.report ↔ ∃ line name, fault.Misses line name ∧ entry = .undefined line name := by
  constructor
  · intro member
    unfold report at member
    split at member
    · next line name => exact ⟨line, name, .inl rfl, List.mem_singleton.1 member⟩
    · next file line name => exact ⟨line, name, .inr ⟨file, rfl⟩, List.mem_singleton.1 member⟩
    · cases member
  · rintro ⟨line, name, rfl | ⟨file, rfl⟩, rfl⟩
    · exact List.mem_singleton.2 rfl
    · exact List.mem_singleton.2 rfl

theorem length_report (fault : Fault) : fault.report.length ≤ 1 := by
  unfold report
  split <;> simp

theorem report_imported {fault : Fault} (own : fault.isImported = false) (file : String) :
    (imported file fault).report = fault.report := by
  cases fault with
  | imported => cases own
  | _ => rfl

end Fault

def reported : Except Fault α → List LogEntry
  | .ok _ => []
  | .error fault => fault.report

/-- The log has an error where the outcome is that of an insertion that names no known macro. It has
one then, with the number of the line and the name, and none otherwise. -/
structure Outcome.Diagnosed (ended : Outcome σ α) : Prop where
  once : (errors ended.log).length ≤ 1
  tells : ∀ entry, entry ∈ errors ended.log ↔ ∃ fault line name, ended.result = .error fault ∧
    fault.Misses line name ∧ entry = .undefined line name ∧
    entry.text = s!"line {line}: macro `{name}` is not defined before use"

namespace Action

/-- However the action ends, its log has the errors that belong to the result and no others. -/
def Reports (action : Action σ α) : Prop :=
  ∀ s, errors (action.run s).log = reported (action.run s).result

namespace Reports

theorem pure (a : α) : Reports (Pure.pure a : Action σ α) := fun _ => rfl

theorem get : Reports (Action.get : Action σ σ) := fun _ => rfl

theorem update (f : σ → σ) : Reports (Action.update f) := fun _ => rfl

theorem note {entries : List LogEntry} (quiet : errors entries = []) :
    Reports (Action.note entries : Action σ Unit) :=
  fun _ => quiet

theorem fail {fault : Fault} (silent : fault.report = []) :
    Reports (Action.fail fault : Action σ α) :=
  fun _ => silent.symm

theorem ofExcept {found : Except Fault α} (silent : reported found = []) :
    Reports (Action.ofExcept found : Action σ α) := by
  cases found with
  | ok a => exact .pure a
  | error fault => exact .fail silent

theorem bind {action : Action σ α} {next : α → Action σ β} (first : Reports action)
    (later : ∀ a, Reports (next a)) : Reports (action >>= next) := by
  intro s
  have here := first s
  rcases ends : action.run s with ⟨fault | a, t, log⟩
  · rw [ends] at here
    rw [bind_run_error ends]
    exact here
  · rw [ends] at here
    have quiet : errors log = [] := here
    rw [bind_run_ok ends, errors_append, quiet, List.nil_append]
    exact later a t

theorem focus {part : τ → σ} {withPart : τ → σ → τ} {action : Action σ α}
    (reports : Reports action) : Reports (Action.focus part withPart action) :=
  fun t => reports (part t)

theorem apart {start : σ} {action : Action σ α} (reports : Reports action) :
    Reports (Action.apart start action : Action τ α) :=
  fun _ => reports start

theorem imported {action : Action σ α} (reports : Reports action) (file : String)
    (own : ∀ s fault, (action.run s).result = .error fault → fault.isImported = false) :
    Reports (Action.mapFault (.imported file) action) := by
  intro s
  have here := reports s
  have result : ((Action.mapFault (.imported file) action).run s).result =
      (action.run s).result.mapError (.imported file) := rfl
  rw [result]
  cases ends : (action.run s).result with
  | ok a =>
    rw [ends] at here
    exact here
  | error fault =>
    rw [ends] at here
    exact here.trans (Fault.report_imported (own s fault ends) file).symm

theorem diagnosed {action : Action σ α} (reports : Reports action) (s : σ) :
    (action.run s).Diagnosed := by
  have here := reports s
  cases ends : (action.run s).result with
  | ok a =>
    have none : errors (action.run s).log = [] := by rw [here, ends, reported]
    refine ⟨by simp [none], fun entry => ?_⟩
    simp [none, ends]
  | error fault =>
    have those : errors (action.run s).log = fault.report := by rw [here, ends, reported]
    refine ⟨those ▸ fault.length_report, fun entry => ?_⟩
    rw [those, Fault.mem_report, ends]
    constructor
    · rintro ⟨line, name, misses, rfl⟩
      exact ⟨fault, line, name, rfl, misses, rfl, rfl⟩
    · rintro ⟨_, line, name, ⟨⟩, misses, rfl, -⟩
      exact ⟨line, name, misses, rfl⟩

end Reports

end Action

namespace Instance

def given (i : Instance) : Nat := (arguments i.tokens).length

def expected (i : Instance) : Nat := i.source.params.length

def Lacks (i : Instance) : Prop := i.given < i.expected

instance : DecidablePred Lacks := fun i => inferInstanceAs (Decidable (i.given < i.expected))

def warning (i : Instance) : LogEntry := .fewArguments i.source.name i.expected i.given

theorem log_written (instances : List Instance) :
    (written instances).log = (instances.filter (·.Lacks)).map warning := by
  induction instances with
  | nil => rfl
  | cons i later ih =>
    have here : i.output.log = if i.Lacks then [i.warning] else [] := rfl
    rw [written_cons, Output.log_append, here, ih]
    by_cases lacks : i.Lacks
    · rw [if_pos lacks, List.filter_cons_of_pos (by simpa using lacks)]
      rfl
    · rw [if_neg lacks, List.filter_cons_of_neg (by simpa using lacks)]
      rfl

end Instance

namespace Macro

open Instance

theorem log_expansion (m : Macro) (tokens : List String) (parent : Option String) :
    (m.expansion tokens parent).log =
      ((m.instances tokens parent).filter (·.Lacks)).map warning := by
  rw [expansion_eq_written, log_written]

theorem errors_expansion (m : Macro) (tokens : List String) (parent : Option String) :
    errors (m.expansion tokens parent).log = [] := by
  rw [log_expansion, errors, List.filter_eq_nil_iff]
  intro entry member
  obtain ⟨i, -, rfl⟩ := List.mem_map.1 member
  simp [warning, LogEntry.level]

end Macro

namespace Registry

theorem defineAs_reports (name : String) (m : Macro) : Reports (defineAs name m) := by
  apply Reports.get.bind
  intro registry
  apply (Reports.update _).bind
  intro _
  by_cases known : registry.contains name = true
  · simp only [if_pos known]
    exact (Reports.note rfl).bind fun _ => .pure _
  · simp only [if_neg known]
    exact .pure _

theorem define_reports (m : Macro) : Reports (define m) := defineAs_reports m.name m

theorem target_reports (line : Nat) (text : String) (tokens : List String) :
    Reports (target line text tokens) := by
  rcases tokens with _ | ⟨keyword, _ | ⟨place, _ | ⟨name, arguments⟩⟩⟩
  · exact .fail rfl
  · exact .fail rfl
  · exact .fail rfl
  apply Reports.get.bind
  intro registry
  cases registry.get? name with
  | some m => exact .pure m
  | none =>
    -- the error alone is no report: it belongs to the fault behind it
    exact fun _ => rfl

theorem expandTokens_reports (line : Nat) (text : String) (tokens : List String) :
    Reports (expandTokens line text tokens) :=
  (target_reports line text tokens).bind fun m =>
    (Reports.note (m.errors_expansion tokens none)).bind fun _ => .pure _

theorem expandLine_reports (text : String) : Reports (expandLine text) := by
  unfold expandLine
  split
  · exact expandTokens_reports 1 text _
  · exact .fail rfl

end Registry

namespace Block

theorem reported_ofDirective (line : Nat) (text : String) (directive : Directive) :
    reported (Header.ofDirective line text directive) = [] := by
  unfold Header.ofDirective
  split <;> rfl

theorem contents_reports (header : Header) (line : Nat) (lines : List String) :
    Reports (contents header line lines) := by
  induction header, line, lines using contents.induct with
  | case1 header line =>
    rw [contents]
    exact .fail rfl
  | case2 header line text rest kind =>
    rw [contents]
    simp only [kind]
    exact .pure _
  | case3 header line text rest body kind ih =>
    rw [contents]
    simp only [kind]
    exact ih.bind fun _ => .pure _
  | case4 header line text rest tokens kind ih =>
    rw [contents]
    simp only [kind]
    exact (Registry.target_reports line text tokens).bind fun _ => ih.bind fun _ => .pure _
  | case5 header line text rest tokens kind =>
    rw [contents]
    simp only [kind]
    exact .fail rfl
  | case6 header line text rest tokens kind ihInner ihRest =>
    rw [contents]
    simp only [kind]
    apply (Reports.ofExcept (reported_ofDirective line text (.definition tokens))).bind
    intro inner
    apply (ihInner inner).bind
    intro held
    apply (Reports.note rfl).bind
    intro _
    apply (Registry.define_reports _).bind
    intro _
    exact (ihRest held.2).bind fun _ => .pure _

theorem read_reports (line : Nat) (text : String) (rest : List String) :
    Reports (read line text rest) :=
  (Reports.ofExcept (reported_ofDirective line text (Directive.ofLine text))).bind fun header =>
    (contents_reports header (line + 1) rest).bind fun _ => .pure _

theorem readAt_reports (lines : List String) (start : Nat) : Reports (readAt lines start) := by
  unfold readAt
  cases lines.drop start with
  | nil => exact .fail rfl
  | cons text rest => exact (read_reports (start + 1) text rest).bind fun _ => .pure _

theorem readAt_not_imported {lines : List String} {start : Nat} {registry : Registry}
    {fault : Fault} (failed : ((readAt lines start).run registry).result = .error fault) :
    fault.isImported = false := by
  have fails : (readAt lines start).Fails registry fault _ := ⟨failed, rfl⟩
  unfold readAt at fails
  cases left : lines.drop start with
  | nil =>
    simp only [left, fails_fail] at fails
    rw [fails.1]
    rfl
  | cons text rest =>
    simp only [left, fails_bind, fails_pure, and_false, exists_false, or_false] at fails
    exact (read_late fails).not_imported

end Block

namespace Pack

theorem errors_read (pack : Pack) (path : String) : errors (pack.read path).log = [] := by
  unfold read
  split
  · rfl
  · split
    · split <;> rfl
    · rfl

end Pack

namespace Session

theorem readLines_reports (pack : Pack) (path : String) : Reports (readLines pack path) := by
  apply (Reports.update _).bind
  intro _
  apply (Reports.note (pack.errors_read path)).bind
  intro _
  cases (pack.read path).found with
  | ok found => exact .pure found
  | error cause => exact .fail rfl

theorem load_reports (pack : Pack) (target : ImportTarget) : Reports (load pack target) := by
  apply (readLines_reports pack target.file).bind
  rintro (_ | lines)
  · exact .pure none
  simp only
  cases lines.findIdx? target.definedBy with
  | none => exact .pure none
  | some position =>
    have reading := (Block.readAt_reports lines position).imported target.file
      fun _ _ => Block.readAt_not_imported
    exact reading.apart.bind fun _ => .pure _

theorem fetch_reports (pack : Pack) (target : ImportTarget) : Reports (fetch pack target) := by
  apply Reports.get.bind
  intro session
  cases session.cache.get? target.key with
  | some answer => exact (Reports.note rfl).bind fun _ => .pure answer
  | none =>
    exact (Reports.note rfl).bind fun _ => (load_reports pack target).bind fun answer =>
      (Reports.update _).bind fun _ => .pure answer

theorem fetchTokens_reports (pack : Pack) (text : String) (tokens : List String) :
    Reports (fetchTokens pack text tokens) := by
  unfold fetchTokens
  cases ImportTarget.ofTokens? tokens with
  | none => exact .fail rfl
  | some target => exact (fetch_reports pack target).bind fun _ => .pure _

theorem fetchLine_reports (pack : Pack) (text : String) : Reports (fetchLine pack text) := by
  unfold fetchLine
  split
  · exact (fetchTokens_reports pack text _).bind fun _ => .pure _
  · exact .fail rfl

end Session

namespace Workspace

theorem adopt_reports (name : String) (m : Macro) : Reports (adopt name m) := by
  have declared : Reports (onRegistry (Registry.define m)) := (Registry.define_reports m).focus
  unfold adopt
  by_cases other : name ≠ m.name
  · simp only [if_pos other]
    have spelled : Reports (onRegistry (Registry.defineAs name m)) :=
      (Registry.defineAs_reports name m).focus
    exact spelled.bind fun _ => declared.bind fun _ => .pure ()
  · simp only [if_neg other]
    exact declared.bind fun _ => .pure ()

end Workspace

namespace Script

open Workspace

theorem expandFrom_reports (pack : Pack) (line : Nat) (lines : List String) :
    Reports (expandFrom pack line lines) := by
  induction line, lines using expandFrom.induct with
  | case1 line =>
    rw [expandFrom]
    exact .pure []
  | case2 line text rest body kind ih =>
    rw [expandFrom]
    simp only [kind]
    exact ih.bind fun _ => .pure _
  | case3 line text rest tokens kind ih =>
    rw [expandFrom]
    simp only [kind]
    apply (Registry.expandTokens_reports line text tokens).focus.bind
    intro written
    exact ih.bind fun _ => .pure _
  | case4 line text rest tokens kind ih =>
    rw [expandFrom]
    simp only [kind]
    apply (Block.read_reports line text rest).focus.bind
    intro found
    apply (Reports.note rfl).bind
    intro _
    apply (Registry.define_reports found.1).focus.bind
    intro _
    exact ih found.2
  | case5 line text rest tokens kind ih =>
    rw [expandFrom]
    simp only [kind]
    apply (Session.fetchTokens_reports pack text tokens).focus.bind
    rintro ⟨target, _ | m⟩
    · exact .fail rfl
    · exact (adopt_reports target.name m).bind fun _ => ih
  | case6 line text rest kind =>
    rw [expandFrom]
    simp only [kind]
    exact .fail rfl

theorem expand_reports (pack : Pack) (lines : List String) : Reports (expand pack lines) :=
  fun session => expandFrom_reports pack 1 lines ⟨session, Dict.empty⟩

end Script

/-- The log of a call has an error exactly where the call ends with a macro that is not known, and
that error names the line and the macro. An expansion logs a warning for each of its instances that
has too few arguments, in the order in which the instances write, and nothing else. -/
theorem diagnostics_exact :
    (∀ registry line, ((Registry.expandLine line).run registry).Diagnosed) ∧
    (∀ registry lines start, ((Block.readAt lines start).run registry).Diagnosed) ∧
    (∀ pack session line, ((Session.fetchLine pack line).run session).Diagnosed) ∧
    (∀ pack session script, ((Script.expand pack script).run session).Diagnosed) ∧
    (∀ (m : Macro) (invocation : List String) (parent : Option String) (out : Output),
      (m.expand invocation parent out).log =
          out.log ++ ((m.instances invocation parent).filter (·.Lacks)).map Instance.warning ∧
        (m.expand invocation parent out).lines =
          out.lines ++ (m.instances invocation parent).flatMap (·.output.lines) ∧
        (m.instances invocation parent).Pairwise (fun a b => a.position < b.position) ∧
        ∀ position i, m.instanceAt? invocation parent position = some i ↔
          i ∈ m.instances invocation parent ∧ i.position = position) ∧
    ∀ i : Instance, i.warning.level = .warn ∧ i.warning.text =
      s!"macro `{i.source.name}` expects {i.expected} arguments, got {i.given}" := by
  refine ⟨?_, ?_, ?_, ?_, ?_, ?_⟩
  · intro registry line
    exact (Registry.expandLine_reports line).diagnosed registry
  · intro registry lines start
    exact (Block.readAt_reports lines start).diagnosed registry
  · intro pack session line
    exact (Session.fetchLine_reports pack line).diagnosed session
  · intro pack session script
    exact (Script.expand_reports pack script).diagnosed session
  · intro m invocation parent out
    refine ⟨?_, ?_, m.instances_ordered invocation parent, ?_⟩
    · rw [Macro.expand, Output.log_append, Macro.log_expansion]
    · rw [Macro.expand, Output.lines_append, Macro.expansion_eq_written, Instance.written]
    · exact fun _ _ => Macro.instanceAt?_eq_some
  · exact fun _ => ⟨rfl, rfl⟩

/-- A block in a file is read with its own line numbers, and so is its error reported. -/
example :
    errors ((Script.expand (.memory ⟨[("wood.txt", ["QBN:", "macro Tree", "macro r: Root"])]⟩)
      ["import macro tree from wood.txt"]).run Session.start).log = [.undefined 3 "Root"] := by
  decide +kernel

end QuestScript

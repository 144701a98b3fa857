import Scriptlet.Proofs.Bounded
import Scriptlet.Proofs.Provenance
import Scriptlet.Report

/-!
# One phase after the other

`compile` runs a phase if the one before it has run and has found no error. The report on a phase that has
run is what the phase has to say (`Phases.Shows`); on the others there is nothing in it. How far the phases
get is one of four cases (`Course`), and all that is proved of the report goes through these.
-/

namespace Scriptlet

/-- The phase that comes before. -/
def Phase.previous? : Phase → Option Phase
  | .lexical => none
  | .syntactic => some .lexical
  | .semantic => some .syntactic
  | .execution => some .semantic

namespace Phases

def status (p : Phases) : Phase → PhaseStatus
  | .lexical => p.lexical.status
  | .syntactic => p.tree.status
  | .semantic => p.check.status
  | .execution => p.run.status

/-- The diagnostics that are listed under a phase. -/
def reported (p : Phases) : Phase → List Diagnostic
  | .lexical => p.lexical.diagnostics
  | .syntactic => p.tree.diagnostics
  | .semantic => p.check.diagnostics
  | .execution => p.run.diagnostics

/-- The phase is reported as skipped, and there is nothing that would come from it. -/
def Skips (p : Phases) : Phase → Prop
  | .lexical => False
  | .syntactic => p.tree = ⟨.skipped, none, []⟩
  | .semantic => p.check = ⟨.skipped, none, []⟩
  | .execution => p.run = ⟨.skipped, none, []⟩

/-- The report on the phase is made from what came of it. -/
def Shows (p : Phases) (lexed : Tokens) (read : ReadProgram) (checked : CheckResult) (outcome : Run.Outcome) :
    Phase → Prop
  | .lexical => p.lexical = .of lexed
  | .syntactic => p.tree = .of read.program read.diagnostics
  | .semantic => p.check = .of checked
  | .execution => p.run = .of outcome

end Phases

/-- No diagnostic is an error. -/
def NoError (ds : List Diagnostic) : Prop := ∀ d ∈ ds, d.severity ≠ .error

theorem Diagnostic.anyError_eq_false {ds : List Diagnostic} : anyError ds = false ↔ NoError ds := by
  simp [anyError, isError, NoError]

theorem Diagnostic.anyError_eq_true {ds : List Diagnostic} : anyError ds = true ↔ ¬ NoError ds := by
  rw [← anyError_eq_false, Bool.not_eq_false]

section

variable (options : CompileOptions) (lines : Nat) (lexed : Tokens) (read : ReadProgram) (checked : CheckResult)
  (outcome : Run.Outcome)

/-- How far the phases get, and what is reported then. -/
inductive Course : Report → Prop
  | lexical (h : ¬ NoError lexed.diagnostics) :
      Course (.of options { lexical := .of lexed }
        { timed := [.lexical], tokenCount := lexed.tokens.length, linesOfCode := lines })
  | syntactic (h : NoError lexed.diagnostics) (h' : ¬ NoError read.diagnostics) :
      Course (.of options { lexical := .of lexed, tree := .of read.program read.diagnostics }
        { timed := [.lexical, .syntactic], tokenCount := lexed.tokens.length,
          nodeCount := some read.program.count, linesOfCode := lines })
  | semantic (h : NoError lexed.diagnostics) (h' : NoError read.diagnostics)
      (h'' : ¬ NoError checked.diagnostics) :
      Course (.of options
        { lexical := .of lexed, tree := .of read.program read.diagnostics, check := .of checked }
        { timed := [.lexical, .syntactic, .semantic], tokenCount := lexed.tokens.length,
          nodeCount := some read.program.count, linesOfCode := lines })
  | execution (h : NoError lexed.diagnostics) (h' : NoError read.diagnostics)
      (h'' : NoError checked.diagnostics) :
      Course (.of options
        { lexical := .of lexed, tree := .of read.program read.diagnostics, check := .of checked,
          run := .of outcome }
        { timed := [.lexical, .syntactic, .semantic, .execution], tokenCount := lexed.tokens.length,
          nodeCount := some read.program.count, stepCount := some outcome.steps, linesOfCode := lines })

end

theorem compile_course (options : CompileOptions) (clock : Clock) (source : String) :
    let lexed := Tokens.ofText source
    let read := Program.ofTokens lexed.tokens
    Course options (linesOfCode source) lexed read read.program.check
      (read.program.execute ⟨options.limits, clock⟩) (compile options clock source) := by
  intro lexed read
  unfold compile
  dsimp only
  split
  · next h => exact .lexical (Diagnostic.anyError_eq_true.1 h)
  · next h =>
    have hlexed := Diagnostic.anyError_eq_false.1 (Bool.eq_false_iff.2 h)
    split
    · next h' => exact .syntactic hlexed (Diagnostic.anyError_eq_true.1 h')
    · next h' =>
      have hread := Diagnostic.anyError_eq_false.1 (Bool.eq_false_iff.2 h')
      split
      · next h'' => exact .semantic hlexed hread (Diagnostic.anyError_eq_true.1 h'')
      · next h'' => exact .execution hlexed hread (Diagnostic.anyError_eq_false.1 (Bool.eq_false_iff.2 h''))

@[simp] theorem LexicalReport.diagnostics_of (lexed : Tokens) : (of lexed).diagnostics = lexed.diagnostics :=
  rfl

@[simp] theorem TreeReport.diagnostics_of (p : Program) (ds : List Diagnostic) : (of p ds).diagnostics = ds :=
  rfl

@[simp] theorem CheckReport.diagnostics_of (r : CheckResult) : (of r).diagnostics = r.diagnostics := rfl

@[simp] theorem RunReport.diagnostics_of (o : Run.Outcome) : (of o).diagnostics = o.diagnostics := rfl

@[simp] theorem TreeReport.skipped_ne_of (p : Program) (ds : List Diagnostic) : skipped ≠ of p ds := by
  simp [skipped, of]

@[simp] theorem CheckReport.skipped_ne_of (r : CheckResult) : skipped ≠ of r := by
  simp [skipped, of]

@[simp] theorem RunReport.skipped_ne_of (o : Run.Outcome) : skipped ≠ of o := by
  simp [skipped, of]

theorem Report.eq_of_metrics {options : CompileOptions} {phases : Phases} {metrics m : Metrics}
    (h : (Report.of options phases metrics).metrics = some m) : m = metrics := by
  unfold Report.of at h
  split at h
  · exact (Option.some.inj h).symm
  · cases h

theorem PhaseStatus.ofDiagnostics_eq_ok {ds : List Diagnostic} : ofDiagnostics ds = .ok ↔ NoError ds := by
  unfold ofDiagnostics
  rw [← Diagnostic.anyError_eq_false]
  cases Diagnostic.anyError ds <;> simp

theorem PhaseStatus.ofRun_eq_ok {status : Run.Status} : ofRun status = .ok ↔ status = .ok := by
  cases status <;> simp [ofRun]

theorem Phases.allOk_iff (p : Phases) : p.allOk = true ↔ ∀ phase, p.status phase = .ok := by
  simp only [allOk, List.all_cons, List.all_nil, Bool.and_true, Bool.and_eq_true, decide_eq_true_eq]
  constructor
  · rintro ⟨hlexical, htree, hcheck, hrun⟩ (_ | _ | _ | _)
    · exact hlexical
    · exact htree
    · exact hcheck
    · exact hrun
  · exact fun h => ⟨h .lexical, h .syntactic, h .semantic, h .execution⟩

namespace Course

variable {options : CompileOptions} {lines : Nat} {lexed : Tokens} {read : ReadProgram}
  {checked : CheckResult} {outcome : Run.Outcome} {r : Report}

theorem shows_lexical (h : Course options lines lexed read checked outcome r) :
    r.phases.Shows lexed read checked outcome .lexical := by
  cases h <;> rfl

/-- A phase has run if the one before it has, without an error. -/
theorem shows_iff (h : Course options lines lexed read checked outcome r) {phase before : Phase}
    (hbefore : phase.previous? = some before) :
    r.phases.Shows lexed read checked outcome phase ↔
      r.phases.Shows lexed read checked outcome before ∧ NoError (r.phases.reported before) := by
  cases phase <;> cases hbefore <;> cases h <;>
    simp_all [Phases.Shows, Phases.reported, Report.of]

theorem skips (h : Course options lines lexed read checked outcome r) {phase : Phase}
    (hphase : ¬ r.phases.Shows lexed read checked outcome phase) : r.phases.Skips phase := by
  cases h with
  | lexical =>
    cases phase with
    | lexical => exact absurd rfl hphase
    | syntactic | semantic | execution => rfl
  | syntactic =>
    cases phase with
    | lexical | syntactic => exact absurd rfl hphase
    | semantic | execution => rfl
  | semantic =>
    cases phase with
    | lexical | syntactic | semantic => exact absurd rfl hphase
    | execution => rfl
  | execution => cases phase <;> exact absurd rfl hphase

/-- The metrics tell of the phases that have run, and of no others. -/
theorem metrics (h : Course options lines lexed read checked outcome r) {m : Metrics}
    (hm : r.metrics = some m) :
    (∀ phase, phase ∈ m.timed ↔ r.phases.Shows lexed read checked outcome phase) ∧
      (m.nodeCount.isSome ↔ r.phases.Shows lexed read checked outcome .syntactic) ∧
      (m.stepCount.isSome ↔ r.phases.Shows lexed read checked outcome .execution) := by
  refine ⟨?_, ?_, ?_⟩
  · rintro (_ | _ | _ | _) <;> cases h <;> obtain rfl := Report.eq_of_metrics hm <;>
      simp [Phases.Shows, Report.of]
  · cases h <;> obtain rfl := Report.eq_of_metrics hm <;> simp [Phases.Shows, Report.of]
  · cases h <;> obtain rfl := Report.eq_of_metrics hm <;> simp [Phases.Shows, Report.of]

/-- What is listed under a phase has been reported by it. -/
theorem belongs (h : Course options lines lexed read checked outcome r)
    (hlexed : ∀ d ∈ lexed.diagnostics, d.Belongs .lexical)
    (hread : ∀ d ∈ read.diagnostics, d.Belongs .syntactic)
    (hchecked : ∀ d ∈ checked.diagnostics, d.Belongs .semantic)
    (hrun : ∀ d ∈ outcome.diagnostics, d.Belongs .execution) (phase : Phase) :
    ∀ d ∈ r.phases.reported phase, d.Belongs phase := by
  by_cases hshows : r.phases.Shows lexed read checked outcome phase
  · cases phase <;> simp only [Phases.Shows] at hshows <;> simp only [Phases.reported, hshows]
    · exact hlexed
    · exact hread
    · exact hchecked
    · exact hrun
  · have hskips := h.skips hshows
    cases phase <;> simp only [Phases.Skips] at hskips <;> simp only [Phases.reported, hskips]
    all_goals exact List.forall_mem_nil _

theorem status_ok_iff (h : Course options lines lexed read checked outcome r)
    (hrun : outcome.status = .ok ↔ NoError outcome.diagnostics) (phase : Phase) :
    r.phases.status phase = .ok ↔
      r.phases.Shows lexed read checked outcome phase ∧ NoError (r.phases.reported phase) := by
  by_cases hshows : r.phases.Shows lexed read checked outcome phase
  · rw [and_iff_right hshows]
    cases phase <;> simp only [Phases.Shows] at hshows <;> simp only [Phases.status, Phases.reported, hshows]
    · exact PhaseStatus.ofDiagnostics_eq_ok
    · exact PhaseStatus.ofDiagnostics_eq_ok
    · exact PhaseStatus.ofDiagnostics_eq_ok
    · exact PhaseStatus.ofRun_eq_ok.trans hrun
  · have hskips := h.skips hshows
    cases phase <;> simp only [Phases.Skips] at hskips <;> simp [Phases.status, hskips, hshows]

/-- A program is a success if all phases have run without an error. -/
theorem success_iff (h : Course options lines lexed read checked outcome r)
    (hrun : outcome.status = .ok ↔ NoError outcome.diagnostics) :
    r.success = true ↔ (∀ phase, r.phases.Shows lexed read checked outcome phase) ∧
      ∀ phase, NoError (r.phases.reported phase) := by
  have hsuccess : r.success = r.phases.allOk := by cases h <;> rfl
  rw [hsuccess, Phases.allOk_iff, ← forall_and]
  exact forall_congr' (h.status_ok_iff hrun)

end Course

theorem Program.execute_ok_iff (b : Bounds) (p : Program) :
    (p.execute b).status = .ok ↔ NoError (p.execute b).diagnostics := by
  rw [← (execute_reports b p).1]
  constructor
  · intro hnone
    rw [hnone]
    exact List.forall_mem_nil _
  · unfold execute
    split
    · exact fun _ => rfl
    · exact fun hnone => absurd rfl (hnone _ List.mem_cons_self)

/-- The phases run one after the other, as long as there is no error. Here `ran` says of a phase that the
report on it is what came of it. The lexical phase runs, and each of the others runs exactly if the one
before it did and reported no error. A phase that did not run is reported as skipped, without diagnostics
and without what it would have brought; nor do the metrics, if they are there, count or time anything of
it. What is listed under a phase carries that phase and a code from its range, and is a warning exactly if
its code is W0207 or W0208. Success is that all phases ran and that there is no error in any of them. -/
theorem compile_gated (options : CompileOptions) (clock : Clock) (source : String) :
    let r := compile options clock source
    let lexed := Tokens.ofText source
    let read := Program.ofTokens lexed.tokens
    let ran := r.phases.Shows lexed read read.program.check (read.program.execute ⟨options.limits, clock⟩)
    ran .lexical ∧
    (∀ phase before, phase.previous? = some before →
      (ran phase ↔ ran before ∧ ∀ d ∈ r.phases.reported before, d.severity ≠ .error)) ∧
    (∀ phase, ¬ ran phase → r.phases.Skips phase) ∧
    (∀ m, r.metrics = some m → (∀ phase, phase ∈ m.timed ↔ ran phase) ∧
      (m.nodeCount.isSome ↔ ran .syntactic) ∧ (m.stepCount.isSome ↔ ran .execution)) ∧
    (∀ phase, ∀ d ∈ r.phases.reported phase, d.phase = phase ∧ phase.Owns d.code ∧
      (d.severity = .warning ↔ d.code.text = "W0207" ∨ d.code.text = "W0208")) ∧
    (r.success = true ↔ (∀ phase, ran phase) ∧
      ∀ phase, ∀ d ∈ r.phases.reported phase, d.severity ≠ .error) := by
  intro r lexed read ran
  have hcourse := compile_course options clock source
  have hbelongs := hcourse.belongs (Tokens.diagnostics_belong source) (Program.read_belongs lexed.tokens)
    read.program.check_belongs (read.program.execute_belongs ⟨options.limits, clock⟩)
  refine ⟨hcourse.shows_lexical, fun _ _ => hcourse.shows_iff, fun _ => hcourse.skips,
    fun _ => hcourse.metrics, fun phase d hd => ?_, hcourse.success_iff (Program.execute_ok_iff _ _)⟩
  have hd := hbelongs phase d hd
  exact ⟨hd.phase, hd.code, hd.severity⟩

end Scriptlet

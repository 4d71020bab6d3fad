import Cindral.Actions.Resolution

/-!
# What answers in place of a workflow

A resolution settles on the jobs that run. Nothing else is asked of the workflows, so what it
raises, and with it what answers instead, is read off the list of these jobs and off the files that
could not be read.
-/

namespace Cindral.Actions
open Cindral.Base Cindral.Workflow

variable {python : Python} {repo : Checkout} {job : JobSpec}

/-! ## What there is to run -/

/-- A file that reads as a workflow, or that is malformed. -/
def WorkflowFile.Read (file : WorkflowFile) : Prop :=
  ∀ refusal, file.reading = .error refusal → ∃ message, refusal = .invalid message

def workflowsOf (files : List WorkflowFile) : List Workflow :=
  files.filterMap fun file => file.reading.toOption

def malformedText (file : WorkflowFile) : Option (String × String) :=
  match file.reading with
  | .error (.invalid message) => some (file.name, message)
  | _ => none

def malformedFiles (files : List WorkflowFile) : List (String × String) := files.filterMap malformedText

def Malformed (repo : Checkout) : Prop :=
  ∃ file ∈ repo.workflowFiles, ∃ message, file.reading = .error (.invalid message)

theorem malformedFiles_eq_nil : malformedFiles repo.workflowFiles = [] ↔ ¬ Malformed repo := by
  rw [malformedFiles, List.filterMap_eq_nil_iff]
  constructor
  · rintro none ⟨file, member, message, broken⟩
    have := none file member
    rw [malformedText, broken] at this
    cases this
  · intro whole file member
    unfold malformedText
    split
    · rename_i message broken
      exact absurd ⟨file, member, message, broken⟩ whole
    · rfl

theorem parseableWorkflows_read {files : List WorkflowFile} (read : ∀ file ∈ files, file.Read) :
    parseableWorkflows files = .ok (workflowsOf files, malformedFiles files) := by
  induction files with
  | nil => rfl
  | cons file rest ih =>
    have later := ih fun file member => read file (List.mem_cons_of_mem _ member)
    have first := read file List.mem_cons_self
    rw [parseableWorkflows, later]
    unfold workflowsOf malformedFiles
    cases reading : file.reading with
    | ok workflow =>
      rw [List.filterMap_cons_some (by rw [reading]; rfl), List.filterMap_cons_none
        (by rw [malformedText, reading])]
      rfl
    | error refusal =>
      obtain ⟨message, rfl⟩ := first refusal reading
      rw [List.filterMap_cons_none (by rw [reading]; rfl), List.filterMap_cons_some
        (by rw [malformedText, reading])]
      rfl

theorem parseableWorkflows_refused {files : List WorkflowFile} (refused : ¬ ∀ file ∈ files, file.Read) :
    ∃ refusal, parseableWorkflows files = .error refusal := by
  induction files with
  | nil => exact absurd (fun file member => absurd member List.not_mem_nil) refused
  | cons file rest ih =>
    rw [parseableWorkflows]
    by_cases later : ∀ file ∈ rest, file.Read
    · have first : ¬ file.Read := fun first => refused fun other member => by
        rcases List.mem_cons.mp member with rfl | member
        · exact first
        · exact later other member
      split
      · rename_i workflow reading
        exact absurd (fun refusal broken => by rw [reading] at broken; cases broken) first
      · rename_i message reading
        exact absurd (fun refusal broken =>
          ⟨message, by rw [reading] at broken; exact (Except.error.inj broken).symm⟩) first
      · exact ⟨_, rfl⟩
    · obtain ⟨refusal, raised⟩ := ih later
      rw [raised]
      split <;> exact ⟨_, rfl⟩

section Sift
variable {found : List (Workflow × String × WorkflowJob)}

/-- The condition of a candidate says that it runs, or that it does not. -/
def Says (python : Python) (job : JobSpec) (runs : Bool) (found : Workflow × String × WorkflowJob) :
    Prop :=
  runsIn python job found.1 found.2.2 = .ok runs

/-- Whether the condition lets a candidate run, with no answer where it is refused. -/
def verdict (python : Python) (job : JobSpec) (found : Workflow × String × WorkflowJob) : Option Bool :=
  (runsIn python job found.1 found.2.2).toOption

def runners (python : Python) (job : JobSpec) (found : List (Workflow × String × WorkflowJob)) :
    List (Workflow × WorkflowJob) :=
  (found.filter fun candidate => verdict python job candidate = some true).map fun candidate =>
  (candidate.1, candidate.2.2)

def skippedNames (python : Python) (job : JobSpec)
    (found : List (Workflow × String × WorkflowJob)) : List String :=
  (found.filter fun candidate => verdict python job candidate = some false).map fun candidate =>
    s!"{candidate.1.path}:{candidate.2.1}"

theorem Says.verdict {runs : Bool} {candidate : Workflow × String × WorkflowJob}
    (h : Says python job runs candidate) :
    verdict python job candidate = some runs := by
  rw [Actions.verdict, show runsIn python job candidate.1 candidate.2.2 = .ok runs from h]
  rfl

theorem sift_judged (judged : ∀ candidate ∈ found, ∃ runs, Says python job runs candidate) :
    sift python job found = .ok (runners python job found, skippedNames python job found) := by
  induction found with
  | nil => rfl
  | cons candidate rest ih =>
    obtain ⟨workflow, jobId, j⟩ := candidate
    have later := ih fun candidate member => judged candidate (List.mem_cons_of_mem _ member)
    obtain ⟨runs, said⟩ := judged _ List.mem_cons_self
    have answer := said.verdict
    rw [sift, show runsIn python job workflow j = .ok runs from said, later]
    unfold runners skippedNames
    cases runs with
    | true => rw [List.filter_cons_of_pos (by simpa using answer), List.filter_cons_of_neg
        (by simp [answer])]; rfl
    | false => rw [List.filter_cons_of_neg (by simp [answer]), List.filter_cons_of_pos
        (by simpa using answer)]; rfl

theorem sift_refused (refused : ¬ ∀ candidate ∈ found, ∃ runs, Says python job runs candidate) :
    ∃ refusal, sift python job found = .error refusal := by
  induction found with
  | nil => exact absurd (fun candidate member => absurd member List.not_mem_nil) refused
  | cons candidate rest ih =>
    obtain ⟨workflow, jobId, j⟩ := candidate
    rw [sift]
    cases first : runsIn python job workflow j with
    | error refusal => exact ⟨refusal, rfl⟩
    | ok runs =>
      have later : ¬ ∀ candidate ∈ rest, ∃ runs, Says python job runs candidate :=
          fun later => refused fun candidate member => by
        rcases List.mem_cons.mp member with rfl | member
        · exact ⟨runs, first⟩
        · exact later candidate member
      obtain ⟨refusal, raised⟩ := ih later
      rw [raised]
      exact ⟨refusal, rfl⟩

end Sift

/-- The jobs that the event, the name of the run and the conditions of the repository leave to run. -/
def running (python : Python) (repo : Checkout) (job : JobSpec) : List (Workflow × WorkflowJob) :=
  runners python job (candidates python job (workflowsOf repo.workflowFiles))

/-- Every file reads or is malformed, and every condition that is asked has an answer. -/
structure Decided (python : Python) (repo : Checkout) (job : JobSpec) : Prop where
  read : ∀ file ∈ repo.workflowFiles, file.Read
  judged : ∀ candidate ∈ candidates python job (workflowsOf repo.workflowFiles), ∃ runs,
    Says python job runs candidate

/-- A committed workflow declares the event of the run. -/
def Declared (repo : Checkout) (job : JobSpec) : Prop :=
  ∃ workflow ∈ workflowsOf repo.workflowFiles, eventDeclares (eventNameFor job) workflow.on = true

theorem targetJob_eq_none : targetJob job = none ↔ job.command = [] := List.head?_eq_none_iff

/-! ## What is raised -/

theorem resolveWorkflowJob_refused (undecided : ¬ Decided python repo job) :
    ∃ refusal, resolveWorkflowJob python repo job = .error (.refused refusal) := by
  unfold resolveWorkflowJob
  by_cases read : ∀ file ∈ repo.workflowFiles, file.Read
  · have unjudged : ¬ ∀ candidate ∈ candidates python job (workflowsOf repo.workflowFiles), ∃ runs,
      Says python job runs candidate :=
      fun judged => undecided ⟨read, judged⟩
    obtain ⟨refusal, raised⟩ := sift_refused unjudged
    rw [parseableWorkflows_read read]
    show ∃ refusal, (if workflowsOf repo.workflowFiles = [] then _ else _) = _
    split
    · rename_i none
      rw [none] at unjudged
      exact absurd (fun candidate member => absurd member List.not_mem_nil) unjudged
    · exact ⟨refusal, by rw [raised]; rfl⟩
  · obtain ⟨refusal, raised⟩ := parseableWorkflows_refused read
    rw [raised]
    exact ⟨refusal, rfl⟩

/-- What a resolution raises when no job runs. -/
def lackOfJobs (python : Python) (repo : Checkout) (job : JobSpec) : Raised :=
  nothingMatched job ((workflowsOf repo.workflowFiles).any fun workflow =>
    eventDeclares (eventNameFor job) workflow.on)
    (malformedFiles repo.workflowFiles)
    (skippedNames python job (candidates python job (workflowsOf repo.workflowFiles)))

/-- A resolution in which nothing is refused raises for a run without jobs, and picks one of its
jobs otherwise. -/
theorem resolveWorkflowJob_decided (decided : Decided python repo job)
    (workflows : workflowsOf repo.workflowFiles ≠ []) :
    resolveWorkflowJob python repo job =
      if running python repo job = [] then .error (lackOfJobs python repo job) else single job
        (running python repo job) := by
  unfold resolveWorkflowJob
  rw [parseableWorkflows_read decided.read]
  show (if workflowsOf repo.workflowFiles = [] then _ else _) = _
  rw [if_neg workflows, sift_judged decided.judged]
  rfl

theorem resolveWorkflowJob_unreadable (decided : Decided python repo job)
    (none : workflowsOf repo.workflowFiles = []) :
    ∃ refusal, resolveWorkflowJob python repo job = .error (.refused refusal) := by
  unfold resolveWorkflowJob
  rw [parseableWorkflows_read decided.read]
  show ∃ refusal, (if workflowsOf repo.workflowFiles = [] then _ else _) = _
  rw [if_pos none]
  split <;> exact ⟨_, rfl⟩

theorem running_of_workflows_nil (none : workflowsOf repo.workflowFiles = []) :
    running python repo job = [] := by
  rw [running, none]
  rfl

/-- A run without a name that matches these jobs prefers one of them. -/
def Prefers (job : JobSpec) (matching : List (Workflow × WorkflowJob)) : Prop :=
  job.command = [] ∧ ∃ found, (matching.filter fun found => isPreferred found.2) = [found]

theorem prefers_iff {matching : List (Workflow × WorkflowJob)} :
    Prefers job matching ↔ ∃ found, preferred job matching = [found] := by
  unfold Prefers preferred
  rw [← targetJob_eq_none]
  split
  · rename_i unnamed
    simp only [unnamed, true_and]
  · rename_i named
    constructor
    · rintro ⟨unnamed, -⟩
      exact absurd unnamed named
    · rintro ⟨found, ⟨⟩⟩

theorem single_cases (job : JobSpec) {matching : List (Workflow × WorkflowJob)} (some : matching ≠ []) :
    (∃ found ∈ matching, single job matching = .ok found) ∧ (matching.length < 2 ∨ Prefers job matching) ∨
      (∃ message, single job matching = .error (.ambiguous message)) ∧ 2 ≤ matching.length ∧
      ¬ Prefers job matching := by
  rw [prefers_iff]
  unfold single
  rcases matching with - | ⟨first, - | ⟨second, rest⟩⟩
  · exact absurd rfl some
  · exact Or.inl ⟨⟨first, List.mem_singleton_self first, rfl⟩, Or.inl (Nat.lt_succ_self 1)⟩
  have several : 2 ≤ (first :: second :: rest).length := Nat.le_add_left 2 rest.length
  rcases chosen : preferred job (first :: second :: rest) with - | ⟨found, - | ⟨other, more⟩⟩
  · exact Or.inr ⟨⟨_, rfl⟩, several, by rintro ⟨found, ⟨⟩⟩⟩
  · have kept : found ∈ preferred job (first :: second :: rest) := by
      rw [chosen]; exact List.mem_singleton_self found
    refine Or.inl ⟨⟨found, ?_, rfl⟩, Or.inr ⟨found, rfl⟩⟩
    unfold preferred at kept
    split at kept
    · exact (List.mem_filter.mp kept).1
    · cases kept
  · exact Or.inr ⟨⟨_, rfl⟩, several, by rintro ⟨found, ⟨⟩⟩⟩

/-- Several jobs run, and none of them is the preferred one. -/
structure Several (python : Python) (repo : Checkout) (job : JobSpec) : Prop where
  decided : Decided python repo job
  several : 2 ≤ (running python repo job).length
  undivided : ¬ Prefers job (running python repo job)

/-- Nothing that is committed handles the event, whatever the ref, and the run asks for nothing else. -/
structure Gap (python : Python) (repo : Checkout) (job : JobSpec) : Prop where
  decided : Decided python repo job
  unnamed : job.command = []
  whole : ¬ Malformed repo
  undeclared : ¬ Declared repo job

theorem not_declared : (workflowsOf repo.workflowFiles).any
    (fun workflow => eventDeclares (eventNameFor job) workflow.on) = false ↔
    ¬ Declared repo job := by
  rw [← Bool.not_eq_true, List.any_eq_true]
  exact Iff.rfl

theorem lackOfJobs_cases (decided : Decided python repo job) :
    (∃ refusal, lackOfJobs python repo job = .refused refusal) ∨
      (∃ message, lackOfJobs python repo job = .noMatch message) ∧ Gap python repo job := by
  unfold lackOfJobs nothingMatched
  split
  · exact Or.inl ⟨_, rfl⟩
  · dsimp only
    split
    · exact Or.inl ⟨_, rfl⟩
    · rename_i gap
      obtain ⟨unnamed, rest⟩ := not_or.mp gap
      obtain ⟨whole, undeclared⟩ := not_or.mp rest
      have unnamed := targetJob_eq_none.mp (Option.not_isSome_iff_eq_none.mp unnamed)
      have whole := malformedFiles_eq_nil.mp (not_not.mp whole)
      have undeclared := not_declared.mp (Bool.not_eq_true _ ▸ undeclared)
      exact Or.inr ⟨⟨_, rfl⟩, decided, unnamed, whole, undeclared⟩

theorem resolveWorkflowJob_cases (python : Python) (repo : Checkout) (job : JobSpec) :
    (∃ refusal, resolveWorkflowJob python repo job = .error (.refused refusal)) ∨
      (∃ message, resolveWorkflowJob python repo job = .error (.noMatch message)) ∧ Gap python repo job ∨
      (∃ found ∈ running python repo job, resolveWorkflowJob python repo job = .ok found) ∨
      (∃ message, resolveWorkflowJob python repo job = .error (.ambiguous message)) ∧
      Several python repo job := by
  by_cases decided : Decided python repo job
  · by_cases workflows : workflowsOf repo.workflowFiles = []
    · exact Or.inl (resolveWorkflowJob_unreadable decided workflows)
    · rw [resolveWorkflowJob_decided decided workflows]
      split
      · rcases lackOfJobs_cases decided with ⟨refusal, same⟩ | ⟨⟨message, same⟩, gap⟩
        · exact Or.inl ⟨refusal, by rw [same]⟩
        · exact Or.inr (Or.inl ⟨⟨message, by rw [same]⟩, gap⟩)
      · rename_i some
        rcases single_cases job some with ⟨found, -⟩ | ⟨raised, several, undivided⟩
        · exact Or.inr (Or.inr (Or.inl found))
        · exact Or.inr (Or.inr (Or.inr ⟨raised, decided, several, undivided⟩))
  · exact Or.inl (resolveWorkflowJob_refused decided)

theorem resolveWorkflowJob_several (h : Several python repo job) :
    ∃ message, resolveWorkflowJob python repo job = .error (.ambiguous message) := by
  have some : running python repo job ≠ [] := fun none => by
    have := h.several
    rw [none] at this
    cases this
  rw [resolveWorkflowJob_decided h.decided (fun none => some (running_of_workflows_nil none)),
    if_neg some]
  rcases single_cases job some with ⟨-, few | prefers⟩ | ⟨raised, -, -⟩
  · exact absurd h.several (Nat.not_le.mpr few)
  · exact absurd prefers h.undivided
  · exact raised

theorem resolveWorkflowContract_raised {raised : Raised}
    (h : resolveWorkflowJob python repo job = .error raised) :
    resolveWorkflowContract python repo job = .error raised := by
  rw [resolveWorkflowContract, h]
  rfl

theorem translate_cases (repo : Checkout) (job : JobSpec) (workflow : Workflow) (j : WorkflowJob) :
    (∃ event contract, runContext job workflow.name j.id j.env = .ok event ∧
        repo.translation job workflow j event = .ok contract ∧ translate repo job workflow j = .ok
        contract) ∨
      ∃ refusal, translate repo job workflow j = .error (.refused refusal) := by
  unfold translate
  split
  · exact Or.inr ⟨_, rfl⟩
  · cases runContext job workflow.name j.id j.env with
    | error text => exact Or.inr ⟨_, rfl⟩
    | ok event =>
      cases translated : repo.translation job workflow j event with
      | error refusal =>
        refine Or.inr ⟨refusal, ?_⟩
        show Except.mapError _ _ = _
        rw [translated]
        rfl
      | ok contract =>
        refine Or.inl ⟨event, contract, rfl, translated, ?_⟩
        show Except.mapError _ _ = _
        rw [translated]
        rfl

/-- The job that was picked is what is translated, and the translation raises nothing that a
resolution raises of its own. -/
theorem resolveWorkflowContract_cases (python : Python) (repo : Checkout) (job : JobSpec) :
    (∃ refusal, resolveWorkflowContract python repo job = .error (.refused refusal)) ∨
      (∃ message, resolveWorkflowContract python repo job = .error (.noMatch message)) ∧
      Gap python repo job ∨
      (∃ workflow j event contract, (workflow, j) ∈ running python repo job ∧
        runContext job workflow.name j.id j.env = .ok event ∧ repo.translation job workflow j
        event = .ok contract ∧
        resolveWorkflowContract python repo job = .ok (workflow, j, contract)) ∨
      (∃ message, resolveWorkflowContract python repo job = .error (.ambiguous message)) ∧
      Several python repo job := by
  rcases resolveWorkflowJob_cases python repo job with
    ⟨refusal, raised⟩ | ⟨⟨message, raised⟩, gap⟩ | ⟨⟨workflow, j⟩, runs, found⟩ |
    ⟨⟨message, raised⟩, several⟩
  · exact Or.inl ⟨refusal, resolveWorkflowContract_raised raised⟩
  · exact Or.inr (Or.inl ⟨⟨message, resolveWorkflowContract_raised raised⟩, gap⟩)
  · rcases translate_cases repo job workflow j with
      ⟨event, contract, context, translated, same⟩ | ⟨refusal, raised⟩
    · refine Or.inr (Or.inr (Or.inl ⟨workflow, j, event, contract, runs, context, translated, ?_⟩))
      rw [resolveWorkflowContract, found]
      show (translate repo job workflow j >>= _) = _
      rw [same]
      rfl
    · refine Or.inl ⟨refusal, ?_⟩
      rw [resolveWorkflowContract, found]
      show (translate repo job workflow j >>= _) = _
      rw [raised]
      rfl
  · exact Or.inr (Or.inr (Or.inr ⟨⟨message, resolveWorkflowContract_raised raised⟩, several⟩))

theorem resolveWorkflowContract_several (h : Several python repo job) :
    ∃ message, resolveWorkflowContract python repo job = .error (.ambiguous message) := by
  obtain ⟨message, raised⟩ := resolveWorkflowJob_several h
  exact ⟨message, resolveWorkflowContract_raised raised⟩

theorem running_addressed {workflow : Workflow} {j : WorkflowJob}
    (h : (workflow, j) ∈ running python repo job) :
    workflow ∈ workflowsOf repo.workflowFiles ∧ eventMatches python.str (eventNameFor job) job.ref
      none workflow.on = true ∧
      runsIn python job workflow j = .ok true ∧
      ∃ jobId, (jobId, j) ∈ workflow.jobs ∧ matchesTarget jobId j workflow (targetJob job) = true := by
  unfold running runners at h
  obtain ⟨candidate, kept, same⟩ := List.mem_map.mp h
  obtain ⟨rfl, rfl⟩ : candidate.1 = workflow ∧ candidate.2.2 = j := Prod.mk.inj same
  obtain ⟨asked, runs⟩ := List.mem_filter.mp kept
  have runs : verdict python job candidate = some true := of_decide_eq_true runs
  obtain ⟨source, member, asked⟩ := List.mem_flatMap.mp asked
  split at asked
  · rename_i fires
    obtain ⟨⟨jobId, found⟩, addressed, rfl⟩ := List.mem_map.mp asked
    obtain ⟨listed, target⟩ := List.mem_filter.mp addressed
    refine ⟨member, fires, ?_, jobId, listed, target⟩
    show runsIn python job source found = .ok true
    unfold verdict at runs
    cases said : runsIn python job source found with
    | ok answer =>
      rw [said] at runs
      exact congrArg Except.ok (Option.some.inj runs)
    | error refusal =>
      rw [said] at runs
      cases runs
  · cases asked

theorem prefers_unnamed (named : job.command ≠ []) {matching : List (Workflow × WorkflowJob)} :
    ¬ Prefers job matching :=
  fun prefers => named prefers.1

/-- On a repository with workflows, the contract that does not say that it is the CI is read after
them. -/
theorem resolveContract_eq (some : repo.workflowFiles ≠ [])
    (undeclared : job.command = [] → ∀ loaded, repo.contractFile = .some loaded →
    contractDeclaresItselfCi loaded = false) :
    resolveContract python repo job = fromWorkflow python repo job := by
  have has : hasWorkflow repo = true := by
    unfold hasWorkflow
    cases files : repo.workflowFiles with
    | nil => exact absurd files some
    | cons file rest => rfl
  unfold resolveContract
  cases contract : repo.contractFile with
  | none => exact if_pos (Or.inr has)
  | some loaded =>
    dsimp only
    rw [if_neg (by rw [has]; simp), if_neg, if_pos (Or.inr has)]
    rintro ⟨unnamed, declares⟩
    rw [undeclared unnamed loaded contract] at declares
    cases declares

/-! ## A run that names a job -/

/-- What a run with a name may be answered with: a job that the name addresses, as it is translated,
or the committed contract after the workflow asked for what is not supported. -/
def AnswersName (python : Python) (repo : Checkout) (job : JobSpec) (target : String) :
    Except Raised Answer → Prop
  | .ok (.workflow workflow j contract) =>
    workflow ∈ workflowsOf repo.workflowFiles ∧
      (∃ jobId, (jobId, j) ∈ workflow.jobs ∧ matchesTarget jobId j workflow (some target) = true) ∧
      ∃ event, runContext job workflow.name j.id j.env = .ok event ∧ repo.translation job workflow j
      event = .ok contract
  | .ok (.file contract) =>
    (∃ message, resolveWorkflowContract python repo job = .error (.refused (.unsupported message))) ∧
      ∃ loaded, repo.contractFile = some loaded ∧ Contract.parse python.isAlnum loaded = .ok contract
  | .ok (.inferred _) => False
  | .error _ => True

theorem fromFile_cases (python : Python) (loaded : Except String Json) :
    (∃ contract, Contract.parse python.isAlnum loaded = .ok contract ∧ fromFile python loaded = .ok
      (.file contract)) ∨
      ∃ raised, fromFile python loaded = .error raised := by
  unfold fromFile
  cases Contract.parse python.isAlnum loaded with
  | ok contract => exact Or.inl ⟨contract, rfl, rfl⟩
  | error text => exact Or.inr ⟨_, rfl⟩

theorem fromLockfiles_cases (repo : Checkout) :
    (∃ contract, inferContract repo.lockfiles = .ok contract ∧
      fromLockfiles repo = .ok (.inferred contract)) ∨
      (¬ ∃ contract, inferContract repo.lockfiles = .ok contract) ∧ ∃ raised,
      fromLockfiles repo = .error raised := by
  unfold fromLockfiles
  cases inferContract repo.lockfiles with
  | ok contract => exact Or.inl ⟨contract, rfl, rfl⟩
  | error text => exact Or.inr ⟨by rintro ⟨contract, ⟨⟩⟩, _, rfl⟩

/-- After a refusal, only the contract of a repository that asks for what is not supported answers. -/
theorem fromWorkflow_refused {refusal : Refusal}
    (h : resolveWorkflowContract python repo job = .error (.refused refusal)) :
    (∃ raised, (fromWorkflow python repo job).outcome = .error raised) ∨
      ∃ message loaded contract, refusal = .unsupported message ∧ repo.contractFile = some loaded ∧
        Contract.parse python.isAlnum loaded = .ok contract ∧
        (fromWorkflow python repo job).outcome = .ok (.file contract) := by
  unfold fromWorkflow
  rw [h]
  cases refusal with
  | unsupported message =>
    cases committed : repo.contractFile with
    | none => exact Or.inl ⟨_, rfl⟩
    | some loaded =>
      rcases fromFile_cases python loaded with ⟨contract, parsed, answered⟩ | ⟨raised, same⟩
      · exact Or.inr ⟨message, loaded, contract, rfl, rfl, parsed, answered⟩
      · exact Or.inl ⟨raised, same⟩
  | _ => exact Or.inl ⟨_, rfl⟩

theorem fromWorkflow_ambiguous {message : String}
    (h : resolveWorkflowContract python repo job = .error (.ambiguous message)) :
    (fromWorkflow python repo job).outcome = fromLockfiles repo := by
  unfold fromWorkflow
  rw [h]

theorem fromWorkflow_noMatch {message : String}
    (h : resolveWorkflowContract python repo job = .error (.noMatch message)) :
    (fromWorkflow python repo job).outcome = withoutWorkflow python repo := by
  unfold fromWorkflow
  rw [h]

theorem fromWorkflow_ok {workflow : Workflow} {j : WorkflowJob} {contract : Contract}
    (h : resolveWorkflowContract python repo job = .ok (workflow, j, contract)) :
    (fromWorkflow python repo job).outcome = .ok (.workflow workflow j contract) := by
  unfold fromWorkflow
  rw [h]

/-- A run that names a job is answered under that name, unless the name leaves several jobs to run
and the lockfiles have commands to run in their place. -/
theorem named_run_answered (python : Python) (repo : Checkout) (job : JobSpec)
    (some : repo.workflowFiles ≠ [])
    (target : String) (named : targetJob job = .some target) :
    AnswersName python repo job target (resolveContract python repo job).outcome ↔
      ¬ (Decided python repo job ∧ 2 ≤ (running python repo job).length ∧
        ∃ contract, inferContract repo.lockfiles = .ok contract) := by
  have command : job.command ≠ [] := fun none => by
    rw [targetJob_eq_none.mpr none] at named
    cases named
  rw [resolveContract_eq some fun none => absurd none command]
  have alone {raised : Except Raised (Workflow × WorkflowJob × Contract)}
      (h : resolveWorkflowContract python repo job = raised)
      (other : ∀ message, raised ≠ .error (.ambiguous message)) :
      ¬ (Decided python repo job ∧ 2 ≤ (running python repo job).length ∧
        ∃ contract, inferContract repo.lockfiles = .ok contract) := by
    rintro ⟨decided, several, -⟩
    obtain ⟨message, ambiguous⟩ :=
      resolveWorkflowContract_several ⟨decided, several, prefers_unnamed command⟩
    exact other message (h.symm.trans ambiguous)
  rcases resolveWorkflowContract_cases python repo job with
    ⟨refusal, raised⟩ | ⟨-, gap⟩ | ⟨workflow, j, event, contract, runs, context, translated,
    answered⟩ | ⟨⟨message, raised⟩, several⟩
  · refine iff_of_true ?_ (alone raised (by rintro message ⟨⟩))
    rcases fromWorkflow_refused raised with ⟨error, same⟩ |
      ⟨message, loaded, contract, rfl, committed, parsed, same⟩
    · rw [same]
      exact trivial
    · rw [same]
      exact ⟨⟨message, raised⟩, loaded, committed, parsed⟩
  · exact absurd gap.unnamed command
  · refine iff_of_true ?_ (alone answered (by rintro message ⟨⟩))
    obtain ⟨member, -, -, addressed⟩ := running_addressed runs
    rw [named] at addressed
    rw [fromWorkflow_ok answered]
    exact ⟨member, addressed, event, context, translated⟩
  · rw [fromWorkflow_ambiguous raised]
    rcases fromLockfiles_cases repo with ⟨contract, inferred, same⟩ | ⟨none, error, same⟩
    · rw [same]
      exact iff_of_false id (not_not.mpr ⟨several.decided, several.several, contract, inferred⟩)
    · rw [same]
      exact iff_of_true trivial fun ⟨_, _, inferred⟩ => none inferred

/-! A repository whose workflows each have a job `test`, and a lockfile with a `ci` script. -/

def plain : Python where
  casefold := lower
  isAlnum := Char.isAlphanum
  repr text := s!"'{text}'"
  str _ := ""

/-- A workflow that has a job `test` for each push. -/
def testWorkflow (file : String) : WorkflowFile :=
  ⟨file, .ok ⟨file, "tests", .str "push", [("test", { id := "test", name := "test" })]⟩⟩

def tested (files : List String) : Checkout where
  workflowFiles := files.map testWorkflow
  contractFile := none
  lockfiles :=
  { pnpmLock := true, packageJson := some (.obj [("scripts", .obj [("ci", .str "pnpm test")])]) }
  translation _ _ _ _ := .ok { image := "ubuntu:24.04", steps := ["echo test"] }

def pushed (command : List String) : JobSpec :=
  { id := "job-1", repository := "owner/app", sha := "5f3c", ref := "refs/heads/main", command }

theorem named_run_answered_once :
    AnswersName plain (tested ["ci.yml"]) (pushed ["test"]) "test"
    (resolveContract plain (tested ["ci.yml"]) (pushed ["test"])).outcome :=
  (named_run_answered plain (tested ["ci.yml"]) (pushed ["test"]) (List.cons_ne_nil _ _) "test" rfl).mpr
    fun several => absurd several.2.1 (by decide +kernel)

def inferredSteps : Except Raised Answer → List String
  | .ok (.inferred contract) => contract.steps
  | _ => []

theorem inferred_of_steps {outcome : Except Raised Answer} (h : inferredSteps outcome ≠ []) :
    ∃ contract, outcome = .ok (.inferred contract) := by
  unfold inferredSteps at h
  split at h
  · exact ⟨_, rfl⟩
  · exact absurd rfl h

/-- Two workflows with a job `test` make the lockfile answer for it. -/
theorem tested_twice_inferred :
    ∃ contract, (resolveContract plain (tested ["ci.yml", "release.yml"])
    (pushed ["test"])).outcome = .ok (.inferred contract) :=
  inferred_of_steps (by decide +kernel)

theorem named_run_unanswered : ¬ ∀ (python : Python) (repo : Checkout) (job : JobSpec) (target : String),
    repo.workflowFiles ≠ [] → targetJob job = some target →
    AnswersName python repo job target (resolveContract python repo job).outcome := by
  intro kept
  obtain ⟨contract, inferred⟩ := tested_twice_inferred
  have answers := kept plain (tested ["ci.yml", "release.yml"]) (pushed ["test"]) "test"
    (List.cons_ne_nil _ _) rfl
  rw [inferred] at answers
  exact answers

/-! ## What is reported, and what answers -/

def Raises (python : Python) (repo : Checkout) (job : JobSpec) : Prop :=
  ∃ raised, (resolveContract python repo job).outcome = .error raised

/-- Mistakes and decisions of the repository are raised, and each fallback answers in its own case
only. -/
structure Reported (python : Python) (repo : Checkout) (job : JobSpec) : Prop where
  /-- A workflow declares the event on other refs, and nothing else matches. -/
  filtered : (∃ workflow ∈ workflowsOf repo.workflowFiles, eventDeclares (eventNameFor job)
    workflow.on = true ∧
    eventMatches python.str (eventNameFor job) job.ref none workflow.on = false) →
    running python repo job = [] →
    Raises python repo job
  skipped : candidates python job (workflowsOf repo.workflowFiles) ≠ [] →
    (∀ candidate ∈ candidates python job (workflowsOf repo.workflowFiles), Says python job false
    candidate) →
    Raises python repo job
  unknown : ∀ target, targetJob job = some target →
    (∀ workflow ∈ workflowsOf repo.workflowFiles, ∀ jobId j, (jobId, j) ∈ workflow.jobs →
      matchesTarget jobId j workflow (some target) = false) → Raises python repo job
  malformed : Malformed repo → running python repo job = [] → Raises python repo job
  file : ∀ contract, (resolveContract python repo job).outcome = .ok (.file contract) →
    ¬ Declared repo job ∧ job.command = [] ∧ ¬ Malformed repo
  inferred : ∀ contract, (resolveContract python repo job).outcome = .ok (.inferred contract) →
    ¬ Declared repo job ∧ job.command = [] ∧ ¬ Malformed repo ∧ repo.contractFile = none ∨
      job.command = [] ∧ 2 ≤ (running python repo job).length ∧ ¬ Prefers job (running python repo job)

theorem running_nil_of_skipped
    (skipped : ∀ candidate ∈ candidates python job (workflowsOf repo.workflowFiles),
    Says python job false candidate) :
    running python repo job = [] := by
  unfold running runners
  rw [List.map_eq_nil_iff, List.filter_eq_nil_iff]
  intro candidate member runs
  rw [(skipped candidate member).verdict] at runs
  cases runs

theorem running_nil_of_unknown {target : String} (named : targetJob job = some target)
    (unknown : ∀ workflow ∈ workflowsOf repo.workflowFiles, ∀ jobId j, (jobId, j) ∈ workflow.jobs →
      matchesTarget jobId j workflow (some target) = false) : running python repo job = [] := by
  rw [List.eq_nil_iff_forall_not_mem]
  rintro ⟨workflow, j⟩ member
  obtain ⟨listed, -, -, jobId, inside, addressed⟩ := running_addressed member
  rw [named, unknown workflow listed jobId j inside] at addressed
  cases addressed

/-- A run without jobs raises, unless nothing that is committed handles its event. -/
theorem raises_of_running_nil (supported : ∀ message, resolveWorkflowContract python repo
    job ≠ .error (.refused (.unsupported message)))
    (none : running python repo job = []) :
    (∃ raised, (fromWorkflow python repo job).outcome = .error raised) ∨ Gap python repo job := by
  rcases resolveWorkflowContract_cases python repo job with
    ⟨refusal, raised⟩ | ⟨-, gap⟩ | ⟨workflow, j, event, contract, runs, -⟩ | ⟨-, several⟩
  · rcases fromWorkflow_refused raised with error | ⟨message, -, -, rfl, -⟩
    · exact Or.inl error
    · exact absurd raised (supported message)
  · exact Or.inr gap
  · rw [none] at runs
    cases runs
  · have := several.several
    rw [none] at this
    cases this

theorem candidates_declared {candidate : Workflow × String × WorkflowJob}
    (h : candidate ∈ candidates python job (workflowsOf repo.workflowFiles)) : Declared repo job := by
  obtain ⟨workflow, member, inside⟩ := List.mem_flatMap.mp h
  split at inside
  · rename_i fires
    exact ⟨workflow, member, declares_of_matches workflow.on fires⟩
  · cases inside

theorem answered_file (supported : ∀ message, resolveWorkflowContract python repo job ≠ .error
    (.refused (.unsupported message)))
    {contract : Contract} (answered : (fromWorkflow python repo job).outcome = .ok
    (.file contract)) : Gap python repo job := by
  rcases resolveWorkflowContract_cases python repo job with
    ⟨refusal, raised⟩ | ⟨-, gap⟩ | ⟨workflow, j, event, translated, -, -, -, found⟩ |
    ⟨⟨message, raised⟩, -⟩
  · rcases fromWorkflow_refused raised with ⟨error, same⟩ | ⟨message, -, -, rfl, -⟩
    · rw [same] at answered
      cases answered
    · exact absurd raised (supported message)
  · exact gap
  · rw [fromWorkflow_ok found] at answered
    cases answered
  · rw [fromWorkflow_ambiguous raised] at answered
    rcases fromLockfiles_cases repo with ⟨inferred, -, same⟩ | ⟨-, error, same⟩
    all_goals
      rw [same] at answered
      cases answered

theorem answered_inferred {contract : Contract}
    (answered : (fromWorkflow python repo job).outcome = .ok (.inferred contract)) :
    Gap python repo job ∧ repo.contractFile = none ∨ Several python repo job ∧
    inferContract repo.lockfiles = .ok contract := by
  rcases resolveWorkflowContract_cases python repo job with
    ⟨refusal, raised⟩ | ⟨⟨message, raised⟩, gap⟩ |
    ⟨workflow, j, event, translated, -, -, -, found⟩ | ⟨⟨message, raised⟩, several⟩
  · rcases fromWorkflow_refused raised with ⟨error, same⟩ | ⟨message, loaded, committed, -, -, -, same⟩
    all_goals
      rw [same] at answered
      cases answered
  · refine Or.inl ⟨gap, ?_⟩
    rw [fromWorkflow_noMatch raised, withoutWorkflow] at answered
    cases committed : repo.contractFile with
    | none => rfl
    | some loaded =>
      rw [committed] at answered
      rcases fromFile_cases python loaded with ⟨parsed, -, same⟩ | ⟨error, same⟩
      all_goals
        dsimp only at answered
        rw [same] at answered
        cases answered
  · rw [fromWorkflow_ok found] at answered
    cases answered
  · rw [fromWorkflow_ambiguous raised] at answered
    refine Or.inr ⟨several, ?_⟩
    rcases fromLockfiles_cases repo with ⟨inferred, read, same⟩ | ⟨-, error, same⟩
    · rw [same] at answered
      obtain rfl := Answer.inferred.inj (Except.ok.inj answered)
      exact read
    · rw [same] at answered
      cases answered

/-- A resolution that meets nothing unsupported reports what it should and falls back where it may,
unless the run names a job, several jobs run under that name and the lockfiles have commands to run
in their place. -/
theorem resolution_reported (python : Python) (repo : Checkout) (job : JobSpec)
    (some : repo.workflowFiles ≠ [])
    (undeclared : ∀ loaded, repo.contractFile = .some loaded → contractDeclaresItselfCi loaded = false)
    (supported : ∀ message, resolveWorkflowContract python repo job ≠ .error
    (.refused (.unsupported message))) :
    Reported python repo job ↔
      ¬ (job.command ≠ [] ∧ Decided python repo job ∧ 2 ≤ (running python repo job).length ∧
        ∃ contract, inferContract repo.lockfiles = .ok contract) := by
  have resolved : resolveContract python repo job = fromWorkflow python repo job :=
    resolveContract_eq some fun _ => undeclared
  have raises (none : running python repo job = []) (handled : ¬ Gap python repo job) :
      Raises python repo job := by
    rw [Raises, resolved]
    exact (raises_of_running_nil supported none).resolve_right handled
  constructor
  · rintro reported ⟨named, decided, several, contract, inferred⟩
    obtain ⟨message, ambiguous⟩ :=
      resolveWorkflowContract_several ⟨decided, several, prefers_unnamed named⟩
    have answered : (resolveContract python repo job).outcome = .ok (.inferred contract) := by
      rw [resolved, fromWorkflow_ambiguous ambiguous, fromLockfiles, inferred]
      rfl
    rcases reported.inferred contract answered with ⟨-, unnamed, -⟩ | ⟨unnamed, -⟩
    · exact named unnamed
    · exact named unnamed
  · intro sound
    refine ⟨?_, ?_, ?_, ?_, ?_, ?_⟩
    · rintro ⟨workflow, member, declares, -⟩ none
      exact raises none fun gap => gap.undeclared ⟨workflow, member, declares⟩
    · intro asked skipped
      refine raises (running_nil_of_skipped skipped) fun gap => ?_
      obtain ⟨candidate, member⟩ := List.exists_mem_of_ne_nil _ asked
      exact gap.undeclared (candidates_declared member)
    · intro target named unknown
      refine raises (running_nil_of_unknown named unknown) fun gap => ?_
      rw [targetJob_eq_none.mpr gap.unnamed] at named
      cases named
    · exact fun malformed none => raises none fun gap => gap.whole malformed
    · intro contract answered
      rw [resolved] at answered
      have gap := answered_file supported answered
      exact ⟨gap.undeclared, gap.unnamed, gap.whole⟩
    · intro contract answered
      rw [resolved] at answered
      rcases answered_inferred answered with ⟨gap, uncommitted⟩ | ⟨several, inferred⟩
      · exact Or.inl ⟨gap.undeclared, gap.unnamed, gap.whole, uncommitted⟩
      · refine Or.inr ⟨?_, several.several, several.undivided⟩
        by_contra named
        exact sound ⟨named, several.decided, several.several, contract, inferred⟩

theorem tested_once_reported : Reported plain (tested ["ci.yml"]) (pushed []) := by
  refine (resolution_reported plain (tested ["ci.yml"]) (pushed []) (List.cons_ne_nil _ _) ?_ ?_).mpr ?_
  · rintro loaded ⟨⟩
  · intro message raised
    obtain ⟨answer, ok⟩ : ∃ answer, resolveWorkflowContract plain (tested ["ci.yml"]) (pushed []) =
        .ok answer :=
      ok_of_isOk (by decide +kernel)
    rw [ok] at raised
    cases raised
  · rintro ⟨named, -⟩
    exact named rfl

theorem resolution_unreported : ¬ ∀ (python : Python) (repo : Checkout) (job : JobSpec),
    repo.workflowFiles ≠ [] →
    (∀ loaded, repo.contractFile = some loaded → contractDeclaresItselfCi loaded = false) →
    (∀ message, resolveWorkflowContract python repo job ≠ .error (.refused (.unsupported message))) →
    Reported python repo job := by
  intro reported
  obtain ⟨contract, inferred⟩ := tested_twice_inferred
  have several : Several plain (tested ["ci.yml", "release.yml"]) (pushed ["test"]) := by
    have answered := inferred
    rw [resolveContract_eq (List.cons_ne_nil _ _) fun _ => by rintro loaded ⟨⟩] at answered
    rcases answered_inferred answered with ⟨gap, -⟩ | ⟨several, -⟩
    · exact absurd gap.unnamed (List.cons_ne_nil _ _)
    · exact several
  obtain ⟨message, ambiguous⟩ := resolveWorkflowContract_several several
  have supported : ∀ message, resolveWorkflowContract plain (tested ["ci.yml", "release.yml"])
      (pushed ["test"]) ≠
      .error (.refused (.unsupported message)) := by
    intro text raised
    rw [ambiguous] at raised
    cases raised
  have fallback :=
    (reported plain (tested ["ci.yml", "release.yml"]) (pushed ["test"]) (List.cons_ne_nil _ _)
    (by rintro loaded ⟨⟩) supported).inferred contract inferred
  rcases fallback with ⟨-, unnamed, -⟩ | ⟨unnamed, -⟩
  all_goals exact absurd unnamed (List.cons_ne_nil _ _)

end Cindral.Actions

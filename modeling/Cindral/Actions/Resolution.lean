import Cindral.Workflow.Context
import Cindral.Workflow.Contract
import Cindral.Workflow.Expansion

/-!
# What a job runs

The workflow job that a queued job stands for, and what answers in its place where no workflow does:
the committed contract, or the commands of a lockfile.
-/

namespace Cindral.Actions
open Cindral.Base Cindral.Workflow

/-- What the code asks of Python: the classes and the printed forms of texts, and `str` of what is
no text. -/
structure Python where
  casefold : String → String
  isAlnum : Char → Bool
  repr : String → String
  str : Json → String

structure WorkflowJob where
  id : String
  name : String
  runsOn : List String := ["ubuntu-latest"]
  steps : List Fields := []
  env : List (String × String) := []
  services : List Service := []
  timeoutMinutes : Option Int := none
  unmapped : List String := []
  condition : Option String := none

structure Workflow where
  path : String
  name : String
  on : Json
  jobs : List (String × WorkflowJob)

/-- What reading or translating a workflow raises: a plain `WorkflowError`, a `WorkflowUnsupported`,
or what is neither. -/
inductive Refusal where
  | invalid (message : String)
  | unsupported (message : String)
  | other (message : String)
  deriving DecidableEq, Repr

inductive Raised where
  | refused (refusal : Refusal)
  | noMatch (message : String)
  | ambiguous (message : String)
  | contractError (message : String)
  deriving DecidableEq, Repr

/-- A file of `.github/workflows`, with what `parse_workflow` makes of it. -/
structure WorkflowFile where
  name : String
  reading : Except Refusal Workflow

/-- The files a resolution reads. -/
structure Checkout where
  workflowFiles : List WorkflowFile
  /-- The contract as it reads as TOML, if there is one. -/
  contractFile : Option (Except String Json)
  lockfiles : Lockfiles
  /-- What the translator and the engine make of a job, which is the rest of
  `resolve_workflow_contract`. -/
  translation : JobSpec → Workflow → WorkflowJob → Event → Except Refusal Contract

/-! ## The job of a workflow -/

def parseableWorkflows : List WorkflowFile → Except Refusal (List Workflow × List (String × String))
  | [] => .ok ([], [])
  | file :: rest =>
    match file.reading with
    | .ok workflow => (parseableWorkflows rest).map fun (workflows, broken) =>
        (workflow :: workflows, broken)
    | .error (.invalid message) =>
      (parseableWorkflows rest).map fun (workflows, broken) => (workflows, (file.name, message) :: broken)
    | .error refusal => .error refusal

/-- An inlined job is also addressed by the name it has in the workflow it came from, and the only
job of a file by the name of the file. -/
def matchesTarget (jobId : String) (job : WorkflowJob) (workflow : Workflow) : Option String → Bool
  | none => true
  | some target =>
    [jobId, job.name, s!"{workflow.path}:{jobId}"].contains target ||
      (hasInfix jobId "/" && String.ofList (jobId.toList.reverse.takeWhile (· ≠ '/')).reverse = target) ||
      (target = workflow.path && workflow.jobs.length = 1)

def conditionText (repr : String → String) : ConditionError → String
  | .unreadable text => s!"unreadable text {repr text}"
  | .empty => "the condition is empty"
  | .nests what => s!"the condition nests deeper than {maxDepth} {what}"
  | .unbalanced => "unbalanced parenthesis"
  | .endsAfterOperator => "the condition ends after an operator"

def unsupportedText (repr : String → String) : Unsupported → String
  | .context message => message
  | .unreadable jobId error =>
      s!"job '{jobId}' has a job-level if that Cindral does not read: {conditionText repr error}"
  | .undecided jobId unread =>
    let fields := ", ".intercalate (unread.map fun name => s!"'{name}'")
    s!"job '{jobId}' has a job-level if that reads context {fields}, " ++
      "which this run does not carry; the repository must decide the condition"

section Resolution
variable (python : Python) (repo : Checkout) (job : JobSpec)

/-- The job that a run names. -/
def targetJob : Option String := job.command.head?

/-- `_job_runs`, of a job in its workflow. -/
def runsIn (workflow : Workflow) (workflowJob : WorkflowJob) : Except Refusal Bool :=
  let context := (runContext job workflow.name workflowJob.id workflowJob.env).map fun event =>
    ({ value := event.value, casefold := python.casefold } : RunContext)
  (jobRuns workflowJob.id workflowJob.condition context).mapError fun why =>
  .unsupported (unsupportedText python.repr why)

/-- The jobs that the event and the name of the run point at, in the order they are asked whether
they run. -/
def candidates (workflows : List Workflow) : List (Workflow × String × WorkflowJob) :=
  workflows.flatMap fun workflow =>
    if eventMatches python.str (eventNameFor job) job.ref none workflow.on then
      (workflow.jobs.filter fun (jobId, j) => matchesTarget jobId j workflow (targetJob job)).map
      fun (jobId, j) => (workflow, jobId, j)
    else []

/-- The candidates that run, and the names of those their own condition skips. -/
def sift : List (Workflow × String × WorkflowJob) →
    Except Refusal (List (Workflow × WorkflowJob) × List String)
  | [] => .ok ([], [])
  | (workflow, jobId, j) :: rest => do
    let runs ← runsIn python job workflow j
    let (matching, skipped) ← sift rest
    .ok (if runs then ((workflow, j) :: matching, skipped) else (matching,
    s!"{workflow.path}:{jobId}" :: skipped))

def targetClause (target : Option String) : String :=
  match target with
  | some name => if name = "" then "" else s!" for target '{name}'"
  | none => ""

/-- What is raised when no job matches and runs. -/
def nothingMatched (declares : Bool) (broken : List (String × String)) (skipped : List String) : Raised :=
  let eventName := eventNameFor job
  if skipped ≠ [] then
    let names := ", ".intercalate skipped
    .refused (.invalid
      s!"every job matching event '{eventName}' is skipped by its own if: {names}{targetClause (targetJob job)}")
  else
    let names := ", ".intercalate (broken.map Prod.fst)
    let detail := if broken = [] then "" else s!", and these workflow files could not be parsed: {names}"
    let message := s!"no workflow job matched event '{eventName}' on ref '{job.ref}'{targetClause (targetJob job)}{detail}"
    if (targetJob job).isSome ∨ broken ≠ [] ∨
      declares then .refused (.invalid message) else .noMatch message

def isPreferred (workflowJob : WorkflowJob) : Bool :=
  ["ci", "test"].contains workflowJob.id || ["ci", "test"].contains (lower workflowJob.name)

/-- The jobs that a run without a name prefers. -/
def preferred (matching : List (Workflow × WorkflowJob)) : List (Workflow × WorkflowJob) :=
  if targetJob job = none then matching.filter fun found => isPreferred found.2 else []

def ambiguity (matching : List (Workflow × WorkflowJob)) : Raised :=
  let jobList := ", ".intercalate (matching.map fun (workflow, j) => s!"{workflow.path}:{j.id}")
  .ambiguous s!"multiple workflow jobs matched ({jobList}); specify an unambiguous target job"

/-- The one job of those that match. -/
def single (matching : List (Workflow × WorkflowJob)) : Except Raised (Workflow × WorkflowJob) :=
  match matching, preferred job matching with
  | [found], _ => .ok found
  | _, [found] => .ok found
  | matching, _ => .error (ambiguity matching)

def resolveWorkflowJob : Except Raised (Workflow × WorkflowJob) := do
  let (workflows, broken) ← (parseableWorkflows repo.workflowFiles).mapError .refused
  if workflows = [] then
    match broken with
    | (_, message) :: _ => .error (.refused (.invalid message))
    | [] => .error (.refused
        (.invalid "repository has no .cindral/ci.toml and no .github/workflows/*.{yml,yaml}"))
  else
    let declares := workflows.any fun workflow => eventDeclares (eventNameFor job) workflow.on
    let (matching, skipped) ← (sift python job (candidates python job workflows)).mapError .refused
    if matching = [] then .error (nothingMatched job declares broken skipped)
    else single job matching

def translate (workflow : Workflow) (workflowJob : WorkflowJob) : Except Raised Contract :=
  match workflowJob.unmapped with
  | key :: _ =>
    let what := (unmappedJobKeys.lookup key).getD ""
    .error (.refused (.unsupported
    s!"job '{workflowJob.id}' declares {what} ('{key}'), which Cindral does not run yet"))
  | [] =>
    match runContext job workflow.name workflowJob.id workflowJob.env with
    | .error text => .error (.refused (.unsupported text))
    | .ok event => (repo.translation job workflow workflowJob event).mapError .refused

/-- `resolve_workflow_contract`, with the job that it translates. -/
def resolveWorkflowContract : Except Raised (Workflow × WorkflowJob × Contract) := do
  let (workflow, workflowJob) ← resolveWorkflowJob python repo job
  let contract ← translate repo job workflow workflowJob
  .ok (workflow, workflowJob, contract)

/-! ## The contract -/

/-- What `resolve_contract` returns, with where it comes from. -/
inductive Answer where
  | workflow (workflow : Workflow) (job : WorkflowJob) (contract : Contract)
  | file (contract : Contract)
  | inferred (contract : Contract)

structure Resolved where
  notes : List String
  outcome : Except Raised Answer

def fromFile (loaded : Except String Json) : Except Raised Answer :=
  ((Contract.parse python.isAlnum loaded).mapError .contractError).map .file

def fromLockfiles : Except Raised Answer :=
  ((inferContract repo.lockfiles).mapError .contractError).map .inferred

/-- What answers when no workflow handles the event. -/
def withoutWorkflow : Except Raised Answer :=
  match repo.contractFile with
  | some loaded => fromFile python loaded
  | none => fromLockfiles repo

def hasWorkflow (repo : Checkout) : Bool := !repo.workflowFiles.isEmpty

/-- The `try` of `resolve_contract`, with its `except` clauses. -/
def fromWorkflow : Resolved :=
  match resolveWorkflowContract python repo job with
  | .ok (workflow, workflowJob, contract) => ⟨[], .ok (.workflow workflow workflowJob contract)⟩
  | .error (.noMatch message) =>
    let source := if repo.contractFile.isSome then contractPath else "the inferred commands"
    ⟨[s!"cindral: warning: {message}\n",
      s!"cindral: warning: no committed workflow handles this event; running {source}\n"],
      withoutWorkflow python repo⟩
  | .error (.ambiguous message) =>
    ⟨[s!"cindral: warning: {message}\n",
        "cindral: warning: running the inferred commands; name one workflow job to run instead\n"],
        fromLockfiles repo⟩
  | .error (.refused (.unsupported message)) =>
    match repo.contractFile with
    | none => ⟨[], .error (.refused (.unsupported message))⟩
    | some loaded =>
      ⟨[s!"cindral: warning: {message}\n",
        s!"cindral: warning: running {contractPath} instead of the committed workflow\n"],
        fromFile python loaded⟩
  | .error raised => ⟨[], .error raised⟩

/-- What a contract answers before any workflow is read: a name on a repository without workflows,
or a run without a name where the contract says that it is the CI. -/
def resolveContract : Resolved :=
  match repo.contractFile with
  | some loaded =>
    if job.command ≠ [] ∧ hasWorkflow repo = false then ⟨[], fromFile python loaded⟩
    else if job.command = [] ∧ contractDeclaresItselfCi loaded then ⟨[], fromFile python loaded⟩
    else if job.command ≠ [] ∨ hasWorkflow repo then fromWorkflow python repo job
    else ⟨[], withoutWorkflow python repo⟩
  | none =>
    if job.command ≠ [] ∨ hasWorkflow repo then fromWorkflow python repo
      job else ⟨[], withoutWorkflow python repo⟩

end Resolution
end Cindral.Actions

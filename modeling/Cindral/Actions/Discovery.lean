import Cindral.Actions.Fallback
import Cindral.Actions.Translation
import Cindral.Workflow.Guards
import Cindral.Workflow.Recursion

/-!
# Reading a workflow file

The jobs of a file, with the jobs of the workflows they call in their place. A contract is followed
back to the job of a file that it runs.
-/

namespace Cindral.Actions
open Cindral.Base Cindral.Workflow

/-- A file of `.github/workflows`, with its name without the suffix. -/
structure SourceFile (Path : Type) where
  path : Path
  name : String
  stem : String
  document : Except Unread Document

/-- `dict.update` -/
def overlay (old new : List (String × String)) : List (String × String) :=
  new.foldl (fun fields (key, value) =>
    if fields.any (·.1 = key) then fields.map fun field => if field.1 = key then (key, value) else field
    else fields ++ [(key, value)]) old

/-! ## The inputs of a caller -/

section
variable {Path : Type} (tree : Workflow.Tree Path)

/-- `default in (True, "true", "True")` -/
def readsTrue : Json → Bool
  | .bool value => value
  | .int value => value = 1
  | .float value => value = 1
  | .str value => value = "true" || value = "True"
  | _ => false

/-- `_as_expression`, of a value as the file holds it. -/
def expressionOf (declared : Option String) (default : Json) : Except WorkflowError String :=
  match default with
  | .bool value => .ok (if value then "true" else "false")
  | .str value => guardValue tree declared value
  | value =>
    if declared = some "boolean" then .ok (if readsTrue value then "true" else "false")
    else if declared = some "number" then
      match value with
      | .arr (_ :: _) => .error
          (.unsupported s!"input default {tree.str value} is declared a number and is not one")
      | .obj (_ :: _) => .error
          (.unsupported s!"input default {tree.str value} is declared a number and is not one")
      | value => .ok (if value.truthy then tree.str value else "0")
    else match value with
      | .null => .ok (quoted "")
      | value => .ok (quoted (tree.str value))

/-- The inputs that one trigger declares, on top of those of another, which stay. -/
def declareInputs : Inputs → Fields → Except WorkflowError Inputs
  | declared, [] => .ok declared
  | declared, (name, spec) :: rest =>
    if hasKey "default" spec then do
      let expression ← expressionOf tree (spec.get "type").asStr? (spec.get "default")
      declareInputs (if declared.any (·.1 = name) then declared else declared ++
      [(name, expression)]) rest
    else declareInputs declared rest

def callerInputs (on : Json) : Except WorkflowError Inputs := do
  let inputsOf (trigger : String) : Fields := match (on.get trigger).get "inputs" with
    | .obj inputs => inputs
    | _ => []
  let declared ← declareInputs tree [] (inputsOf "workflow_dispatch")
  declareInputs tree declared (inputsOf "workflow_call")

/-! ## A job -/

/-- `int`, of a text. -/
def parseInt (text : String) : Option Int :=
  let cs := stripChars text.toList
  let body := match cs with
    | '-' :: rest => rest
    | '+' :: rest => rest
    | rest => rest
  let groups := body.splitOn '_'
  if groups.all digits && groups.flatten.length ≤ 4300 then
    let value : Int := Nat.ofDigitChars 10 (groups.flatten.map Double.toAscii) 0
    some (if cs.head? = some '-' then -value else value)
  else none

def timeoutOf (jobId : String) (rawJob : Json) : Except Refusal (Option Int) :=
  let refused :=
    Except.error (Refusal.invalid s!"job '{jobId}' timeout-minutes must be a positive integer")
  let positive (value : Int) := if value ≤ 0 then refused else .ok (some value)
  match rawJob.get "timeout-minutes" with
  | .null => .ok none
  | .int value => positive value
  | .str value => match parseInt value with
    | some value => positive value
    | none => refused
  | _ => refused

def runsOnOf (rawJob : Json) : List String :=
  if hasKey "runs-on" rawJob then
    match rawJob.get "runs-on" with
    | .str label => [label]
    | .arr labels => labels.map tree.text
    | _ => ["ubuntu-latest"]
  else ["ubuntu-latest"]

def servicesOf (rawJob : Json) : List Service :=
  match rawJob.get "services" with
  | .obj services => services.filterMap fun (name, data) =>
    if hasKey "image" data then
      some { name := lower name, image := strip (tree.text (data.get "image")), env := stringValues tree (data.get "env") }
    else none
  | _ => []

/-- The steps of a job that are mappings. -/
def stepsOf (rawJob : Json) : List Fields :=
  match rawJob.get "steps" with
  | .arr steps => steps.filterMap fun step => match step with
    | .obj fields => some fields
    | _ => none
  | _ => []

def unmappedOf (rawJob : Json) : List String :=
  (unmappedJobKeys.map Prod.fst).filter fun key => hasKey key rawJob

def parseJob (env : List (String × String)) (jobId : String) (rawJob : Json) :
    Except Refusal WorkflowJob := do
  let timeoutMinutes ← timeoutOf jobId rawJob
  .ok { id := jobId, name := if hasKey "name" rawJob then tree.text (rawJob.get "name") else jobId,
        runsOn := runsOnOf tree rawJob,
        steps := stepsOf rawJob, env := overlay env (stringValues tree (rawJob.get "env")),
        services := servicesOf tree rawJob,
        timeoutMinutes, unmapped := unmappedOf rawJob, condition := conditionOf rawJob }

/-- The jobs that are mappings. -/
def parseJobs (env : List (String × String)) : Fields → Except Refusal (List (String × WorkflowJob))
  | [] => .ok []
  | (jobId, .obj fields) :: rest => do
    let job ← parseJob tree env jobId (.obj fields)
    let jobs ← parseJobs env rest
    .ok ((jobId, job) :: jobs)
  | _ :: rest => parseJobs env rest

/-! ## A file -/

def refusalOf : WorkflowError → Refusal
  | .unsupported message => .unsupported message
  | .notMapping => .other "the environment of a called job is not a mapping"
  | .recursion => .other "maximum recursion depth exceeded"
  | .raised text => .other text

variable [DecidableEq Path]

/-- The jobs of a file and of all that it calls. -/
def expandFile (file : SourceFile Path) (document : Document) (rawJobs : Fields) :
    Except WorkflowError Fields := do
  let inputs ← callerInputs tree document.on
  expandCalls tree.repository tree.room rawJobs [file.path] (some inputs)

def parseDocument (file : SourceFile Path) (document : Document) (fields : Fields) :
    Except Refusal Workflow :=
  match getOr fields "jobs" .null with
  | .obj (job :: jobs) => do
    let expanded ← (expandFile tree file document (job :: jobs)).mapError refusalOf
    let jobs ← parseJobs tree (stringValues tree (getOr fields "env" .null)) expanded
    .ok { path := file.name, name := if hasKey "name" document.data then tree.text (document.data.get "name") else file.stem,
          on := document.on, jobs }
  | _ => .error (.invalid s!"workflow {file.name} must define at least one job")

def parseWorkflow (file : SourceFile Path) : Except Refusal Workflow :=
  match file.document with
  | .error (.expected reason) => .error (.invalid s!"invalid workflow YAML in {file.name}: {reason}")
  | .error (.other text) => .error (.other text)
  | .ok document =>
    match document.data with
    | .obj fields => parseDocument tree file document fields
    | _ => .error (.invalid s!"workflow {file.name} must be a YAML mapping")

end

/-! ## Where a job comes from -/

section
variable {Path : Type}

/-- A job of a file, under its own id, or of a workflow that a job of the file calls: one of the
repository, by a job that declares nothing that the call would drop. -/
inductive Originates (tree : Workflow.Tree Path) [DecidableEq Path] : Fields → String → Fields → Prop
  | own {jobs : Fields} {id : String} {fields : Fields} (member : (id, .obj fields) ∈ jobs)
      (plain : uses (.obj fields) = none) :
      Originates tree jobs id fields
  | call {jobs calledJobs fields : Fields} {jobId called id : String} {rawJob : Json} {path : Path}
      {env : List (String × String)}
      (member : (jobId, rawJob) ∈ jobs) (calls : uses rawJob = some called)
      (local_ : hasPrefix called "./" = true)
      (inside : tree.inside path = true) (mapped : ∀ key ∈ unmappedJobKeys, hasKey key.1 rawJob = false)
      (read : readCall tree path called jobId (rawJob.get "with") = .ok (calledJobs, env))
      (inner : Originates tree calledJobs id fields) :
      Originates tree jobs s!"{jobId}/{id}" fields

/-- Two jobs differ in their environment and their condition at most. -/
def Agrees (merged fields : Fields) : Prop :=
  ∀ key, key ≠ "env" → key ≠ "if" → (Json.obj merged).get key = (Json.obj fields).get key ∧
    hasKey key (.obj merged) = hasKey key (.obj fields)

/-- Every job of an expansion is a declared one, but for its environment and its condition. -/
def Accounted (tree : Workflow.Tree Path) [DecidableEq Path] (jobs expanded : Fields) : Prop :=
  ∀ id merged, (id, .obj merged) ∈ expanded → ∃ fields, Originates tree jobs id fields ∧
  Agrees merged fields

variable {tree : Workflow.Tree Path}

/-- A job as its file has it, but for its environment and its condition. -/
structure Parsed (tree : Workflow.Tree Path) (fields : Fields) (job : WorkflowJob) : Prop where
  steps : job.steps = stepsOf (.obj fields)
  runsOn : job.runsOn = runsOnOf tree (.obj fields)
  services : job.services = servicesOf tree (.obj fields)
  timeout : timeoutOf job.id (.obj fields) = .ok job.timeoutMinutes
  unmapped : job.unmapped = unmappedOf (.obj fields)

variable [DecidableEq Path]

/-- The job that runs is one that a file declares and that the event, the name of the run and its
own condition leave to run, and no part of it was dropped on the way. -/
structure Traced (tree : Workflow.Tree Path) (python : Python) (job : JobSpec)
    (file : SourceFile Path) (workflow : Workflow)
    (workflowJob : WorkflowJob) (fields : Fields) : Prop where
  read : parseWorkflow tree file = .ok workflow
  origin : ∃ document rawJobs, file.document = .ok document ∧ document.data.get "jobs" = .obj rawJobs ∧
    Originates tree rawJobs workflowJob.id fields
  parsed : Parsed tree fields workflowJob
  whole : ∀ key ∈ unmappedJobKeys, hasKey key.1 (.obj fields) = false
  fires : eventMatches python.str (eventNameFor job) job.ref none workflow.on = true
  named : matchesTarget workflowJob.id workflowJob workflow (targetJob job) = true
  runs : runsIn python job workflow workflowJob = .ok true

end

end Cindral.Actions

import Cindral.Base.Json
import Cindral.Workflow.Condition

/-!
# Reusable workflows

A job that calls a workflow of the same repository is replaced by the jobs of the workflow it calls,
under its own id and its own `if:`.
-/

namespace Cindral.Workflow
open Base

/-- A mapping of the file, in its order. -/
abbrev Fields := List (String × Json)

inductive WorkflowError where
  /-- A `WorkflowUnsupported`, by its text. -/
  | unsupported (message : String)
  /-- A `TypeError`, where the source merges what is no mapping. -/
  | notMapping
  /-- A `RecursionError`. -/
  | recursion
  /-- What the YAML reader raises that the source does not expect. -/
  | raised (text : String)
  deriving DecidableEq, Repr

/-- What the expansion asks of the repository it reads and of the inputs of its workflows. -/
structure Repository (Path Inputs : Type) where
  /-- The file a `./` name stands for, or why it stands for none. -/
  resolve : String → Except String Path
  inside : Path → Bool
  /-- `_read_call` for a file, the name and job it is called by, and the job's `with:`. -/
  readCall : Path → String → String → Json → Except WorkflowError (Fields × List (String × String))
  /-- `_substitute_inputs` in a guard, with the words for the place it stands in. -/
  substitute : String → Inputs → String → Except WorkflowError String

def unmappedJobKeys : List (String × String) :=
  [("needs", "job dependencies"), ("strategy", "matrix fan-out"), ("secrets", "secrets"),
    ("defaults", "step defaults"), ("container", "job container")]

def setField {β : Type} (key : String) (value : β) (fields : List (String × β)) : List (String × β) :=
  if fields.any (·.1 = key) then fields.map fun field => if field.1 = key then (key, value) else field
  else fields ++ [(key, value)]

def update (fields others : Fields) : Fields :=
  others.foldl (fun fields field => setField field.1 field.2 fields) fields

/-- A boolean is one of the two guards a repository writes bare. -/
def conditionOf (rawJob : Json) : Option String :=
  match rawJob.get "if" with
  | .bool true => some "true"
  | .bool false => some "false"
  | .str condition => some condition
  | _ => none

def combinedCondition : Option String → Option String → Option String
  | some caller, some called => some s!"({caller}) && ({called})"
  | some caller, none => some caller
  | none, called => called

def conditionJson (condition : Option String) : Json := (condition.map Json.str).getD .null

section Calls
variable {Path Inputs : Type} (repository : Repository Path Inputs)

/-- The file a call names, once it is one to follow. -/
def calledPath [DecidableEq Path] (jobId called : String) (seen : List Path) :
    Except WorkflowError Path := do
  if !hasPrefix called "./" then
    .error (.unsupported s!"job '{jobId}' calls the reusable workflow '{called}', which is not in this repository")
  else
    match repository.resolve (.ofList (called.toList.drop 2)) with
    | .error reason => .error (.unsupported s!"job '{jobId}' calls '{called}', which could not be resolved: {reason}")
    | .ok path =>
      if !repository.inside path then
        .error (.unsupported s!"job '{jobId}' calls '{called}', which reaches outside the repository")
      else if path ∈ seen then
        .error (.unsupported s!"job '{jobId}' calls '{called}', which is already being read")
      else .ok path

def hasKey (key : String) : Json → Bool
  | .obj fields => fields.any (·.1 = key)
  | _ => false

def refuseUnmapped (jobId : String) (rawJob : Json) : Except WorkflowError Unit :=
  match unmappedJobKeys.find? fun key => hasKey key.1 rawJob with
  | some (key, what) =>
    .error (.unsupported s!"job '{jobId}' calls a reusable workflow and declares {what} ('{key}')")
  | none => .ok ()

/-- The caller's guard, read against the caller's own inputs. -/
def callerGuard (jobId : String) (rawJob : Json) (callerInputs : Option Inputs) :
    Except WorkflowError (Option String) :=
  match conditionOf rawJob, callerInputs with
  | some guard, some inputs => (repository.substitute guard inputs s!"the 'if' of job '{jobId}'").map some
  | guard, _ => .ok guard

def mergedEnv (calledEnv : List (String × String)) (own : Json) : Except WorkflowError Json :=
  let env := calledEnv.map fun (name, value) => (name, Json.str value)
  if own.truthy then
    match own with
    | .obj fields => .ok (.obj (update env fields))
    | _ => .error .notMapping
  else .ok (.obj env)

def mergedJob (jobId : String) (rawJob : Json) (callerInputs : Option Inputs)
    (calledEnv : List (String × String))
    (calledJob : Fields) : Except WorkflowError Fields := do
  let env ← mergedEnv calledEnv ((Json.obj calledJob).get "env")
  let guard ← callerGuard repository jobId rawJob callerInputs
  let condition := combinedCondition guard (conditionOf (.obj calledJob))
  .ok (setField "if" (conditionJson condition) (setField "env" env calledJob))

/-- The jobs of a called workflow that are mappings, under the calling job's id. -/
def inlineJobs (jobId : String) (rawJob : Json) (callerInputs : Option Inputs)
    (calledEnv : List (String × String)) :
    Fields → Fields → Except WorkflowError Fields
  | expanded, [] => .ok expanded
  | expanded, (calledId, .obj calledJob) :: rest => do
    let merged ← mergedJob repository jobId rawJob callerInputs calledEnv calledJob
    inlineJobs jobId rawJob callerInputs calledEnv (setField s!"{jobId}/{calledId}" (.obj merged) expanded) rest
  | expanded, _ :: rest => inlineJobs jobId rawJob callerInputs calledEnv expanded rest

def uses (rawJob : Json) : Option String := (rawJob.get "uses").asStr?

variable [DecidableEq Path]

/-- One job after another, with `deeper` for the jobs of a called workflow. -/
def expandJobs (deeper : Fields → List Path → Except WorkflowError Fields) (seen : List Path)
    (callerInputs : Option Inputs) : Fields → Fields → Except WorkflowError Fields
  | expanded, [] => .ok expanded
  | expanded, (jobId, rawJob) :: rest =>
    match uses rawJob with
    | some called => do
      let path ← calledPath repository jobId called seen
      refuseUnmapped jobId rawJob
      let (calledJobs, calledEnv) ← repository.readCall path called jobId (rawJob.get "with")
      let inner ← deeper calledJobs (path :: seen)
      let expanded ← inlineJobs repository jobId rawJob callerInputs calledEnv expanded inner
      expandJobs deeper seen callerInputs expanded rest
    | none => expandJobs deeper seen callerInputs (setField jobId rawJob expanded) rest

/-- `_expand_calls`, where the interpreter's stack has room for that many expansions inside one
another. -/
def expandCalls : Nat → Fields → List Path → Option Inputs → Except WorkflowError Fields
  | 0, _, _, _ => .error .recursion
  | room + 1, rawJobs, seen, callerInputs =>
    expandJobs repository (fun jobs seen => expandCalls room jobs seen none) seen callerInputs [] rawJobs

end Calls

/-! ## A mapping that is set -/

theorem get_setField_self (key : String) (value : Json) (fields : Fields) :
    (Json.obj (setField key value fields)).get key = value := by
  unfold setField
  simp only [Json.get]
  split
  · rename_i present
    induction fields with
    | nil => cases present
    | cons field fields ih =>
      by_cases here : field.1 = key
      · simp only [List.map_cons, if_pos here, List.find?_cons, decide_true, Option.map_some,
          Option.getD_some]
      · simp only [List.any_cons, here, decide_false, Bool.false_or] at present
        rw [List.map_cons, if_neg here, List.find?_cons_of_neg (by simpa using here)]
        exact ih present
  · rename_i absent
    have missing : fields.find? (fun field => field.1 = key) = none := by
      rw [List.find?_eq_none]
      intro field member same
      exact absent (List.any_eq_true.mpr ⟨field, member, same⟩)
    rw [List.find?_append, missing]
    simp only [Option.none_or, List.find?_cons, decide_true, Option.map_some, Option.getD_some]

inductive Unsupported where
  /-- The run has no context to read the condition with. -/
  | context (message : String)
  | unreadable (jobId : String) (error : ConditionError)
  /-- The paths the run does not carry. -/
  | undecided (jobId : String) (unread : List String)
  deriving DecidableEq, Repr

def jobRuns (jobId : String) (condition : Option String) (context : Except String RunContext) :
    Except Unsupported Bool :=
  match condition, context with
  | none, _ => .ok true
  | some _, .error message => .error (.context message)
  | some condition, .ok context =>
    match evaluateCondition context condition with
    | .error error => .error (.unreadable jobId error)
    | .ok ⟨some value, _⟩ => .ok value
    | .ok ⟨none, unread⟩ => .error (.undecided jobId unread)

end Cindral.Workflow

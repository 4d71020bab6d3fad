import Cindral.Agent.Api
import Cindral.Device.Report
import Cindral.Workflow.Context

/-!
# What a device and the broker say to each other

The requests of `CindralClient` and `CindralArtifactClient`, the answers of the broker as they travel, and
what a device makes of one.
-/

namespace Cindral.Device
open Base
open Agent (Conversions Raised Reply Request)
open Archive (Artifact)
open Queue (Job Row RowStep)
open Workflow (JobSpec)

/-- What a request ends in that brings no answer: the status it was refused under, if any. -/
inductive Failure where
  | cindralError (text : String) (status : Option Nat)
  | artifactClientError (text : String)
  | osError (text : String)
  | other (type text : String)
  deriving DecidableEq, Repr

/-- One request, with what its path and its body hold. -/
inductive Message where
  | claim (device : String) (labels : List String) (leaseSeconds : Int)
  | renew (jobId device : String) (leaseSeconds : Int)
  | heartbeat (device : String) (labels : List String) (maxConcurrency : Int)
      (build : List (String × String))
  | report (jobId device : String) (exitCode : Int) (log : String) (steps : List Json)
  | reportLost (jobId device error log : String) (steps : List Json)
  | upload (jobId device : String) (archive : List UInt8)

/-- A character `quote(text, safe="")` leaves as it is. -/
def unreserved (c : Char) : Bool :=
  ('a' ≤ c && c ≤ 'z') || ('A' ≤ c && c ≤ 'Z') || ('0' ≤ c && c ≤ '9') || ['_', '.', '-', '~'].contains c

def percent (byte : UInt8) : List Char :=
  let digits := (Nat.toDigits 16 byte.toNat).map Char.toUpper
  '%' :: List.replicate (2 - digits.length) '0' ++ digits

/-- `quote(text, safe="")` -/
def quote (text : String) : String :=
  .ofList (text.toList.flatMap fun c => if unreserved
  c then [c] else (String.singleton c).toUTF8.toList.flatMap percent)

def lostBody (device error log : String) (steps : List Json) : Json :=
  .obj ([("device", .str device), ("error", .str (sliceTo error Queue.maxErrorChars))] ++
    (if log = "" then [] else [("log", .str log)]) ++
    (if steps.isEmpty then [] else [("steps", .arr steps)]))

/-- What follows a job's id in the paths of a job. -/
def jobPath (jobId action : String) : String := s!"/v1/jobs/{jobId}/{action}"

namespace Message

def path : Message → String
  | claim .. => "/v1/jobs/claim"
  | renew jobId .. => jobPath jobId "renew"
  | heartbeat .. => Agent.agentHeartbeatPath
  | report jobId .. | reportLost jobId .. => jobPath jobId "report"
  | upload jobId .. => jobPath (quote jobId) "artifacts"

def texts (items : List String) : Json := .arr (items.map .str)

/-- The JSON body of a request that has one. -/
def body : Message → Option Json
  | claim device labels leaseSeconds =>
    some (.obj [("device", .str device), ("labels", texts labels), ("lease_seconds", .int leaseSeconds)])
  | renew _ device leaseSeconds =>
      some (.obj [("device", .str device), ("lease_seconds", .int leaseSeconds)])
  | heartbeat device labels maxConcurrency build =>
    some (.obj [("device", .str device), ("labels", texts labels),
      ("max_concurrency", .int maxConcurrency),
      ("build", .obj (build.map fun field => (field.1, .str field.2)))])
  | report _ device exitCode log steps => some (reportBody device exitCode log steps)
  | reportLost _ device error log steps => some (lostBody device error log steps)
  | upload .. => none

/-- How much of an upload the broker reads at a time. -/
def blockSize : Nat := 1024 * 1024

def data (float : ℚ → List Char) : Message → List UInt8
  | upload _ _ archive => archive
  | m => encode (Json.dumps float (m.body.getD .null))

def request (float : ℚ → List Char) (token : String) (m : Message) : Request :=
  { command := "POST", path := m.path, authorization := s!"Bearer {token}"
    deviceHeader := match m with
      | upload _ device _ => device
      | _ => ""
    contentLength := some (toString (m.data float).length)
    body := m.body.map .ok
    source := match m with
      | upload _ _ archive => archive.toChunks blockSize
      | _ => [] }

end Message

/-! ## The broker's answers -/

def statusText : Queue.JobStatus → String
  | .pending => "pending"
  | .running => "running"
  | .success => "success"
  | .failure => "failure"
  | .dead => "dead"

def orNull {α : Type} (json : α → Json) (value : Option α) : Json := (value.map json).getD .null

def asDict (job : Job) : List (String × Json) :=
  [("id", .str job.id), ("repository", .str job.repository), ("sha", .str job.sha), ("ref", .str job.ref),
    ("command", Message.texts job.command), ("labels", Message.texts job.labels),
    ("timeout", .int job.timeout),
    ("status", .str (statusText job.status)), ("device", orNull .str job.device),
    ("exit_code", orNull .int job.exitCode),
    ("attempts", .int job.attempts), ("last_error", orNull .str job.lastError),
    ("status_sha", orNull .str job.statusSha), ("log", .str job.log),
    ("created_at", .float job.createdAt),
    ("steps", .arr (job.steps.map Queue.StepRecord.asDict))]

/-- `Artifact.as_dict` -/
def artifactDict (record : Artifact) : Json :=
  .obj [("name", .str record.name), ("size", .int record.size), ("digest", .str record.digest),
    ("created_at", .float record.createdAt), ("expires_at", .float record.expiresAt),
    ("url", .str (jobPath record.jobId "artifacts"))]

def withArtifacts (job : Job) (record : Option Artifact) : List (String × Json) :=
  asDict job ++ [("artifacts", orNull artifactDict record)]

/-- The status and the JSON body of an answer, for those that have such a body. `build` is what the
broker runs. -/
def answer (build : List (String × String)) : Reply → Option (Nat × List (String × Json))
  | .refused status text => some (status, [("error", .str text)])
  | .recorded device lastSeen =>
    some (200, [("recorded", .bool true), ("device", .str device), ("last_seen", .float lastSeen),
      ("broker_build", .obj (build.map fun field => (field.1, .str field.2)))])
  | .idle => some (204, [])
  | .claimed job => some (200, [("job", .obj (asDict job))])
  | .renewed jobId => some (200, [("renewed", .bool true), ("id", .str jobId)])
  | .reported job record posted =>
      some (200, withArtifacts job record ++ [("status_posted", .bool posted)])
  | .job job record => some (200, withArtifacts job record)
  | .stored created record => some (if created then 201 else 200,
      [("stored", .bool true), ("artifact", artifactDict record)])
  | .log _ | .archive _ => none

/-- What `_request` makes of an answer. -/
def received (build : List (String × String)) (reply : Reply) :
    Except Failure (Nat × List (String × Json)) :=
  match answer build reply with
  | none => .error (.cindralError "relay returned invalid JSON" none)
  | some (status, payload) =>
    if 400 ≤ status then .error (.cindralError s!"relay request failed with HTTP {status}" (some status))
    else .ok (status, payload)

/-! ## What a device reads -/

/-- `JobSpec.from_dict` -/
def specFromDict (py : Conversions) : Json → Except Raised JobSpec
  | .obj value => do
    let id ← Agent.item value "id"
    let repository ← Agent.item value "repository"
    let sha ← Agent.item value "sha"
    let ref ← Agent.item value "ref"
    let command ← Agent.elements ((value.lookup "command").getD (.arr []))
    let timeout ← py.int ((value.lookup "timeout").getD (.int 3600))
    pure { id := py.str id, repository := py.str repository, sha := py.str sha, ref := py.str ref
           command := command.map py.str, timeout := timeout }
  | _ => .error (.typeError "a job is not a mapping")

/-- What `claim` makes of the payload it gets. -/
def claimed (py : Conversions) (payload : List (String × Json)) : Except Failure (Option JobSpec) :=
  let job := (payload.lookup "job").getD .null
  if !job.truthy then .ok none
  else match specFromDict py job with
    | .ok spec => .ok (some spec)
    | .error (.keyError _) | .error (.typeError _) | .error (.valueError _) =>
      .error (.cindralError "relay returned a malformed job" none)
    | .error _ => .error (.other "OverflowError" "cannot convert float infinity to integer")

/-! ## What a device is told -/

/-- The work of a row, as its device is told it. -/
def work (row : Row) : JobSpec :=
  { id := row.id, repository := row.repository, sha := row.sha, ref := row.ref,
      command := row.command, timeout := row.timeout }

def handedWork (job : Job) : JobSpec :=
  { id := job.id, repository := job.repository, sha := job.sha, ref := job.ref,
      command := job.command, timeout := job.timeout }

@[simp] theorem handedWork_job (row : Row) : handedWork row.job = work row := rfl
@[simp] theorem work_id (row : Row) : (work row).id = row.id := rfl

/-- Nothing the broker does to a row changes the work. -/
theorem step_work {s : Queue.Store} {op : Queue.Store.Op} {r r' : Row} (step : RowStep s op r r') :
    work r' = work r := by
  cases step <;> rfl

section Reads
variable {py : Conversions} {build : List (String × String)}

theorem texts_read (items : List String) :
    Agent.elements (Message.texts items) = .ok (items.map .str) := rfl

theorem map_str (items : List String) : (items.map Json.str).map py.str = items := by
  induction items with
  | nil => rfl
  | cons text items ih =>
    rw [List.map_cons, List.map_cons, ih, py.str_str]

/-- A device reads of a job's dictionary what the job says. -/
theorem spec_asDict (job : Job) : specFromDict py (.obj (asDict job)) = .ok (handedWork job) := by
  have command : (asDict job).lookup "command" = some (Message.texts job.command) := rfl
  have timeout : (asDict job).lookup "timeout" = some (.int job.timeout) := rfl
  have id : Agent.item (asDict job) "id" = .ok (.str job.id) := rfl
  have repository : Agent.item (asDict job) "repository" = .ok (.str job.repository) := rfl
  have sha : Agent.item (asDict job) "sha" = .ok (.str job.sha) := rfl
  have ref : Agent.item (asDict job) "ref" = .ok (.str job.ref) := rfl
  simp only [specFromDict, id, repository, sha, ref, command, timeout, Option.getD_some, texts_read,
    py.int_int]
  simp only [bind, Except.bind, pure, Except.pure, map_str, py.str_str, handedWork]

/-- A payload that names a job is the answer to a claim. -/
theorem claimed_answer {reply : Reply} {status : Nat} {payload : List (String × Json)} {spec : JobSpec}
    (told : received build reply = .ok (status, payload)) (read : claimed py payload = .ok (some spec)) :
    ∃ job, reply = .claimed job ∧ spec = handedWork job := by
  have unnamed : payload.lookup "job" ≠ none := by
    intro absent
    simp only [claimed, absent] at read
    cases read
  cases reply with
  | claimed job =>
    obtain ⟨rfl, rfl⟩ := Prod.mk.inj (Except.ok.inj told)
    have named : ([("job", Json.obj (asDict job))] : List (String × Json)).lookup
      "job" = some (.obj (asDict job)) := rfl
    simp only [claimed, named, Option.getD_some, spec_asDict] at read
    refine ⟨job, rfl, ?_⟩
    exact (Option.some.inj (Except.ok.inj read)).symm
  | refused refusal text =>
    simp only [received, answer] at told
    split at told
    · cases told
    · obtain ⟨rfl, rfl⟩ := Prod.mk.inj (Except.ok.inj told)
      exact absurd rfl unnamed
  | stored created record =>
    cases created with
    | true | false =>
      obtain ⟨rfl, rfl⟩ := Prod.mk.inj (Except.ok.inj told)
      exact absurd rfl unnamed
  | log _ | archive _ => cases told
  | _ =>
    obtain ⟨rfl, rfl⟩ := Prod.mk.inj (Except.ok.inj told)
    exact absurd rfl unnamed

end Reads
end Cindral.Device

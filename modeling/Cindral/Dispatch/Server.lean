import Cindral.Dispatch.Budget
import Cindral.Dispatch.Events

/-! What every handler of the broker has at hand: its configuration, the response bodies, and the device queue. -/

namespace Cindral.Dispatch
open Base Routing
open Queue (CommitState EnqueueRequest headShaFor)

/-- The attributes `serve` sets. `github`, `jobsDb`, `agentToken` and `webhookSecret` are whether
each is configured. -/
structure Server where
  policy : Policy
  runners : List Runner
  github : Bool
  jobsDb : Bool
  agentToken : Bool
  webhookSecret : Bool
  workflowFile : String := "cindral-dispatch.yml"
  jobTimeout : Int := 3600
  reservationSeconds : ℚ := 10

def missingWorkflow (repository workflow : String) : String :=
  s!"{repository} has no workflow file named {workflow}"

def optional (text : Option String) : Json := text.elim .null .str

def Capacity.asJson (c : Capacity) : Json :=
  .obj [("source", .str "github_repository_runners"), ("registered", .int c.registered),
    ("online_idle", .int c.onlineIdle), ("lane_idle", .int c.laneIdle), ("reserved", .int c.reserved),
    ("available", .int c.available), ("queued_by_github", .bool c.queuedByGithub),
    ("runner_candidate", optional c.runnerCandidate)]

/-- `as_dict`. The hold is bookkeeping and stays out of it. -/
def asDict (d : RouteDecision) (reason : String) : List (String × Json) :=
  [("lane", .str d.lane), ("runs_on", .arr (d.runsOn.map .str)), ("reason", .str reason),
    ("runner", optional d.runner)] ++
    (d.capacity.map fun c => ("capacity", Capacity.asJson c)).toList

/-- Post a commit status, and say whether it landed. Only an error GitHub's client names is absorbed. -/
def postQuietly (repository sha : String) (state : CommitState) (description : String) :
    Program Bool := do
  match ← (ask (.postStatus repository sha state description)).attempt with
  | .ok _ => pure true
  | .error (.githubApiError _) => pure false
  | .error e => raise e

/-- A status that is posted only where there is a client and a commit to post it on. -/
def postIf (able : Bool) (repository sha : String) (state : CommitState) (description : String) :
    Program Bool :=
  if able then postQuietly repository sha state description else pure false

/-- `publish_check_run_quietly`, which absorbs whatever the Checks API raises. -/
def publishQuietly (server : Server) (job : Queue.Job) : Program Unit :=
  if server.github then ask (.publishCheckRun job) else pure ()

def enqueueDirect (server : Server) (delivery : Option String) (repository sha ref : String)
    (statusSha : Option String) (extra : List (String × Json)) : Program Unit :=
  if !server.agentToken then sendError 503 "direct execution requires CINDRAL_AGENT_TOKEN"
  else if !server.jobsDb then raise (.other "AssertionError")
  else do
    -- an empty header is no delivery
    let delivery := delivery.bind fun id => if id = "" then none else some id
    let job ← ask (.enqueue { repository := repository, sha := sha, ref := ref,
                              timeout := server.jobTimeout
                              delivery := delivery, statusSha := statusSha })
    publishQuietly server job
    let posted ← postIf server.github repository (headShaFor sha statusSha) .pending
      "queued on the device pool"
    send 202 ([("queued", .bool true), ("job", .str job.id), ("repository", .str repository),
      ("sha", .str sha),
      ("status_posted", .bool posted)] ++ extra)

end Cindral.Dispatch

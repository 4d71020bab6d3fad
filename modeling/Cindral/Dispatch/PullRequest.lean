import Cindral.Dispatch.Server

/-! The pull request webhook: a trusted event may run on a device, any other one is asked onto the hosted lane. -/

namespace Cindral.Dispatch
open Base Routing
open Queue (CommitState)

variable (server : Server)

def postPullRequestStatus (event : PullRequestEvent) (state : CommitState) (description : String) :
    Program Bool :=
  if !server.github || event.statusSha = "" then pure false
  else postQuietly event.repository event.statusSha state description

/-- `_run_sha`. -/
def resolveRunSha (event : PullRequestEvent) : Program String :=
  if !server.github then pure event.runSha
  else do
    match ← (ask (.pullRequestMergeSha event.repository event.number)).attempt with
    | .ok resolved => pure (runShaForPullRequest event.headSha resolved)
    | .error (.githubApiError _) => pure event.headSha
    | .error e => raise e

def pullRequestInputs (event : PullRequestEvent) (decision : RouteDecision) : List (String × String) :=
  [("cindral_lane", decision.lane), ("cindral_target", ""),
    ("cindral_reason", if event.trusted then decision.reason else event.hostedReason),
    ("cindral_ref", event.ref)]

/-- What the handler asks the policy. The quota is left unknown. -/
def pullRequestRoute (event : PullRequestEvent) : RouteRequest :=
  { requestedLane := if event.trusted then "auto" else "hosted"
    repositoryVisibility := if event.isPrivate then "private" else "public", quotaStatus := "unknown" }

/-- The handler once the request has gone out, or has failed to. -/
def answerPullRequest (delivery : Option String) (event : PullRequestEvent)
    (decision : RouteDecision) (posted : Bool) :
    Except Raised Unit → Program Unit
  | .error (.githubDispatchError text _) => do
    releaseReservation server.jobsDb decision.reservation
    let _ ← postPullRequestStatus server event .error "the dispatch was rejected by GitHub"
    sendError 502 text
  | .error _ => do
    -- an answer that was lost may have started a run, so its hold stays
    let _ ← postPullRequestStatus server event .error "the dispatch could not be sent"
    sendError 502 "the dispatch could not be sent"
  | .ok _ => do
    nameHold server.jobsDb decision.reservation event.repository server.workflowFile event.defaultBranch
    let reason := if event.trusted then decision.reason else event.hostedReason
    send 200 (asDict decision reason ++
      [("dispatched", .bool true), ("repository", .str event.repository),
        ("pull_request", .int event.number),
        ("ref", .str event.ref), ("trusted", .bool event.trusted), ("status_posted", .bool posted),
        ("delivery", .str (delivery.getD ""))])

/-- The handler from the decision on. -/
def sendPullRequest (delivery : Option String) (event : PullRequestEvent) (decision : RouteDecision) :
    Program Unit := do
  let posted ← postPullRequestStatus server event .pending s!"dispatched on the {decision.lane} lane"
  let outcome ← (ask (.dispatch ⟨none, event.repository, server.workflowFile, event.defaultBranch,
    pullRequestInputs event decision⟩)).attempt
  answerPullRequest server delivery event decision posted outcome

/-- The handler once GitHub has found the adapter. -/
def decidePullRequest (delivery : Option String) (event : PullRequestEvent) : Program Unit := do
  match ← (choose server.policy (pullRequestRoute event) server.runners).attempt with
  | .error (.routeUnavailable text) => sendError 409 text
  | .error e => raise e
  | .ok decision => sendPullRequest server delivery event decision

/-- The handler from the adapter lookup on. -/
def dispatchPullRequest (delivery : Option String) (event : PullRequestEvent) : Program Unit := do
  match ← (ask (.workflowExists event.repository server.workflowFile)).attempt with
  | .error (.githubApiError text) => sendError 502 text
  | .error e => raise e
  | .ok false => do
    let reason := missingWorkflow event.repository server.workflowFile
    let _ ← postPullRequestStatus server event .error s!"{reason}; this pull request ran nowhere"
    send 202 [("status", .str "ignored"), ("reason", .str reason), ("workflow", .str server.workflowFile)]
  | .ok true => decidePullRequest server delivery event

def handlePullRequest (delivery : Option String) (event : PullRequestEvent) : Program Unit :=
  if !isRepositorySlug event.repository then sendError 400 "invalid repository name"
  else if !event.shouldRoute then
    send 202 [("status", .str "ignored"),
    ("reason", .str s!"pull request action is not routed: {event.action}")]
  else if server.jobsDb && event.directEligible && server.policy.permitsDevice event.repository then do
    let sha ← resolveRunSha server event
    enqueueDirect server delivery event.repository sha event.ref (some event.statusSha)
      [("pull_request", .int event.number), ("trusted", .bool true)]
  else if !server.github then sendError 503 "GitHub dispatch token is not configured"
  else dispatchPullRequest server delivery event

def pullRequestWebhook (delivery : Option String) (payload : Option Json) : Program Unit :=
  match parsePullRequestEvent payload with
  | .error text => sendError 400 text
  | .ok event => handlePullRequest server delivery event

end Cindral.Dispatch

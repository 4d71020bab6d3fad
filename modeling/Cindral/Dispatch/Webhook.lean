import Cindral.Dispatch.PullRequest
import Cindral.Dispatch.Push

/-! The two doors a dispatch comes in by: the signed webhook and the dispatch endpoint. -/

namespace Cindral.Dispatch
open Base Routing

/-- One request to the webhook. `fingerprint` is the SHA-256 digest of the body, `payload` the body
decoded. -/
structure WebhookRequest where
  tooLarge : Bool := false
  verified : Bool := true
  event : Option String
  delivery : Option String
  fingerprint : String
  payload : Option Json

def tagPush (ref : String) : List (String × Json) :=
  [("status", .str "refused"), ("error", .str s!"a tag is not a device-lane ref: {ref}"),
    ("ref", .str ref),
    ("hint", .str ("release from a tag push needs a dispatch workflow," ++
      " or a repository in policy that names this tag ref"))]

/-- A push to the default branch, on the lane the policy prefers. -/
def handlePush (server : Server) (header : Option String) (fingerprint : String)
    (event : PushEvent) : Program Unit :=
  let lane := if server.jobsDb then server.policy.pushLane event.repository else none
  let enqueue := enqueueDirect server header event.repository event.after event.branch none []
  match lane with
  | some .device => enqueue
  | some _ => dispatchPush server header fingerprint event event.branch (some enqueue)
  | none => dispatchPush server header fingerprint event event.branch none

def pushWebhook (server : Server) (request : WebhookRequest) : Program Unit :=
  match parsePushEvent request.payload with
  | .error text => sendError 400 text
  | .ok event =>
    if !isRepositorySlug event.repository then sendError 400 "invalid repository name"
    else if event.branch = "" ∧ hasPrefix event.ref "refs/tags/" = true then send 422 (tagPush event.ref)
    else if event.branch = "" ∨ event.branch ≠ event.defaultBranch then
      send 202 [("status", .str "ignored"), ("reason", .str ("branch is not the default branch: " ++
        if event.branch = "" then event.ref else event.branch))]
    else handlePush server request.delivery request.fingerprint event

def webhook (server : Server) (request : WebhookRequest) : Program Unit :=
  if !server.webhookSecret then sendError 503 "webhook secret is not configured"
  else if request.tooLarge then sendError 413 "payload too large"
  else if !request.verified then sendError 401 "signature verification failed"
  else if request.event = some "pull_request" then pullRequestWebhook server request.delivery
  request.payload
  else if request.event = some "push" then pushWebhook server request
  else send 202 [("status", .str "ignored"), ("reason", .str "event is not supported")]

structure DispatchRequest where
  authorized : Bool := true
  route : RouteRequest
  repository : Option String
  workflow : Option String
  ref : Option String
  inputs : List (String × String) := []

/-- `dict` assignment. -/
def setInput (inputs : List (String × String)) (name value : String) : List (String × String) :=
  if inputs.any (·.1 = name) then inputs.map fun field => if field.1 = name then (name, value) else field
  else inputs ++ [(name, value)]

/-- `checked_dispatch_ref`: a checkout ref is one the policy names, and it goes out as it was checked. -/
def checkedDispatchRef (p : Policy) (repository workflow : String) (inputs : List (String × String)) :
    Except Raised (List (String × String)) :=
  let named := strip ((inputs.lookup "cindral_ref").getD "")
  if named = "" then .ok inputs
  else (p.checkDispatch repository workflow named).map fun _ => setInput inputs "cindral_ref"
  (canonicalRef named)

/-- `_dispatch_to_github`, with the answer to the caller. -/
def dispatchToGithub (server : Server) (repository workflow ref : String)
    (inputs : List (String × String))
    (reservation : Option (String × Nat)) (decision : RouteDecision) : Program Unit := do
  match ← (ask (.dispatch ⟨none, repository, workflow, ref, inputs⟩)).attempt with
  | .ok _ => do
    nameHold server.jobsDb decision.reservation repository workflow ref
    send 200 (asDict decision decision.reason ++ [("dispatched", .bool true)])
  | .error (.githubDispatchError text statusCode) => do
    -- no status means that the request never reached GitHub
    releaseIf (statusCode.all (· < 500)) server.jobsDb decision.reservation
    dropRunner reservation
    sendError 502 text
  | .error _ => do
    dropRunner reservation
    sendError 502 "GitHub dispatch failed"

def dispatchChecked (server : Server) (route : RouteRequest) (repository workflow ref : String)
    (inputs : List (String × String)) : Program Unit := do
  match ← (dispatchDecision server route repository false).attempt with
  | .error (.githubApiError text) => sendError 502 text
  | .error (.routeUnavailable text) => sendError 409 text
  | .error e => raise e
  | .ok (decision, reservation) =>
    let inputs := setInput (setInput (setInput inputs "cindral_lane" decision.lane) "cindral_target"
      (route.target.getD "")) "cindral_reason" decision.reason
    dispatchToGithub server repository workflow ref inputs reservation decision

/-- `/v1/dispatch`. -/
def dispatchEndpoint (server : Server) (request : DispatchRequest) : Program Unit :=
  if !request.authorized then sendError 401 "dispatch requires a bearer token"
  else if !server.github then sendError 503 "GitHub dispatch token is not configured"
  else match request.repository, request.workflow, request.ref with
    | none, _, _ => sendError 400 "missing dispatch field: repository"
    | _, none, _ => sendError 400 "missing dispatch field: workflow"
    | _, _, none => sendError 400 "missing dispatch field: ref"
    | some repository, some workflow, some ref =>
      match server.policy.checkDispatch repository workflow ref with
      | .error e => sendError 403 e.text
      | .ok _ =>
        match checkedDispatchRef server.policy repository workflow request.inputs with
        | .error e => sendError 403 e.text
        | .ok inputs => dispatchChecked server request.route repository workflow ref inputs

end Cindral.Dispatch

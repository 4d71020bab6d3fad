import Cindral.Dispatch.Capacity

/-!
# Pushes

A push is registered in the delivery ledger, claimed, dispatched once, and finished. Its redelivery
and the replay after a restart go through the same claim. A push GitHub refuses may be handed to the
device queue instead.
-/

namespace Cindral.Dispatch
open Base Routing

/-- What `dispatch_record` tells its caller: a state, or that another attempt has settled the delivery. -/
inductive Handled where
  | duplicate
  | state (state : DeliveryState)
  deriving DecidableEq, Repr

def Handled.text : Handled → String
  | duplicate => "duplicate"
  | state s => s.text

def stateToStatus : Handled → Nat
  | .duplicate | .state .accepted => 202
  | .state .rejected => 422
  | .state .ready | .state .attempting | .state .uncertain => 503

def shouldFallback (handled : Handled) : Bool := handled = .state .rejected

/-- `_finish`: a result that could not be recorded reads as uncertain. -/
def finishRecord (record : Delivery) (state : DeliveryState) (error : String) :
    Program (Handled × String) := do
  match ← (ask (.finish record.repository record.delivery state error)).attempt with
  | .ok _ => pure (.state state, error)
  | .error (.sqliteError _) | .error (.runtimeError _) =>
    pure (.state .uncertain, "dispatch result could not be recorded")
  | .error e => raise e

/-- An answer after which a run may exist, or that GitHub may take back. -/
def refusalUncertain (statusCode : Option Nat) : Bool :=
  statusCode.any fun code => 500 ≤ code || code = 403 || code = 429

/-- The request `dispatch_record` sends for a row. -/
def requestOf (record : Delivery) : Request :=
  ⟨some record.key, record.repository, record.workflow, record.ref, record.inputs⟩

/-- `dispatch_record` once GitHub has answered, or has not. -/
def recordOutcome (record : Delivery) (ledger : Bool) (reservation : Option Nat) :
    Except Raised Unit → Program (Handled × String)
  | .error (.githubDispatchError text statusCode) => do
    let state := if refusalUncertain statusCode then .uncertain else .rejected
    releaseIf (state = .rejected) ledger reservation
    finishRecord record state text
  | .error e => do
    let (state, _) ← finishRecord record .uncertain e.text
    releaseIf (state = .state .rejected) ledger reservation
    pure (state, "GitHub dispatch result is unknown")
  | .ok _ => do
    nameHold ledger reservation record.repository record.workflow record.ref
    finishRecord record .accepted ""

/-- `dispatch_record` once the row is claimed. -/
def dispatchClaimed (record : Delivery) (ledger : Bool) (reservation : Option Nat) :
    Program (Handled × String) := do
  let outcome ← (ask (.dispatch (requestOf record))).attempt
  recordOutcome record ledger reservation outcome

def dispatchRecord (record : Delivery) (ledger : Bool) (reservation : Option Nat) :
    Program (Handled × String) := do
  let claimed ← ask (.claimDelivery record.repository record.delivery)
  if claimed then dispatchClaimed record ledger reservation
  else do
    releaseReservation ledger reservation
    match ← ask (.getDelivery record.repository record.delivery) with
    | none => pure (.state .uncertain, "delivery record vanished before dispatch")
    | some current => if current.state.terminal then pure (.duplicate, "") else pure (.state current.state, "")

/-- `reserve_for`: only the metered lane is held for. -/
def reserveFor (p : Policy) (inputs : List (String × String)) : Program (Option Nat × Option String) :=
  if inputs.lookup "cindral_lane" = some hostedLane then reserveMetered p (.finite 0) else pure
    (none, none)

/-- `_adapter_absent`: a push GitHub has no adapter for goes to the device, or is told that it ran
nowhere. -/
def adapterAbsent (server : Server) (event : PushEvent) (workflow reason : String)
    (fallback : Option (Program Unit)) :
    Program Unit :=
  let eligible := server.policy.permitsDevice event.repository
  match if eligible then fallback else none with
  | some enqueue => enqueue
  | none => do
    let why := if eligible then "" else "; the policy does not serve this repository on a device"
    let _ ← postIf (server.github && event.after ≠ "") event.repository event.after .error
      s!"{reason}{why}; this push ran nowhere"
    send 202 [("status", .str "ignored"), ("reason", .str s!"{reason}{why}"), ("workflow", .str workflow)]

def removedReason (repository workflow : String) : String :=
  s!"{missingWorkflow repository workflow}; it was removed before the replay"

/-- What a redelivery of a ready row does first. True if it has answered the request. -/
def checkAdapter (server : Server) (event : PushEvent) (existing : Delivery) (delivery : String)
    (fallback : Option (Program Unit)) : Program Bool := do
  let found ← ask (.workflowExists event.repository existing.workflow)
  if found then pure false
  else do
    let reason := removedReason event.repository existing.workflow
    let rejected ← ask (.rejectReady event.repository delivery reason)
    if rejected then do
      adapterAbsent server event existing.workflow reason fallback
      pure true
    else pure false

/-- A redelivery of a ready row, once GitHub has the adapter. -/
def dispatchExisting (server : Server) (event : PushEvent) (existing : Delivery) (delivery : String)
    (fallback : Option (Program Unit)) : Program Unit := do
  let (hold, refusal) ← reserveFor server.policy existing.inputs
  match refusal with
  | some reason => send 409 [("error", .str reason), ("delivery", .str delivery)]
  | none =>
    match ← (dispatchRecord existing server.jobsDb hold).attempt with
    | .error (.sqliteError _) => do
      releaseReservation server.jobsDb hold
      sendError 503 "delivery state could not be read"
    | .error e => raise e
    | .ok (state, error) =>
      match if server.policy.permitsDevice event.repository && shouldFallback
        state then fallback else none with
      | some enqueue => enqueue
      | none => send (stateToStatus state) [("status", .str state.text), ("delivery", .str delivery), ("error", .str error)]

def redeliver (server : Server) (event : PushEvent) (existing : Delivery) (delivery : String)
    (fallback : Option (Program Unit)) : Program Unit := do
  match ← (checkAdapter server event existing delivery fallback).attempt with
  | .error (.githubApiError text) => sendError 502 text
  | .error (.sqliteError _) => sendError 503 "delivery state could not be recorded"
  | .error e => raise e
  | .ok true => pure ()
  | .ok false => dispatchExisting server event existing delivery fallback

def pushRoute (server : Server) (event : PushEvent) : RouteRequest :=
  { requestedLane := if server.policy.pushLane event.repository = some .auto then "auto" else "hosted"
    repositoryVisibility := if event.isPrivate then "private" else "public", quotaStatus := "unknown" }

/-- The lane of a first delivery, or nothing once the request has been answered. -/
def decidePush (server : Server) (event : PushEvent) (fallback : Option (Program Unit)) :
    Program (Option (RouteDecision × Option (String × Nat))) := do
  let found ← ask (.workflowExists event.repository server.workflowFile)
  if found then do
    let decided ← dispatchDecision server (pushRoute server event) event.repository true
    pure (some decided)
  else do
    adapterAbsent server event server.workflowFile
      (missingWorkflow event.repository server.workflowFile) fallback
    pure none

def pushInputs (decision : RouteDecision) : List (String × String) :=
  [("cindral_lane", decision.lane), ("cindral_target", ""), ("cindral_reason", decision.reason)]

/-- Give back the runner and the hold of a push that goes no further. -/
def giveBack (server : Server) (decision : RouteDecision) (reservation : Option (String × Nat)) :
    Program Unit := do
  dropRunner reservation
  releaseReservation server.jobsDb decision.reservation

/-- The answer to a first delivery, from what `dispatch_record` said of it. -/
def answerPush (server : Server) (header : Option String) (event : PushEvent) (branch delivery : String)
    (fallback : Option (Program Unit)) (decision : RouteDecision) (reservation : Option (String × Nat))
    (record : Delivery) : Handled × String → Program Unit
  | (.duplicate, _) => do
    giveBack server decision reservation
    send 202 [("status", .str "duplicate"), ("delivery", .str delivery)]
  | (.state .accepted, _) =>
    if record.inputs ≠ pushInputs decision then do
      dropRunner reservation
      send 202 [("status", .str "accepted"), ("delivery", .str delivery)]
    else
      send 200 (asDict decision decision.reason ++
        [("dispatched", .bool true), ("repository", .str event.repository), ("branch", .str branch),
          ("delivery", .str (header.getD ""))])
  | (state, error) => do
    dropRunner reservation
    match if shouldFallback state then fallback else none with
    | some enqueue => enqueue
    | none =>
      send (stateToStatus state) [("status", .str state.text), ("error", .str error),
        ("delivery", .str delivery)]

/-- A first delivery, once its lane is decided. -/
def registerPush (server : Server) (header : Option String) (fingerprint : String) (event : PushEvent)
    (branch delivery : String) (fallback : Option (Program Unit)) (decision : RouteDecision)
    (reservation : Option (String × Nat)) : Program Unit := do
  match ← (ask (.register event.repository delivery fingerprint server.workflowFile branch
      (pushInputs decision)
      event.after)).attempt with
  | .error (.sqliteError _) => do
    giveBack server decision reservation
    sendError 503 "delivery could not be recorded"
  | .error e => raise e
  | .ok record =>
    if record.fingerprint ≠ fingerprint then do
      giveBack server decision reservation
      sendError 409 "delivery ID belongs to a different payload"
    else
      match ← (dispatchRecord record server.jobsDb decision.reservation).attempt with
      | .error (.sqliteError _) => do
        giveBack server decision reservation
        sendError 503 "delivery state could not be read"
      | .error e => raise e
      | .ok handled =>
        answerPush server header event branch delivery fallback decision reservation record handled

def firstDelivery (server : Server) (header : Option String) (fingerprint : String) (event : PushEvent)
    (branch delivery : String) (fallback : Option (Program Unit)) : Program Unit :=
  if !server.github then sendError 503 "GitHub dispatch token is not configured"
  else do
    match ← (decidePush server event fallback).attempt with
    | .error (.routeUnavailable text) => sendError 409 text
    | .error (.githubApiError text) => sendError 502 text
    | .error e => raise e
    | .ok none => pure ()
    | .ok (some (decision, reservation)) =>
      registerPush server header fingerprint event branch delivery fallback decision reservation

/-- The id a delivery is kept under: the header GitHub sends, or else the digest of the body. -/
def deliveryId (header : Option String) (fingerprint : String) : String :=
  if header.getD "" = "" then fingerprint else header.getD ""

/-- `_dispatch_push` from the ledger's answer on. -/
def answerKnown (server : Server) (header : Option String) (fingerprint : String)
    (event : PushEvent) (branch : String)
    (fallback : Option (Program Unit)) (existing : Option Delivery) : Program Unit :=
  let delivery := deliveryId header fingerprint
  match existing with
  | none => firstDelivery server header fingerprint event branch delivery fallback
  | some record =>
    if record.fingerprint ≠ fingerprint then sendError 409 "delivery ID belongs to a different payload"
    else if record.state = .ready ∧ server.github = true then redeliver server event record delivery
    fallback
    else if record.state ≠ .ready then
      let status := if record.state = .accepted then "duplicate" else record.state.text
      send (stateToStatus (.state record.state)) [("status", .str status), ("delivery", .str delivery)]
    else firstDelivery server header fingerprint event branch delivery fallback

def answerLookup (server : Server) (header : Option String) (fingerprint : String)
    (event : PushEvent) (branch : String)
    (fallback : Option (Program Unit)) : Except Raised (Option Delivery) → Program Unit
  | .error (.sqliteError _) => sendError 503 "delivery state could not be read"
  | .error e => raise e
  | .ok existing => answerKnown server header fingerprint event branch fallback existing

def dispatchPush (server : Server) (header : Option String) (fingerprint : String)
    (event : PushEvent) (branch : String)
    (fallback : Option (Program Unit)) : Program Unit :=
  if !server.jobsDb then sendError 503 "signed dispatch requires CINDRAL_JOBS_DB"
  else match server.policy.checkDispatch event.repository server.workflowFile branch with
    | .error e => sendError 403 e.text
    | .ok _ => do
      let known ← (ask (.getDelivery event.repository (deliveryId header fingerprint))).attempt
      answerLookup server header fingerprint event branch fallback known

/-- `hand_off`: queue a refused delivery on the device pool, when the policy and the row allow it. -/
def handOff (server : Server) (record : Delivery) : Program Unit :=
  if !server.policy.permitsDevice record.repository then pure ()
  else if !server.jobsDb then pure ()
  else if record.sha = "" then pure ()
  else do
    let _ ← ask (.enqueue { repository := record.repository, sha := record.sha, ref := record.ref })
    pure ()

def rejectAndHandOff (server : Server) (record : Delivery) (reason : String) : Program Unit := do
  let rejected ← ask (.rejectReady record.repository record.delivery reason)
  if rejected then handOff server record else pure ()

/-- A replay up to its hold, or nothing if the delivery is not to be sent in this pass. -/
def replayHold (server : Server) (record : Delivery) : Program (Option (Option Nat)) :=
  match server.policy.checkDispatch record.repository record.workflow record.ref with
  | .error e => do
    rejectAndHandOff server record e.text
    pure none
  | .ok _ => do
    let found ← ask (.workflowExists record.repository record.workflow)
    if found then do
      let (hold, refusal) ← reserveFor server.policy record.inputs
      -- a refused delivery stays ready for a later pass
      pure (if refusal.isSome then none else some hold)
    else do
      rejectAndHandOff server record (removedReason record.repository record.workflow)
      pure none

def replaySend (server : Server) (record : Delivery) (hold : Option Nat) : Program Unit := do
  let (state, _) ← dispatchRecord record server.jobsDb hold
  if shouldFallback state then handOff server record else pure ()

/-- One delivery of a replay pass. Whatever it raises is logged, and the hold it had goes back. -/
def replayRecord (server : Server) (record : Delivery) : Program Unit := do
  match ← (replayHold server record).attempt with
  | .error _ => pure ()
  | .ok none => pure ()
  | .ok (some hold) =>
    match ← (replaySend server record hold).attempt with
    | .ok _ => pure ()
    | .error _ => releaseReservation server.jobsDb hold

def recoverReady (server : Server) : Program Unit :=
  if !server.github then pure ()
  else do
    let records ← ask .pending
    Script.forEach records (replayRecord server)

end Cindral.Dispatch

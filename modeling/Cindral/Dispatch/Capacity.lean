import Cindral.Dispatch.Server
import Mathlib.Data.List.Sort

/-! The lane a dispatch goes to when a repository's own runners can take it, and the runner held for it. -/

namespace Cindral.Dispatch
open Base Routing

def idleOnline (runner : RepositoryRunner) : Bool := runner.status = "online" && !runner.busy

def carries (labels required : List String) : Bool := required.all (· ∈ labels)

def overlappingReservations (runners : List RepositoryRunner) (required : List String)
    (held : List Reservation) : Nat :=
  held.countP fun r => (runners.filter idleOnline).any fun runner =>
  carries runner.labels (r.labels ++ required)

def localRunner (runner : RepositoryRunner) : Runner :=
  ⟨runner.name, runner.status, runner.busy, runner.labels, runner.status = "online"⟩

/-- A request no idle runner can take may wait at GitHub for a busy one. -/
def chooseWebhookLane (p : Policy) (request : RouteRequest) (runners : List Runner) (allowBusy : Bool) :
    Program RouteDecision := do
  match ← (choose p request runners).attempt with
  | .ok decision => pure decision
  | .error (.routeUnavailable text) =>
    if !allowBusy then raise (.routeUnavailable text)
    else do
      let online := (runners.filter (·.status = "online")).map fun runner => { runner with busy := false }
      let decision ← choose p request online
      pure { decision with reason := s!"{decision.reason}; GitHub queues until the runner is idle" }
  | .error e => raise e

/-- What `_dispatch_decision` does under the capacity lock. -/
def decideUnderCapacity (server : Server) (request : RouteRequest) (repository : String)
    (allowBusy : Bool)
    (runners : List RepositoryRunner) (now : ℚ) : Program (RouteDecision × Option (String × Nat)) := do
  let _ ← ask (.expireReservations repository now)
  let decision ← chooseWebhookLane server.policy request (runners.map localRunner) allowBusy
  let labelKey := decision.runsOn.insertionSort (· ≤ ·)
  let laneIdle := runners.countP fun runner => idleOnline runner && carries runner.labels labelKey
  let held ← ask (.reservations repository)
  let reserved := overlappingReservations runners labelKey held
  let available : Int := laneIdle - reserved
  if decision.lane ≠ hostedLane ∧ available ≤ 0 ∧ (allowBusy = false ∨ 0 < laneIdle) then
    raise (.routeUnavailable "all eligible repository runners are busy or reserved")
  else do
    let snapshot : Capacity :=
      { registered := runners.length, onlineIdle := runners.countP idleOnline, laneIdle := laneIdle,
          reserved := reserved
        available := available.toNat, queuedByGithub := decision.lane ≠ hostedLane && available ≤ 0
        runnerCandidate := decision.runner }
    let decision := { decision with capacity := some snapshot }
    if decision.lane ≠ hostedLane ∧ decision.runner.getD "" ≠ "" ∧ 0 < available then do
      let id ← ask .monotonicNs
      let _ ← ask (.reserveRunner ⟨repository, id, now + server.reservationSeconds, labelKey⟩)
      pure (decision, some (repository, id))
    else pure (decision, none)

def dispatchDecision (server : Server) (request : RouteRequest) (repository : String) (allowBusy : Bool) :
    Program (RouteDecision × Option (String × Nat)) := do
  match ← (choose server.policy request []).attempt with
  | .ok decision => pure (decision, none)
  | .error (.routeUnavailable _) =>
    if !server.github then raise (.githubApiError "GitHub runner lookup is not configured")
    else do
      let runners ← ask (.listRunners repository)
      let now ← ask .monotonic
      holding .lockCapacity .unlockCapacity
        (decideUnderCapacity server request repository allowBusy runners now)
  | .error e => raise e

/-- `_release_reservation`, which drops the runner a dispatch had been given. -/
def dropRunner (reservation : Option (String × Nat)) : Program Unit :=
  match reservation with
  | none => pure ()
  | some (repository, id) => holding .lockCapacity .unlockCapacity (ask (.dropReservation repository id))

end Cindral.Dispatch

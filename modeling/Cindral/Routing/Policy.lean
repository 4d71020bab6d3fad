import Cindral.Base.Rounding
import Cindral.Routing.Metering
import Mathlib.Data.List.Dedup
import Mathlib.Data.List.MinMax
import Mathlib.Data.String.Basic

/-! The routing policy: which repositories it serves and where, and the lane it picks for a request. -/

namespace Cindral.Routing
open Base

structure Runner where
  name : String
  status : String
  busy : Bool
  labels : List String
  healthy : Bool := true
  deriving DecidableEq, Repr

structure RouteRequest where
  requestedLane : String := "auto"
  target : Option String := none
  repositoryVisibility : String := "private"
  quotaStatus : String := "unknown"
  remainingMinutes : Option Double := none
  estimatedMinutes : Double := .finite 10
  deriving DecidableEq, Repr

inductive ServedMode where
  | dispatch | device | both
  deriving DecidableEq, Repr

inductive PushLane where
  | auto | device | hosted
  deriving DecidableEq, Repr

structure DispatchTarget where
  mode : ServedMode
  repository : String
  workflows : List String := []
  refs : List String := []
  pushLane : PushLane := .hosted
  deriving DecidableEq, Repr

def DispatchTarget.dispatches (t : DispatchTarget) : Bool := t.mode = .dispatch || t.mode = .both

def DispatchTarget.executesOnDevice (t : DispatchTarget) : Bool := t.mode = .device || t.mode = .both

/-- What the broker saw of a repository's runners when it decided. -/
structure Capacity where
  registered : Nat
  onlineIdle : Nat
  laneIdle : Nat
  reserved : Nat
  available : Nat
  queuedByGithub : Bool
  runnerCandidate : Option String
  deriving DecidableEq, Repr

/-- `runs_on` is a set in the source, so its order says nothing. -/
structure RouteDecision where
  lane : String
  runsOn : List String
  reason : String
  runner : Option String := none
  capacity : Option Capacity := none
  reservation : Option Nat := none
  deriving DecidableEq, Repr

/-- The part of a billing reading that routing uses. -/
structure QuotaReading where
  status : String
  remainingMinutes : Option Double := none
  deriving DecidableEq, Repr

def quotaUnknown : String := "unknown"

/-- The request with the reading in place of a quota the caller left unknown. -/
def RouteRequest.withReading (request : RouteRequest) (reading : QuotaReading) : RouteRequest :=
  if reading.status = quotaUnknown then request
  else { request with quotaStatus := reading.status, remainingMinutes := reading.remainingMinutes }

/-- The exceptions that cross a handler, each with its text. -/
inductive Raised where
  | sqliteError (text : String)
  | githubApiError (text : String)
  | githubDispatchError (text : String) (statusCode : Option Nat)
  | routeUnavailable (text : String)
  | dispatchNotPermitted (text : String)
  | runtimeError (text : String)
  | other (text : String)
  deriving DecidableEq, Repr

/-- `str(exc)`. -/
def Raised.text : Raised → String
  | sqliteError text | githubApiError text | githubDispatchError text _ | routeUnavailable text
  | dispatchNotPermitted text | runtimeError text | other text => text

/-- The three closures over the ledger are set by `attach_budget`. Here each is whether it is set. A
ceiling and a rate are finite, for the policy file is refused otherwise. `rounding` is the
machine's, and no part of the file. -/
structure Policy where
  hostedRunner : List String
  localPriority : List String
  devicePriority : List String
  laneLabels : List (String × List String)
  minimumRemainingMinutes : Double
  reserveMinutes : Double
  paidOverage : String
  unknownQuota : String
  dispatchTargets : List DispatchTarget := []
  quotaSource : Bool := false
  minuteBudget : Option ℚ := none
  minutesPerRun : ℚ := 10
  assumedMinutesPerRun : ℚ := 0
  meteredMinutes : Bool := false
  reserveMeteredMinutes : Bool := false
  releaseMeteredMinutes : Bool := false
  rounding : Rounding := .binary64

def branchRefRoot : String := "refs/heads/"

def invalidRefFragments : List String := ["..", "//", "@\x7b", "\\", " ", "~", "^", ":", "?", "[", "*"]

def canonicalRef (ref : String) : String := if hasPrefix ref "refs/" then ref else branchRefRoot ++ ref

def refPermitted (candidate : String) (patterns : List String) : Bool :=
  hasPrefix candidate branchRefRoot && candidate ≠ branchRefRoot &&
    !invalidRefFragments.any (hasInfix candidate) &&
    patterns.any fun pattern =>
      if hasSuffix pattern "*" then hasPrefix candidate
        (sliceTo pattern (pattern.length - 1)) else candidate = pattern

def slugChar (c : Char) : Bool := c.isAlphanum || c = '_' || c = '.' || c = '-'

def isRepositorySlug (repository : String) : Bool :=
  match repository.toList.splitOn '/' with
  | [owner, name] =>
    [owner, name].all fun part => part ≠ [] && part ≠ ['.'] && part ≠ ['.', '.'] && part.all slugChar
  | _ => false

namespace Policy
variable (p : Policy)

/-- An exact entry wins over an owner default. -/
def targetFor (repository : String) : Option DispatchTarget :=
  let lowered := lower repository
  (p.dispatchTargets.find? fun entry => lower entry.repository = lowered).or
    (p.dispatchTargets.find? fun entry =>
      lower entry.repository = String.ofList (lowered.toList.takeWhile (· ≠ '/') ++ ['/', '*']))

def checkDispatch (repository workflow ref : String) : Except Raised Unit :=
  match p.targetFor repository with
  | none => .error (.dispatchNotPermitted "repository is not permitted for dispatch")
  | some target =>
    if !target.dispatches then .error (.dispatchNotPermitted "repository is not permitted for dispatch")
    else if workflow ∉ target.workflows then
      .error (.dispatchNotPermitted "workflow is not permitted for this repository")
    else if !refPermitted (canonicalRef ref) target.refs then
      .error (.dispatchNotPermitted "ref is not permitted for this workflow")
    else .ok ()

def pushLane (repository : String) : Option PushLane :=
  match p.targetFor repository with
  | none => none
  | some target =>
    if !target.executesOnDevice then none
    else if !target.dispatches then some .device
    else some target.pushLane

def permitsDevice (repository : String) : Bool :=
  (p.targetFor repository).any DispatchTarget.executesOnDevice

/-- Whether `_quota_reading` asks the source rather than answering `None`. -/
def readsQuota (request : RouteRequest) : Bool :=
  p.quotaSource && request.requestedLane = "auto" && request.repositoryVisibility = "private" &&
    request.quotaStatus = "unknown" && request.remainingMinutes = none

def hosted (reason : String) : RouteDecision :=
  { lane := hostedLane, runsOn := p.hostedRunner, reason := reason }

def firstEligible (runners : List Runner) (required : List String) : Option Runner :=
  (runners.filter fun r =>
    r.healthy && r.status = "online" && !r.busy && required.all (· ∈ r.labels)).argmin Runner.name

def explicitLane (request : RouteRequest) (runners : List Runner) : Except Raised RouteDecision :=
  let lane := request.requestedLane
  match p.laneLabels.lookup lane with
  | none => .error (.routeUnavailable s!"unknown lane: {lane}")
  | some labels =>
    let target := request.target.getD ""
    if lane = "device" ∧ target = "" then
      .error (.routeUnavailable "device lane requires an explicit target")
    else if lane = "device" ∧ target ∉ p.devicePriority then
      .error (.routeUnavailable s!"unknown device target: {target}")
    else
      let required := (if lane = "device" then labels ++ [target] else labels).dedup
      match firstEligible runners required with
      | none => .error (.routeUnavailable s!"no eligible runner for lane {lane}")
      | some runner =>
        .ok { lane := lane, runsOn := required, reason := s!"explicit {lane} lane selected", runner := runner.name }

/-- The local lanes a request can be served on, best first. A lane that raises is passed over. -/
def localLanes (request : RouteRequest) (runners : List Runner) : List RouteDecision :=
  (p.localPriority.filter (· ≠ "device")).filterMap fun lane =>
    (p.explicitLane { requestedLane := lane, target := request.target } runners).toOption

def firstLocal (request : RouteRequest) (runners : List Runner) (reason : String) :
    Except Raised RouteDecision :=
  match p.localLanes request runners with
  | decision :: _ =>
    .ok { lane := decision.lane, runsOn := decision.runsOn
          reason := s!"{reason}; selected {decision.lane}", runner := decision.runner }
  | [] => .error (.routeUnavailable s!"{reason}; no local runner is eligible")

def hostedQuotaAvailable (request : RouteRequest) : Bool :=
  let enough (remaining : Double) : Bool := p.minimumRemainingMinutes.le
    (p.rounding.sub (p.rounding.sub remaining request.estimatedMinutes) p.reserveMinutes)
  if request.quotaStatus = "available" ∨
    request.quotaStatus = "paid_allowed" then request.remainingMinutes.all enough
  else if request.quotaStatus = "unknown" then p.unknownQuota = "hosted"
  else if request.quotaStatus = "exhausted" then p.paidOverage = "allow"
  else request.remainingMinutes.any enough

def chooseLane (request : RouteRequest) (runners : List Runner) : Except Raised RouteDecision :=
  if request.requestedLane = "hosted" then .ok (p.hosted "hosted lane explicitly selected")
  else if request.requestedLane ≠ "auto" then p.explicitLane request runners
  else if request.repositoryVisibility = "public" then .ok
  (p.hosted "public repository uses hosted runners")
  else if p.hostedQuotaAvailable request then .ok (p.hosted "hosted quota is available")
  else if request.quotaStatus = "unknown" then p.firstLocal request runners "hosted quota is unknown"
  else if request.quotaStatus = "exhausted" then p.firstLocal request runners "hosted quota is exhausted"
  else match request.remainingMinutes with
    -- formatting `None` with `:g`
    | none => .error (.other "unsupported format string passed to NoneType.__format__")
    | some remaining =>
      p.firstLocal request runners
        (s!"hosted quota has {remaining.formatG} minutes left," ++
          s!" too few for a {request.estimatedMinutes.orZero.formatG} minute job")

def cost (estimatedMinutes : Double) : Double :=
  ((Double.finite 0).max estimatedMinutes.orZero).max (.finite p.assumedMinutesPerRun)

def spent (dispatches : Nat) : Double :=
  p.rounding.mul (p.rounding.ofNat dispatches) (.finite p.minutesPerRun)

def admits (budget : ℚ) (used estimatedMinutes : Double) : Bool :=
  (p.rounding.add used (p.cost estimatedMinutes)).lt (.finite budget)

/-- The comparison `reserve_metered` makes. -/
def reaches (budget : ℚ) (used estimatedMinutes : Double) : Bool :=
  (Double.finite budget).le (p.rounding.add used (p.cost estimatedMinutes))

/-- The ceiling turns one more run of this cost away. Where no hold is taken the comparison is the
other one. -/
def full (budget : ℚ) (used estimatedMinutes : Double) : Bool :=
  if p.reserveMeteredMinutes then p.reaches budget used estimatedMinutes else !p.admits budget used
    estimatedMinutes

/-- `attach_budget`, which refuses a ceiling that nothing counts, and what `DispatchBudget` refuses. -/
def attachBudget (ledger : Bool) : Except Raised Policy :=
  match p.minuteBudget with
  | none => .ok p
  | some budget =>
    if !ledger then
      .error (.other ("a metered minute budget is configured but there is no ledger to count it," ++
        " so nothing could stop the spend"))
    else if budget < 0 then .error (.other "monthly minute budget cannot be negative")
    else if p.minutesPerRun ≤ 0 then .error (.other "assumed minutes per run must be positive")
    else .ok { p with
      assumedMinutesPerRun := p.minutesPerRun
      meteredMinutes := true, reserveMeteredMinutes := true, releaseMeteredMinutes := true }

def shipped : Policy :=
  { hostedRunner := ["ubuntu-24.04"], localPriority := ["fallback"],
      devicePriority := ["desktop", "laptop", "phone"]
    laneLabels := [("fallback", ["self-hosted", "Linux", "ARM64", "fallback"]),
      ("device", ["self-hosted", "Linux", "ARM64"]),
      ("burst", ["self-hosted", "Linux", "ARM64", "burst"])]
    minimumRemainingMinutes := .finite 20, reserveMinutes := .finite 10, paidOverage :=
    "deny", unknownQuota := "local"
    dispatchTargets := [{ mode := .both, repository := "example-org/example-app", workflows := ["cindral-dispatch.yml"]
                          refs := ["refs/heads/main"], pushLane := .auto }] }

/-! ## Minutes -/

variable {p}

theorem cost_least (estimatedMinutes : Double) :
    (Double.finite 0).le (p.cost estimatedMinutes) = true := by
  have first : (Double.finite 0).le ((Double.finite 0).max estimatedMinutes.orZero) = true :=
    Double.le_max_left _ _ nofun
  exact Double.le_trans first (Double.le_max_left _ _ (Double.number_of_le first).2)

theorem cost_assumed (estimatedMinutes : Double) :
    (Double.finite p.assumedMinutesPerRun).le (p.cost estimatedMinutes) = true := by
  have first : (Double.finite 0).le ((Double.finite 0).max estimatedMinutes.orZero) = true :=
    Double.le_max_left _ _ nofun
  exact Double.le_max_right _ _ ⟨(Double.number_of_le first).2, nofun⟩

section Rate
variable (positive : 0 < p.minutesPerRun)
include positive

theorem spent_least (dispatches : Nat) : (Double.finite 0).le (p.spent dispatches) = true :=
  Rounding.nonneg_mul positive (Rounding.toDouble_nonneg dispatches.cast_nonneg)

theorem spent_mono {dispatches more : Nat} (h : dispatches ≤ more) :
    (p.spent dispatches).le (p.spent more) = true :=
  Rounding.mul_mono positive (Rounding.toDouble_nonneg dispatches.cast_nonneg)
    (p.rounding.monotone (Nat.cast_le.mpr h))

/-- The two comparisons differ on a NaN, and no sum of minutes is one. -/
theorem full_eq (budget : ℚ) (dispatches : Nat) (estimatedMinutes : Double) :
    p.full budget (p.spent dispatches) estimatedMinutes = p.reaches budget (p.spent dispatches)
    estimatedMinutes := by
  have cost : (Double.finite 0).le (p.cost estimatedMinutes) = true := cost_least estimatedMinutes
  have total :
      (Double.finite 0).le (p.rounding.add (p.spent dispatches) (p.cost estimatedMinutes)) = true :=
    Rounding.nonneg_add (spent_least positive dispatches) cost
  have other := Double.lt_iff_not_le (Double.number_of_le total).2
    (show Double.finite budget ≠ .nan from nofun)
  unfold full
  split
  · rfl
  · rw [admits, Bool.eq_iff_iff, Bool.not_eq_true', Bool.eq_false_iff, ne_eq, other, not_not]
    rfl

theorem full_mono {budget : ℚ} {dispatches more : Nat} {estimatedMinutes : Double} (h : dispatches ≤ more)
    (reached : p.full budget (p.spent dispatches) estimatedMinutes = true) :
    p.full budget (p.spent more) estimatedMinutes = true := by
  rw [full_eq positive] at reached ⊢
  have cost : (Double.finite 0).le (p.cost estimatedMinutes) = true := cost_least estimatedMinutes
  exact Double.le_trans reached
    (Rounding.add_mono (spent_least positive dispatches) (spent_mono positive h) cost
    (Double.le_refl (Double.number_of_le cost).2))

end Rate

end Policy
end Cindral.Routing

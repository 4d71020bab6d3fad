import Cindral.Queue.Store
import Cindral.Routing.Policy

/-! The snapshot of the pool that the panel and the metrics read. -/

namespace Cindral.Pool
open Base Queue Routing

def stallSeconds : ℚ := 300

structure Lease where
  jobId : String
  repository : String
  sha : String
  ref : String
  leaseExpires : ℚ
  remainingSeconds : ℚ
  deriving DecidableEq, Repr

structure PoolDevice where
  name : String
  status : String
  healthy : Bool
  busy : Bool
  labels : List String
  leases : List Lease
  agentOnline : Bool
  build : List (String × String)
  buildKnown : Bool
  lastSeen : Option ℚ
  maxConcurrency : Option Int
  activeJobs : Nat
  availableSlots : Option Int
  deriving DecidableEq, Repr

def PoolDevice.currentLease (d : PoolDevice) : Option Lease := d.leases.head?

inductive StallReason where
  | noAgents | idleDevices | deferred | noEligibleDevice
  deriving DecidableEq, Repr

structure PoolSnapshot where
  devices : List PoolDevice
  queueDepth : JobStatus → Int
  expiredLeaseCount : Nat
  oldestPendingAgeSeconds : ℚ
  stalledReason : Option StallReason
  reclaimCount : Nat
  liveDeviceReclaimCount : Nat
  successCount : Int
  failureCount : Int

/-- The jobs by status, those with a spent lease as pending, and how many these are. -/
def queueDepth (s : Store) (now : ℚ) : (JobStatus → Int) × Nat :=
  let counts := fun status => (s.jobs.rows.countP (·.status = status) : Int)
  let reclaimable := s.jobs.rows.countP fun r => r.status = .running && s.spentLease now r
  (fun
    | .running => counts .running - reclaimable
    | .pending => counts .pending + reclaimable
    | status => counts status, reclaimable)

def waitingRows (s : Store) (now : ℚ) : List Row :=
  s.jobs.rows.filter fun r => r.status = .pending || r.status = .running && s.spentLease now r

def deferred (s : Store) (now : ℚ) : Bool :=
  ((waitingRows s now).map fun r => r.availableAt.getD 0).min?.any (now < ·)

def online (a : Agent) (now : ℚ) : Bool := now - a.lastSeen ≤ liveDeviceGraceSeconds

def unclaimable (s : Store) (now : ℚ) : Bool :=
  let claimable := (waitingRows s now).filter fun r => r.availableAt.all (· ≤ now)
  let offered := (s.agents.rows.filter (online · now)).map (·.labels)
  !claimable.any fun r => offered.any fun labels => r.labels.all (· ∈ labels)

def oldestPendingAge (s : Store) (now : ℚ) : ℚ :=
  ((waitingRows s now).map (·.createdAt)).min?.elim 0 fun oldest => max 0 (now - oldest)

/-- The rows `_active_leases` selects and does not pass over. -/
def leased (s : Store) (now : ℚ) : List Row :=
  s.jobs.rows.filter fun r => r.status = .running && r.leaseExpires.any (now < ·) && r.device.any (· ≠ "")

def leaseOf (now : ℚ) (r : Row) : Lease :=
  let expires := r.leaseExpires.getD 0
  ⟨r.id, r.repository, r.sha, r.ref, expires, max 0 (expires - now)⟩

/-- The leases under one device, the first to expire first. -/
def activeLeases (s : Store) (now : ℚ) (device : String) : List Lease :=
  (((leased s now).filter (·.device = some device)).map (leaseOf now)).insertionSort
  (·.leaseExpires ≤ ·.leaseExpires)

def device (name : String) (runner : Option Runner) (leases : List Lease) (agent : Option Agent)
    (now : ℚ) : PoolDevice :=
  let isOnline := agent.any (online · now)
  let maxConcurrency := agent.map (·.maxConcurrency)
  { name := name
    status := (runner.map (·.status)).getD "online"
    healthy := (runner.map (·.healthy)).getD true
    busy := runner.any (·.busy) || leases ≠ []
    labels := match runner, agent with
      | some runner, _ => runner.labels
      | none, some agent => agent.labels
      | none, none => []
    leases := leases
    agentOnline := isOnline
    build := (agent.map (·.build)).getD []
    buildKnown := agent.any (·.build ≠ [])
    lastSeen := agent.map (·.lastSeen)
    maxConcurrency := maxConcurrency
    activeJobs := leases.length
    availableSlots := if isOnline then maxConcurrency.map fun limit =>
    max 0 (limit - leases.length) else none }

/-- The names with a lease or an agent that no runner has, each once and in order. -/
def unconfigured (s : Store) (runners : List Runner) (now : ℚ) : List String :=
  (((leased s now).filterMap (·.device) ++ s.agents.rows.map (·.device)).dedup.filter
    (· ∉ runners.map (·.name))).insertionSort (· ≤ ·)

def devices (s : Store) (runners : List Runner) (now : ℚ) : List PoolDevice :=
  (runners.map fun r => device r.name (some r) (activeLeases s now r.name) (s.agents.find? r.name) now) ++
    (unconfigured s runners now).map fun name => device name none (activeLeases s now name)
    (s.agents.find? name) now

/-- A device of the list is read from its own leases and its own agent, whether a runner has its
name or not. -/
theorem devices_read {s : Store} {runners : List Runner} {now : ℚ} {d : PoolDevice}
    (h : d ∈ devices s runners now) :
    ∃ runner, d = device d.name runner (activeLeases s now d.name) (s.agents.find? d.name) now := by
  rcases List.mem_append.mp h with configured | other
  · obtain ⟨runner, -, rfl⟩ := List.mem_map.mp configured
    exact ⟨some runner, rfl⟩
  · obtain ⟨name, -, rfl⟩ := List.mem_map.mp other
    exact ⟨none, rfl⟩

def stalledReason (s : Store) (devices : List PoolDevice) (pending : Int) (age now : ℚ) :
    Option StallReason :=
  if pending ≠ 0 ∧ stallSeconds ≤ age then
    if !devices.any (·.agentOnline) then some .noAgents
    else if !devices.any fun d => decide (0 < d.availableSlots.getD 0) then some .idleDevices
    else if deferred s now then some .deferred
    else if unclaimable s now then some .noEligibleDevice
    else none
  else none

/-- The queue depth is read before the agents are pruned, the rest after. -/
def poolSnapshot (s : Store) (runners : List Runner) (now : ℚ) : PoolSnapshot :=
  let (counts, reclaimable) := queueDepth s now
  let pruned := s.pruneAgents now
  let devices := devices pruned runners now
  let age := (roundHalfEven (oldestPendingAge pruned now * 100) : ℚ) / 100
  { devices := devices
    queueDepth := counts
    expiredLeaseCount := reclaimable
    oldestPendingAgeSeconds := age
    stalledReason := stalledReason pruned devices (counts .pending) age now
    reclaimCount := pruned.reclaims
    liveDeviceReclaimCount := pruned.reclaimsLive.getD 0
    successCount := counts .success
    failureCount := counts .failure }

end Cindral.Pool

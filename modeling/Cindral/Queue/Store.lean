import Cindral.Base.Table
import Cindral.Queue.StatusText
import Mathlib.Data.List.MinMax
import Mathlib.Data.List.Sort
import Mathlib.Data.Prod.Lex
import Mathlib.Data.String.Basic

/-! The queue database and each transaction the broker runs on it. -/

namespace Cindral.Queue
open Base

def liveDeviceGraceSeconds : ℚ := 60
def agentRetentionSeconds : ℚ := 30 * 24 * 60 * 60
def maxLogChars : Nat := 64 * 1024

structure Agent where
  device : String
  labels : List String
  maxConcurrency : Int
  lastSeen : ℚ
  build : List (String × String)
  deriving DecidableEq, Repr

structure Store where
  jobs : Table Row.id
  agents : Table Agent.device
  reclaims : Nat
  reclaimsLive : Option Nat

inductive QueueError where
  | valueError (text : String)
  | keyError (id : String)
  | integrityError
  | overflowError
  deriving DecidableEq, Repr

structure EnqueueRequest where
  repository : String
  sha : String
  ref : String
  command : List String := []
  labels : List String := []
  timeout : Int := 3600
  delivery : Option String := none
  statusSha : Option String := none
  deriving DecidableEq, Repr

def EnqueueRequest.row (req : EnqueueRequest) (jobId : String) (now : ℚ) : Row :=
  { id := jobId, repository := req.repository, sha := req.sha, ref := req.ref, command := req.command
    labels := req.labels, timeout := req.timeout, createdAt := now, status := .pending
    delivery := req.delivery, statusSha := req.statusSha }

structure Report where
  exitCode : Option Int := none
  log : String := ""
  error : String := ""
  steps : Json := .null

/-- A verdict a drain took out of its row, with the sequence number it carried there. -/
structure Owed where
  job : Job
  status : Verdict
  seq : Nat
  deriving DecidableEq, Repr

namespace Row

def taken (device : String) (expiry : ℚ) : Edit Row.id :=
  ⟨fun r => { r with
    status := .running, device := some device, leaseExpires := some expiry, attempts := r.attempts + 1 },
    fun _ => rfl⟩

def renewed (expiry : ℚ) : Edit Row.id := ⟨fun r => { r with leaseExpires := some expiry }, fun _ => rfl⟩

def released (attempts : Nat) (now : ℚ) (error : String) (pendingStatus : Option Verdict) : Edit Row.id :=
  ⟨fun r => { r with
    status := if parked attempts then .dead else .pending
    device := none
    leaseExpires := none
    lastError := some (sliceTo error maxErrorChars)
    availableAt := some (now + backoffSeconds attempts)
    pendingStatus := pendingStatus.or r.pendingStatus
    statusSeq := r.statusSeq + if pendingStatus.isSome then 1 else 0 }, fun _ => rfl⟩

def superseded : Edit Row.id :=
  ⟨fun r => { r with pendingStatus := none, statusSeq := r.statusSeq + 1 }, fun _ => rfl⟩

def settled (exitCode : Int) (log : String) (steps : Json) : Edit Row.id :=
  ⟨fun r => { r with
    status := if exitCode = 0 then .success else .failure
    exitCode := some exitCode
    leaseExpires := none
    lastError := none
    log := if log = "" then none else some (sliceTo log maxLogChars)
    steps := if steps.truthy then some (encodeSteps steps) else none
    statusSeq := r.statusSeq + 1
    pendingStatus := none }, fun _ => rfl⟩

def noted (status : Option Verdict) : Edit Row.id :=
  ⟨fun r => { r with pendingStatus := status }, fun _ => rfl⟩

def owing (status : Verdict) : Edit Row.id :=
  ⟨fun r => { r with pendingStatus := some status, statusSeq := r.statusSeq + 1 }, fun _ => rfl⟩

end Row

namespace Store

def empty : Store := ⟨Table.empty, Table.empty, 0, none⟩

def integer (n : Int) : Bool := -2 ^ 63 ≤ n && n < 2 ^ 63

/-- `UPDATE jobs SET … WHERE …`. No statement of the source sets the id. -/
def updateWhere (s : Store) (p : Row → Bool) (e : Edit Row.id) : Store :=
  { s with jobs := s.jobs.update (e.only p) }

def row? (s : Store) (id : String) : Option Row := s.jobs.find? id

def get (s : Store) (id : String) : Option Job := (s.row? id).map Row.job

def byDelivery? (s : Store) (delivery : String) : Option Row :=
  s.jobs.rows.find? fun r => r.delivery = some delivery

/-- The insert under the primary key and the unique index on `delivery`. -/
def insertJob? (s : Store) (row : Row) : Option Store :=
  if (row.delivery.bind s.byDelivery?).isSome then none
  else (s.jobs.insert? row).map fun jobs => { s with jobs := jobs }

/-- `jobId` is the fresh `uuid4` of the source. -/
def enqueue (s : Store) (req : EnqueueRequest) (jobId : String) (now : ℚ) :
    Except QueueError (Job × Store) :=
  if req.sha = "" then .error (.valueError "job requires a commit sha")
  else if !integer req.timeout then .error .overflowError
  else match s.insertJob? (req.row jobId now) with
    | some t => .ok ((req.row jobId now).job, t)
    | none =>
      match req.delivery with
      | none => .error .integrityError
      | some delivery =>
        if delivery = "" then .error .integrityError
        else match s.byDelivery? delivery with
          | some row => .ok (row.job, s)
          | none => .error .integrityError

/-- `SELECT count(*) FROM jobs WHERE status = 'running' GROUP BY repository`, at one repository. -/
def active (s : Store) (repository : String) : Nat :=
  s.jobs.rows.countP fun r => r.status = .running && r.repository = repository

def claimable (s : Store) (now : ℚ) : List Row :=
  (s.jobs.rows.filter fun r => r.status = .pending && r.availableAt.all (· ≤ now)).insertionSort
    (·.createdAt ≤ ·.createdAt)

/-- The order `pick_job` takes the least of. -/
def rank (s : Store) (row : Row) : ℕ ×ₗ ℚ ×ₗ String :=
  toLex (s.active row.repository, toLex (row.createdAt, row.id))

def pickJob (s : Store) (rows : List Row) (labels : List String) (limit : Option Int) : Option Row :=
  (rows.filter fun r => r.labels.all (· ∈ labels) && limit.all
  ((s.active r.repository : Int) < ·)).argmin s.rank

def claim (s : Store) (device : String) (labels : List String) (leaseSeconds : Int) (now : ℚ)
    (limit : Option Int) :
    Except QueueError (Option Job × Store) :=
  if leaseSeconds ≤ 0 then .error (.valueError "lease_seconds must be positive")
  else if limit.any (· ≤ 0) then .error (.valueError "max_repository_running must be positive")
  else match s.pickJob (s.claimable now) labels limit with
    | none => .ok (none, s)
    | some picked =>
      let t := s.updateWhere (fun r => r.id = picked.id && r.status = .pending)
        (Row.taken device (now + leaseSeconds))
      .ok (t.get picked.id, t)

/-- `device IN (SELECT device FROM agents WHERE last_seen >= ?)`. -/
def present (s : Store) (now : ℚ) (device : String) : Bool :=
  s.agents.rows.any fun a => a.device = device && now - liveDeviceGraceSeconds ≤ a.lastSeen

def spentLease (s : Store) (now : ℚ) (r : Row) : Bool :=
  r.leaseExpires.any (· < now) &&
    (r.leaseExpires.any (· < now - liveDeviceGraceSeconds) || !r.device.any (s.present now))

def renew (s : Store) (jobId device : String) (leaseSeconds : Int) (now : ℚ) :
    Except QueueError (Bool × Store) :=
  if leaseSeconds ≤ 0 then .error (.valueError "lease_seconds must be positive")
  else
    let hit := fun r : Row =>
      r.id = jobId && r.status = .running && r.device = some device && !s.spentLease now r
    .ok (s.jobs.rows.countP hit = 1,
      s.updateWhere hit (Row.renewed (now + leaseSeconds)))

def holdsLease (s : Store) (jobId device : String) (now : ℚ) : Bool :=
  s.jobs.rows.any fun r => r.id = jobId && r.status = .running && r.device = some device &&
  !s.spentLease now r

def release (s : Store) (jobId : String) (attempts : Nat) (now : ℚ) (error : String)
    (pendingStatus : Option Verdict) :
    Store :=
  s.updateWhere (·.id = jobId) (Row.released attempts now error pendingStatus)

def settle (s : Store) (jobId device : String) (report : Report) (now : ℚ) : Except QueueError Store :=
  match s.row? jobId with
  | none => .error (.keyError jobId)
  | some row =>
    if row.status ≠ .running ∨ row.device ≠ some device then .error
      (.valueError "job is not leased to this device")
    else if s.spentLease now row then .error (.valueError "job lease has expired")
    else if report.error ≠ "" then
      .ok ((s.updateWhere (·.id = jobId) Row.superseded).release jobId row.attempts now report.error none)
    else match report.exitCode with
      | none => .error (.valueError "a report needs an exit code or a device error")
      | some exitCode =>
        if !integer exitCode then .error .overflowError
        else .ok (s.updateWhere (·.id = jobId) (Row.settled exitCode report.log report.steps))

def report (s : Store) (jobId device : String) (report : Report) (now : ℚ) :
    Except QueueError (Option Job × Store) :=
  (s.settle jobId device report now).map fun t => (t.get jobId, t)

def countReclaims (s : Store) (lapsed : List Row) (now : ℚ) : Store :=
  let live := lapsed.countP fun r => r.device.any (s.present now)
  { s with
    reclaims := s.reclaims + lapsed.length
    reclaimsLive := some (s.reclaimsLive.getD 0 + live) }

def lapsed (s : Store) (now : ℚ) : List Row :=
  s.jobs.rows.filter fun r => r.status = .running && s.spentLease now r

def expire (s : Store) (now : ℚ) (publish : Option (Job → Verdict)) : List Job × Store :=
  let lapsed := s.lapsed now
  if lapsed = [] then ([], s)
  else
    let expired := lapsed.map Row.job
    let released := expired.foldl
      (fun t job => t.release job.id job.attempts now leaseLost (publish.map (· job))) s
    (expired, released.countReclaims lapsed now)

def reclaimExpired (s : Store) (now : ℚ) (publish : Option (Job → Verdict)) : List Job × Store :=
  s.expire now publish

def pruneAgents (s : Store) (now : ℚ) : Store :=
  { s with agents := s.agents.filter fun a => now - agentRetentionSeconds ≤ a.lastSeen }

def recordHeartbeat (s : Store) (agent : Agent) : Except QueueError (ℚ × Store) :=
  if !integer agent.maxConcurrency then .error .overflowError
  else
    let t := s.pruneAgents agent.lastSeen
    .ok (agent.lastSeen, { t with agents := t.agents.replace agent })

def owedRows (s : Store) : List Row :=
  (s.jobs.rows.filter (·.pendingStatus.isSome)).insertionSort (·.createdAt ≤ ·.createdAt)

def currentSeq (s : Store) (jobId : String) : Nat := ((s.row? jobId).map (·.statusSeq)).getD 0

def discardStatus (s : Store) (jobId : String) (status : Verdict) : Store :=
  s.updateWhere (fun r => r.id = jobId && r.pendingStatus = some status) (Row.noted none)

def claimOwed (s : Store) : List Owed × Store :=
  let taken := s.owedRows.filterMap fun r => r.pendingStatus.map fun status =>
    ⟨r.job, status, r.statusSeq⟩
  (taken, taken.foldl (fun t owed => t.discardStatus owed.job.id owed.status) s)

def restoreStatus (s : Store) (jobId : String) (status : Verdict) (seq : Nat) : Store :=
  s.updateWhere (fun r => r.id = jobId && r.pendingStatus = none && r.statusSeq = seq)
    (Row.noted (some status))

def oweStatus (s : Store) (jobId : String) (status : Verdict) : Store :=
  s.updateWhere (·.id = jobId) (Row.owing status)

def clearStatus (s : Store) (jobId : String) : Store :=
  s.updateWhere (·.id = jobId) (Row.noted none)

/-- One call of the store that writes, with the clock and the fresh id it reads. -/
inductive Op where
  | enqueue (req : EnqueueRequest) (jobId : String) (now : ℚ)
  | claim (device : String) (labels : List String) (leaseSeconds : Int) (now : ℚ) (limit : Option Int)
  | renew (jobId device : String) (leaseSeconds : Int) (now : ℚ)
  | report (jobId device : String) (report : Report) (now : ℚ)
  | reclaimExpired (now : ℚ) (publish : Option (Job → Verdict))
  | recordHeartbeat (agent : Agent)
  | claimOwed
  | restoreStatus (jobId : String) (status : Verdict) (seq : Nat)
  | oweStatus (jobId : String) (status : Verdict)
  | clearStatus (jobId : String)

/-- The state after a call. One that raises has rolled back. -/
def kept {α : Type} (s : Store) : Except QueueError (α × Store) → Store
  | .ok (_, t) => t
  | .error _ => s

def apply (s : Store) : Op → Store
  | .enqueue req jobId now => s.kept (s.enqueue req jobId now)
  | .claim device labels leaseSeconds now limit => s.kept (s.claim device labels leaseSeconds now limit)
  | .renew jobId device leaseSeconds now => s.kept (s.renew jobId device leaseSeconds now)
  | .report jobId device report now => s.kept (s.report jobId device report now)
  | .reclaimExpired now publish => (s.reclaimExpired now publish).2
  | .recordHeartbeat agent => s.kept (s.recordHeartbeat agent)
  | .claimOwed => s.claimOwed.2
  | .restoreStatus jobId status seq => s.restoreStatus jobId status seq
  | .oweStatus jobId status => s.oweStatus jobId status
  | .clearStatus jobId => s.clearStatus jobId

end Store
end Cindral.Queue

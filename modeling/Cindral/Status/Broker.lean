import Cindral.Base.Outbox
import Cindral.Base.Run
import Cindral.Queue.Ledger
import Mathlib.Logic.Function.Basic

/-! The broker's threads as they enqueue, report, reclaim and drain, each pausing wherever the source lets go of
the store or waits for the network. -/

namespace Cindral.Status
open Base Queue

/-- How a call to GitHub ends: it returns, it raises `GitHubAPIError`, or it raises something else.
A call that raised may still have reached the commit. -/
inductive Outcome where
  | accepted
  | refused (reached : Bool)
  | raised (reached : Bool)
  deriving DecidableEq, Repr

def Outcome.reached : Outcome → Bool
  | accepted => true
  | refused reached | raised reached => reached

/-- A status that reached a commit. A verdict carries its number, the post of an enqueue has none. -/
structure Post where
  job : String
  repository : String
  commit : String
  status : Verdict
  seq : Option Nat
  deriving DecidableEq, Repr

structure Note where
  job : String
  status : Verdict
  seq : Nat
  deriving DecidableEq, Repr

def queuedVerdict : Verdict := ⟨.pending, "queued on the device pool"⟩

/-- How a run ended, as its device tells it. -/
inductive Ending where
  | error (text : String)
  | exit (code : Int)
  deriving DecidableEq, Repr

/-- A report body after the checks `_report` makes before it looks at the lease. -/
structure Reported where
  device : String
  ending : Ending
  log : String
  steps : List StepRecord

structure Payload where
  device : String
  error : String := ""
  exitCode : Option Int := none
  log : String := ""
  steps : Json := .null

def Payload.reported? (payload : Payload) : Option Reported :=
  let error := strip payload.error
  let steps := encodeSteps payload.steps
  if error ≠ "" then some ⟨payload.device, .error error, payload.log, steps⟩
  else payload.exitCode.map fun code => ⟨payload.device, .exit code, payload.log, steps⟩

def Reported.report (reported : Reported) : Report :=
  let steps := Json.arr (reported.steps.map StepRecord.asDict)
  match reported.ending with
  | .error text => { error := text, log := reported.log, steps := steps }
  | .exit code => { exitCode := some code, log := reported.log, steps := steps }

/-- The status of a report, from the job as it was read when the report came in. -/
def reportStatus (job : Job) (reported : Reported) : Verdict :=
  match reported.ending with
  | .error text => lostDescription job text
  | .exit code =>
    if code = 0 then ⟨.success, "device pool run passed"⟩
    else ⟨.failure, failureDescription code reported.log reported.steps⟩

/-- Where a thread is. A number beside a status is the row's when the status was made. -/
inductive Worker where
  | idle
  | queued (job : Job) (repository commit : String)
  | received (job : Job) (reported : Reported)
  | admitted (job : Job) (reported : Reported) (status : Verdict)
  | reporting (job : Job) (status : Verdict) (seq : Nat)
  | owing (job : Job) (status : Verdict) (seq : Nat) (sent : Bool)
  | draining (todo : List Owed)
  | posting (owed : Owed) (todo : List Owed)
  | failed (owed : Owed) (todo : List Owed) (sent : Bool)
  | closing (owed : Owed) (todo : List Owed)
  | returning (owed : Owed) (todo : List Owed)

/-- Inside `with store.status_lock`. -/
def Worker.critical : Worker → Bool
  | reporting .. | owing .. | posting .. | failed .. => true
  | idle | queued .. | received .. | admitted .. | draining _ | closing .. | returning .. => false

structure Broker where
  store : Store
  lock : Option Nat
  workers : Nat → Worker
  posts : List Post
  /-- Ghost: every verdict made, and those of them that were owed through the row. -/
  written : List Note
  owed : List Note
  /-- Ghost: verdicts whose holder stopped, or died of an error it does not handle. -/
  lost : Note → Prop

inductive Action where
  | enqueue (i : Nat) (req : EnqueueRequest) (jobId : String) (now : ℚ)
  | postQueued (i : Nat) (reached : Bool)
  | claim (device : String) (labels : List String) (leaseSeconds : Int) (now : ℚ) (limit : Option Int)
  | renew (jobId device : String) (leaseSeconds : Int) (now : ℚ)
  | heartbeat (agent : Agent)
  | reclaim (now : ℚ)
  | receive (i : Nat) (jobId : String) (payload : Payload) (authorized : Bool)
  | checkLease (i : Nat) (now : ℚ)
  | settle (i : Nat) (now : ℚ)
  | postReport (i : Nat) (outcome : Outcome)
  | owe (i : Nat)
  | drain (i : Nat)
  | check (i : Nat)
  | post (i : Nat) (outcome : Outcome)
  | restore (i : Nat)
  | closeCheck (i : Nat) (closed : Bool)
  | putBack (i : Nat)
  | stop

def Owed.post (owed : Owed) : Post :=
  ⟨owed.job.id, owed.job.repository, headShaFor owed.job.sha owed.job.statusSha, owed.status,
  some owed.seq⟩

def reportPost (job : Job) (status : Verdict) (seq : Nat) : Post :=
  ⟨job.id, job.repository, headShaFor job.sha job.statusSha, status, some seq⟩

/-- The verdict of a run a worker has in hand. -/
def heldIn (id : String) (todo : List Owed) : Option (Held Verdict) :=
  (todo.find? fun owed => owed.job.id = id).map fun owed => ⟨owed.status, owed.seq, false, true⟩

def heldFirst (id : String) (owed : Owed) (todo : List Owed) (sent : Bool) : Option (Held Verdict) :=
  if owed.job.id = id then some ⟨owed.status, owed.seq, sent, true⟩ else heldIn id todo

def Worker.inHand (id : String) : Worker → Option (Held Verdict)
  | reporting job status seq => if job.id = id then some ⟨status, seq, false, false⟩ else none
  | owing job status seq sent => if job.id = id then some ⟨status, seq, sent, false⟩ else none
  | draining todo => heldIn id todo
  | posting owed todo => heldFirst id owed todo false
  | failed owed todo sent => heldFirst id owed todo sent
  | closing owed todo | returning owed todo => heldFirst id owed todo true
  | idle | queued .. | received .. | admitted .. => none

/-- A worker has a verdict in hand that no commit has. -/
def Worker.Unsent (w : Worker) (note : Note) : Prop :=
  ∃ h, w.inHand note.job = some h ∧ h.sent = false ∧ h.note = note.status ∧ h.number = note.seq

namespace Broker

def start : Broker := ⟨Store.empty, none, fun _ => .idle, [], [], [], fun _ => False⟩

def become (b : Broker) (i : Nat) (w : Worker) : Broker :=
  { b with workers := Function.update b.workers i w }

def sent (b : Broker) (reached : Bool) (post : Post) : Broker :=
  if reached then { b with posts := b.posts ++ [post] } else b

def lossText (job : Job) : Verdict := lostDescription job leaseLost

/-- The loop of `drain_owed` goes on, or ends with its list. -/
def proceed : List Owed → Worker
  | [] => .idle
  | owed :: todo => .draining (owed :: todo)

def stepEnqueue (b : Broker) (i : Nat) (req : EnqueueRequest) (jobId : String) (now : ℚ) :
    Option Broker :=
  match b.workers i with
  | .idle =>
    match b.store.enqueue req jobId now with
    | .ok (job, t) =>
      some ({ b with store := t }.become i
        (.queued job req.repository (headShaFor req.sha req.statusSha)))
    | .error _ => some b
  | _ => none

def stepPostQueued (b : Broker) (i : Nat) (reached : Bool) : Option Broker :=
  match b.workers i with
  | .queued job repository commit =>
    some ((b.sent reached ⟨job.id, repository, commit, queuedVerdict, none⟩).become i .idle)
  | _ => none

def stepReclaim (b : Broker) (now : ℚ) : Option Broker :=
  if b.lock = none then
    let (jobs, t) := b.store.reclaimExpired now (some lossText)
    let notes := jobs.map fun job => Note.mk job.id (lossText job) (t.currentSeq job.id)
    some { b with store := t, written := b.written ++ notes, owed := b.owed ++ notes }
  else none

def stepReceive (b : Broker) (i : Nat) (jobId : String) (payload : Payload) (authorized : Bool) :
    Option Broker :=
  match b.workers i with
  | .idle =>
    match b.store.get jobId, payload.reported? with
    | some job, some reported => some (if authorized then b.become i (.received job reported) else b)
    | _, _ => some b
  | _ => none

def stepCheckLease (b : Broker) (i : Nat) (now : ℚ) : Option Broker :=
  match b.workers i with
  | .received job reported =>
    some (b.become i
      (if b.store.holdsLease job.id reported.device now then .admitted job reported
      (reportStatus job reported) else .idle))
  | _ => none

/-- The row settles under the lock, and the worker keeps the lock for the post that follows. -/
def stepSettle (b : Broker) (i : Nat) (now : ℚ) : Option Broker :=
  match b.workers i with
  | .admitted job reported status =>
    if b.lock = none then
      match b.store.report job.id reported.device reported.report now with
      | .ok (some settled, t) =>
        let note := Note.mk job.id status (t.currentSeq job.id)
        some ({ b with store := t, lock := some i, written := b.written ++ [note] }.become i
          (.reporting settled status (t.currentSeq job.id)))
      | _ => some (b.become i .idle)
    else none
  | _ => none

def stepPostReport (b : Broker) (i : Nat) (outcome : Outcome) : Option Broker :=
  match b.workers i with
  | .reporting job status seq =>
    let c := b.sent outcome.reached (reportPost job status seq)
    match outcome with
    | .accepted => some ({ c with lock := none }.become i .idle)
    | .refused reached => some (c.become i (.owing job status seq reached))
    -- an error `_post_status` does not catch ends the handler with nothing owed
    | .raised reached =>
      some ({ c with
        lock := none
        lost := fun note => c.lost note ∨ (reached = false ∧ note = Note.mk job.id status seq)
        }.become i .idle)
  | _ => none

def stepOwe (b : Broker) (i : Nat) : Option Broker :=
  match b.workers i with
  | .owing job status _ _ =>
    let t := b.store.oweStatus job.id status
    let note := Note.mk job.id status (t.currentSeq job.id)
    some ({ b with store := t, lock := none, written := b.written ++ [note], owed := b.owed ++ [note] }.become i .idle)
  | _ => none

def stepDrain (b : Broker) (i : Nat) : Option Broker :=
  match b.workers i with
  | .idle =>
    if b.lock = none then
      let (taken, t) := b.store.claimOwed
      some ({ b with store := t }.become i (proceed taken))
    else none
  | _ => none

/-- `post_if_current` up to its post: a verdict that is no longer the latest is dropped. -/
def stepCheck (b : Broker) (i : Nat) : Option Broker :=
  match b.workers i with
  | .draining (owed :: todo) =>
    if b.lock = none then
      if b.store.currentSeq owed.job.id = owed.seq then
        some ({ b with lock := some i }.become i (.posting owed todo))
      else some (b.become i (proceed todo))
    else none
  | _ => none

def stepPost (b : Broker) (i : Nat) (outcome : Outcome) : Option Broker :=
  match b.workers i with
  | .posting owed todo =>
    let c := b.sent outcome.reached (Owed.post owed)
    match outcome with
    | .accepted => some ({ c with lock := none }.become i (.closing owed todo))
    | .refused reached | .raised reached => some (c.become i (.failed owed todo reached))
  | _ => none

def stepRestore (b : Broker) (i : Nat) : Option Broker :=
  match b.workers i with
  | .failed owed todo _ =>
    some ({ b with
      store := b.store.restoreStatus owed.job.id owed.status owed.seq
      lock := none }.become i (proceed todo))
  | _ => none

def stepCloseCheck (b : Broker) (i : Nat) (closed : Bool) : Option Broker :=
  match b.workers i with
  | .closing owed todo => some (b.become i (if closed then proceed todo else .returning owed todo))
  | _ => none

/-- A check that was refused puts its verdict back, although the status was posted. -/
def stepPutBack (b : Broker) (i : Nat) : Option Broker :=
  match b.workers i with
  | .returning owed todo =>
    if b.lock = none then
      some ({ b with store := b.store.restoreStatus owed.job.id owed.status owed.seq }.become i
      (proceed todo))
    else none
  | _ => none

/-- The process ends and starts again on the same database. -/
def stopped (b : Broker) : Broker :=
  { b with
    lock := none
    workers := fun _ => .idle
    lost := fun note => b.lost note ∨ ∃ i, (b.workers i).Unsent note }

def step (b : Broker) : Action → Option Broker
  | .enqueue i req jobId now => b.stepEnqueue i req jobId now
  | .postQueued i reached => b.stepPostQueued i reached
  | .claim device labels leaseSeconds now limit =>
    some { b with store := b.store.kept (b.store.claim device labels leaseSeconds now limit) }
  | .renew jobId device leaseSeconds now =>
    some { b with store := b.store.kept (b.store.renew jobId device leaseSeconds now) }
  | .heartbeat agent => some { b with store := b.store.kept (b.store.recordHeartbeat agent) }
  | .reclaim now => b.stepReclaim now
  | .receive i jobId payload authorized => b.stepReceive i jobId payload authorized
  | .checkLease i now => b.stepCheckLease i now
  | .settle i now => b.stepSettle i now
  | .postReport i outcome => b.stepPostReport i outcome
  | .owe i => b.stepOwe i
  | .drain i => b.stepDrain i
  | .check i => b.stepCheck i
  | .post i outcome => b.stepPost i outcome
  | .restore i => b.stepRestore i
  | .closeCheck i closed => b.stepCloseCheck i closed
  | .putBack i => b.stepPutBack i
  | .stop => some b.stopped

end Broker
end Cindral.Status

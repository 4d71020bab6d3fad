import Cindral.Agent.Requests
import Cindral.Archive.Store
import Cindral.Base.Script

/-!
# The paths a device speaks on

Each handler is the calls it makes on the queue, on the archives and on GitHub, in the order of the
source. `with store.status_lock` is left out: it only keeps others from running between two calls.
-/

namespace Cindral.Agent
open Base
open Archive (Artifact ArtifactStore Limits StoreError)
open Queue (Job Owed QueueError Verdict)
open Status (reportStatus)

/-- An answer, without the fields that only repeat the job. -/
inductive Reply where
  | refused (status : Nat) (text : String)
  | recorded (device : String) (lastSeen : ℚ)
  | idle
  | claimed (job : Job)
  | renewed (jobId : String)
  | reported (job : Job) (artifact : Option Artifact) (posted : Bool)
  | job (job : Job) (artifact : Option Artifact)
  | log (text : String)
  | stored (created : Bool) (record : Artifact)
  | archive (record : Artifact)

inductive Call where
  | get (jobId : String)
  | holdsLease (jobId device : String)
  | recordHeartbeat (heartbeat : Heartbeat)
  | reclaimExpired
  | claim (device : String) (labels : List String) (leaseSeconds limit : Int)
  | renew (jobId device : String) (leaseSeconds : Int)
  | settle (jobId device : String) (report : Queue.Report)
  | claimOwed
  | statusSeq (jobId : String)
  | restoreStatus (jobId : String) (status : Verdict) (seq : Nat)
  | oweStatus (jobId : String) (status : Verdict)
  | postStatus (job : Job) (status : Verdict)
  | publishCheckRun (job : Job)
  | put (jobId repository : String) (source : List (List UInt8)) (contentLength : Int)
  | artifact (jobId : String)
  | openArchive (jobId : String)
  | discard (jobId : String) (digest : Option String) (createdAt : Option ℚ)
  | send (reply : Reply)

abbrev Ans : Call → Type
  | .get _ => Option Job
  | .holdsLease _ _ | .renew _ _ _ => Bool
  | .recordHeartbeat _ => ℚ
  | .reclaimExpired => List Job
  | .claim _ _ _ _ => Option Job
  | .claimOwed => List Owed
  | .statusSeq _ => Nat
  | .publishCheckRun _ => Bool
  | .put _ _ _ _ => Artifact × Bool
  | .artifact _ => Option Artifact
  | .openArchive _ => Bool
  | .settle _ _ _ | .restoreStatus _ _ _ | .oweStatus _ _ | .postStatus _ _ | .discard _ _ _ | .send
      _ => Unit

abbrev Program (α : Type) := Script Call Ans Raised α

/-- What the handlers of one broker share. -/
structure World where
  jobs : Queue.Store
  archives : ArtifactStore

structure Depot where
  sha256 : List UInt8 → String
  limits : Limits

/-- What the environment decides about one call: the clock, what a check run came to, and a failure,
before the call took effect or after it. -/
structure Choice where
  now : ℚ := 0
  published : Bool := true
  raised : Option Raised := none
  late : Bool := false

/-- The exceptions a call can end in of its own. -/
def mayRaise : Call → Raised → Bool
  | .postStatus _ _, .githubApiError _ | .postStatus _ _, .other _ | .send _, .osError _ => true
  | .postStatus _ _, _ | .send _, _ | .publishCheckRun _, _ => false
  | .put _ _ _ _, .artifactError _ | .artifact _, .artifactError _ | .openArchive _, .artifactError _
  | .discard _ _ _, .artifactError _ => true
  | .put _ _ _ _, .osError _ | .artifact _, .osError _ | .openArchive _, .osError _ | .discard _ _
      _, .osError _ => true
  | _, .sqliteError _ => true
  | _, _ => false

def queueRaised : QueueError → Raised
  | .valueError text => .valueError text
  | .keyError id => .keyError id
  | .integrityError => .sqliteError "UNIQUE constraint failed"
  | .overflowError => .other "Python int too large to convert to SQLite INTEGER"

def archiveRaised (e : StoreError) : Raised := .artifactError e.text

/-- A transaction of the queue, which an exception rolls back. -/
def World.transact {α : Type} (w : World) : Except QueueError (α × Queue.Store) → Except Raised α × World
  | .ok (value, jobs) => (.ok value, { w with jobs := jobs })
  | .error e => (.error (queueRaised e), w)

def World.handle {α : Type} (w : World) : Except StoreError (α × ArtifactStore) → Except Raised α × World
  | .ok (value, archives) => (.ok value, { w with archives := archives })
  | .error e => (.error (archiveRaised e), w)

/-- The status a reclaim owes the commit. -/
def lostVerdict (job : Job) : Verdict := Queue.lostDescription job Queue.leaseLost

def answer (depot : Depot) (k : Choice) (w : World) : (c : Call) → Except Raised (Ans c) × World
  | .get jobId => (.ok (w.jobs.get jobId), w)
  | .holdsLease jobId device => (.ok (w.jobs.holdsLease jobId device k.now), w)
  | .recordHeartbeat heartbeat => w.transact (w.jobs.recordHeartbeat (heartbeat.agent k.now))
  | .reclaimExpired =>
    let x := w.jobs.reclaimExpired k.now (some lostVerdict)
    (.ok x.1, { w with jobs := x.2 })
  | .claim device labels leaseSeconds limit =>
      w.transact (w.jobs.claim device labels leaseSeconds k.now (some limit))
  | .renew jobId device leaseSeconds => w.transact (w.jobs.renew jobId device leaseSeconds k.now)
  | .settle jobId device report => w.transact
      ((w.jobs.settle jobId device report k.now).map fun jobs => ((), jobs))
  | .claimOwed =>
    let x := w.jobs.claimOwed
    (.ok x.1, { w with jobs := x.2 })
  | .statusSeq jobId => (.ok (w.jobs.currentSeq jobId), w)
  | .restoreStatus jobId status seq => (.ok (), { w with jobs := w.jobs.restoreStatus jobId status seq })
  | .oweStatus jobId status => (.ok (), { w with jobs := w.jobs.oweStatus jobId status })
  | .postStatus _ _ => (.ok (), w)
  | .publishCheckRun _ => (.ok k.published, w)
  | .put jobId repository source contentLength =>
    w.handle (w.archives.put depot.sha256 depot.limits jobId repository source contentLength k.now)
  | .artifact jobId => w.handle (w.archives.get jobId k.now)
  | .openArchive jobId => w.handle ((w.archives.openArchive jobId k.now).map fun x => (x.1.isSome, x.2))
  | .discard jobId digest createdAt =>
      (.ok (), { w with archives := w.archives.discard jobId digest createdAt })
  | .send _ => (.ok (), w)

def perform (depot : Depot) (k : Choice) (w : World) (c : Call) :
    Option (Except Raised (Ans c) × World) :=
  match k.raised with
  | none => some (answer depot k w c)
  | some e => if mayRaise c e then some (.error e, if k.late then (answer depot k w c).2 else w) else none

/-! ## Parts -/

/-- What `serve` gives its handlers. -/
structure Server (δ : Type) where
  py : Conversions
  sha256 : String → δ
  secrets : Secrets
  jobsDb : Bool
  github : Bool
  leaseSeconds : Int
  maxRepositoryRunning : Int
  positive : 0 < maxRepositoryRunning
  maxBytes : Int

def ask (c : Call) : Program (Ans c) := .call c
def raise {α : Type} (e : Raised) : Program α := .fail e
def reply (answer : Reply) : Program Unit := ask (.send answer)
def refuse (status : Nat) (text : String) : Program Unit := reply (.refused status text)

def noQueue : String := "job queue is not configured"
def wrongDevice : String := "this token does not speak for that device"
def notLeased : String := "job is not leased to this device"
def unknownJob : String := "unknown job"

def orNothing : Except Raised Unit → Program Unit
  | .ok () | .error (.artifactError _) | .error (.osError _) | .error (.sqliteError _) => pure ()
  | .error e => raise e

def discardArtifact (jobId : String) (digest : Option String) (createdAt : Option ℚ) : Program Unit := do
  orNothing (← (ask (.discard jobId digest createdAt)).attempt)

def releaseExpired : Program Unit := do
  let released ← ask .reclaimExpired
  Script.forEach released fun job => do
    let _ ← (discardArtifact job.id none none).attempt

variable {δ : Type} (server : Server δ)

/-- `_post_status`: the failure, where GitHub's client names one. -/
def postStatus (job : Job) (status : Verdict) : Program (Option Raised) :=
  if server.github then do
    match ← (ask (.postStatus job status)).attempt with
    | .ok () => pure none
    | .error (.githubApiError text) => pure (some (.githubApiError text))
    | .error e => raise e
  else pure none

def postVerdict (job : Job) (status : Verdict) : Program Unit := do
  match ← postStatus server job status with
  | some failure => raise failure
  | none => pure ()

/-- `publish_check_run_quietly` -/
def publishCheckRun (job : Job) : Program Bool :=
  if server.github then ask (.publishCheckRun job) else pure false

def closeCheck (job : Job) : Program Unit := do
  let published ← publishCheckRun server job
  if !published && server.github then raise (.githubApiError "the check run was refused") else pure ()

def postIfCurrent (owed : Owed) : Program Bool := do
  let seq ← ask (.statusSeq owed.job.id)
  if seq ≠ owed.seq then pure false
  else match ← (postVerdict server owed.job owed.status).attempt with
    | .ok () => pure true
    | .error _ => do
      ask (.restoreStatus owed.job.id owed.status owed.seq)
      pure false

/-- One round of `drain_owed`. -/
def drainOne (owed : Owed) : Program Unit := do
  let posted : Program Unit := do
    if ← postIfCurrent server owed then closeCheck server owed.job else pure ()
  match ← posted.attempt with
  | .ok () => pure ()
  | .error _ => do
    let _ ← (ask (.restoreStatus owed.job.id owed.status owed.seq)).attempt

def drainStatuses : Program Unit := do
  let owed ← ask .claimOwed
  Script.forEach owed (drainOne server)

/-- `_with_artifacts`: the archive beside a job. -/
def artifactOf (job : Job) : Program (Option Artifact) := do
  match ← (ask (.artifact job.id)).attempt with
  | .ok record => pure record
  | .error (.artifactError _) => pure none
  | .error e => raise e

/-! ## Handlers -/

variable [DecidableEq δ] (q : Request)

def authorizedAs (device : String) : Program Bool :=
  .lift (server.secrets.authorizedAs server.sha256 q.authorization device)

def agents : Program Unit :=
  if !server.jobsDb then refuse 503 noQueue
  else do
    if !(← Script.lift (server.secrets.agentAuthorized server.sha256 q.authorization)) then
      refuse 401 "agent requests require a bearer token"
    else match q.readJson server.py >>= parseHeartbeat with
      | .error (.valueError text) => refuse 400 text
      | .error (.typeError text) => refuse 400 text
      | .error e => raise e
      | .ok heartbeat => do
        if !(← authorizedAs server q heartbeat.device) then refuse 401 wrongDevice
        else do
          let lastSeen ← ask (.recordHeartbeat heartbeat)
          reply (.recorded heartbeat.device lastSeen)

def claim : Program Unit := do
  let request ← Script.lift (q.readJson server.py >>= readClaim server.py server.leaseSeconds)
  releaseExpired
  drainStatuses server
  if !(← authorizedAs server q request.device) then refuse 401 wrongDevice
  else do
    match ← ask (.claim request.device request.labels request.leaseSeconds
      server.maxRepositoryRunning) with
    | none => reply .idle
    | some job => reply (.claimed job)

def renew (jobId : String) : Program Unit := do
  let (device, lease) ← Script.lift (q.readJson server.py >>= readRenewal server.py server.leaseSeconds)
  if !(← authorizedAs server q device) then refuse 401 wrongDevice
  else do
    if !(← ask (.renew jobId device lease)) then refuse 409 notLeased
    else reply (.renewed jobId)

/-- `JobStore.report`: the row is settled, and read back. -/
def reportJob (jobId device : String) (report : Queue.Report) : Program Job := do
  ask (.settle jobId device report)
  match ← ask (.get jobId) with
  | some job => pure job
  | none => raise (.other "AssertionError")

/-- The part of `_report` under the lock. -/
def settleAndPost (jobId device : String) (report : Queue.Report) (status : Verdict) :
    Program (Option Job) := do
  match ← (reportJob jobId device report).attempt with
  | .error (.valueError text) => do
    refuse 409 text
    pure none
  | .error e => raise e
  | .ok job => do
    let failure ← postStatus server job status
    if failure.isSome then ask (.oweStatus jobId status) else pure ()
    pure (some job)

def report (jobId : String) : Program Unit := do
  match ← ask (.get jobId) with
  | none => refuse 404 unknownJob
  | some job => do
    let reported ← Script.lift (q.readJson server.py >>= readReport server.py)
    if !(← authorizedAs server q reported.device) then refuse 401 wrongDevice
    else do
      if !(← ask (.holdsLease jobId reported.device)) then refuse 409 notLeased
      else do
        match ← settleAndPost server jobId reported.device reported.report
          (reportStatus job reported) with
        | none => pure ()
        | some settled => do
          let _ ← publishCheckRun server settled
          let artifact ← artifactOf settled
          reply (.reported settled artifact server.github)

def jobStatus (jobId : String) : Program Unit := do
  match ← ask (.get jobId) with
  | none => refuse 404 unknownJob
  | some job => do
    let artifact ← artifactOf job
    reply (.job job artifact)

def jobLog (jobId : String) : Program Unit := do
  match ← ask (.get jobId) with
  | none => refuse 404 unknownJob
  | some job => reply (.log job.log)

/-- The `Content-Length` of an upload. -/
def uploadLength : Except Raised Int :=
  match server.py.int (.str (q.contentLength.getD "-1")) with
  | .ok length => .ok length
  | .error (.valueError _) => .error (.valueError "invalid Content-Length")
  | .error e => .error e

/-- What an upload published after its lease was lost, which it takes back. -/
def withdraw (jobId : String) (record : Artifact) (created : Bool) : Program Unit :=
  if created then discardArtifact jobId (some record.digest) (some record.createdAt) else pure ()

/-- Whether the quota took the archive an upload published. -/
def evicted (jobId : String) (created : Bool) : Program Bool :=
  if created then do return (← ask (.artifact jobId)).isNone else pure false

/-- `_artifact_upload` past the store's answer. -/
def uploaded (jobId device : String) (record : Artifact) (created : Bool) : Program Unit := do
  if !(← ask (.holdsLease jobId device)) then do
    withdraw jobId record created
    refuse 409 notLeased
  else do
    if ← evicted jobId created then refuse 507 "artifact archive is larger than the configured storage quota"
    else reply (.stored created record)

def artifactUpload (jobId : String) : Program Unit := do
  match ← ask (.get jobId) with
  | none => refuse 404 unknownJob
  | some job => do
    if !(← authorizedAs server q q.deviceHeader) then refuse 401 wrongDevice
    else do
      if !(← ask (.holdsLease jobId q.deviceHeader)) then refuse 409 notLeased
      else do
        let length ← Script.lift (uploadLength server q)
        if length < 0 || server.maxBytes < length then refuse 413 "artifact archive exceeds the configured size limit"
        else match ← (ask (.put jobId job.repository q.source length)).attempt with
          | .error (.artifactError text) => refuse 400 text
          | .error e => raise e
          | .ok (record, created) => uploaded jobId q.deviceHeader record created

def artifactDownload (jobId : String) : Program Unit := do
  match ← (ask (.artifact jobId)).attempt with
  | .error (.artifactError text) => refuse 400 text
  | .error e => raise e
  | .ok record => do
    match record, ← ask (.get jobId) with
    | some record, some job =>
      if record.repository ≠ job.repository then refuse 404 "job has no artifact"
      else do
        if ← ask (.openArchive jobId) then reply (.archive record) else refuse 404 "job has no artifact"
    | _, _ => refuse 404 "job has no artifact"

/-! ## Routes -/

/-- The path without its query, and without the slashes at its end. -/
def Request.route : List Char := ((q.path.toList.takeWhile (· ≠ '?')).reverse.dropWhile (· = '/')).reverse

def ends (path : List Char) (ending : String) : Bool := ending.toList.isSuffixOf path

def mutating (path : List Char) : Bool :=
  ends path "/claim" || ends path "/renew" || ends path "/report" ||
  (ends path "/artifacts" && q.command ≠ "GET")

/-- `_require`, and what is served where the method is the one it expects. -/
def require (expected action : String) (served : Program Unit) : Program Unit :=
  if q.command ≠ expected then refuse 405 s!"{action} requires {expected}" else served

/-- The part of `_jobs` under its `try`. -/
def routeJob (path : List Char) : Program Unit :=
  if path = "/v1/jobs/claim".toList then require q "POST" "claim" (claim server q)
  else match afterPrefix? "/v1/jobs/" path with
    | none => refuse 404 "not found"
    | some rest =>
      let jobId := String.ofList (rest.takeWhile (· ≠ '/'))
      let action := String.ofList ((rest.dropWhile (· ≠ '/')).drop 1)
      if jobId = "" then refuse 404 "not found"
      else if action = "renew" then require q "POST" action (renew server q jobId)
      else if action = "report" then require q "POST" action (report server q jobId)
      else if action = "" then require q "GET" "job status" (jobStatus jobId)
      else if action = "log" then require q "GET" "job log" (jobLog jobId)
      else if action = "artifacts" then
        if q.command = "GET" then artifactDownload jobId
        else if q.command = "POST" then artifactUpload server q jobId
        else refuse 405 "job artifacts requires GET or POST"
      else refuse 404 "not found"

/-- The answer to an exception `_jobs` catches. -/
def badRequest : Except Raised Unit → Program Unit
  | .ok () => pure ()
  | .error (.valueError text) | .error (.typeError text) | .error (.artifactError text) => refuse 400 text
  | .error (.keyError key) => refuse 400 s!"'{key}'"
  | .error e => raise e

def jobs : Program Unit :=
  if !server.jobsDb then refuse 503 noQueue
  else do
    let path := q.route
    let authorized ← Script.lift (if mutating q path then server.secrets.agentAuthorized
      server.sha256 q.authorization
      else server.secrets.readAuthorized server.sha256 q.authorization)
    if !authorized then refuse 401 "job requests require a bearer token"
    else do badRequest (← (routeJob server q path).attempt)

/-- `do_GET` and `do_POST`, as far as a device's paths go. -/
def handle : Program Unit :=
  let path := String.ofList (q.path.toList.takeWhile (· ≠ '?'))
  if q.command = "GET" then
    if hasPrefix path "/v1/jobs/" then jobs server q else refuse 404 "not found"
  else if hasPrefix path "/v1/jobs" then jobs server q
  else if path = agentHeartbeatPath then agents server q
  else refuse 404 "not found"

end Cindral.Agent

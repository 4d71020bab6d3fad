import Cindral.Archive.Store
import Cindral.Queue.Store

/-! The artifact handlers and the reclaim, call by call, over one queue and one store. -/

namespace Cindral.Archive
open Base Queue

inductive Answer where
  | refused (status : Nat) (error : String)
  | stored (status : Nat) (record : Artifact)
  deriving DecidableEq, Repr

namespace Answer

def unknownJob : Answer := .refused 404 "unknown job"
def wrongDevice : Answer := .refused 401 "this token does not speak for that device"
def notLeased : Answer := .refused 409 "job is not leased to this device"
def badLength : Answer := .refused 400 "invalid Content-Length"
def tooLarge : Answer := .refused 413 "artifact archive exceeds the configured size limit"
def overQuota : Answer := .refused 507 "artifact archive is larger than the configured storage quota"
def noArtifact : Answer := .refused 404 "job has no artifact"

end Answer

/-- An upload that held its run's lease when it came in. `attempt` is ghost: the attempt the run was
on. -/
structure Request where
  jobId : String
  device : String
  repository : String
  contentLength : Int
  attempt : Nat
  deriving DecidableEq

/-- Where `_artifact_upload` is. From `confirming` on it is in the `get` that follows a publication. -/
inductive Upload where
  | idle
  | receiving (q : Request)
  | stored (q : Request) (record : Artifact) (created : Bool)
  | withdrawing (q : Request) (record : Artifact)
  | confirming (q : Request) (record : Artifact)
  | found (q : Request) (record row : Artifact)
  | dropping (q : Request) (row : Artifact)
  | answered (answer : Answer)

/-- Where another call of `get` is, for a job page or a download. -/
inductive Reader where
  | idle
  | found (row : Artifact)
  | dropping (row : Artifact)

/-- Ghost: an upload that was answered as stored to the device that holds the lease, and no reclaim
of the run since. -/
structure Promise where
  jobId : String
  attempt : Nat
  record : Artifact
  deriving DecidableEq

/-- Ghost: a body an upload of the attempt brought. -/
structure Sent where
  jobId : String
  attempt : Nat
  body : Bytes

structure Depot where
  queue : Queue.Store
  archives : ArtifactStore
  uploads : Nat → Upload
  readers : Nat → Reader
  /-- The jobs a call of `release_expired` has released and not yet discarded the archives of. -/
  discards : Nat → List String
  promises : List Promise
  sent : List Sent
  /-- Ghost: the records whose time or whose quota was up. -/
  ended : List Artifact

inductive Move where
  | queue (op : Queue.Store.Op)
  | reclaim (p : Nat) (now : ℚ) (publish : Option (Job → Verdict))
  | discard (p : Nat)
  | receive (i : Nat) (jobId device : String) (contentLength : Option Int) (authorized : Bool) (now : ℚ)
  | put (i : Nat) (source : List Bytes) (now : ℚ)
  | recheck (i : Nat) (now : ℚ)
  | withdraw (i : Nat)
  | confirm (i : Nat) (now : ℚ)
  | stat (i : Nat)
  | drop (i : Nat)
  | read (r : Nat) (jobId : String) (now : ℚ)
  | readStat (r : Nat)
  | readDrop (r : Nat)

namespace Depot

def start : Depot :=
  ⟨Queue.Store.empty, ArtifactStore.empty, fun _ => .idle, fun _ => .idle, fun _ => [], [], [], []⟩

def enter (d : Depot) (i : Nat) (u : Upload) : Depot :=
  { d with uploads := Function.update d.uploads i u }

def enterReader (d : Depot) (r : Nat) (u : Reader) : Depot :=
  { d with readers := Function.update d.readers r u }

/-- The store after a transaction that may drop rows for their time or a quota, those it published
among them. -/
def commit (d : Depot) (archives : ArtifactStore) (published : List Artifact) : Depot :=
  { d with archives := archives, ended := d.ended ++ (d.archives.rows.rows ++ published).filter (· ∉ archives.rows.rows) }

/-- The store after the publication of a body, or after its job's archive was found to stand. -/
def bring (d : Depot) (sent : Sent) (archives : ArtifactStore) (record : Artifact) : Depot :=
  { d.commit archives [record] with sent := sent :: d.sent }

def leased (d : Depot) (jobId device : String) : Bool :=
  (d.queue.row? jobId).any fun r => r.status = .running && r.device = some device

/-- The answer that the archive is stored. -/
def promise (d : Depot) (i : Nat) (q : Request) (status : Nat) (record : Artifact) : Depot :=
  { d.enter i (.answered (.stored status record)) with
    promises := if d.leased q.jobId q.device then ⟨q.jobId, q.attempt, record⟩ ::
    d.promises else d.promises }

/-- `discard_artifact` of a row by its digest and its publication time. -/
def withdrawn (d : Depot) (row : Artifact) : Depot :=
  { d with archives := d.archives.discard row.jobId (some row.digest) (some row.createdAt) }

variable (sha256 : Bytes → String) (limits : Limits)

def stepReclaim (d : Depot) (p : Nat) (now : ℚ) (publish : Option (Job → Verdict)) : Option Depot :=
  if d.discards p ≠ [] then none
  else
    let released := (d.queue.reclaimExpired now publish).1.map Job.id
    some { d with
      queue := (d.queue.reclaimExpired now publish).2
      discards := Function.update d.discards p released
      promises := d.promises.filter fun promise => promise.jobId ∉ released }

def stepDiscard (d : Depot) (p : Nat) : Option Depot :=
  match d.discards p with
  | [] => none
  | jobId :: rest =>
    some { d with archives := d.archives.discard jobId none none, discards := Function.update d.discards p rest }

def stepReceive (d : Depot) (i : Nat) (jobId device : String) (contentLength : Option Int)
    (authorized : Bool) (now : ℚ) :
    Option Depot :=
  match d.uploads i with
  | .idle =>
    some (d.enter i (match d.queue.get jobId with
      | none => .answered .unknownJob
      | some job =>
        if !authorized then .answered .wrongDevice
        else if !d.queue.holdsLease jobId device now then .answered .notLeased
        else match contentLength with
          | none => .answered .badLength
          | some length =>
            if length < 0 ∨ limits.maxBytes < length then .answered .tooLarge
            else .receiving ⟨jobId, device, job.repository, length, job.attempts⟩))
  | _ => none

def stepPut (d : Depot) (i : Nat) (source : List Bytes) (now : ℚ) : Option Depot :=
  match d.uploads i with
  | .receiving q =>
    match ArtifactStore.receive limits q.jobId source q.contentLength with
    | .error e => some (d.enter i (.answered (.refused 400 e.text)))
    | .ok body =>
      let ((record, created), archives) := d.archives.publish sha256 limits q.jobId q.repository body now
      some ((d.bring ⟨q.jobId, q.attempt, body⟩ archives record).enter i (.stored q record created))
  | _ => none

def stepRecheck (d : Depot) (i : Nat) (now : ℚ) : Option Depot :=
  match d.uploads i with
  | .stored q record created =>
    some (match d.queue.holdsLease q.jobId q.device now, created with
      | true, true => d.enter i (.confirming q record)
      | true, false => d.promise i q 200 record
      | false, true => d.enter i (.withdrawing q record)
      | false, false => d.enter i (.answered .notLeased))
  | _ => none

def stepWithdraw (d : Depot) (i : Nat) : Option Depot :=
  match d.uploads i with
  | .withdrawing _ record => some ((d.withdrawn record).enter i (.answered .notLeased))
  | _ => none

def stepConfirm (d : Depot) (i : Nat) (now : ℚ) : Option Depot :=
  match d.uploads i with
  | .confirming q record =>
    let looked := d.archives.look q.jobId now
    some ((d.commit looked.2 []).enter i (match looked.1 with
      | none => .answered .overQuota
      | some row => .found q record row))
  | _ => none

def stepStat (d : Depot) (i : Nat) : Option Depot :=
  match d.uploads i with
  | .found q record row =>
    some (if (d.archives.archives q.jobId).isSome then d.promise i q 201 record else d.enter i
      (.dropping q row))
  | _ => none

def stepDrop (d : Depot) (i : Nat) : Option Depot :=
  match d.uploads i with
  | .dropping _ row => some ((d.withdrawn row).enter i (.answered .overQuota))
  | _ => none

def stepRead (d : Depot) (r : Nat) (jobId : String) (now : ℚ) : Option Depot :=
  match d.readers r, archivePath jobId with
  | .idle, .ok _ =>
    let looked := d.archives.look jobId now
    some ((d.commit looked.2 []).enterReader r (match looked.1 with
      | none => .idle
      | some row => .found row))
  | _, _ => none

def stepReadStat (d : Depot) (r : Nat) : Option Depot :=
  match d.readers r with
  | .found row =>
      some (d.enterReader r (if (d.archives.archives row.jobId).isSome then .idle else .dropping
      row))
  | _ => none

def stepReadDrop (d : Depot) (r : Nat) : Option Depot :=
  match d.readers r with
  | .dropping row => some ((d.withdrawn row).enterReader r .idle)
  | _ => none

def step (d : Depot) : Move → Option Depot
  | .queue (.reclaimExpired ..) => none
  | .queue op => some { d with queue := d.queue.apply op }
  | .reclaim p now publish => d.stepReclaim p now publish
  | .discard p => d.stepDiscard p
  | .receive i jobId device contentLength authorized now => d.stepReceive limits i jobId device
      contentLength authorized now
  | .put i source now => d.stepPut sha256 limits i source now
  | .recheck i now => d.stepRecheck i now
  | .withdraw i => d.stepWithdraw i
  | .confirm i now => d.stepConfirm i now
  | .stat i => d.stepStat i
  | .drop i => d.stepDrop i
  | .read r jobId now => d.stepRead r jobId now
  | .readStat r => d.stepReadStat r
  | .readDrop r => d.stepReadDrop r

/-- `_artifact_download` with nothing else going on, which reads the clock twice. -/
def download (d : Depot) (jobId : String) (now later : ℚ) : Except Answer Bytes :=
  match d.archives.get jobId now with
  | .error e => .error (.refused 400 e.text)
  | .ok (record, archives) =>
    match record, d.queue.get jobId with
    | some record, some job =>
      if record.repository ≠ job.repository then .error .noArtifact
      else match archives.openArchive jobId later with
        | .error e => .error (.refused 400 e.text)
        | .ok (none, _) => .error .noArtifact
        | .ok (some body, _) => .ok body
    | _, _ => .error .noArtifact

end Depot
end Cindral.Archive

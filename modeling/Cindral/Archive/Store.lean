import Cindral.Base.Directory
import Cindral.Base.Eviction
import Cindral.Base.Text
import Mathlib.Algebra.Order.Field.Rat
import Mathlib.Data.Prod.Lex
import Mathlib.Data.String.Basic

/-! Build artifacts: one archive for each run, kept until its time or a quota is up. -/

namespace Cindral.Archive
open Base

abbrev Bytes := List UInt8

/-- The limits of an `ArtifactStore`, which refuses one that is not positive. -/
structure Limits where
  ttlSeconds : Nat := 7 * 24 * 60 * 60
  repositoryQuota : Nat := 256 * 1024 * 1024
  storageQuota : Nat := 768 * 1024 * 1024
  maxBytes : Nat := 64 * 1024 * 1024
  positive : 1 ≤ min (min (min ttlSeconds repositoryQuota) storageQuota) maxBytes

def shippedLimits : Limits := { positive := by decide }

def artifactSuffix : String := ".tar"

structure Artifact where
  jobId : String
  repository : String
  name : String
  size : Nat
  digest : String
  createdAt : ℚ
  expiresAt : ℚ
  deriving DecidableEq, Repr

inductive StoreError where
  | artifactError (text : String)
  | stagingError (text : String)
  deriving DecidableEq, Repr

def StoreError.text : StoreError → String
  | artifactError text | stagingError text => text

/-- The file name of a job's archive. No link stands in the directory, so the path of a valid id
does not leave it. -/
def archivePath (jobId : String) : Except StoreError String :=
  if jobId.toList.length = 32 ∧ jobId.toList.all isLowerHex then .ok (jobId ++ artifactSuffix)
  else .error (.artifactError "invalid job id")

/-- Read a body block by block, as long as it is short of its declared length. -/
def stage (contentLength : Nat) (written : Bytes) : List Bytes → Except StoreError Bytes
  | [] => if written.length < contentLength then .error
      (.stagingError "artifact upload ended before Content-Length") else .ok written
  | block :: source =>
    if written.length < contentLength then
      if block = [] then .error (.stagingError "artifact upload ended before Content-Length")
      else if contentLength - written.length < block.length then
        .error (.stagingError "artifact upload exceeded its Content-Length")
      else stage contentLength (written ++ block) source
    else .ok written

abbrev Artifacts := Table Artifact.jobId

/-- The `artifacts` table and the archives. `archives` holds them under their jobs' ids, which their
names are made of. -/
structure ArtifactStore where
  rows : Artifacts
  archives : Directory String Bytes

namespace Artifacts

/-- The row a drop is for: the job's, or only the one of that digest, published then. -/
def named (jobId : String) (digest : Option String) (createdAt : Option ℚ) (a : Artifact) : Bool :=
  a.jobId = jobId && digest.all fun d => a.digest = d && createdAt.all (a.createdAt = ·)

/-- `_drop`: the rows that are left, and the job whose archive is to go, if a row went. -/
def drop (t : Artifacts) (jobId : String) (digest : Option String) (createdAt : Option ℚ) :
    Artifacts × Option String :=
  (t.filter (!named jobId digest createdAt ·),
  if t.rows.any (named jobId digest createdAt) then some jobId else none)

/-- `_expire`: the unlinks wait for the commit. No killed upload leaves a staging file to sweep here. -/
def expire (t : Artifacts) (now : ℚ) : Artifacts × List String :=
  ((t.rows.filter (·.expiresAt ≤ now)).map Artifact.jobId).foldl (fun (t, unlink) jobId =>
    let (t, removed) := t.drop jobId none none
    (t, unlink ++ removed.toList)) (t, [])

def sizes (rows : List Artifact) : Nat := (rows.map Artifact.size).sum

def rank (a : Artifact) : ℚ ×ₗ String := toLex (a.createdAt, a.jobId)

def quotaOf (repository : Option String) (quota : Nat) : Eviction Artifact (ℚ ×ₗ String) :=
  { scope := fun a => repository.all (a.repository = ·), weight := sizes, rank := rank, quota := quota }

def evictToQuota (t : Artifacts) (repository : Option String) (quota : Nat) : Artifacts × List String :=
  let (kept, gone) := t.evict (quotaOf repository quota) t.rows.length
  (kept, gone.map Artifact.jobId)

def enforceQuota (limits : Limits) (t : Artifacts) (repository : String) : Artifacts × List String :=
  let (kept, unlink) := t.evictToQuota (some repository) limits.repositoryQuota
  let (kept, more) := kept.evictToQuota none limits.storageQuota
  (kept, unlink ++ more)

end Artifacts

namespace ArtifactStore

def empty : ArtifactStore := ⟨Table.empty, Directory.empty⟩

def row? (s : ArtifactStore) (jobId : String) : Option Artifact := s.rows.find? jobId

variable (sha256 : Bytes → String) (limits : Limits)

def recordOf (jobId repository : String) (body : Bytes) (now : ℚ) : Artifact :=
  { jobId := jobId, repository := repository, name := jobId ++ artifactSuffix, size := body.length,
      digest := sha256 body
    createdAt := now, expiresAt := now + limits.ttlSeconds }

@[simp] theorem recordOf_jobId (jobId repository : String) (body : Bytes) (now : ℚ) :
    (recordOf sha256 limits jobId repository body now).jobId = jobId := rfl

/-- The part of `put` under the lock: the transaction, the rename, and the unlinks once it is
committed. -/
def publish (s : ArtifactStore) (jobId repository : String) (body : Bytes) (now : ℚ) :
    (Artifact × Bool) × ArtifactStore :=
  let record := recordOf sha256 limits jobId repository body now
  let (rows, unlink) := Artifacts.expire s.rows now
  match rows.find? jobId with
  | some existing => ((existing, false), ⟨rows, s.archives.unlinkAll unlink⟩)
  | none =>
    -- the rename takes the place of whatever the path held, a file that waits to be unlinked too
    let archives := s.archives.install jobId body
    let inserted : Artifacts := (rows.insert? record).getD rows
    let (rows, evicted) := inserted.enforceQuota limits repository
    ((record, true), ⟨rows, archives.unlinkAll (unlink ++ evicted)⟩)

/-- The part of `put` before the lock. `source` is what each read of the body gives. -/
def receive (jobId : String) (source : List Bytes) (contentLength : Int) : Except StoreError Bytes :=
  match archivePath jobId with
  | .error e => .error e
  | .ok _ =>
    if contentLength < 0 ∨ limits.maxBytes < contentLength then
      .error (.artifactError "artifact archive exceeds the configured size limit")
    else stage contentLength.toNat [] source

def put (s : ArtifactStore) (jobId repository : String) (source : List Bytes) (contentLength : Int)
    (now : ℚ) :
    Except StoreError ((Artifact × Bool) × ArtifactStore) :=
  (receive limits jobId source contentLength).map fun body => s.publish sha256 limits jobId
  repository body now

/-- The part of `get` under the lock. -/
def look (s : ArtifactStore) (jobId : String) (now : ℚ) : Option Artifact × ArtifactStore :=
  let (rows, unlink) := Artifacts.expire s.rows now
  (rows.find? jobId, ⟨rows, s.archives.unlinkAll unlink⟩)

def discard (s : ArtifactStore) (jobId : String) (digest : Option String) (createdAt : Option ℚ) :
    ArtifactStore :=
  let (rows, removed) := Artifacts.drop s.rows jobId digest createdAt
  ⟨rows, s.archives.unlinkAll removed.toList⟩

def get (s : ArtifactStore) (jobId : String) (now : ℚ) :
    Except StoreError (Option Artifact × ArtifactStore) :=
  (archivePath jobId).map fun _ =>
    let (row, s) := s.look jobId now
    match row with
    | none => (none, s)
    | some row =>
      if (s.archives jobId).isSome then (some row, s)
      else (none, s.discard jobId (some row.digest) (some row.createdAt))

/-- `open`: the archive's bytes, or nothing where the source raises `FileNotFoundError`. -/
def openArchive (s : ArtifactStore) (jobId : String) (now : ℚ) :
    Except StoreError (Option Bytes × ArtifactStore) :=
  (s.get jobId now).map fun (record, t) => (record.bind fun _ => t.archives jobId, t)

inductive Op where
  | put (jobId repository : String) (source : List Bytes) (contentLength : Int) (now : ℚ)
  | get (jobId : String) (now : ℚ)
  | discard (jobId : String) (digest : Option String) (createdAt : Option ℚ)

/-- The state after a call. One that raises has changed nothing. -/
def kept {α : Type} (s : ArtifactStore) : Except StoreError (α × ArtifactStore) → ArtifactStore
  | .ok (_, t) => t
  | .error _ => s

def apply (s : ArtifactStore) : Op → ArtifactStore
  | .put jobId repository source contentLength now =>
      s.kept (s.put sha256 limits jobId repository source contentLength now)
  | .get jobId now => s.kept (s.get jobId now)
  | .discard jobId digest createdAt => s.discard jobId digest createdAt

def step (s : ArtifactStore) (op : Op) : Option ArtifactStore := some (s.apply sha256 limits op)

end ArtifactStore
end Cindral.Archive

import Cindral.Queue.Steps
import Mathlib.Algebra.Order.Field.Rat
import Mathlib.Tactic.NormNum

/-! One run as the queue stores it, the record a reader gets of it, and the retry policy. -/

namespace Cindral.Queue
open Base

inductive JobStatus where
  | pending | running | success | failure | dead
  deriving DecidableEq, Repr

def JobStatus.terminal : JobStatus → Bool
  | success | failure | dead => true
  | pending | running => false

inductive CommitState where
  | error | failure | pending | success
  deriving DecidableEq, Repr

/-- The state and description a commit status carries. The source stores the pair as JSON text. -/
structure Verdict where
  state : CommitState
  description : String
  deriving DecidableEq, Repr

def maxAttempts : Nat := 3
def baseBackoffSeconds : ℚ := 30
def maxBackoffSeconds : ℚ := 300
def maxErrorChars : Nat := 200
def leaseLost : String := "the device lease expired before the run finished"

def backoffSeconds (attempts : Nat) : ℚ := min (baseBackoffSeconds * 2 ^ (attempts - 1)) maxBackoffSeconds

def parked (attempts : Nat) : Bool := maxAttempts ≤ attempts

/-- `status_sha or sha`. -/
def headShaFor (sha : String) (statusSha : Option String) : String :=
  match statusSha with
  | some head => if head = "" then sha else head
  | none => sha

structure Job where
  id : String
  repository : String
  sha : String
  ref : String
  labels : List String
  timeout : Int
  createdAt : ℚ
  status : JobStatus
  command : List String := []
  device : Option String := none
  leaseExpires : Option ℚ := none
  exitCode : Option Int := none
  attempts : Nat := 0
  delivery : Option String := none
  statusSha : Option String := none
  log : String := ""
  lastError : Option String := none
  steps : List StepRecord := []
  deriving DecidableEq, Repr

/-- A row of the `jobs` table. `command`, `labels` and `steps` are JSON text in the source. -/
structure Row where
  id : String
  repository : String
  sha : String
  ref : String
  command : List String
  labels : List String
  timeout : Int
  createdAt : ℚ
  status : JobStatus
  device : Option String := none
  leaseExpires : Option ℚ := none
  exitCode : Option Int := none
  attempts : Nat := 0
  delivery : Option String := none
  statusSha : Option String := none
  lastError : Option String := none
  availableAt : Option ℚ := none
  log : Option String := none
  steps : Option (List StepRecord) := none
  pendingStatus : Option Verdict := none
  statusSeq : Nat := 0
  deriving DecidableEq, Repr

/-- `_row` of the source. -/
def Row.job (row : Row) : Job :=
  { id := row.id, repository := row.repository, sha := row.sha, ref := row.ref, labels := row.labels
    timeout := row.timeout, createdAt := row.createdAt, status := row.status, command := row.command
    device := row.device, leaseExpires := row.leaseExpires, exitCode := row.exitCode
    attempts := row.attempts, delivery := row.delivery, statusSha := row.statusSha
    log := row.log.getD "", lastError := row.lastError, steps := row.steps.getD [] }

@[simp] theorem Row.job_id (row : Row) : row.job.id = row.id := rfl
@[simp] theorem Row.job_attempts (row : Row) : row.job.attempts = row.attempts := rfl

theorem backoffSeconds_pos (attempts : Nat) : 0 < backoffSeconds attempts := by
  refine lt_min (mul_pos (by norm_num [baseBackoffSeconds]) ?_) (by norm_num [maxBackoffSeconds])
  exact pow_pos (by norm_num) _

theorem parked_iff {attempts : Nat} : parked attempts = true ↔ maxAttempts ≤ attempts :=
  decide_eq_true_iff

end Cindral.Queue

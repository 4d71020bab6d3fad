import Cindral.Queue.StatusText

/-! What one device run renders as a GitHub check run. -/

namespace Cindral.Check
open Base Queue

inductive Conclusion where
  | success | failure | timedOut | cancelled
  deriving DecidableEq, Repr

def queuedDescription : String := "queued on the device pool"
def runningDescription : String := "device pool run in progress"
def passedDescription : String := "device pool run passed"
def timedOutExit : Int := 130

def stateFor (job : Job) : CommitState :=
  match job.status with
  | .success => .success
  | .failure => .failure
  | .dead => if parked job.attempts then .error else .pending
  | .pending | .running => .pending

def conclusionFor (job : Job) : Option Conclusion :=
  if stateFor job = .pending then none
  else match job.status with
    | .success => some .success
    | .failure => some (if job.exitCode = some timedOutExit then .timedOut else .failure)
    | .dead | .pending | .running =>
        some (if job.lastError = some leaseLost then .cancelled else .failure)

def titleFor (job : Job) : String :=
  match job.status with
  | .success => passedDescription
  | .failure => failureDescription (job.exitCode.getD 1) job.log job.steps
  | .pending | .running =>
    -- `if job.last_error`: an error that is empty counts as none
    let error := job.lastError.getD ""
    if error ≠ "" then (lostDescription job error).description
    else if job.status = .running then runningDescription else queuedDescription
  | .dead => (lostDescription job (job.lastError.getD "")).description

/-- The commit status that says what the check says. -/
def told (job : Job) : Verdict := ⟨stateFor job, titleFor job⟩

theorem conclusionFor_none_iff {job : Job} : conclusionFor job = none ↔ stateFor job = .pending := by
  unfold conclusionFor
  split
  · exact ⟨fun _ => ‹_›, fun _ => rfl⟩
  · rename_i settled
    refine ⟨fun absent => ?_, fun waits => absurd waits settled⟩
    split at absent <;> cases absent

theorem conclusionFor_success_iff {job : Job} :
    conclusionFor job = some .success ↔ stateFor job = .success := by
  cases status : job.status with
  | success => simp [conclusionFor, stateFor, status]
  | failure => by_cases late : job.exitCode = some timedOutExit
      <;> simp [conclusionFor, stateFor, status, late]
  | dead =>
    by_cases out : parked job.attempts = true
    · by_cases lapsed : job.lastError = some leaseLost
        <;> simp [conclusionFor, stateFor, status, out, lapsed]
    · simp [conclusionFor, stateFor, status, out]
  | pending => simp [conclusionFor, stateFor, status]
  | running => simp [conclusionFor, stateFor, status]

/-- Nothing of a job but its attempts is in the text of its loss. -/
theorem lostDescription_congr {job other : Job} (error : String) (same : job.attempts = other.attempts) :
    lostDescription job error = lostDescription other error := by
  unfold lostDescription
  rw [same]

theorem sliceTo_append_sliceTo (s t : String) {m n : Nat} (h : m ≤ n) :
    sliceTo (s ++ sliceTo t n) m = sliceTo (s ++ t) m := by
  refine String.toList_inj.mp ?_
  rw [toList_sliceTo, toList_sliceTo, String.toList_append, String.toList_append, toList_sliceTo,
    List.take_append,
    List.take_append, List.take_take, Nat.min_eq_left ((Nat.sub_le _ _).trans h)]

/-- An error cut to what a row keeps reads the same in a commit status. -/
theorem lostDescription_cut (job : Job) (error : String) :
    lostDescription job (sliceTo error maxErrorChars) = lostDescription job error := by
  have fits : maxStatusDescription ≤ maxErrorChars := by decide
  unfold lostDescription
  split
  · rw [Verdict.mk.injEq]
    exact ⟨rfl, sliceTo_append_sliceTo _ error fits⟩
  · rw [Verdict.mk.injEq]
    exact ⟨rfl, sliceTo_append_sliceTo _ error fits⟩

theorem sliceTo_ne_empty {s : String} {n : Nat} (h : s ≠ "") : sliceTo s (n + 1) ≠ "" := by
  intro cut
  have chars := congrArg String.toList cut
  rw [toList_sliceTo] at chars
  cases text : s.toList with
  | nil => exact h (String.toList_inj.mp text)
  | cons c rest =>
    rw [text] at chars
    cases chars

/-- A run the device lost is told as its loss, whether it waits for a retry or is parked. -/
theorem told_lost {job : Job} {error : String}
    (status : job.status = if parked job.attempts then .dead else .pending)
    (kept : job.lastError = some (sliceTo error maxErrorChars)) (named : error ≠ "") :
    told job = lostDescription job error := by
  have filled : sliceTo error maxErrorChars ≠ "" := sliceTo_ne_empty named
  have told_cut : told job = lostDescription job (sliceTo error maxErrorChars) := by
    by_cases out : parked job.attempts = true
    · rw [if_pos out] at status
      simp only [told, stateFor, titleFor, status, kept, out, lostDescription, Option.getD_some, if_true]
    · rw [if_neg out] at status
      simp only [told, stateFor, titleFor, status, kept, Option.getD_some, ne_eq, filled,
        not_false_eq_true, if_true]
      rw [lostDescription, if_neg out]
  rw [told_cut, lostDescription_cut]

theorem told_exit {job : Job} {code : Int} (status : job.status = if code = 0 then .success else .failure)
    (kept : job.exitCode = some code) :
    told job = if code = 0 then ⟨.success, passedDescription⟩ else ⟨.failure, failureDescription
    code job.log job.steps⟩ := by
  by_cases passed : code = 0
  · rw [if_pos passed] at status
    simp only [told, stateFor, titleFor, status, if_pos passed]
  · rw [if_neg passed] at status
    simp only [told, stateFor, titleFor, status, if_neg passed, kept, Option.getD_some]

end Cindral.Check

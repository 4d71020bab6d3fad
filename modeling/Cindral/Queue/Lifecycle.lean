import Cindral.Queue.Frame

/-! The states a run can be in: what each column says about the others, and which states are final. -/

namespace Cindral.Queue
open Base

/-- What holds of every row, between any two calls. -/
structure Lifecycle (r : Row) : Prop where
  leased : r.status = .running ↔ r.leaseExpires.isSome
  running : r.status = .running → r.device.isSome ∧ 1 ≤ r.attempts ∧ r.attempts ≤ maxAttempts
  pending : r.status = .pending → r.device = none ∧ r.attempts < maxAttempts
  dead : r.status = .dead → r.device = none ∧ r.attempts = maxAttempts
  exited : r.exitCode.isSome ↔ r.status = .success ∨ r.status = .failure
  passed : r.exitCode = some 0 ↔ r.status = .success

/-- The columns a final state freezes. -/
structure Frozen (r r' : Row) : Prop where
  status : r'.status = r.status
  exitCode : r'.exitCode = r.exitCode
  log : r'.log = r.log
  steps : r'.steps = r.steps
  device : r'.device = r.device
  attempts : r'.attempts = r.attempts

theorem Frozen.refl (r : Row) : Frozen r r := ⟨rfl, rfl, rfl, rfl, rfl, rfl⟩

theorem Frozen.trans {r₁ r₂ r₃ : Row} (h : Frozen r₁ r₂) (h' : Frozen r₂ r₃) : Frozen r₁ r₃ :=
  ⟨h'.status.trans h.status, h'.exitCode.trans h.exitCode, h'.log.trans h.log, h'.steps.trans h.steps,
    h'.device.trans h.device, h'.attempts.trans h.attempts⟩

theorem fresh_lifecycle (req : EnqueueRequest) (jobId : String) (now : ℚ) :
    Lifecycle (req.row jobId now) := by
  constructor <;> simp [EnqueueRequest.row, maxAttempts]

variable {s : Store} {op : Store.Op} {r r' : Row}

/-- A release needs a run that was leased: parked exactly when its attempts are used up. -/
theorem released_lifecycle {now : ℚ} {error : String} {owed : Option Verdict}
    (running : r.status = .running)
    (h : Lifecycle r) : Lifecycle (Row.released r.attempts now error owed r) := by
  obtain ⟨-, low, high⟩ := h.running running
  have unset : r.exitCode = none := by
    have finished := h.exited.not.mpr (by simp [running])
    simpa using finished
  by_cases out : parked r.attempts = true
  · have used : r.attempts = maxAttempts := le_antisymm high (parked_iff.mp out)
    rw [used] at out
    constructor <;> simp [Row.released, out, unset, used]
  · have left : r.attempts < maxAttempts := not_le.mp fun h => out (parked_iff.mpr h)
    constructor <;> simp [Row.released, out, unset, left]

theorem superseded_lifecycle (h : Lifecycle r) : Lifecycle (Row.superseded r) :=
  ⟨h.leased, h.running, h.pending, h.dead, h.exited, h.passed⟩

theorem settled_lifecycle {exitCode : Int} {log : String} {steps : Json} :
    Lifecycle (Row.settled exitCode log steps r) := by
  by_cases zero : exitCode = 0
  · constructor <;> simp [Row.settled, zero]
  · constructor <;> simp [Row.settled, zero]

theorem step_lifecycle (step : RowStep s op r r') (h : Lifecycle r) : Lifecycle r' := by
  cases step with
  | same => exact h
  | taken _ _ waiting =>
    obtain ⟨-, left⟩ := h.pending waiting
    have unset : r.exitCode = none := by
      have finished := h.exited.not.mpr (by simp [waiting])
      simpa using finished
    constructor <;> simp [Row.taken, unset]
    exact left
  | renewed _ _ running held _ =>
    exact ⟨by simp [Row.renewed, running], h.running, h.pending, h.dead, h.exited, h.passed⟩
  | failed _ running _ _ _ => exact released_lifecycle (r := Row.superseded r) running (superseded_lifecycle h)
  | settled _ _ _ _ _ _ => exact settled_lifecycle
  | lapsed running _ => exact released_lifecycle running h
  | drained _ | restored _ _ _ | owed _ | cleared _ =>
    exact ⟨h.leased, h.running, h.pending, h.dead, h.exited, h.passed⟩

/-- Only the owed status of a final row is ever written. -/
theorem step_frozen (step : RowStep s op r r') (final : r.status.terminal = true) : Frozen r r' := by
  have unfrozen {status : JobStatus} (open_ : status.terminal = false) (h : r.status = status) :
      Frozen r r' := by
    rw [h, open_] at final
    cases final
  cases step with
  | same => exact Frozen.refl r
  | taken _ _ waiting => exact unfrozen rfl waiting
  | renewed _ _ running _ _ | failed _ running _ _ _ | settled _ running _ _ _ _ | lapsed running _ =>
    exact unfrozen rfl running
  | drained _ | restored _ _ _ | owed _ | cleared _ => exact ⟨rfl, rfl, rfl, rfl, rfl, rfl⟩

namespace Store

theorem runs_lifecycle (ops : List Op) (start : ∀ r ∈ s.jobs.rows, Lifecycle r) :
    ∀ r ∈ (ops.foldl apply s).jobs.rows, Lifecycle r := by
  induction ops generalizing s with
  | nil => exact start
  | cons op rest ih =>
    exact ih (apply_forall fresh_lifecycle (fun _ _ _ step h => step_lifecycle step h) start)

theorem runs_frozen (ops : List Op) {id : String} (found : s.row? id = some r)
    (final : r.status.terminal = true) :
    ∃ r', (ops.foldl apply s).row? id = some r' ∧ Frozen r r' := by
  induction ops generalizing s r with
  | nil => exact ⟨r, found, Frozen.refl r⟩
  | cons op rest ih =>
    obtain ⟨x, there, step⟩ := apply_row op found
    have frozen := step_frozen step final
    obtain ⟨r', last, more⟩ := ih there (frozen.status ▸ final)
    exact ⟨r', last, frozen.trans more⟩

theorem claim_open {t : Store} {device : String} {labels : List String} {leaseSeconds : Int} {now : ℚ}
    {limit : Option Int} {job : Job} (h : s.claim device labels leaseSeconds now limit = .ok
    (some job, t))
    (found : s.row? job.id = some r) : r.status.terminal = false := by
  obtain ⟨-, -, ⟨-, absent, -⟩ | ⟨picked, chosen, handed, -⟩⟩ := claim_cases h
  · cases absent
  · obtain ⟨member, waiting⟩ := pickJob_mem chosen
    obtain rfl := Option.some.inj handed
    have there : s.row? (Row.taken device (now + leaseSeconds) picked).job.id = some picked :=
      row?_of_mem member
    obtain rfl := Option.some.inj (there.symm.trans found)
    rw [waiting]
    rfl

/-- Over any calls in any order, every row is consistent and a final row is frozen and never claimed
again. -/
theorem queue_lifecycle (before after : List Op) :
    (∀ r ∈ (before.foldl apply empty).jobs.rows, Lifecycle r) ∧
      (∀ id r, (before.foldl apply empty).row? id = some r → r.status.terminal = true →
        (∃ r', (after.foldl apply (before.foldl apply empty)).row? id = some r' ∧ Frozen r r') ∧
        ∀ device labels leaseSeconds now limit job t,
          (after.foldl apply (before.foldl apply empty)).claim device labels leaseSeconds now limit =
            .ok (some job, t) → job.id ≠ id) := by
  refine ⟨runs_lifecycle before fun r member => (nomatch member), fun id r found final =>
    ⟨runs_frozen after found final, ?_⟩⟩
  rintro device labels leaseSeconds now limit job t claimed rfl
  obtain ⟨r', there, frozen⟩ := runs_frozen after found final
  have still := claim_open claimed there
  rw [frozen.status, final] at still
  cases still

end Store
end Cindral.Queue

import Cindral.Dispatch.Calls

/-! The ceiling on metered dispatches: the hold a request takes for its cost, and the choice of a lane under it. -/

namespace Cindral.Dispatch
open Base Routing

/-- `with lock: …`, which gives the lock back however the body ends. -/
def holding {α : Type} (lock unlock : Call) (body : Program α) : Program α := do
  let _ ← ask lock
  let outcome ← body.attempt
  let _ ← ask unlock
  Script.lift outcome

def spentMinutes (p : Policy) : Program Double := do
  let dispatches ← ask .countMetered
  pure (p.spent dispatches)

def spentText (budget : ℚ) (used : Double) : String :=
  s!"the metered budget of {formatG budget} minutes is spent: {used.formatG} minutes used this month"

/-- `budget_refusal`, past its check that a ceiling is set and counted. -/
def budgetRefusal (p : Policy) (budget : ℚ) (estimatedMinutes : Double) : Program (Option String) := do
  let used ← spentMinutes p
  if p.admits budget used estimatedMinutes then pure none
  else pure (some s!"{spentText budget used} at {formatG p.assumedMinutesPerRun} minutes per dispatch")

/-- What `reserve_metered` does under the lock, when a ceiling is set. -/
def reserveUnder (p : Policy) (budget : ℚ) (estimatedMinutes : Double) :
    Program (Option Nat × Option String) := do
  let used ← spentMinutes p
  if p.reaches budget used estimatedMinutes then
    pure (none, some (spentText budget used))
  else do
    let id ← ask (.reserve repositoryUnknown hostedLane)
    pure (some id, none)

def reserveMetered (p : Policy) (estimatedMinutes : Double) : Program (Option Nat × Option String) :=
  match p.minuteBudget with
  | none => pure (none, none)
  | some budget =>
    if !p.meteredMinutes then pure (none, none)
    else if !p.reserveMeteredMinutes then do
      let refusal ← budgetRefusal p budget estimatedMinutes
      pure (none, refusal)
    else holding .lockBudget .unlockBudget (reserveUnder p budget estimatedMinutes)

def releaseHold (p : Policy) (reservation : Option Nat) : Program Unit :=
  match reservation with
  | none => pure ()
  | some id => if p.releaseMeteredMinutes then ask (.release id) else pure ()

/-- `_choose` of the source. -/
def chooseHeld (p : Policy) (request : RouteRequest) (runners : List Runner) : Program RouteDecision := do
  let (reservation, refusal) ← reserveMetered p request.estimatedMinutes
  match refusal with
  | some reason => Script.lift (p.firstLocal request runners reason)
  | none =>
    match p.chooseLane request runners with
    | .error e => do
      releaseHold p reservation
      raise e
    | .ok decision =>
      if reservation.isSome ∧ decision.lane = hostedLane then pure { decision with reservation := reservation }
      else do
        releaseHold p reservation
        pure decision

def choose (p : Policy) (request : RouteRequest) (runners : List Runner) : Program RouteDecision :=
  if p.readsQuota request then do
    let reading ← ask .quotaReading
    chooseHeld p (request.withReading reading) runners
  else chooseHeld p request runners

/-- `release_reservation` and `_release`: a hold that could not be given back is only logged. -/
def releaseReservation (ledger : Bool) (reservation : Option Nat) : Program Unit :=
  match reservation with
  | none => pure ()
  | some id =>
    if ledger then do
      let _ ← (ask (.release id)).attempt
      pure ()
    else pure ()

/-- A hold goes back only when GitHub's answer proves that no run started. -/
def releaseIf (definite ledger : Bool) (reservation : Option Nat) : Program Unit :=
  if definite then releaseReservation ledger reservation else pure ()

/-- `_name_hold` and `_attribute`. -/
def nameHold (ledger : Bool) (reservation : Option Nat) (repository workflow ref : String) :
    Program Unit :=
  match reservation with
  | none => pure ()
  | some id =>
    if ledger then do
      let _ ← (ask (.attributeHold id repository workflow ref)).attempt
      pure ()
    else pure ()

end Cindral.Dispatch

import Cindral.Queue.Job

/-! The commit status text each run's verdict produces. -/

namespace Cindral.Queue
open Base

def maxStatusDescription : Nat := 140

/-- One line against `^cindral: step (\d+)(?: [0-9a-f]{32})?: (.*)$`: the index and the command. -/
def stepMarker? (line : List Char) : Option (List Char × List Char) := do
  let body ← afterPrefix? "cindral: step " line
  let index := body.takeWhile isDecimal
  let rest := body.dropWhile isDecimal
  if index.isEmpty then none
  else
    -- the nonce is optional, and a blank can only open it
    let nonce := (rest.drop 1).take 32
    let rest := if rest.head? = some ' ' && nonce.length = 32 && nonce.all isLowerHex then rest.drop
      33 else rest
    let command ← afterPrefix? ": " rest
    some (index, command)

/-- One line against `^cindral: (?!step )(.*)$`. -/
def diagnosticMarker? (line : List Char) : Option (List Char) := do
  let body ← afterPrefix? "cindral: " line
  if (afterPrefix? "step " body).isSome then none else some body

def failureDetail (log : String) (steps : List StepRecord) : String :=
  match unfinishedStep steps with
  | some step => s!"step {step.index}: {strip step.name}"
  | none =>
    match ((lines log).filterMap stepMarker?).getLast? with
    | some (index, command) => s!"step {String.ofList index}: {strip (String.ofList command)}"
    | none => (((lines log).filterMap diagnosticMarker?).getLast?.map fun body =>
        strip (String.ofList body)).getD ""

def failureDescription (exitCode : Int) (log : String) (steps : List StepRecord) : String :=
  let summary := s!"device pool run failed (exit {exitCode})"
  let detail := failureDetail log steps
  if detail ≠ "" then sliceTo s!"{summary}: {detail}" maxStatusDescription else summary

def lostDescription (job : Job) (error : String) : Verdict :=
  if parked job.attempts then
    ⟨.error, sliceTo s!"device pool run lost after {job.attempts} attempts: {error}" maxStatusDescription⟩
  else
    ⟨.pending, sliceTo s!"device pool run lost, retry {job.attempts + 1} of {maxAttempts}: {error}"
      maxStatusDescription⟩

theorem lostDescription_error_iff (job : Job) (error : String) :
    (lostDescription job error).state = .error ↔ maxAttempts ≤ job.attempts := by
  unfold lostDescription
  split
  · rename_i out; exact ⟨fun _ => parked_iff.mp out, fun _ => rfl⟩
  · rename_i more
    exact ⟨fun h => (nomatch h), fun out => absurd (parked_iff.mpr out) more⟩

theorem lostDescription_state (job : Job) (error : String) :
    (lostDescription job error).state = .error ∨ (lostDescription job error).state = .pending := by
  unfold lostDescription
  split
  · exact Or.inl rfl
  · exact Or.inr rfl

end Cindral.Queue

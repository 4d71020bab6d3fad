import Cindral.Base.Json
import Cindral.Base.Text

/-! The step records a report carries, validated and bounded before they are stored. -/

namespace Cindral.Queue
open Base

def maxStepChars : Nat := 16 * 1024
def maxStepNameChars : Nat := 500
def maxSteps : Nat := 64
def maxTotalChars : Nat := 64 * 1024

structure StepRecord where
  index : Int
  name : String
  output : String
  completed : Bool
  truncated : Bool
  dropped : Nat
  deriving DecidableEq, Repr

def StepRecord.asDict (step : StepRecord) : Json :=
  .obj [("index", .int step.index), ("name", .str step.name), ("output", .str step.output),
    ("completed", .bool step.completed), ("truncated", .bool step.truncated),
    ("dropped", .int step.dropped)]

def bound (text : String) : String × Bool :=
  if text.length ≤ maxStepChars then (text, false) else (sliceLast text maxStepChars, true)

def isStep (value : Json) : Bool :=
  match value with
  | .obj _ => (value.get "index").asInt?.isSome && (value.get "name").asStr?.isSome
  | _ => false

def statedDropped (value : Json) : Nat := (value.asInt?.getD 0).toNat

def reportedTotal (entries : List Json) : Nat :=
  let valid := entries.countP isStep
  match (entries.reverse.filter isStep).find? fun entry => 0 < statedDropped (entry.get "dropped") with
  | some entry => valid + statedDropped (entry.get "dropped")
  | none => valid

/-- `steps[-1] = {**steps[-1], "dropped": count}`, on a set that may be empty. -/
def setLastDropped (count : Nat) : List StepRecord → List StepRecord
  | [] => []
  | [last] => [{ last with dropped := count }]
  | step :: rest => step :: setLastDropped count rest

def encodeEntry (entry : Json) : StepRecord :=
  let text := bound ((entry.get "output").asStr?.getD "")
  { index := (entry.get "index").asInt?.getD 0
    name := sliceTo ((entry.get "name").asStr?.getD "") maxStepNameChars
    output := text.1
    completed := (entry.get "completed").truthy
    truncated := text.2 || (entry.get "truncated").truthy
    dropped := statedDropped (entry.get "dropped") }

def encodeLoop (value : List Json) : List Json → List StepRecord → Nat → List StepRecord
  | [], steps, _ => steps
  | entry :: rest, steps, total =>
    if isStep entry then
      let step := encodeEntry entry
      let cost := total + step.output.length + step.name.length
      -- The count moves onto the last record kept, and the loop stops.
      if cost > maxTotalChars then setLastDropped (reportedTotal value - steps.length) steps
      else encodeLoop value rest (steps ++ [step]) cost
    else encodeLoop value rest steps total

def encodeSteps : Json → List StepRecord
  | .arr value =>
    let steps := encodeLoop value (value.take maxSteps) [] 0
    if value.length > maxSteps then setLastDropped (reportedTotal value - steps.length) steps else steps
  | _ => []

def unfinishedStep (steps : List StepRecord) : Option StepRecord :=
  steps.reverse.find? fun step => !step.completed

end Cindral.Queue

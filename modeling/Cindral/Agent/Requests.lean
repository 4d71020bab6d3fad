import Cindral.Agent.Auth
import Cindral.Status.Broker

/-! What a device sends, as each handler reads it. -/

namespace Cindral.Agent
open Base
open Status (Ending Reported)

def agentHeartbeatPath : String := "/v1/agents/heartbeat"
def maxDeviceChars : Nat := 200
def maxLabels : Nat := 64
def maxLabelChars : Nat := 200
def maxConcurrency : Int := 1024
def maxBody : Int := 1048576

/-- A request, with the headers the handlers read. `body` is what the bytes decode to, and none
where there are none. -/
structure Request where
  command : String
  path : String
  authorization : String := ""
  deviceHeader : String := ""
  contentLength : Option String := none
  body : Option (Except String Json) := none
  /-- What each read of an archive's upload gives. -/
  source : List (List UInt8) := []

structure Heartbeat where
  device : String
  labels : List String
  maxConcurrency : Int
  build : List (String × String)
  deriving DecidableEq, Repr

def Heartbeat.agent (heartbeat : Heartbeat) (now : ℚ) : Queue.Agent :=
  { device := heartbeat.device, labels := heartbeat.labels,
      maxConcurrency := heartbeat.maxConcurrency, lastSeen := now
    build := heartbeat.build }

def invalid {α : Type} (text : String) : Except Raised α := .error (.valueError text)

/-- The texts of a list that holds nothing else. -/
def texts? (items : List Json) : Option (List String) := items.mapM Json.asStr?

def buildOf (fields : List (String × Json)) : Option (List (String × String)) :=
  fields.mapM fun field => field.2.asStr?.map fun text => (field.1, text)

def parseHeartbeat (payload : List (String × Json)) : Except Raised Heartbeat := do
  let device ← match payload.lookup "device" with
    | some (.str device) => if strip device = "" then invalid "device must be a non-empty string" else pure device
    | _ => invalid "device must be a non-empty string"
  if maxDeviceChars < device.length then invalid s!"device must be at most {maxDeviceChars} characters"
  let build ← match payload.lookup "build" with
    | none => pure []
    | some (.obj fields) => match buildOf fields with
      | some build => pure build
      | none => invalid "build must be an object of strings"
    | some _ => invalid "build must be an object of strings"
  let build := ["version", "commit", "built_at"].filterMap fun key => (build.lookup key).map
    fun text => (key, text)
  let labels ← match payload.lookup "labels" with
    | some (.arr items) => match texts? items with
      | some labels => pure labels
      | none => invalid "labels must be an array of strings"
    | _ => invalid "labels must be an array of strings"
  if maxLabels < labels.length then invalid s!"labels must hold at most {maxLabels} entries"
  if labels.any fun label => strip label = "" || decide (maxLabelChars < label.length) then
    invalid s!"each label must be 1 to {maxLabelChars} characters"
  let concurrency ← match payload.lookup "max_concurrency" with
    | some (.int concurrency) => pure concurrency
    | _ => invalid "max_concurrency must be an integer"
  if concurrency < 1 || maxConcurrency < concurrency then
    invalid s!"max_concurrency must be between 1 and {maxConcurrency}"
  pure { device := device, labels := labels, maxConcurrency := concurrency, build := build }

section Reads
variable (py : Conversions)

def Request.readJson (q : Request) : Except Raised (List (String × Json)) := do
  let length ← match q.contentLength with
    | none => pure 0
    | some text => if text = "" then pure 0 else py.int (.str text)
  if maxBody < length then invalid "payload too large"
  match q.body with
  | none => pure []
  | some (.error text) => invalid text
  | some (.ok (.obj fields)) => pure fields
  | some (.ok _) => invalid "body is not a JSON object"

/-- `payload[key]` -/
def item (payload : List (String × Json)) (key : String) : Except Raised Json :=
  match payload.lookup key with
  | some value => .ok value
  | none => .error (.keyError key)

/-- What a `for` over a decoded value goes through. -/
def elements : Json → Except Raised (List Json)
  | .arr items => .ok items
  | .str text => .ok (text.toList.map fun c => .str (.singleton c))
  | .obj fields => .ok (fields.map fun field => .str field.1)
  | _ => .error (.typeError "object is not iterable")

structure ClaimRequest where
  device : String
  labels : List String
  leaseSeconds : Int
  deriving DecidableEq, Repr

def leaseOf (payload : List (String × Json)) (leaseSeconds : Int) : Except Raised Int :=
  py.int ((payload.lookup "lease_seconds").getD (.int leaseSeconds))

def readClaim (leaseSeconds : Int) (payload : List (String × Json)) : Except Raised ClaimRequest := do
  let device ← item payload "device"
  let labels ← elements ((payload.lookup "labels").getD (.arr []))
  let lease ← leaseOf py payload leaseSeconds
  pure ⟨py.str device, labels.map py.str, lease⟩

/-- The device and the lease of a renewal. -/
def readRenewal (leaseSeconds : Int) (payload : List (String × Json)) : Except Raised (String × Int) := do
  let device ← item payload "device"
  let lease ← leaseOf py payload leaseSeconds
  pure (py.str device, lease)

/-- `str(payload.get(key, "") or "")` -/
def textOf (payload : List (String × Json)) (key : String) : String :=
  let value := (payload.lookup key).getD (.str "")
  if value.truthy then py.str value else ""

def readReport (payload : List (String × Json)) : Except Raised Reported := do
  let device ← item payload "device"
  let error := strip (textOf py payload "error")
  let log := textOf py payload "log"
  let steps := Queue.encodeSteps ((payload.lookup "steps").getD .null)
  match (payload.lookup "exit_code").getD .null with
  | .null =>
    if error = "" then invalid "a report needs an exit code or a device error"
    else pure ⟨py.str device, .error error, log, steps⟩
  | reported =>
    if error ≠ "" then pure ⟨py.str device, .error error, log, steps⟩
    else do
      let code ← py.int reported
      pure ⟨py.str device, .exit code, log, steps⟩

end Reads
end Cindral.Agent

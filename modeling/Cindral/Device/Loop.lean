import Cindral.Archive.Pack
import Cindral.Base.Cleanup
import Cindral.Device.Answers

/-!
# A slot of a device

`run_once` as the calls it makes on the broker, on its executor and on the files of a run, and the
loop around it.
-/

namespace Cindral.Device
open Base Script
open Agent (Conversions)
open Workflow (JobSpec)

/-- What an executor returns: a result, or an exit code alone. -/
inductive Executed where
  | result (value : ExecutionResult)
  | code (value : Int)

def Executed.run : Executed → ExecutionResult
  | result value => value
  | code value => { exitCode := value, log := "", steps := [], artifacts := "" }

inductive Call where
  | preflight
  | behindBroker
  | behindNote
  | setBehindNote (behind : Option String)
  | note (message : String)
  /-- Send a request, and wait for the answer of one. -/
  | post (message : Message)
  | await (ticket : Nat)
  | startHeartbeat (jobId : String)
  | stopHeartbeat (jobId : String)
  | lost (jobId : String)
  | execute (device : String) (spec : JobSpec)
  | getsize (archive : String)
  | read (archive : String)
  | unlink (archive : String)
  | stopping
  | wait

abbrev Reads : Call → Type
  | .preflight | .lost _ | .stopping => Bool
  | .behindBroker | .behindNote => Option String
  | .post _ => Nat
  | .await _ => Nat × List (String × Json)
  | .execute _ _ => Executed
  | .getsize _ => Nat
  | .read _ => List UInt8
  | .setBehindNote _ | .note _ | .startHeartbeat _ | .stopHeartbeat _ | .unlink _ | .wait => Unit

abbrev Slot (α : Type) := Script Call Reads Failure α

/-- What the slots of one agent share. -/
structure PullAgent where
  device : String
  labels : List String
  leaseSeconds : Int
  positive : 0 < leaseSeconds

def ask (c : Call) : Slot (Reads c) := .call c
def raise {α : Type} (e : Failure) : Slot α := .fail e

def request (m : Message) : Slot (Nat × List (String × Json)) := do
  let ticket ← ask (.post m)
  ask (.await ticket)

def claim (py : Conversions) (agent : PullAgent) : Slot (Option JobSpec) := do
  let answer ← request (.claim agent.device agent.labels agent.leaseSeconds)
  .lift (claimed py answer.2)

/-- `CindralArtifactClient.upload`, without what it reads of the answer. -/
def uploadArtifacts (jobId device archive : String) : Slot Unit := do
  let length ← ask (.getsize archive)
  if Archive.maxArtifactBytes < length then raise (.artifactClientError "artifact archive exceeds the upload size limit")
  else do
    let body ← ask (.read archive)
    match ← (request (.upload jobId device body)).attempt with
    | .error (.cindralError text _) => raise (.artifactClientError text)
    | .error (.osError text) => raise (.artifactClientError text)
    | .error e => raise e
    | .ok answer =>
      if answer.1 ≠ 200 ∧ answer.1 ≠ 201 then raise (.artifactClientError s!"artifact upload failed with HTTP {answer.1}")
      else pure ()

def discardArchive (archive : String) : Slot Unit := do
  match ← (ask (.unlink archive)).attempt with
  | .ok _ | .error (.osError _) => pure ()
  | .error e => raise e

def Failure.text : Failure → String
  | cindralError text _ | artifactClientError text | osError text | other _ text => text

def uploadArchive (device jobId archive : String) : Slot Unit :=
  (do
    match ← (uploadArtifacts jobId device archive).attempt with
    | .ok _ => pure ()
    | .error (.other type text) => raise (.other type text)
    | .error e => ask (.note s!"cindral: job {jobId} artifacts were not uploaded: {e.text}")).ensure
        (discardArchive archive)

/-- `text.split()` joined by blanks. -/
def oneLine (text : String) : String :=
  .ofList (((text.toList.splitOnP isSpace).filter (· ≠ [])).intersperse [' ']).flatten

def Failure.typeName : Failure → String
  | cindralError .. => "CindralError"
  | artifactClientError _ => "ArtifactClientError"
  | osError _ => "OSError"
  | other type _ => type

/-- What an executor that raised is reported as. -/
def deviceError (e : Failure) : String := sliceTo (oneLine s!"{e.typeName}: {e.text}") Queue.maxErrorChars

/-- What a run came to: the exit code, or the device's error. -/
def outcome : Except Failure Executed → ExecutionResult × String
  | .ok executed => (executed.run, "")
  | .error e => (⟨0, "", [], ""⟩, deviceError e)

section
variable (agent : PullAgent) (spec : JobSpec) (run : ExecutionResult) (error : String)

def reportRun : Slot Bool :=
  if error ≠ "" then do
    ask (.note s!"cindral: job {spec.id} could not run: {error}")
    let _ ← request (.reportLost spec.id agent.device error run.log run.steps)
    pure true
  else do
    let _ ← request (.report spec.id agent.device run.exitCode run.log run.steps)
    pure true

/-- What `run_once` does with a run that has ended. -/
def settleRun : Slot Bool := do
  if ← ask (.lost spec.id) then
    if run.artifacts ≠ "" then do
      discardArchive run.artifacts
      pure true
    else pure true
  else if run.artifacts ≠ "" then do
    uploadArchive agent.device spec.id run.artifacts
    if ← ask (.lost spec.id) then pure true else reportRun agent spec run error
  else reportRun agent spec run error

/-- `run_once` past its claim. -/
def execute : Slot Bool := do
  ask (.startHeartbeat spec.id)
  (do
    let result ← (ask (.execute agent.device spec)).attempt
    settleRun agent spec (outcome result).1 (outcome result).2).ensure (ask (.stopHeartbeat spec.id))

end

section
variable (py : Conversions) (agent : PullAgent)

/-- What `run_once` says where it will not claim, once for each reason. -/
def stayBehind (behind : String) : Slot Unit := do
  let said ← ask .behindNote
  if said ≠ some behind then do
    ask (.setBehindNote (some behind))
    ask (.note s!"cindral: not claiming work: {behind}. Update this checkout and restart the agent.")
  else pure ()

def runOnce : Slot Bool := do
  if !(← ask .preflight) then pure false
  else match ← ask .behindBroker with
    | some behind => do
      stayBehind behind
      pure false
    | none => do
      ask (.setBehindNote none)
      match ← claim py agent with
      | none => pure false
      | some spec => execute agent spec

/-- `_poll_forever`, as far as `fuel` rounds go. -/
def pollForever : Nat → Slot Unit
  | 0 => pure ()
  | fuel + 1 => do
    if ← ask .stopping then pure ()
    else match ← (runOnce py agent).attempt with
      | .ok true => pollForever fuel
      | .ok false | .error (.cindralError _ _) => do
        ask .wait
        pollForever fuel
      | .error e => raise e

/-- `_run_slot`, as far as `fuel` restarts go. -/
def runSlot (rounds : Nat) : Nat → Slot Unit
  | 0 => pure ()
  | fuel + 1 => do
    if ← ask .stopping then pure ()
    else match ← (pollForever py agent rounds).attempt with
      | .ok _ => runSlot rounds fuel
      | .error e => do
        ask (.note s!"cindral: slot restarted after an unexpected failure: {e.text}")
        ask .wait
        runSlot rounds fuel

end
end Cindral.Device

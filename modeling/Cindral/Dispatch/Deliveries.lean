import Cindral.Base.Table
import Cindral.Queue.Job
import Mathlib.Data.List.Sort

/-! The delivery ledger: one row for each repository and delivery id, and the statements run on it. -/

namespace Cindral.Dispatch
open Base

inductive DeliveryState where
  | ready | attempting | accepted | rejected | uncertain
  deriving DecidableEq, Repr

def DeliveryState.text : DeliveryState → String
  | ready => "ready"
  | attempting => "attempting"
  | accepted => "accepted"
  | rejected => "rejected"
  | uncertain => "uncertain"

def DeliveryState.terminal : DeliveryState → Bool
  | accepted | rejected | uncertain => true
  | ready | attempting => false

/-- A row of `webhook_deliveries`. `inputs` is JSON text in the source. -/
structure Delivery where
  repository : String
  delivery : String
  fingerprint : String
  workflow : String
  ref : String
  inputs : List (String × String)
  state : DeliveryState
  createdAt : ℚ
  updatedAt : ℚ
  error : Option String := none
  sha : String := ""
  deriving DecidableEq, Repr

namespace Delivery

def key (d : Delivery) : String × String := (d.repository, d.delivery)

/-- What a row was registered with, which no statement sets again. -/
def registered (d : Delivery) : String × String × String × List (String × String) × String :=
  (d.fingerprint, d.workflow, d.ref, d.inputs, d.sha)

def moved (state : DeliveryState) (error : Option String) (now : ℚ) : Edit key :=
  ⟨fun d => { d with state := state, error := error.or d.error, updatedAt := now }, fun _ => rfl⟩

end Delivery

abbrev Deliveries := Table Delivery.key

namespace Deliveries

def empty : Deliveries := Table.empty

def get (t : Deliveries) (repository delivery : String) : Option Delivery :=
  t.find? (lower repository, delivery)

/-- `INSERT OR IGNORE`, then the row the key has. -/
def register (t : Deliveries) (repository delivery fingerprint workflow ref : String)
    (inputs : List (String × String))
    (sha : String) (now : ℚ) : Delivery × Deliveries :=
  let row : Delivery :=
    { repository := lower repository, delivery := delivery, fingerprint := fingerprint,
        workflow := workflow, ref := ref
      inputs := inputs, state := .ready, createdAt := now, updatedAt := now, sha := sha }
  match t.find? row.key with
  | some existing => (existing, t)
  | none => (row, t.replace row)

/-- The statement `claim`, `finish` and `reject_ready` share: a move, taken only from the state it
expects. -/
def move (t : Deliveries) (repository delivery : String) (source target : DeliveryState)
    (error : Option String)
    (now : ℚ) : Bool × Deliveries :=
  let hit (d : Delivery) : Bool := d.key = (lower repository, delivery) && d.state = source
  (t.rows.countP hit = 1, t.update ((Delivery.moved target error now).only hit))

def claim (t : Deliveries) (repository delivery : String) (now : ℚ) : Bool × Deliveries :=
  t.move repository delivery .ready .attempting none now

/-- False stands for the `RuntimeError` of a result that nothing is waiting for. -/
def finish (t : Deliveries) (repository delivery : String) (state : DeliveryState) (error : String)
    (now : ℚ) :
    Bool × Deliveries :=
  t.move repository delivery .attempting state (sliceTo error Queue.maxErrorChars) now

def rejectReady (t : Deliveries) (repository delivery reason : String) (now : ℚ) : Bool × Deliveries :=
  t.move repository delivery .ready .rejected (sliceTo reason Queue.maxErrorChars) now

def pending (t : Deliveries) (limit : Nat) : List Delivery :=
  ((t.rows.filter (·.state = .ready)).insertionSort (·.createdAt ≤ ·.createdAt)).take limit

def recover (t : Deliveries) (now : ℚ) : Deliveries :=
  t.update ((Delivery.moved .uncertain "broker stopped during dispatch" now).only (·.state = .attempting))

end Deliveries
end Cindral.Dispatch

import Cindral.Base.Script
import Cindral.Dispatch.Deliveries
import Cindral.Queue.Store
import Cindral.Routing.Policy

/-!
# Calls

Every call a request handler makes outside its own code: a transaction on one of the three tables, a
request to GitHub, a lock, a clock, or the response. `perform` answers one call in the state it is
made in, under what the environment chooses for it.
-/

namespace Cindral.Dispatch
open Base Routing
open Queue (CommitState EnqueueRequest Job QueueError)

structure RepositoryRunner where
  name : String
  status : String
  labels : List String
  busy : Bool := false
  deriving DecidableEq, Repr

/-- A runner held for a dispatch until a deadline. -/
structure Reservation where
  repository : String
  id : Nat
  expires : ℚ
  labels : List String
  deriving DecidableEq, Repr

inductive DispatchOutcome where
  | accepted
  | refused (statusCode : Nat) (detail : String)
  | unreachable (reason : String)
  | lost (text : String)
  deriving DecidableEq, Repr

def DispatchOutcome.raised : DispatchOutcome → Option Raised
  | accepted => none
  | refused statusCode detail =>
    some (.githubDispatchError s!"GitHub dispatch failed with HTTP {statusCode}: {detail}" statusCode)
  | unreachable reason => some (.githubDispatchError s!"GitHub dispatch failed: {reason}" none)
  | lost text => some (.other text)

/-- One request for a workflow run. `delivery` is history: the delivery it was made for, if any. -/
structure Request where
  delivery : Option (String × String)
  repository : String
  workflow : String
  ref : String
  inputs : List (String × String)
  deriving DecidableEq, Repr

inductive Call where
  -- GitHub
  | workflowExists (repository workflow : String)
  | dispatch (request : Request)
  | postStatus (repository sha : String) (state : CommitState) (description : String)
  | publishCheckRun (job : Job)
  | pullRequestMergeSha (repository : String) (number : Nat)
  | listRunners (repository : String)
  -- the delivery ledger
  | getDelivery (repository delivery : String)
  | register (repository delivery fingerprint workflow ref : String)
      (inputs : List (String × String)) (sha : String)
  | claimDelivery (repository delivery : String)
  | finish (repository delivery : String) (state : DeliveryState) (error : String)
  | rejectReady (repository delivery reason : String)
  | pending
  -- the metered ledger
  | countMetered
  | reserve (repository lane : String)
  | attributeHold (reservation : Nat) (repository workflow ref : String)
  | release (reservation : Nat)
  -- the queue
  | enqueue (request : EnqueueRequest)
  -- the process
  | quotaReading
  | lockBudget
  | unlockBudget
  | lockCapacity
  | unlockCapacity
  | monotonic
  | monotonicNs
  | expireReservations (repository : String) (now : ℚ)
  | reservations (repository : String)
  | reserveRunner (reservation : Reservation)
  | dropReservation (repository : String) (id : Nat)
  | send (status : Nat) (body : Json)

abbrev Ans : Call → Type
  | .workflowExists _ _ => Bool
  | .pullRequestMergeSha _ _ => Option (String × List String)
  | .listRunners _ => List RepositoryRunner
  | .getDelivery _ _ => Option Delivery
  | .register _ _ _ _ _ _ _ => Delivery
  | .claimDelivery _ _ | .rejectReady _ _ _ => Bool
  | .pending => List Delivery
  | .countMetered | .reserve _ _ => Nat
  | .enqueue _ => Job
  | .quotaReading => QuotaReading
  | .monotonic => ℚ
  | .monotonicNs => Nat
  | .reservations _ => List Reservation
  | .dispatch _ | .postStatus _ _ _ _ | .publishCheckRun _ | .finish _ _ _ _ | .attributeHold _ _ _
      _ | .release _
  | .lockBudget | .unlockBudget | .lockCapacity | .unlockCapacity | .expireReservations _ _ |
      .reserveRunner _
  | .dropReservation _ _ | .send _ _ => Unit

abbrev Program (α : Type) := Script Call Ans Raised α

/-- What the handlers of one broker share. The last two fields are history. -/
structure World where
  deliveries : Deliveries
  metered : MeteredLedger
  jobs : Queue.Store
  reservations : List Reservation
  budgetLock : Bool
  capacityLock : Bool
  sent : List (Request × DispatchOutcome)
  replies : List (Nat × Json)

/-- What the environment decides about one call: the clocks, a failure, and what GitHub answers. -/
structure Choice where
  now : ℚ := 0
  monotonic : ℚ := 0
  raised : Option Raised := none
  present : Bool := true
  outcome : DispatchOutcome := .accepted
  merge : Option (String × List String) := none
  runners : List RepositoryRunner := []
  reading : QuotaReading := ⟨quotaUnknown, none⟩
  fresh : String := ""
  ticket : Nat := 0

/-- The exceptions a call can end in without having had an effect. -/
def mayRaise : Call → Raised → Bool
  | .workflowExists _ _, e | .postStatus _ _ _ _, e | .pullRequestMergeSha _ _, e | .listRunners _, e =>
    match e with
    | .githubApiError _ | .other _ => true
    | _ => false
  | .dispatch _, e | .send _ _, e =>
    match e with
    | .other _ => true
    | _ => false
  | .getDelivery _ _, e | .register _ _ _ _ _ _ _, e | .claimDelivery _ _, e | .finish _ _ _ _, e
  | .rejectReady _ _ _, e | .pending, e | .countMetered, e | .reserve _ _, e | .attributeHold _ _ _
      _, e | .release _, e
  | .enqueue _, e =>
    match e with
    | .sqliteError _ => true
    | _ => false
  | .publishCheckRun _, _ | .quotaReading, _ | .lockBudget, _ | .unlockBudget, _ | .lockCapacity, _
  | .unlockCapacity, _ | .monotonic, _ | .monotonicNs, _ | .expireReservations _ _, _ | .reservations _, _
  | .reserveRunner _, _ | .dropReservation _ _, _ => false

/-- What `enqueue` raises for a refused insert. -/
def queueRaised : QueueError → Raised
  | .valueError text => .other text
  | .keyError id => .other id
  | .integrityError => .sqliteError "UNIQUE constraint failed"
  | .overflowError => .other "Python int too large to convert to SQLite INTEGER"

def take (held : Bool) (w : World) : Option (Except Raised Unit × World) :=
  if held then none else some (.ok (), w)

/-- The answer to a call that does not fail by itself. -/
def answer (k : Choice) (w : World) : (c : Call) → Option (Except Raised (Ans c) × World)
  | .workflowExists _ _ => some (.ok k.present, w)
  | .dispatch request =>
    some ((k.outcome.raised.elim (.ok ()) .error), { w with sent := w.sent ++ [(request, k.outcome)] })
  | .postStatus _ _ _ _ => some (.ok (), w)
  | .publishCheckRun _ => some (.ok (), w)
  | .pullRequestMergeSha _ _ => some (.ok k.merge, w)
  | .listRunners _ => some (.ok k.runners, w)
  | .getDelivery repository delivery => some (.ok (w.deliveries.get repository delivery), w)
  | .register repository delivery fingerprint workflow ref inputs sha =>
    let x := w.deliveries.register repository delivery fingerprint workflow ref inputs sha k.now
    some (.ok x.1, { w with deliveries := x.2 })
  | .claimDelivery repository delivery =>
    let x := w.deliveries.claim repository delivery k.now
    some (.ok x.1, { w with deliveries := x.2 })
  | .finish repository delivery state error =>
    if !state.terminal then some (.error (.other "invalid delivery result"), w)
    else
    let x := w.deliveries.finish repository delivery state error k.now
    some (if x.1 then .ok () else .error
      (.runtimeError "delivery attempt changed before its result was recorded"),
      { w with deliveries := x.2 })
  | .rejectReady repository delivery reason =>
    let x := w.deliveries.rejectReady repository delivery reason k.now
    some (.ok x.1, { w with deliveries := x.2 })
  | .pending => some (.ok (w.deliveries.pending 30), w)
  | .countMetered => some (.ok (w.metered.count (monthStart k.now) hostedLane), w)
  | .reserve repository lane =>
    let x := w.metered.reserve repository lane "" "" k.now
    some (.ok x.1, { w with metered := x.2 })
  | .attributeHold reservation repository workflow ref =>
    some (.ok (), { w with metered := w.metered.attributeHold reservation repository workflow ref })
  | .release reservation => some (.ok (), { w with metered := w.metered.release reservation })
  | .enqueue request =>
    match w.jobs.enqueue request k.fresh k.now with
    | .ok (job, jobs) => some (.ok job, { w with jobs := jobs })
    | .error e => some (.error (queueRaised e), w)
  | .quotaReading => some (.ok k.reading, w)
  | .lockBudget => take w.budgetLock { w with budgetLock := true }
  | .unlockBudget => some (.ok (), { w with budgetLock := false })
  | .lockCapacity => take w.capacityLock { w with capacityLock := true }
  | .unlockCapacity => some (.ok (), { w with capacityLock := false })
  | .monotonic => some (.ok k.monotonic, w)
  | .monotonicNs => some (.ok k.ticket, w)
  | .expireReservations repository now =>
    some (.ok (), { w with
      reservations := w.reservations.filter fun r => r.repository ≠ repository || now < r.expires })
  | .reservations repository => some (.ok (w.reservations.filter (·.repository = repository)), w)
  | .reserveRunner reservation =>
    some (.ok (), { w with
      reservations := (w.reservations.filter fun r =>
        ¬(r.repository = reservation.repository ∧ r.id = reservation.id)) ++ [reservation] })
  | .dropReservation repository id =>
    some (.ok (), { w with reservations := w.reservations.filter fun r =>
      ¬(r.repository = repository ∧ r.id = id) })
  | .send status body => some (.ok (), { w with replies := w.replies ++ [(status, body)] })

def perform (k : Choice) (w : World) (c : Call) : Option (Except Raised (Ans c) × World) :=
  match k.raised with
  | some e => if mayRaise c e then some (.error e, w) else none
  | none => answer k w c

def raise {α : Type} (e : Raised) : Program α := .fail e

abbrev ask (c : Call) : Program (Ans c) := Script.call c

def send (status : Nat) (body : List (String × Json)) : Program Unit := ask (.send status (.obj body))

def sendError (status : Nat) (text : String) : Program Unit := send status [("error", .str text)]

end Cindral.Dispatch

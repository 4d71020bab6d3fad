import Cindral.Dispatch.Frame
import Cindral.Dispatch.Webhook
import Cindral.Queue.Frame

/-!
# The calls of a push

What a push or a replay may call, put together from its parts: which rows it registers, which
requests it sends and which jobs it queues, and otherwise only plain calls.
-/

namespace Cindral.Dispatch
open Base Routing Script

/-- A call that neither asks GitHub for a run, nor registers a row, nor queues a job. -/
def Call.plain : Call → Prop
  | .dispatch _ | .register _ _ _ _ _ _ _ | .enqueue _ => False
  | _ => True

theorem sideline_plain {c : Call} (h : c.sideline) : c.plain := by
  cases c with
  | dispatch _ | register _ _ _ _ _ _ _ | enqueue _ => exact h.elim
  | _ => trivial

/-- What a handler calls beside the hold and the dispatch: it looks for the adapter, rejects a
delivery, and says so. -/
def Call.besides : Call → Prop
  | .workflowExists _ _ | .rejectReady _ _ _ => True
  | c => c.telling

theorem besides_plain {c : Call} (h : c.besides) : c.plain := by
  cases c with
  | dispatch _ | register _ _ _ _ _ _ _ | enqueue _ => exact h.elim
  | _ => trivial

theorem besides_unmetered {c : Call} (h : c.besides) : c.unmetered := by
  cases c with
  | reserve _ _ | release _ | attributeHold _ _ _ _ => exact h.elim
  | _ => trivial

theorem telling_besides {c : Call} (h : c.telling) : c.besides := by
  cases c with
  | workflowExists _ _ | rejectReady _ _ _ => trivial
  | _ => exact h

theorem telling_unmetered {c : Call} (h : c.telling) : c.unmetered := besides_unmetered (telling_besides h)

/-- What `_enqueue_direct` asks the queue for. -/
def directJob (server : Server) (header : Option String) (repository sha ref : String)
    (statusSha : Option String) :
    Queue.EnqueueRequest :=
  { repository := repository, sha := sha, ref := ref, timeout := server.jobTimeout
    delivery := header.bind fun id => if id = "" then none else some id, statusSha := statusSha }

/-- What the live path asks the queue for. -/
def pushJob (server : Server) (header : Option String) (event : PushEvent) : Queue.EnqueueRequest :=
  directJob server header event.repository event.after event.branch none

/-- What `hand_off` asks the queue for. -/
def replayJob (record : Delivery) : Queue.EnqueueRequest :=
  { repository := record.repository, sha := record.sha, ref := record.ref }

theorem only_reserveFor (p : Policy) (inputs : List (String × String)) :
    (reserveFor p inputs).Only Call.sideline := by
  unfold reserveFor
  split
  · exact only_mono (only_reserveMetered p (.finite 0)) fun _ => metering_sideline
  · trivial

theorem only_giveBack {server : Server} (decision : RouteDecision) (reservation : Option (String × Nat)) :
    (giveBack server decision reservation).Only Call.sideline :=
  only_bind (only_dropRunner _) fun _ => aside_only (fun _ h => h)
  (only_releaseReservation mute_aside _ _)

/-! ## Pull requests -/

theorem only_resolveRunSha {free : Call → Prop} {server : Server} {event : PullRequestEvent}
    (asks : free (.pullRequestMergeSha event.repository event.number)) :
    (resolveRunSha server event).Only free := by
  unfold resolveRunSha
  split
  · trivial
  · refine only_bind (only_attempt (only_call asks)) fun outcome => ?_
    split <;> trivial

theorem tells_pullRequestStatus {free : Call → Prop} (telling : ∀ c, c.telling → free c)
    {server : Server} {event : PullRequestEvent} {state : Queue.CommitState} {description : String} :
    (postPullRequestStatus server event state description).Only free := by
  unfold postPullRequestStatus
  split
  · trivial
  · exact tells_postQuietly telling _ _ _ _

theorem only_pullRequestStatus {server : Server} {event : PullRequestEvent}
    {state : Queue.CommitState} {description : String} :
    (postPullRequestStatus server event state description).Only Call.aside :=
  tells_pullRequestStatus telling_aside

theorem only_answerPullRequest {server : Server} {delivery : Option String}
    {event : PullRequestEvent} (d : RouteDecision)
    (posted : Bool) (outcome : Except Raised Unit) :
    (answerPullRequest server delivery event d posted outcome).Only Call.aside := by
  unfold answerPullRequest
  split
  · exact only_bind (only_releaseReservation mute_aside _ _) fun _ =>
      only_bind only_pullRequestStatus fun _ => only_sendError _ _
  · exact only_bind only_pullRequestStatus fun _ => only_sendError _ _
  · exact only_bind (only_nameHold mute_aside _ _ _ _ _) fun _ => only_send _ _

/-! ## Pushes -/

section Parts
variable {server : Server} {free : Call → Prop} (plain : ∀ c, c.plain → free c)
include plain

theorem sidelined (c : Call) (h : c.sideline) : free c := plain c (sideline_plain h)

omit plain in
theorem only_enqueueDirect (telling : ∀ c, c.telling → free c) {header : Option String}
    {repository sha ref : String}
    {statusSha : Option String}
    (queues : free (.enqueue (directJob server header repository sha ref statusSha)))
    (extra : List (String × Json)) :
    (enqueueDirect server header repository sha ref statusSha extra).Only free := by
  unfold enqueueDirect
  split
  · exact tells_sendError telling _ _
  · split
    · trivial
    · refine only_bind (only_call queues) fun job => only_bind ?_ fun _ =>
        only_bind (tells_postIf telling _ _ _ _ _) fun _ => tells_send telling _ _
      unfold publishQuietly
      split
      · exact only_call (telling _ trivial)
      · trivial

omit plain in
theorem only_adapterAbsent (telling : ∀ c, c.telling → free c) {event : PushEvent}
    {workflow reason : String} {fallback : Option (Program Unit)}
    (spare : ∀ enqueue ∈ fallback, enqueue.Only free) :
    (adapterAbsent server event workflow reason fallback).Only free := by
  unfold adapterAbsent
  simp only
  split
  · rename_i enqueue chosen
    split at chosen
    · exact spare enqueue chosen
    · cases chosen
  · exact only_bind (tells_postIf telling _ _ _ _ _) fun _ => tells_send telling _ _

omit plain in
theorem only_checkAdapter (beside : ∀ c, c.besides → free c) {event : PushEvent}
    {existing : Delivery} {delivery : String} {fallback : Option (Program Unit)}
    (spare : ∀ enqueue ∈ fallback, enqueue.Only free) :
    (checkAdapter server event existing delivery fallback).Only free := by
  refine only_bind (only_call (beside _ trivial)) fun found => ?_
  split
  · trivial
  · refine only_bind (only_call (beside _ trivial)) fun rejected => ?_
    split
    · exact only_bind (only_adapterAbsent (fun c h => beside c (telling_besides h)) spare) fun _ => trivial
    · trivial

theorem only_decidePush {event : PushEvent} {fallback : Option (Program Unit)}
    (spare : ∀ enqueue ∈ fallback, enqueue.Only free) :
    (decidePush server event fallback).Only free := by
  refine only_bind (only_call (plain _ trivial)) fun found => ?_
  split
  · exact only_bind (only_mono (only_dispatchDecision _ _ _ _) (sidelined plain)) fun _ => trivial
  · exact only_bind (only_adapterAbsent (fun c h => sidelined plain c (telling_aside c h).1) spare)
      fun _ => trivial

theorem only_answerPush {header : Option String} {event : PushEvent} {branch delivery : String}
    {fallback : Option (Program Unit)} (spare : ∀ enqueue ∈ fallback, enqueue.Only free)
    (decision : RouteDecision)
    (reservation : Option (String × Nat)) (record : Delivery) (handled : Handled × String) :
    (answerPush server header event branch delivery fallback decision reservation record
    handled).Only free := by
  unfold answerPush
  split
  · exact only_bind (only_mono (only_giveBack _ _) (sidelined plain)) fun _ =>
      aside_only (sidelined plain) (only_send _ _)
  · split
    · exact only_bind (only_mono (only_dropRunner _) (sidelined plain)) fun _ =>
        aside_only (sidelined plain) (only_send _ _)
    · exact aside_only (sidelined plain) (only_send _ _)
  · refine only_bind (only_mono (only_dropRunner _) (sidelined plain)) fun _ => ?_
    split
    · rename_i enqueue chosen
      split at chosen
      · exact spare enqueue chosen
      · cases chosen
    · exact aside_only (sidelined plain) (only_send _ _)

theorem only_finishRecord (record : Delivery) (state : DeliveryState) (error : String) :
    (finishRecord record state error).Only free := by
  refine only_bind (only_attempt (only_call (plain _ trivial))) fun outcome => ?_
  split
  · trivial
  · trivial
  · trivial
  · trivial

theorem only_recordOutcome (record : Delivery) (ledger : Bool) (reservation : Option Nat)
    (outcome : Except Raised Unit) :
    (recordOutcome record ledger reservation outcome).Only free := by
  unfold recordOutcome
  split
  · exact only_bind (aside_only (sidelined plain) (only_releaseIf mute_aside _ _ _)) fun _ =>
      only_finishRecord plain _ _ _
  · exact only_bind (only_finishRecord plain _ _ _) fun _ =>
      only_bind (aside_only (sidelined plain) (only_releaseIf mute_aside _ _ _)) fun _ => only_done _
  · exact only_bind (aside_only (sidelined plain) (only_nameHold mute_aside _ _ _ _ _)) fun _ =>
      only_finishRecord plain _ _ _

omit plain in
theorem only_handOff {record : Delivery} (hands : free (.enqueue (replayJob record))) :
    (handOff server record).Only free := by
  unfold handOff
  split
  · trivial
  · split
    · trivial
    · split
      · trivial
      · exact only_bind (only_call hands) fun _ => trivial

omit plain in
theorem only_rejectAndHandOff (beside : ∀ c, c.besides → free c) {record : Delivery}
    (hands : free (.enqueue (replayJob record))) (reason : String) :
    (rejectAndHandOff server record reason).Only free := by
  refine only_bind (only_call (beside _ trivial)) fun rejected => ?_
  split
  · exact only_handOff hands
  · trivial

theorem only_replayHold {record : Delivery} (hands : free (.enqueue (replayJob record))) :
    (replayHold server record).Only free := by
  unfold replayHold
  split
  · exact only_bind (only_rejectAndHandOff (fun c h => plain c (besides_plain h)) hands _) fun _ => trivial
  · refine only_bind (only_call (plain _ trivial)) fun found => ?_
    split
    · exact only_bind (only_mono (only_reserveFor _ _) (sidelined plain)) fun _ => trivial
    · exact only_bind (only_rejectAndHandOff (fun c h => plain c (besides_plain h)) hands _) fun _ => trivial

theorem only_dispatchRecord {record : Delivery} (sends : free (.dispatch (requestOf record)))
    (ledger : Bool)
    (reservation : Option Nat) : (dispatchRecord record ledger reservation).Only free := by
  refine only_bind (only_call (plain _ trivial)) fun claimed => ?_
  split
  · exact only_bind (only_attempt (only_call sends)) fun outcome => only_recordOutcome plain _ _ _ _
  · refine only_bind (aside_only (sidelined plain) (only_releaseReservation mute_aside _ _)) fun _ => ?_
    refine only_bind (only_call (plain _ trivial)) fun current => ?_
    split
    · trivial
    · split <;> trivial

theorem only_replayRecord {record : Delivery} (sends : free (.dispatch (requestOf record)))
    (hands : free (.enqueue (replayJob record))) : (replayRecord server record).Only free := by
  refine only_bind (only_attempt (only_replayHold plain hands)) fun begun => ?_
  split
  · trivial
  · trivial
  · refine only_bind (only_attempt (only_bind (only_dispatchRecord plain sends _ _) fun _ => ?_))
      fun outcome => ?_
    · simp only
      split
      · exact only_handOff hands
      · trivial
    · split
      · trivial
      · exact aside_only (sidelined plain) (only_releaseReservation mute_aside _ _)

section Push
variable {event : PushEvent} {fallback : Option (Program Unit)} {delivery : String}
  (spare : ∀ enqueue ∈ fallback, enqueue.Only free)
  (sends : ∀ record, free (.dispatch (requestOf record)))
include spare sends

theorem only_dispatchExisting (existing : Delivery) :
    (dispatchExisting server event existing delivery fallback).Only free := by
  refine only_bind (only_mono (only_reserveFor _ _) (sidelined plain)) fun ⟨hold, refusal⟩ => ?_
  simp only
  split
  · exact aside_only (sidelined plain) (only_send _ _)
  · refine only_bind (only_attempt (only_dispatchRecord plain (sends existing) _ _)) fun handled => ?_
    split
    · exact only_bind (aside_only (sidelined plain) (only_releaseReservation mute_aside _ _))
        fun _ => aside_only (sidelined plain) (only_sendError _ _)
    · trivial
    · split
      · rename_i enqueue chosen
        split at chosen
        · exact spare enqueue chosen
        · cases chosen
      · exact aside_only (sidelined plain) (only_send _ _)

theorem only_redeliver (existing : Delivery) :
    (redeliver server event existing delivery fallback).Only free := by
  refine only_bind (only_attempt (only_checkAdapter (fun c h => plain c (besides_plain h)) spare)) fun checked => ?_
  split
  · exact aside_only (sidelined plain) (only_sendError _ _)
  · exact aside_only (sidelined plain) (only_sendError _ _)
  · trivial
  · trivial
  · exact only_dispatchExisting plain spare sends existing

variable {header : Option String} {fingerprint branch : String}
  (registers : ∀ inputs, free (.register event.repository delivery fingerprint server.workflowFile
  branch inputs event.after))
include registers

theorem only_registerPush (decision : RouteDecision) (reservation : Option (String × Nat)) :
    (registerPush server header fingerprint event branch delivery fallback decision
    reservation).Only free := by
  refine only_bind (only_attempt (only_call (registers _))) fun registered => ?_
  split
  · exact only_bind (only_mono (only_giveBack _ _) (sidelined plain)) fun _ =>
      aside_only (sidelined plain) (only_sendError _ _)
  · trivial
  · rename_i record
    split
    · exact only_bind (only_mono (only_giveBack _ _) (sidelined plain)) fun _ =>
        aside_only (sidelined plain) (only_sendError _ _)
    · refine only_bind (only_attempt (only_dispatchRecord plain (sends record) _ _)) fun handled => ?_
      split
      · exact only_bind (only_mono (only_giveBack _ _) (sidelined plain)) fun _ =>
          aside_only (sidelined plain) (only_sendError _ _)
      · trivial
      · exact only_answerPush plain spare _ _ _ _

theorem only_firstDelivery :
    (firstDelivery server header fingerprint event branch delivery fallback).Only free := by
  unfold firstDelivery
  split
  · exact aside_only (sidelined plain) (only_sendError _ _)
  · refine only_bind (only_attempt (only_decidePush plain spare)) fun decided => ?_
    split
    · exact aside_only (sidelined plain) (only_sendError _ _)
    · exact aside_only (sidelined plain) (only_sendError _ _)
    · trivial
    · trivial
    · exact only_registerPush plain spare sends registers _ _

end Push

section Webhook
variable {event : PushEvent} {header : Option String} {fingerprint : String}
  (sends : ∀ record, free (.dispatch (requestOf record)))
  (registers : ∀ inputs, free (.register event.repository (deliveryId header fingerprint)
    fingerprint server.workflowFile
    event.branch inputs event.after))
include sends registers

theorem only_dispatchPush {fallback : Option (Program Unit)}
    (spare : ∀ enqueue ∈ fallback, enqueue.Only free) :
    (dispatchPush server header fingerprint event event.branch fallback).Only free := by
  unfold dispatchPush
  split
  · exact aside_only (sidelined plain) (only_sendError _ _)
  split
  · exact aside_only (sidelined plain) (only_sendError _ _)
  refine only_bind (only_attempt (only_call (plain _ trivial))) fun known => ?_
  unfold answerLookup
  split
  · exact aside_only (sidelined plain) (only_sendError _ _)
  · trivial
  unfold answerKnown
  simp only
  split
  · exact only_firstDelivery plain spare sends registers
  · split
    · exact aside_only (sidelined plain) (only_sendError _ _)
    split
    · exact only_redeliver plain spare sends _
    split
    · exact aside_only (sidelined plain) (only_send _ _)
    · exact only_firstDelivery plain spare sends registers

theorem only_handlePush (queues : free (.enqueue (pushJob server header event))) :
    (handlePush server header fingerprint event).Only free := by
  have direct : (enqueueDirect server header event.repository event.after event.branch none []).Only
      free :=
    only_enqueueDirect (fun c h => sidelined plain c (telling_aside c h).1) queues []
  have some_spare :
      ∀ enqueue ∈ some (enqueueDirect server header event.repository event.after event.branch
      none []),
      enqueue.Only free := fun enqueue member => Option.some.inj member ▸ direct
  unfold handlePush
  simp only
  split
  · exact direct
  · exact only_dispatchPush plain sends registers some_spare
  · exact only_dispatchPush plain sends registers (by rintro _ ⟨⟩)

end Webhook
end Parts

/-! ## The jobs they add -/

def Added (before after : World) (row : Queue.Row) : Prop :=
  row ∈ after.jobs.jobs.rows ∧ row ∉ before.jobs.jobs.rows

/-- A call that queues no job but the one. -/
def Call.queuing (job : Queue.EnqueueRequest) : Call → Prop
  | .enqueue request => request = job
  | _ => True

theorem unqueued_queuing {job : Queue.EnqueueRequest} {c : Call} (h : c.unqueued) : c.queuing job := by
  cases c with
  | enqueue _ => exact h.elim
  | _ => trivial

theorem enqueue_integer {store store' : Queue.Store} {request : Queue.EnqueueRequest}
    {jobId : String} {now : ℚ}
    {job : Queue.Job} (h : store.enqueue request jobId now = .ok (job, store')) :
    Queue.Store.integer request.timeout = true := by
  unfold Queue.Store.enqueue at h
  split at h
  · cases h
  split at h
  · cases h
  · rename_i fits
    simpa using fits

section Added
variable {κ α : Type} {choose : κ → Choice} {s : Program α} {w w' : World} {x : Except Raised α}
    {row : Queue.Row}
  {job : Queue.EnqueueRequest}

theorem ran_unqueued (only : s.Only Call.unqueued) (ran : Ran (fun k => perform (choose k)) s w x w') :
    w'.jobs = w.jobs := by
  refine ran_only (I := fun v => v.jobs = w.jobs) (fun k v c r v' free same taken => ?_) only rfl ran
  exact (unqueued_keeps taken free).trans same

theorem added_unqueued (only : s.Only Call.unqueued) (ran : Ran (fun k => perform (choose k)) s w x w') :
    ¬Added w w' row := fun added => added.2 (ran_unqueued only ran ▸ added.1)

/-- A queue call adds one job at most, the one it asks for. -/
theorem enqueue_adds {k : Choice} {x : Except Raised Queue.Job}
    (queued : perform k w (.enqueue job) = some (x, w'))
    (added : Added w w' row) : Queue.Store.integer job.timeout = true ∧ row = job.row k.fresh k.now := by
  rcases perform_cases queued with ⟨e, -, -, -, rfl⟩ | ⟨-, answered⟩
  · exact absurd added.1 added.2
  · simp only [answer] at answered
    cases inserted : w.jobs.enqueue job k.fresh k.now with
    | error e =>
      rw [inserted] at answered
      obtain ⟨-, rfl⟩ := Prod.mk.inj (Option.some.inj answered)
      exact absurd added.1 added.2
    | ok queue =>
      obtain ⟨queued, jobs⟩ := queue
      rw [inserted] at answered
      obtain ⟨-, rfl⟩ := Prod.mk.inj (Option.some.inj answered)
      rcases Queue.Store.enqueue_rows inserted with ⟨-, -, rows⟩ | ⟨same, -⟩
      · have member := added.1
        simp only [rows, List.mem_append, List.mem_singleton] at member
        exact ⟨enqueue_integer inserted, member.resolve_left added.2⟩
      · rw [Added, same] at added
        exact absurd added.1 added.2

variable (choose) in
/-- A script that queues no job but the one adds no other. -/
theorem added_queued (only : s.Only (Call.queuing job)) (ran : Ran (fun k => perform (choose k)) s w x w')
    (added : Added w w' row) : Queue.Store.integer job.timeout = true ∧ ∃ jobId now,
    row = job.row jobId now := by
  have every : ∀ row, Added w w' row →
      Queue.Store.integer job.timeout = true ∧ ∃ jobId now, row = job.row jobId now := by
    refine ran_only (I := fun v => ∀ row, Added w v row → Queue.Store.integer job.timeout = true ∧
      ∃ jobId now, row = job.row jobId now) (fun k v c r v' free before taken row added => ?_) only
      (fun row added => absurd added.1 added.2) ran
    by_cases known : row ∈ v.jobs.jobs.rows
    · exact before row ⟨known, added.2⟩
    · cases c with
      | enqueue request =>
        obtain rfl : request = job := free
        obtain ⟨timeout, same⟩ := enqueue_adds taken ⟨added.1, known⟩
        exact ⟨timeout, _, _, same⟩
      | _ => exact absurd (unqueued_keeps taken trivial ▸ added.1) known
  exact every row added

end Added
end Cindral.Dispatch

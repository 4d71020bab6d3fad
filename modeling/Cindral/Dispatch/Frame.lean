import Cindral.Dispatch.Capacity

/-!
# What most calls leave alone

A sideline call neither asks GitHub for a run, nor queues a device job, nor writes the delivery
ledger. A prompt one never waits for another thread. The handlers' helpers make no other calls, so
they move nothing the results about dispatches speak of.
-/

namespace Cindral.Dispatch
open Base Routing
open Queue (CommitState)

def Call.sideline : Call → Prop
  | .dispatch _ | .enqueue _ | .getDelivery _ _ | .register _ _ _ _ _ _ _ | .claimDelivery _ _ |
      .finish _ _ _ _
  | .rejectReady _ _ _ | .pending => False
  | _ => True

/-- What the choice of a lane may call. -/
def Call.metering : Call → Prop
  | .quotaReading | .countMetered | .reserve _ _ | .release _ | .lockBudget | .unlockBudget => True
  | _ => False

theorem metering_sideline {c : Call} (h : c.metering) : c.sideline := by
  cases c with
  | quotaReading | countMetered | reserve _ _ | release _ | lockBudget | unlockBudget => trivial
  | _ => exact h.elim

def Call.prompt : Call → Prop
  | .lockBudget | .lockCapacity => False
  | _ => True

variable {k : Choice} {w w' : World} {c : Call} {r : Except Raised (Ans c)}

theorem perform_cases (h : perform k w c = some (r, w')) :
    (∃ e, k.raised = some e ∧ mayRaise c e ∧ r = .error e ∧ w' = w) ∨
    (k.raised = none ∧ answer k w c = some (r, w')) := by
  unfold perform at h
  split at h
  · rename_i e raised
    split at h
    · rename_i possible
      obtain ⟨rfl, rfl⟩ := Prod.mk.inj (Option.some.inj h)
      exact Or.inl ⟨e, raised, possible, rfl, rfl⟩
    · cases h
  · rename_i quiet
    exact Or.inr ⟨quiet, h⟩

theorem take_world {held : Bool} {x : Except Raised Unit × World} (h : take held w = some x) :
    x.2 = w := by
  unfold take at h
  split at h
  · cases h
  · obtain rfl := Option.some.inj h; rfl

theorem sideline_keeps (h : perform k w c = some (r, w')) (side : c.sideline) :
    w'.sent = w.sent ∧ w'.jobs = w.jobs ∧ w'.deliveries = w.deliveries := by
  rcases perform_cases h with ⟨e, _, _, _, rfl⟩ | ⟨_, answered⟩
  · exact ⟨rfl, rfl, rfl⟩
  · cases c with
    | dispatch _ | enqueue _ | getDelivery _ _ | register _ _ _ _ _ _ _ | claimDelivery _ _ | finish _ _ _ _
    | rejectReady _ _ _ | pending => exact side.elim
    | lockBudget | lockCapacity =>
      have same := take_world answered
      subst same
      exact ⟨rfl, rfl, rfl⟩
    | _ =>
      obtain ⟨-, rfl⟩ := Prod.mk.inj (Option.some.inj answered)
      exact ⟨rfl, rfl, rfl⟩

def Call.unqueued : Call → Prop
  | .enqueue _ => False
  | _ => True

theorem sideline_unqueued {c : Call} (h : c.sideline) : c.unqueued := by
  cases c with
  | enqueue _ => exact h.elim
  | _ => trivial

theorem unqueued_keeps (h : perform k w c = some (r, w')) (free : c.unqueued) : w'.jobs = w.jobs := by
  rcases perform_cases h with ⟨e, _, _, _, rfl⟩ | ⟨_, answered⟩
  · rfl
  · cases c with
    | enqueue _ => exact free.elim
    | finish repository delivery state error =>
      simp only [answer] at answered
      split at answered
      · obtain ⟨-, rfl⟩ := Prod.mk.inj (Option.some.inj answered)
        rfl
      · obtain ⟨-, rfl⟩ := Prod.mk.inj (Option.some.inj answered)
        rfl
    | dispatch _ | getDelivery _ _ | register _ _ _ _ _ _ _ | claimDelivery _ _ | rejectReady _ _ _ | pending =>
      obtain ⟨-, rfl⟩ := Prod.mk.inj (Option.some.inj answered)
      rfl
    | _ => exact (sideline_keeps h trivial).2.1

def Call.unmetered : Call → Prop
  | .reserve _ _ | .release _ | .attributeHold _ _ _ _ => False
  | _ => True

theorem unmetered_keeps {k : Choice} {c : Call} {r : Except Raised (Ans c)} {v : World}
    (performed : perform k w c = some (r, v)) (un : c.unmetered) : v.metered = w.metered := by
  rcases perform_cases performed with ⟨_, _, _, _, rfl⟩ | ⟨_, answered⟩
  · rfl
  · cases c with
    | reserve _ _ | release _ | attributeHold _ _ _ _ => exact un.elim
    | lockBudget | lockCapacity =>
      simp only [answer, take] at answered
      split at answered
      · cases answered
      · obtain ⟨-, rfl⟩ := Prod.mk.inj (Option.some.inj answered)
        rfl
    | enqueue _ =>
      simp only [answer] at answered
      split at answered
      · obtain ⟨-, rfl⟩ := Prod.mk.inj (Option.some.inj answered)
        rfl
      · obtain ⟨-, rfl⟩ := Prod.mk.inj (Option.some.inj answered)
        rfl
    | finish _ _ _ _ =>
      simp only [answer] at answered
      split at answered
      · obtain ⟨-, rfl⟩ := Prod.mk.inj (Option.some.inj answered)
        rfl
      · obtain ⟨-, rfl⟩ := Prod.mk.inj (Option.some.inj answered)
        rfl
    | _ =>
      obtain ⟨-, rfl⟩ := Prod.mk.inj (Option.some.inj answered)
      rfl

/-- An environment that makes a call fail only in ways the call can. -/
structure Environment where
  choice : Call → Choice
  possible : ∀ c e, (choice c).raised = some e → mayRaise c e

/-- One call of a handler that runs alone. -/
def Environment.step (env : Environment) (w : World) (c : Call) :
    Option (Except Raised (Ans c) × World) :=
  perform (env.choice c) w c

theorem prompt_answered (env : Environment) (w : World) (c : Call) (prompt : c.prompt) :
    ∃ x, env.step w c = some x := by
  unfold Environment.step perform
  split
  · rename_i e raised
    exact ⟨_, if_pos (env.possible c e raised)⟩
  · cases c with
    | lockBudget | lockCapacity => exact prompt.elim
    | enqueue _ | finish _ _ _ _ =>
      simp only [answer]
      split
      · exact ⟨_, rfl⟩
      · exact ⟨_, rfl⟩
    | _ => exact ⟨_, rfl⟩

/-- A sideline call that does not wait. -/
def Call.aside (c : Call) : Prop := c.sideline ∧ c.prompt

/-- What a handler says, to whoever asked or on a commit. -/
def Call.telling : Call → Prop
  | .postStatus _ _ _ _ | .publishCheckRun _ | .send _ _ => True
  | _ => False

theorem telling_aside (c : Call) (h : c.telling) : c.aside := by
  cases c with
  | postStatus _ _ _ _ | publishCheckRun _ | send _ _ => exact ⟨trivial, trivial⟩
  | _ => exact h.elim

def Call.mute : Call → Prop
  | .release _ | .attributeHold _ _ _ _ => True
  | _ => False

theorem mute_aside (c : Call) (h : c.mute) : c.aside := by
  cases c with
  | release _ | attributeHold _ _ _ _ => exact ⟨trivial, trivial⟩
  | _ => exact h.elim

section Helpers
open Script

theorem aside_only {α : Type} {s : Program α} {free : Call → Prop} (side : ∀ c, c.sideline → free c)
    (only : s.Only Call.aside) :
    s.Only free := only_mono only fun c h => side c h.1

section Tells
variable {free : Call → Prop} (telling : ∀ c, c.telling → free c)
include telling

theorem tells_send (status : Nat) (body : List (String × Json)) : (send status body).Only free :=
  only_call (telling _ trivial)

theorem tells_sendError (status : Nat) (text : String) : (sendError status text).Only free :=
  tells_send telling status _

theorem tells_postQuietly (repository sha : String) (state : CommitState) (description : String) :
    (postQuietly repository sha state description).Only free := by
  unfold postQuietly
  refine only_bind (only_attempt (only_call (telling _ trivial))) fun outcome => ?_
  split
  · trivial
  · trivial
  · trivial

theorem tells_postIf (able : Bool) (repository sha : String) (state : CommitState)
    (description : String) : (postIf able repository sha state description).Only free := by
  unfold postIf
  split
  · exact tells_postQuietly telling _ _ _ _
  · trivial

end Tells

theorem only_send (status : Nat) (body : List (String × Json)) : (send status body).Only Call.aside :=
  tells_send telling_aside status body

theorem only_sendError (status : Nat) (text : String) : (sendError status text).Only Call.aside :=
  tells_sendError telling_aside status text

theorem only_postIf (able : Bool) (repository sha : String) (state : CommitState) (description : String) :
    (postIf able repository sha state description).Only Call.aside :=
  tells_postIf telling_aside able repository sha state description

theorem only_releaseHold (p : Policy) (reservation : Option Nat) :
    (releaseHold p reservation).Only Call.metering := by
  unfold releaseHold
  split
  · trivial
  · split
    · exact only_call trivial
    · trivial

theorem only_nameHold_of {free : Call → Prop} {repository workflow ref : String}
    (names : ∀ id, free (.attributeHold id repository workflow ref)) (ledger : Bool)
    (reservation : Option Nat) : (nameHold ledger reservation repository workflow ref).Only free := by
  unfold nameHold
  split
  · trivial
  · split
    · exact only_bind (only_attempt (only_call (names _))) fun _ => trivial
    · trivial

section Holds
variable {free : Call → Prop} (mute : ∀ c, c.mute → free c)
include mute

theorem only_releaseReservation (ledger : Bool) (reservation : Option Nat) :
    (releaseReservation ledger reservation).Only free := by
  unfold releaseReservation
  split
  · trivial
  · split
    · exact only_bind (only_attempt (only_call (mute _ trivial))) fun _ => trivial
    · trivial

theorem only_releaseIf (definite ledger : Bool) (reservation : Option Nat) :
    (releaseIf definite ledger reservation).Only free := by
  unfold releaseIf
  split
  · exact only_releaseReservation mute _ _
  · trivial

theorem only_nameHold (ledger : Bool) (reservation : Option Nat) (repository workflow ref : String) :
    (nameHold ledger reservation repository workflow ref).Only free :=
  only_nameHold_of (fun _ => mute _ trivial) ledger reservation

end Holds

theorem only_spentMinutes (p : Policy) : (spentMinutes p).Only Call.metering :=
  only_bind (only_call trivial) fun _ => trivial

theorem only_holding {α : Type} {free : Call → Prop} {lock unlock : Call} {body : Program α}
    (taken : free lock)
    (given : free unlock) (h : body.Only free) : (holding lock unlock body).Only free :=
  only_bind (only_call taken) fun _ => only_bind (only_attempt h) fun _ =>
  only_bind (only_call given) fun _ =>
    only_lift _

theorem only_reserveUnder (p : Policy) (budget : ℚ) (estimated : Double) :
    (reserveUnder p budget estimated).Only Call.metering := by
  refine only_bind (only_spentMinutes p) fun used => ?_
  split
  · trivial
  · exact only_bind (only_call trivial) fun _ => trivial

theorem only_reserveMetered (p : Policy) (estimated : Double) :
    (reserveMetered p estimated).Only Call.metering := by
  unfold reserveMetered
  split
  · trivial
  · split
    · trivial
    · split
      · refine only_bind (only_bind (only_spentMinutes p) fun used => ?_) fun _ => trivial
        split
        · trivial
        · trivial
      · exact only_holding trivial trivial (only_reserveUnder p _ estimated)

theorem only_chooseHeld (p : Policy) (request : RouteRequest) (runners : List Runner) :
    (chooseHeld p request runners).Only Call.metering := by
  refine only_bind (only_reserveMetered p _) fun ⟨reservation, refusal⟩ => ?_
  simp only
  split
  · exact only_lift _
  · split
    · exact only_bind (only_releaseHold p reservation) fun _ => trivial
    · split
      · trivial
      · exact only_bind (only_releaseHold p reservation) fun _ => trivial

theorem only_choose (p : Policy) (request : RouteRequest) (runners : List Runner) :
    (choose p request runners).Only Call.metering := by
  unfold choose
  split
  · exact only_bind (only_call trivial) fun _ => only_chooseHeld p _ runners
  · exact only_chooseHeld p request runners

theorem only_chooseWebhookLane (p : Policy) (request : RouteRequest) (runners : List Runner)
    (allowBusy : Bool) :
    (chooseWebhookLane p request runners allowBusy).Only Call.metering := by
  unfold chooseWebhookLane
  refine only_bind (only_attempt (only_choose _ _ _)) fun outcome => ?_
  split
  · trivial
  · split
    · trivial
    · exact only_bind (only_choose _ _ _) fun _ => trivial
  · trivial

theorem only_decideUnderCapacity (server : Server) (request : RouteRequest) (repository : String)
    (allowBusy : Bool)
    (runners : List RepositoryRunner) (now : ℚ) :
    (decideUnderCapacity server request repository allowBusy runners now).Only Call.sideline := by
  refine only_bind (only_call trivial) fun _ =>
    only_bind (only_mono (only_chooseWebhookLane _ _ _ _) fun _ => metering_sideline) fun decision => ?_
  refine only_bind (only_call trivial) fun held => ?_
  simp only
  split
  · trivial
  · split
    · exact only_bind (only_call trivial) fun id => only_bind (only_call trivial) fun _ => trivial
    · trivial

theorem only_dispatchDecision (server : Server) (request : RouteRequest) (repository : String)
    (allowBusy : Bool) :
    (dispatchDecision server request repository allowBusy).Only Call.sideline := by
  refine only_bind (only_attempt (only_mono (only_choose _ _ _) fun _ => metering_sideline))
    fun outcome => ?_
  split
  · trivial
  · split
    · trivial
    · refine only_bind (only_call trivial) fun runners => only_bind (only_call trivial) fun now => ?_
      exact only_holding trivial trivial (only_decideUnderCapacity _ _ _ _ _ _)
  · trivial

theorem only_dropRunner_of {free : Call → Prop} (taken : free .lockCapacity) (given : free .unlockCapacity)
    (drops : ∀ repository id, free (.dropReservation repository id))
    (reservation : Option (String × Nat)) : (dropRunner reservation).Only free := by
  unfold dropRunner
  split
  · trivial
  · exact only_holding taken given (only_call (drops _ _))

theorem only_dropRunner (reservation : Option (String × Nat)) :
    (dropRunner reservation).Only Call.sideline :=
  only_dropRunner_of trivial trivial (fun _ _ => trivial) reservation

end Helpers
end Cindral.Dispatch

import Cindral.Dispatch.Parts
import Cindral.Dispatch.Site

/-!
# When a delivery's request may go out

A thread sends the request of a ledger row only after it has read that row and won its claim, and a
claim pays for one request. Every handler keeps to this whatever its calls are answered.
-/

namespace Cindral.Dispatch
open Base Routing Script

/-- What a thread has learnt: the rows it has read, and the claim it has won and not yet used. -/
structure Told where
  seen : List Delivery := []
  won : Option (String × String) := none

/-- A call that is not a request for a delivery. -/
def Call.undelivered : Call → Prop
  | .dispatch request => request.delivery = none
  | _ => True

/-- A call that asks GitHub for no run at all. -/
def Call.undispatched : Call → Prop
  | .dispatch _ => False
  | _ => True

theorem undispatched_sends {k : Choice} {w w' : World} {c : Call} {r : Except Raised (Ans c)}
    (performed : perform k w c = some (r, w')) (quiet : c.undispatched) : w'.sent = w.sent := by
  rcases perform_cases performed with ⟨e, _, _, _, rfl⟩ | ⟨_, answered⟩
  · rfl
  · cases c with
    | dispatch _ => exact quiet.elim
    | finish repository delivery state error =>
      simp only [answer] at answered
      split at answered
      · obtain ⟨-, rfl⟩ := Prod.mk.inj (Option.some.inj answered)
        rfl
      · obtain ⟨-, rfl⟩ := Prod.mk.inj (Option.some.inj answered)
        rfl
    | enqueue request =>
      simp only [answer] at answered
      split at answered
      · obtain ⟨-, rfl⟩ := Prod.mk.inj (Option.some.inj answered)
        rfl
      · obtain ⟨-, rfl⟩ := Prod.mk.inj (Option.some.inj answered)
        rfl
    | getDelivery _ _ | register _ _ _ _ _ _ _ | claimDelivery _ _ | rejectReady _ _ _ | pending =>
      obtain ⟨-, rfl⟩ := Prod.mk.inj (Option.some.inj answered)
      rfl
    | _ => exact (sideline_keeps performed trivial).1

/-- What went out stays on record. -/
theorem sent_grows {k : Choice} {w w' : World} {c : Call} {r : Except Raised (Ans c)}
    (performed : perform k w c = some (r, w')) :
    w.sent <+: w'.sent := by
  cases c with
  | dispatch request =>
    rcases perform_cases performed with ⟨e, _, _, _, rfl⟩ | ⟨_, answered⟩
    · exact List.prefix_refl _
    · obtain ⟨-, rfl⟩ := Prod.mk.inj (Option.some.inj answered)
      exact List.prefix_append _ _
  | _ =>
    have same : w'.sent = w.sent := undispatched_sends performed trivial
    exact same ▸ List.prefix_refl w.sent

/-- A call that leaves the delivery ledger and its rows out of it. -/
def Call.unledgered : Call → Prop
  | .dispatch request => request.delivery = none
  | .getDelivery _ _ | .register _ _ _ _ _ _ _ | .claimDelivery _ _ | .finish _ _ _ _ | .rejectReady
      _ _ _ | .pending => False
  | _ => True

namespace Told

def sees (g : Told) (rows : List Delivery) : Told := { g with seen := rows ++ g.seen }

def may (g : Told) : Call → Prop
  | .dispatch request => request.delivery = none ∨
      ∃ d ∈ g.seen, request = requestOf d ∧ g.won = some (lower d.repository, d.delivery)
  | _ => True

def note (g : Told) : (c : Call) → Except Raised (Ans c) → Told
  | .getDelivery _ _, .ok (some d) => g.sees [d]
  | .register _ _ _ _ _ _ _, .ok d => g.sees [d]
  | .pending, .ok rows => g.sees rows
  | .claimDelivery repository delivery, .ok true => { g with won := some (lower repository, delivery) }
  | .dispatch _, _ => { g with won := none }
  | _, _ => g

end Told

def discipline : Protocol Call Ans Raised Told := ⟨Told.may, Told.note⟩

theorem note_grows (g : Told) (c : Call) (r : Except Raised (Ans c)) : g.seen ⊆ (g.note c r).seen := by
  unfold Told.note
  split
  · exact List.subset_append_right _ _
  · exact List.subset_append_right _ _
  · exact List.subset_append_right _ _
  · exact List.Subset.refl _
  · exact List.Subset.refl _
  · exact List.Subset.refl _

theorem may_undelivered {c : Call} (h : c.undelivered) (g : Told) : g.may c := by
  unfold Told.may
  split
  · exact Or.inl h
  · trivial

/-- Nothing a thread has read is forgotten. -/
theorem follows_grows {α : Type} {s : Program α} {post : Told → Except Raised α → Prop} {g : Told}
    (h : s.Follows discipline post g) :
    s.Follows discipline (fun g' r => post g' r ∧ g.seen ⊆ g'.seen) g := by
  have grown : ∀ g₀ : Told, g.seen ⊆ g₀.seen → s.Follows discipline post g₀ →
      s.Follows discipline (fun g' r => post g' r ∧ g.seen ⊆ g'.seen) g₀ := by
    clear h
    induction s with
    | done a => exact fun _ kept h => ⟨h, kept⟩
    | fail e => exact fun _ kept h => ⟨h, kept⟩
    | ask c next ih => exact fun g₀ kept h =>
        ⟨h.1, fun r => ih r _ (List.Subset.trans kept (note_grows g₀ c r)) (h.2 r)⟩
  exact grown g (List.Subset.refl _) h

theorem follows_undelivered {α : Type} {s : Program α} (only : s.Only Call.undelivered) (g : Told) :
    s.Follows discipline (fun _ _ => True) g := by
  induction s generalizing g with
  | done a => trivial
  | fail e => trivial
  | ask c next ih => exact ⟨may_undelivered only.1 g, fun r => ih r (only.2 r) _⟩

/-- A loose end: nothing is asked of where the script stops. -/
abbrev Keeps (s : Program Unit) (g : Told) : Prop := s.Follows discipline (fun _ _ => True) g

theorem keeps_undelivered {s : Program Unit} (only : s.Only Call.undelivered) (g : Told) : Keeps s g :=
  follows_undelivered only g

theorem sideline_undelivered {c : Call} (h : c.sideline) : c.undelivered := by
  cases c with
  | dispatch _ => exact h.elim
  | _ => trivial

theorem sideline_unledgered {c : Call} (h : c.sideline) : c.unledgered := by
  cases c with
  | dispatch _ | getDelivery _ _ | register _ _ _ _ _ _ _ | claimDelivery _ _ | finish _ _ _ _ | rejectReady _ _ _
  | pending => exact h.elim
  | _ => trivial

theorem unledgered_undelivered {c : Call} (h : c.unledgered) : c.undelivered := by
  cases c with
  | dispatch _ => exact h
  | _ => trivial

theorem aside_undispatched {c : Call} (h : c.aside) : c.undispatched := by
  cases c with
  | dispatch _ => exact h.1.elim
  | _ => trivial

theorem only_direct {server : Server} (header : Option String) (repository sha ref : String)
    (statusSha : Option String)
    (extra : List (String × Json)) :
    (enqueueDirect server header repository sha ref statusSha extra).Only fun c => c.unledgered ∧
    c.undispatched :=
  only_enqueueDirect (fun c h => have aside := telling_aside c h
    ⟨sideline_unledgered aside.1, aside_undispatched aside⟩) ⟨trivial, trivial⟩ extra

theorem plain_undelivered {c : Call} (h : c.plain) : c.undelivered := by
  cases c with
  | dispatch _ => exact h.elim
  | _ => trivial

section Undelivered
variable {server : Server}

theorem loose {α : Type} {s : Program α} (only : s.Only Call.aside) : s.Only Call.undelivered :=
  aside_only (fun _ => sideline_undelivered) only

theorem only_enqueueSpare (delivery : Option String) (repository sha ref : String)
    (statusSha : Option String)
    (extra : List (String × Json)) :
    (enqueueDirect server delivery repository sha ref statusSha extra).Only Call.undelivered :=
  only_mono (only_direct delivery repository sha ref statusSha extra) fun _ h =>
  unledgered_undelivered h.1

/-- The device lane a push was given, if any, makes no request of its own. -/
def Spare (fallback : Option (Program Unit)) : Prop := ∀ enqueue ∈ fallback, enqueue.Only Call.undelivered

theorem spare_none : Spare none := fun _ member => nomatch member

theorem off {α : Type} {s : Program α} (only : s.Only Call.sideline) : s.Only Call.unledgered :=
  only_mono only fun _ => sideline_unledgered

theorem apart {α : Type} {s : Program α} (only : s.Only Call.aside) : s.Only Call.unledgered :=
  aside_only (fun _ => sideline_unledgered) only

theorem only_pullRequestWebhook (delivery : Option String) (payload : Option Json) :
    (pullRequestWebhook server delivery payload).Only Call.unledgered := by
  unfold pullRequestWebhook
  split
  · exact apart (only_sendError _ _)
  · rename_i event _
    unfold handlePullRequest
    split
    · exact apart (only_sendError _ _)
    · split
      · exact apart (only_send _ _)
      · split
        · exact only_bind (only_resolveRunSha trivial) fun sha =>
            only_mono (only_direct _ _ _ _ _ _) fun _ => And.left
        · split
          · exact apart (only_sendError _ _)
          · refine only_bind (only_attempt (only_call trivial)) fun found => ?_
            split
            · exact apart (only_sendError _ _)
            · trivial
            · exact only_bind (apart only_pullRequestStatus) fun _ => apart (only_send _ _)
            · refine only_bind (only_attempt
                (off (only_mono (only_choose _ _ _) fun _ => metering_sideline))) fun chosen => ?_
              split
              · exact apart (only_sendError _ _)
              · trivial
              · refine only_bind (apart only_pullRequestStatus) fun posted => ?_
                refine only_bind (only_attempt (only_call rfl)) fun outcome => ?_
                exact apart (only_answerPullRequest _ _ _)

theorem only_dispatchEndpoint (request : DispatchRequest) :
    (dispatchEndpoint server request).Only Call.unledgered := by
  unfold dispatchEndpoint
  split
  · exact apart (only_sendError _ _)
  · split
    · exact apart (only_sendError _ _)
    · split
      · exact apart (only_sendError _ _)
      · exact apart (only_sendError _ _)
      · exact apart (only_sendError _ _)
      · split
        · exact apart (only_sendError _ _)
        · split
          · exact apart (only_sendError _ _)
          · refine only_bind (only_attempt (off (only_dispatchDecision _ _ _ _))) fun outcome => ?_
            split
            · exact apart (only_sendError _ _)
            · exact apart (only_sendError _ _)
            · trivial
            · refine only_bind (only_attempt (only_call rfl)) fun answered => ?_
              split
              · exact only_bind (apart (only_nameHold mute_aside _ _ _ _ _)) fun _ =>
                  apart (only_send _ _)
              · refine only_bind ?_ fun _ => only_bind (off (only_dropRunner _)) fun _ =>
                  apart (only_sendError _ _)
                exact apart (only_releaseIf mute_aside _ _ _)
              · exact only_bind (off (only_dropRunner _)) fun _ => apart (only_sendError _ _)

end Undelivered

section Keeps
variable {server : Server} {g : Told}

theorem keeps_bind {α : Type} {s : Program α} {f : α → Program Unit} (only : s.Only Call.undelivered)
    (next : ∀ a g', g.seen ⊆ g'.seen → Keeps (f a) g') : Keeps (s.bind f) g := by
  refine follows_bind (follows_mono (follows_grows (follows_undelivered only g)) fun g' r grown => ?_)
  cases r with
  | ok a => exact next a g' grown.2
  | error e => trivial

theorem keeps_attempt {α : Type} {s : Program α} {f : Except Raised α → Program Unit}
    (only : s.Only Call.undelivered)
    (next : ∀ r g', g.seen ⊆ g'.seen → Keeps (f r) g') : Keeps (s.attempt.bind f) g :=
  keeps_bind (only_attempt only) next

/-- The claim is won before the request goes out, and the request is the row's. -/
theorem follows_dispatchRecord {record : Delivery} (seen : record ∈ g.seen) (ledger : Bool)
    (reservation : Option Nat) :
    (dispatchRecord record ledger reservation).Follows discipline (fun _ _ => True) g := by
  refine follows_bind (follows_call trivial fun claimed => ?_)
  cases claimed with
  | error e => trivial
  | ok won =>
    cases won with
    | true =>
      have pays : discipline.may
          (discipline.note g (.claimDelivery record.repository record.delivery) (.ok true))
          (.dispatch (requestOf record)) := Or.inr ⟨record, seen, rfl, rfl⟩
      refine follows_bind (follows_attempt (follows_call pays fun outcome => ?_))
      exact follows_undelivered (only_recordOutcome (fun _ => plain_undelivered) record ledger
        reservation outcome) _
    | false =>
      refine follows_undelivered (only_bind (loose (only_releaseReservation mute_aside _ _))
        fun _ => ?_) _
      refine only_bind (only_call trivial) fun current => ?_
      split
      · trivial
      · split <;> trivial

theorem keeps_dispatchRecord {record : Delivery} (seen : record ∈ g.seen) {ledger : Bool}
    {reservation : Option Nat}
    {f : Except Raised (Handled × String) → Program Unit} (next : ∀ r, (f r).Only Call.undelivered) :
    Keeps ((dispatchRecord record ledger reservation).attempt.bind f) g :=
  follows_bind (follows_attempt (follows_mono (follows_dispatchRecord seen ledger reservation)
    fun g' r _ => keeps_undelivered (next r) g'))

theorem keeps_dispatchExisting {event : PushEvent} {existing : Delivery} {delivery : String}
    {fallback : Option (Program Unit)} (spare : Spare fallback) (seen : existing ∈ g.seen) :
    Keeps (dispatchExisting server event existing delivery fallback) g := by
  refine keeps_bind (only_mono (only_reserveFor _ _) fun _ => sideline_undelivered)
    fun ⟨hold, refusal⟩ g' grown => ?_
  simp only
  split
  · exact keeps_undelivered (loose (only_send _ _)) g'
  · refine keeps_dispatchRecord (grown seen) fun handled => ?_
    split
    · exact only_bind (loose (only_releaseReservation mute_aside _ _)) fun _ => loose (only_sendError _ _)
    · trivial
    · split
      · rename_i enqueue chosen
        split at chosen
        · exact spare enqueue chosen
        · cases chosen
      · exact loose (only_send _ _)

theorem keeps_redeliver {event : PushEvent} {existing : Delivery} {delivery : String}
    {fallback : Option (Program Unit)} (spare : Spare fallback) (seen : existing ∈ g.seen) :
    Keeps (redeliver server event existing delivery fallback) g := by
  refine keeps_attempt (only_checkAdapter (fun _ h => plain_undelivered (besides_plain h)) spare) fun checked g' grown => ?_
  split
  · exact keeps_undelivered (loose (only_sendError _ _)) g'
  · exact keeps_undelivered (loose (only_sendError _ _)) g'
  · trivial
  · trivial
  · exact keeps_dispatchExisting spare (grown seen)

theorem keeps_registerPush {header : Option String} {fingerprint : String} {event : PushEvent}
    {branch delivery : String} {fallback : Option (Program Unit)} (spare : Spare fallback)
    (decision : RouteDecision)
    (reservation : Option (String × Nat)) (g : Told) :
    Keeps (registerPush server header fingerprint event branch delivery fallback decision
    reservation) g := by
  refine follows_bind (follows_attempt (follows_call trivial fun registered => ?_))
  simp only [before]
  split
  · exact keeps_undelivered (only_bind (only_mono (only_giveBack _ _) fun _ => sideline_undelivered)
      fun _ => loose (only_sendError _ _)) _
  · trivial
  · rename_i record
    split
    · exact keeps_undelivered
        (only_bind (only_mono (only_giveBack _ _) fun _ => sideline_undelivered) fun _ =>
        loose (only_sendError _ _)) _
    · refine keeps_dispatchRecord (List.mem_append_left _ (List.mem_singleton_self record))
        fun handled => ?_
      split
      · exact only_bind (only_mono (only_giveBack _ _) fun _ => sideline_undelivered) fun _ =>
          loose (only_sendError _ _)
      · trivial
      · exact only_answerPush (fun _ => plain_undelivered) spare _ _ _ _

theorem keeps_firstDelivery {header : Option String} {fingerprint : String} {event : PushEvent}
    {branch delivery : String} {fallback : Option (Program Unit)} (spare : Spare fallback) (g : Told) :
    Keeps (firstDelivery server header fingerprint event branch delivery fallback) g := by
  unfold firstDelivery
  split
  · exact keeps_undelivered (loose (only_sendError _ _)) g
  · refine keeps_attempt (only_decidePush (fun _ => plain_undelivered) spare) fun decided g' _ => ?_
    split
    · exact keeps_undelivered (loose (only_sendError _ _)) g'
    · exact keeps_undelivered (loose (only_sendError _ _)) g'
    · trivial
    · trivial
    · exact keeps_registerPush spare _ _ g'

theorem keeps_answerKnown {header : Option String} {fingerprint : String} {event : PushEvent}
    {branch : String}
    {fallback : Option (Program Unit)} (spare : Spare fallback) {existing : Option Delivery}
    (seen : ∀ d ∈ existing, d ∈ g.seen) :
    Keeps (answerKnown server header fingerprint event branch fallback existing) g := by
  unfold answerKnown
  simp only
  split
  · exact keeps_firstDelivery spare g
  · rename_i record
    split
    · exact keeps_undelivered (loose (only_sendError _ _)) g
    · split
      · exact keeps_redeliver spare (seen record rfl)
      · split
        · exact keeps_undelivered (loose (only_send _ _)) g
        · exact keeps_firstDelivery spare g

theorem keeps_dispatchPush {header : Option String} {fingerprint : String} {event : PushEvent}
    {branch : String}
    {fallback : Option (Program Unit)} (spare : Spare fallback) (g : Told) :
    Keeps (dispatchPush server header fingerprint event branch fallback) g := by
  unfold dispatchPush
  split
  · exact keeps_undelivered (loose (only_sendError _ _)) g
  · split
    · exact keeps_undelivered (loose (only_sendError _ _)) g
    · refine follows_bind (follows_attempt (follows_call trivial fun known => ?_))
      simp only [before]
      unfold answerLookup
      split
      · exact keeps_undelivered (loose (only_sendError _ _)) _
      · trivial
      · rename_i existing
        refine keeps_answerKnown spare fun d found => ?_
        obtain rfl := Option.mem_def.mp found
        exact List.mem_append_left _ (List.mem_singleton_self d)

theorem keeps_handlePush (header : Option String) (fingerprint : String) (event : PushEvent) (g : Told) :
    Keeps (handlePush server header fingerprint event) g := by
  have direct : (enqueueDirect server header event.repository event.after event.branch none []).Only
      Call.undelivered :=
    only_enqueueSpare _ _ _ _ _ _
  have spare :
      Spare (some (enqueueDirect server header event.repository event.after event.branch none []))
      := by
    intro enqueue member
    obtain rfl := Option.some.inj member
    exact direct
  unfold handlePush
  simp only
  split
  · exact keeps_undelivered direct g
  · exact keeps_dispatchPush spare g
  · exact keeps_dispatchPush spare_none g

theorem keeps_pushWebhook (request : WebhookRequest) (g : Told) :
    Keeps (pushWebhook server request) g := by
  unfold pushWebhook
  split
  · exact keeps_undelivered (loose (only_sendError _ _)) g
  · split
    · exact keeps_undelivered (loose (only_sendError _ _)) g
    · split
      · exact keeps_undelivered (loose (only_send _ _)) g
      · split
        · exact keeps_undelivered (loose (only_send _ _)) g
        · exact keeps_handlePush _ _ _ g

theorem keeps_webhook (request : WebhookRequest) (g : Told) : Keeps (webhook server request) g := by
  unfold webhook
  split
  · exact keeps_undelivered (loose (only_sendError _ _)) g
  · split
    · exact keeps_undelivered (loose (only_sendError _ _)) g
    · split
      · exact keeps_undelivered (loose (only_sendError _ _)) g
      · split
        · exact keeps_undelivered (only_mono (only_pullRequestWebhook _ _) fun _ =>
            unledgered_undelivered) g
        · split
          · exact keeps_pushWebhook request g
          · exact keeps_undelivered (loose (only_send _ _)) g

theorem keeps_replayRecord {record : Delivery} (seen : record ∈ g.seen) :
    Keeps (replayRecord server record) g := by
  refine keeps_attempt (only_replayHold (fun _ => plain_undelivered) trivial) fun begun g' grown => ?_
  split
  · trivial
  · trivial
  · refine follows_bind (follows_attempt (follows_bind ?_))
    refine follows_mono (follows_dispatchRecord (grown seen) _ _) fun g'' r _ => ?_
    cases r with
    | error e => exact keeps_undelivered (loose (only_releaseReservation mute_aside _ _)) g''
    | ok handled =>
      refine follows_mono (follows_undelivered ?_ g'') fun g₃ outcome _ => ?_
      · simp only
        split
        · exact only_handOff trivial
        · trivial
      · cases outcome with
        | error e => exact keeps_undelivered (loose (only_releaseReservation mute_aside _ _)) g₃
        | ok _ => trivial

theorem keeps_recoverReady (g : Told) : Keeps (recoverReady server) g := by
  unfold recoverReady
  split
  · trivial
  · refine follows_bind (follows_call trivial fun pending => ?_)
    cases pending with
    | error e => trivial
    | ok records =>
      refine follows_forEach (I := fun g' => ∀ d ∈ records, d ∈ g'.seen)
        (fun record member g' known => ?_)
        (fun _ _ _ => trivial) fun d member => List.mem_append_left _ member
      exact follows_mono (follows_grows (keeps_replayRecord (known record member)))
          fun g'' _ grown d present =>
        grown.2 (known d present)

end Keeps
end Cindral.Dispatch

import Cindral.Dispatch.AllowList
import Cindral.Dispatch.Course
import Cindral.Dispatch.Discipline

/-!
# Which hold a request may give back

A thread takes a hold before it knows its lane, may give it back more than once, and keeps it once
GitHub may have started the run it is for. What it has been told of its own holds is enough to say
what it may do with them, whatever the other threads do between two of its calls.
-/

namespace Cindral.Dispatch
open Base Routing Script

/-- What a thread knows of its holds. -/
structure Purse where
  /-- The thread serves a pull request. -/
  pulls : Bool := false
  hand : Option Nat := none
  gone : List Nat := []
  /-- A hosted dispatch went out since the hold was taken, and may have started a run. -/
  spent : Bool := false
  /-- The delivery was registered for another lane, and its row is for the hosted one. -/
  astray : Bool := false
  /-- It is no pull request that was answered with a 5xx, and no call failed in a way it cannot. -/
  fit : Bool := true

/-- The inputs of a dispatch onto the lane that costs money. -/
def hostedInputs (inputs : List (String × String)) : Bool :=
  inputs.lookup "cindral_lane" = some hostedLane

/-- An answer a thread reads as one of 500 or more. -/
def overloadedAnswer : Except Raised Unit → Bool
  | .error (.githubDispatchError _ statusCode) => statusCode.any (500 ≤ ·)
  | _ => false

/-- An answer after which a thread knows of no run. -/
def noRun : Except Raised Unit → Bool
  | .error (.githubDispatchError _ statusCode) => statusCode.all (· < 500)
  | _ => false

namespace Purse

def note (g : Purse) : (c : Call) → Except Raised (Ans c) → Purse
  | .reserve _ _, .ok id => { g with hand := some id, gone := g.gone.filter (· ≠ id), spent := false }
  | .release id, .ok _ => if g.hand = some id then { g with hand := none, gone := id :: g.gone } else g
  | .register _ _ _ _ _ inputs _, .ok row =>
    { g with astray := !hostedInputs inputs && hostedInputs row.inputs }
  | .dispatch request, r =>
    if hostedInputs request.inputs && !noRun r then
      { g with spent := true, fit := g.fit && !(g.pulls && g.hand.isSome && overloadedAnswer r) }
    else g
  -- the ledger of the deliveries has no other way to fail
  | .finish _ _ _ _, .error (.sqliteError _) | .finish _ _ _ _, .error (.runtimeError _) => g
  | .finish _ _ _ _, .error _ => { g with fit := false }
  | _, _ => g

/-- Under a ceiling a hosted dispatch has its hold in hand. A hold goes back once, unless nothing has
been taken since. -/
def may (metered : Bool) (g : Purse) : Call → Prop
  | .reserve _ lane => lane = hostedLane
  | .release id => g.fit = true → g.hand = some id ∧ g.spent = false ∨ g.hand = none ∧ id ∈ g.gone
  | .dispatch request => metered = true → hostedInputs request.inputs = true →
      g.hand.isSome = true ∧ g.spent = false ∨ g.astray = true
  | .finish _ _ state _ => state.terminal = true
  | _ => True

/-- The hold, if there is one, is in hand and unspent. -/
def Fresh (g : Purse) (hold : Option Nat) : Prop := ∀ id ∈ hold, g.hand = some id ∧ g.spent = false

/-- The hold may go back, for the first time or again. -/
def Returns (g : Purse) (hold : Option Nat) : Prop :=
  g.fit = true → ∀ id ∈ hold, g.hand = some id ∧ g.spent = false ∨ g.hand = none ∧ id ∈ g.gone

end Purse

def purses (metered : Bool) : Protocol Call Ans Raised Purse := ⟨Purse.may metered, Purse.note⟩

/-- A call that tells a thread nothing of its holds. -/
def Call.idle : Call → Prop
  | .reserve _ _ | .release _ | .dispatch _ | .register _ _ _ _ _ _ _ | .finish _ _ _ _ => False
  | _ => True

section Follows
variable {m : Bool} {g : Purse} {hold : Option Nat} {α : Type} {s : Program α} {server : Server}
  {p : Policy}

theorem idle_keeps {c : Call} (h : c.idle) :
    (purses m).may g c ∧ ∀ r, (purses m).note g c r = g := by
  cases c with
  | reserve _ _ | release _ | dispatch _ | register _ _ _ _ _ _ _ | finish _ _ _ _ => exact h.elim
  | _ => exact ⟨trivial, fun _ => rfl⟩

theorem follows_idle {post : Purse → Except Raised α → Prop} (only : s.Only Call.idle)
    (h : ∀ r, post g r) : s.Follows (purses m) post g :=
  follows_of_only (fun _ free => idle_keeps free) only h

/-- Where nothing more is asked of the thread. -/
theorem keeps_idle {s : Program Unit} (only : s.Only Call.idle) :
    s.Follows (purses m) (fun _ _ => True) g := follows_idle only fun _ => trivial

theorem telling_idle {c : Call} (h : c.telling) : c.idle := by
  cases c with
  | postStatus _ _ _ _ | publishCheckRun _ | send _ _ => trivial
  | _ => exact h.elim

theorem idle_send (status : Nat) (body : List (String × Json)) : (send status body).Only Call.idle :=
  tells_send (fun _ => telling_idle) status body

theorem idle_sendError (status : Nat) (text : String) : (sendError status text).Only Call.idle :=
  tells_sendError (fun _ => telling_idle) status text

theorem fresh_returns (h : g.Fresh hold) : g.Returns hold := fun _ id own => Or.inl (h id own)

theorem fresh_none : g.Fresh none := fun _ own => by cases own

theorem note_release {id : Nat} (may : g.Returns (some id)) (r : Except Raised Unit) :
    (g.note (.release id) r).Returns (some id) := by
  cases r with
  | error e => exact may
  | ok _ =>
    simp only [Purse.note]
    split
    · intro fit id' own
      obtain rfl := Option.some.inj own
      exact Or.inr ⟨rfl, List.mem_cons_self⟩
    · exact may

theorem follows_release {id : Nat} (may : g.Returns (some id)) :
    (ask (.release id)).Follows (purses m) (fun g' _ => g'.Returns (some id)) g :=
  follows_call (fun fit => may fit id rfl) fun r => note_release may r

/-- A hold that may go back may go back again. -/
theorem follows_giveBack {ledger : Bool} (may : g.Returns hold) :
    (releaseReservation ledger hold).Follows (purses m) (fun g' r => r = .ok () ∧ g'.Returns hold) g := by
  unfold releaseReservation
  split
  · exact ⟨rfl, may⟩
  · split
    · exact follows_bind (follows_attempt (follows_mono (follows_release may) fun g' r returns =>
        ⟨rfl, returns⟩))
    · exact ⟨rfl, may⟩

theorem idle_dropRunner (reservation : Option (String × Nat)) :
    (dropRunner reservation).Only Call.idle :=
  only_dropRunner_of trivial trivial (fun _ _ => trivial) reservation

/-! ## The choice of a lane -/

/-- What `attach_budget` leaves, and no local lane that costs money. -/
structure Priced (p : Policy) : Prop where
  counts : ∀ budget, p.minuteBudget = some budget → Counted p budget
  gives : Gives p
  elsewhere : hostedLane ∈ p.localPriority → p.laneLabels.lookup hostedLane = none

theorem minds_holding {lock unlock : Call} {body : Program α} {post : Purse → Except Raised α → Prop}
    (taken : lock.idle) (given : unlock.idle) (failed : ∀ g e, post g (.error e))
    (h : body.Follows (purses m) post g) : (holding lock unlock body).Follows (purses m) post g := by
  refine follows_bind (follows_call (idle_keeps taken).1 fun r => ?_)
  rw [(idle_keeps taken).2 r]
  cases r with
  | error e => exact failed g e
  | ok _ =>
    refine follows_bind (follows_attempt (follows_mono h fun g' r left => ?_))
    refine follows_bind (follows_call (idle_keeps given).1 fun r' => ?_)
    rw [(idle_keeps given).2 r']
    cases r' with
    | error e => exact failed g' e
    | ok _ => exact follows_lift left

/-- Under a ceiling a request is refused or has a hold. -/
def Metes (p : Policy) (g : Purse) : Except Raised (Option Nat × Option String) → Prop
  | .ok (hold, refusal) => g.Fresh hold ∧
      (p.minuteBudget.isSome = true → refusal = none → hold.isSome = true) ∧
      (hold.isSome = true → p.minuteBudget.isSome = true)
  | .error _ => True

theorem minds_reserveMetered (priced : Priced p) (estimated : Double) :
    (reserveMetered p estimated).Follows (purses m) (Metes p) g := by
  cases ceiling : p.minuteBudget with
  | none =>
    rw [reserveMetered, ceiling]
    exact ⟨fresh_none, by simp [ceiling], by simp⟩
  | some budget =>
    have counts := priced.counts budget ceiling
    have spent : (spentMinutes p).Only Call.idle := only_bind (only_call trivial) fun _ => trivial
    rw [reserveMetered_eq counts]
    refine minds_holding trivial trivial (fun _ _ => trivial) (follows_bind (follows_idle spent ?_))
    intro r
    cases r with
    | error e => trivial
    | ok used =>
      simp only [before]
      split
      · exact ⟨fresh_none, by simp, by simp⟩
      · refine follows_bind (follows_call rfl fun r => ?_)
        cases r with
        | error e => trivial
        | ok id =>
          refine ⟨fun id' own => ?_, fun _ _ => rfl, fun _ => by simp [ceiling]⟩
          obtain rfl := Option.some.inj own
          exact ⟨rfl, rfl⟩

/-- A decision for the hosted lane has its hold, if there is a ceiling. -/
def Decides (p : Policy) (g : Purse) : Except Raised RouteDecision → Prop
  | .ok d => g.Fresh d.reservation ∧
      (p.minuteBudget.isSome = true → d.lane = hostedLane → d.reservation.isSome = true) ∧
      (d.reservation.isSome = true → d.lane = hostedLane)
  | .error _ => True

theorem explicitLane_labels {request : RouteRequest} {runners : List Runner} {d : RouteDecision}
    (h : p.explicitLane request runners = .ok d) : p.laneLabels.lookup request.requestedLane ≠ none := by
  simp only [Policy.explicitLane] at h
  split at h
  · cases h
  · rename_i labels found
    rw [found]
    exact Option.some_ne_none labels

theorem firstLocal_elsewhere {request : RouteRequest} {runners : List Runner} {reason : String}
    {d : RouteDecision} (priced : Priced p) (h : p.firstLocal request runners reason = .ok d) :
    d.lane ≠ hostedLane := by
  intro hosted
  obtain ⟨d', first, same⟩ := Handling.firstLocal_served h
  obtain ⟨lane, member, decided⟩ := List.mem_filterMap.mp (List.mem_of_mem_head? first)
  have served : p.explicitLane { requestedLane := lane, target := request.target } runners = .ok d' := by
    cases explicit : p.explicitLane { requestedLane := lane, target := request.target } runners with
    | error e =>
      rw [explicit] at decided
      cases decided
    | ok d'' =>
      rw [explicit] at decided
      exact congrArg Except.ok (Option.some.inj decided)
  have labelled := explicitLane_labels served
  obtain rfl : lane = hostedLane := (explicitLane_lane served).symm.trans (same.symm.trans hosted)
  exact labelled (priced.elsewhere (List.mem_of_mem_filter member))

theorem minds_releaseHold (may : g.Returns hold) :
    (releaseHold p hold).Follows (purses m) (fun _ _ => True) g := by
  unfold releaseHold
  split
  · trivial
  · split
    · exact follows_mono (follows_release may) fun _ _ _ => trivial
    · trivial

theorem minds_chooseHeld (priced : Priced p) (request : RouteRequest) (runners : List Runner) :
    (chooseHeld p request runners).Follows (purses m) (Decides p) g := by
  refine follows_bind (follows_mono (minds_reserveMetered priced _) fun g' r metes => ?_)
  cases r with
  | error e => trivial
  | ok taken =>
    obtain ⟨hold, refusal⟩ := taken
    obtain ⟨fresh, owes, owns⟩ := metes
    have back : (releaseHold p hold).Follows (purses m) (fun _ _ => True) g' :=
      minds_releaseHold (fresh_returns fresh)
    simp only [before]
    split
    · rename_i reason
      refine follows_lift ?_
      cases lane : p.firstLocal request runners reason with
      | error e => trivial
      | ok d =>
        have none_held := firstLocal_unreserved lane
        refine ⟨none_held ▸ fresh_none, fun _ hosted => ?_, by simp [none_held]⟩
        exact absurd hosted (firstLocal_elsewhere priced lane)
    · split
      · refine follows_bind (follows_mono back fun g₂ r _ => ?_)
        cases r <;> trivial
      · rename_i d lane
        split
        · rename_i own
          exact ⟨fresh, fun _ _ => own.1, fun _ => own.2⟩
        · rename_i other
          refine follows_bind (follows_mono back fun g₂ r _ => ?_)
          cases r with
          | error e => trivial
          | ok _ =>
            have none_held : d.reservation = none := chooseLane_unreserved lane
            refine ⟨none_held ▸ fresh_none, fun ceiling hosted => ?_, by simp [none_held]⟩
            exact absurd ⟨owes ceiling rfl, hosted⟩ other

theorem minds_choose (priced : Priced p) (request : RouteRequest) (runners : List Runner) :
    (choose p request runners).Follows (purses m) (Decides p) g := by
  unfold choose
  split
  · refine follows_bind (follows_call trivial fun r => ?_)
    cases r with
    | error e => trivial
    | ok reading => exact minds_chooseHeld priced _ runners
  · exact minds_chooseHeld priced request runners

theorem minds_chooseWebhookLane (priced : Priced p) (request : RouteRequest) (runners : List Runner)
    (allowBusy : Bool) :
    (chooseWebhookLane p request runners allowBusy).Follows (purses m) (Decides p) g := by
  refine follows_bind (follows_attempt (follows_mono (minds_choose priced request runners)
    fun g' r decides => ?_))
  simp only [before]
  split
  · exact decides
  · split
    · trivial
    · refine follows_bind (follows_mono (minds_choose priced _ _) fun g₂ r decides => ?_)
      cases r with
      | error e => trivial
      | ok d => exact decides
  · trivial

/-- A decision with the runner that was held for it. -/
abbrev DecidesPair (p : Policy) (g : Purse)
    (r : Except Raised (RouteDecision × Option (String × Nat))) : Prop := Decides p g (r.map Prod.fst)

theorem minds_decideUnderCapacity (priced : Priced server.policy) (request : RouteRequest)
    (repository : String) (allowBusy : Bool) (runners : List RepositoryRunner) (now : ℚ) :
    (decideUnderCapacity server request repository allowBusy runners now).Follows (purses m)
      (DecidesPair server.policy) g := by
  refine follows_bind (follows_call trivial fun r => ?_)
  cases r with
  | error e => trivial
  | ok _ =>
    refine follows_bind (follows_mono (minds_chooseWebhookLane priced request _ allowBusy)
      fun g' r decides => ?_)
    cases r with
    | error e => trivial
    | ok d =>
      refine follows_bind (follows_call trivial fun r => ?_)
      cases r with
      | error e => trivial
      | ok reserved =>
        simp only [before]
        split
        · trivial
        · split
          · refine follows_bind (follows_call trivial fun r => ?_)
            cases r with
            | error e => trivial
            | ok id =>
              refine follows_bind (follows_call trivial fun r => ?_)
              cases r with
              | error e => trivial
              | ok _ => exact decides
          · exact decides

theorem minds_dispatchDecision (priced : Priced server.policy) (request : RouteRequest)
    (repository : String) (allowBusy : Bool) :
    (dispatchDecision server request repository allowBusy).Follows (purses m)
      (DecidesPair server.policy) g := by
  refine follows_bind (follows_attempt (follows_mono (minds_choose priced request [])
    fun g' r decides => ?_))
  simp only [before]
  split
  · exact decides
  · split
    · trivial
    · refine follows_bind (follows_call trivial fun r => ?_)
      cases r with
      | error e => trivial
      | ok runners =>
        refine follows_bind (follows_call trivial fun r => ?_)
        cases r with
        | error e => trivial
        | ok now =>
          exact minds_holding trivial trivial (fun _ _ => trivial)
            (minds_decideUnderCapacity priced request repository allowBusy runners now)
  · trivial

/-! ## The dispatch -/

/-- A hosted dispatch under the ceiling has its hold, or the delivery's row is another lane's. -/
def Purse.Pays (m : Bool) (g : Purse) (hold : Option Nat) (inputs : List (String × String)) : Prop :=
  m = true → hostedInputs inputs = true → hold.isSome = true ∨ g.astray = true

theorem minds_dispatch (request : Request) (fresh : g.Fresh hold) (pays : g.Pays m hold request.inputs) :
    (ask (.dispatch request)).Follows (purses m) (fun g' r => g' = g.note (.dispatch request) r) g := by
  refine follows_call (fun metered hosted => ?_) fun r => rfl
  rcases pays metered hosted with some | stray
  · obtain ⟨id, rfl⟩ := Option.isSome_iff_exists.mp some
    obtain ⟨hand, unspent⟩ := fresh id rfl
    exact Or.inl ⟨by rw [hand]; rfl, unspent⟩
  · exact Or.inr stray

theorem note_noRun {request : Request} {r : Except Raised Unit} (definite : noRun r = true) :
    g.note (.dispatch request) r = g := by
  simp [Purse.note, definite]

theorem noRun_overloaded {r : Except Raised Unit} {text : String} {statusCode : Option Nat}
    (error : r = .error (.githubDispatchError text statusCode)) (unclear : noRun r = false) :
    overloadedAnswer r = true := by
  subst error
  cases statusCode with
  | none => cases unclear
  | some code =>
    simp only [noRun, Option.all_some, decide_eq_false_iff_not, not_lt] at unclear
    simpa [overloadedAnswer] using unclear

/-- A pull request takes every error of the client for a refusal, and is not fit for it after a 5xx. -/
theorem note_pulls {request : Request} {r : Except Raised Unit} {text : String}
    {statusCode : Option Nat} (error : r = .error (.githubDispatchError text statusCode))
    (pulls : g.pulls = true) (fresh : g.Fresh hold) : (g.note (.dispatch request) r).Returns hold := by
  intro fit id own
  obtain ⟨hand, unspent⟩ := fresh id own
  cases unclear : hostedInputs request.inputs && !noRun r with
  | false =>
    simp only [Purse.note, unclear, Bool.false_eq_true, if_false]
    exact Or.inl ⟨hand, unspent⟩
  | true =>
    have high := noRun_overloaded error (by simpa using (Bool.and_eq_true _ _).mp unclear |>.2)
    simp [Purse.note, unclear, pulls, hand, high] at fit

/-- Once the hold is back, or may go back, the rest of the request leaves it alone. -/
theorem minds_returned {ledger : Bool} {rest : Program Unit} (may : g.Returns hold)
    (only : rest.Only Call.idle) : (do
      releaseReservation ledger hold
      rest : Program Unit).Follows (purses m) (fun _ _ => True) g := by
  refine follows_bind (follows_mono (follows_giveBack may) ?_)
  rintro g' _ ⟨rfl, -⟩
  exact keeps_idle only

theorem minds_dispatchToGithub {decision : RouteDecision} {inputs : List (String × String)}
    (fresh : g.Fresh decision.reservation) (pays : g.Pays m decision.reservation inputs)
    (repository workflow ref : String) (reservation : Option (String × Nat)) :
    (dispatchToGithub server repository workflow ref inputs reservation decision).Follows (purses m)
      (fun _ _ => True) g := by
  have refuses (text : String) : (do
      dropRunner reservation
      sendError 502 text : Program Unit).Only Call.idle :=
    only_bind (idle_dropRunner reservation) fun _ => idle_sendError _ _
  refine follows_bind (follows_attempt (follows_mono (minds_dispatch _ fresh pays) ?_))
  rintro _ r rfl
  simp only [before]
  split
  · exact keeps_idle (only_bind (only_nameHold_of (fun _ => trivial) _ _) fun _ => idle_send _ _)
  · rename_i text statusCode
    unfold releaseIf
    split
    · rename_i definite
      have unknown : noRun (.error (.githubDispatchError text statusCode)) = true := definite
      rw [note_noRun unknown]
      exact minds_returned (fresh_returns fresh) (refuses text)
    · exact keeps_idle (refuses text)
  · exact keeps_idle (refuses _)

theorem minds_dispatchEndpoint (priced : Priced server.policy) (request : DispatchRequest) :
    (dispatchEndpoint server request).Follows (purses server.policy.minuteBudget.isSome)
      (fun _ _ => True) g := by
  unfold dispatchEndpoint
  split
  · exact keeps_idle (idle_sendError _ _)
  split
  · exact keeps_idle (idle_sendError _ _)
  split
  · exact keeps_idle (idle_sendError _ _)
  · exact keeps_idle (idle_sendError _ _)
  · exact keeps_idle (idle_sendError _ _)
  split
  · exact keeps_idle (idle_sendError _ _)
  split
  · exact keeps_idle (idle_sendError _ _)
  refine follows_bind (follows_attempt (follows_mono (minds_dispatchDecision priced _ _ _) ?_))
  intro g' r decides
  simp only [before]
  split
  · exact keeps_idle (idle_sendError _ _)
  · exact keeps_idle (idle_sendError _ _)
  · trivial
  · rename_i d reservation
    obtain ⟨fresh, owes, -⟩ := decides
    refine minds_dispatchToGithub fresh (fun metered hosted => Or.inl (owes metered ?_)) _ _ _ _
    simpa [hostedInputs, lookup_setInput] using hosted

/-! ## Pull requests -/

/-- No call tells a thread that it serves something else. -/
theorem note_kind (c : Call) (r : Except Raised (Ans c)) : (g.note c r).pulls = g.pulls := by
  unfold Purse.note
  split
  · rfl
  · split <;> rfl
  · rfl
  · split <;> rfl
  · rfl
  · rfl
  · rfl
  · rfl

theorem follows_kind {post : Purse → Except Raised α → Prop} (h : s.Follows (purses m) post g) :
    s.Follows (purses m) (fun g' r => post g' r ∧ g'.pulls = g.pulls) g := by
  have grown : ∀ g₀ : Purse, g₀.pulls = g.pulls → s.Follows (purses m) post g₀ →
      s.Follows (purses m) (fun g' r => post g' r ∧ g'.pulls = g.pulls) g₀ := by
    clear h
    induction s with
    | done a => exact fun _ same h => ⟨h, same⟩
    | fail e => exact fun _ same h => ⟨h, same⟩
    | ask c next ih => exact fun g₀ same h => ⟨h.1, fun r => ih r _ ((note_kind c r).trans same) (h.2 r)⟩
  exact grown g rfl h

theorem idle_pullRequestStatus {event : PullRequestEvent} {state : Queue.CommitState}
    {description : String} : (postPullRequestStatus server event state description).Only Call.idle :=
  tells_pullRequestStatus fun _ => telling_idle

theorem minds_answerPullRequest {delivery : Option String} {event : PullRequestEvent}
    {decision : RouteDecision} {posted : Bool} {request : Request} (pulls : g.pulls = true)
    (fresh : g.Fresh decision.reservation) (r : Except Raised Unit) :
    (answerPullRequest server delivery event decision posted r).Follows (purses m) (fun _ _ => True)
      (g.note (.dispatch request) r) := by
  have tells {state : Queue.CommitState} {description text : String} : (do
      let _ ← postPullRequestStatus server event state description
      sendError 502 text : Program Unit).Only Call.idle :=
    only_bind idle_pullRequestStatus fun _ => idle_sendError _ _
  unfold answerPullRequest
  split
  · exact minds_returned (note_pulls rfl pulls fresh) tells
  · exact keeps_idle tells
  · exact keeps_idle (only_bind (only_nameHold_of (fun _ => trivial) _ _) fun _ => idle_send _ _)

theorem minds_pullRequestWebhook (priced : Priced server.policy) (delivery : Option String)
    (payload : Option Json) (pulls : g.pulls = true) :
    (pullRequestWebhook server delivery payload).Follows (purses server.policy.minuteBudget.isSome)
      (fun _ _ => True) g := by
  unfold pullRequestWebhook
  split
  · exact keeps_idle (idle_sendError _ _)
  rename_i event _
  unfold handlePullRequest
  split
  · exact keeps_idle (idle_sendError _ _)
  split
  · exact keeps_idle (idle_send _ _)
  split
  · exact keeps_idle (only_bind (only_resolveRunSha trivial) fun _ =>
      only_enqueueDirect (fun _ => telling_idle) trivial _)
  split
  · exact keeps_idle (idle_sendError _ _)
  refine follows_bind (follows_attempt (follows_call trivial fun found => ?_))
  simp only [before]
  split
  · exact keeps_idle (idle_sendError _ _)
  · trivial
  · exact keeps_idle (only_bind idle_pullRequestStatus fun _ => idle_send _ _)
  refine follows_bind (follows_attempt (follows_mono
    (follows_kind (minds_choose priced (pullRequestRoute event) server.runners)) ?_))
  rintro g' r ⟨decides, same⟩
  simp only [before]
  split
  · exact keeps_idle (idle_sendError _ _)
  · trivial
  rename_i d
  obtain ⟨fresh, owes, -⟩ := decides
  refine follows_bind (follows_idle idle_pullRequestStatus fun posted => ?_)
  cases posted with
  | error e => trivial
  | ok posted =>
    have pays : g'.Pays server.policy.minuteBudget.isSome d.reservation (pullRequestInputs event d) :=
      fun metered hosted =>
        Or.inl (owes metered (by simpa [hostedInputs, pullRequestInputs] using hosted))
    refine follows_bind (follows_attempt (follows_mono (minds_dispatch _ fresh pays) ?_))
    rintro _ r rfl
    exact minds_answerPullRequest (same.trans pulls) fresh r

/-! ## Deliveries -/

/-- What `dispatch_record` leaves to its caller, as far as the hold goes. -/
def Purse.Leaves (hold : Option Nat) (g : Purse) : Except Raised (Handled × String) → Prop
  | .ok (.state .rejected, _) | .ok (.duplicate, _) | .error _ => g.Returns hold
  | .ok _ => True

theorem returns_leaves {r : Except Raised (Handled × String)} (h : g.Returns hold) : g.Leaves hold r := by
  unfold Purse.Leaves
  split
  · exact h
  · exact h
  · exact h
  · trivial

theorem unfit_returns (unfit : g.fit = false) : g.Returns hold := fun fit => by
  rw [unfit] at fit
  cases fit

/-- The result of a delivery is recorded, or reads as uncertain. -/
theorem minds_finishRecord {record : Delivery} {state : DeliveryState} {error : String}
    (terminal : state.terminal = true) :
    (finishRecord record state error).Follows (purses m) (fun g' r =>
      (∃ said text, r = .ok (.state said, text) ∧ (said = state ∨ said = .uncertain)) ∧ g' = g ∨
        (∃ e, r = .error e) ∧ g'.fit = false) g := by
  refine follows_bind (follows_attempt (follows_call terminal fun r => ?_))
  simp only [before]
  cases r with
  | ok _ => exact Or.inl ⟨⟨_, _, rfl, Or.inl rfl⟩, rfl⟩
  | error e =>
    cases e with
    | sqliteError text => exact Or.inl ⟨⟨_, _, rfl, Or.inr rfl⟩, rfl⟩
    | runtimeError text => exact Or.inl ⟨⟨_, _, rfl, Or.inr rfl⟩, rfl⟩
    | _ => exact Or.inr ⟨⟨_, rfl⟩, rfl⟩

theorem minds_finishOther {record : Delivery} {state : DeliveryState} {error : String}
    (terminal : state.terminal = true) (other : state ≠ .rejected) :
    (finishRecord record state error).Follows (purses m) (fun g' r => g'.Leaves hold r) g := by
  refine follows_mono (minds_finishRecord terminal) ?_
  rintro g' r (⟨⟨said, text, rfl, same⟩, -⟩ | ⟨⟨e, rfl⟩, unfit⟩)
  · cases said with
    | rejected => rcases same with rfl | same <;> contradiction
    | _ => trivial
  · exact unfit_returns unfit

theorem minds_nameHold {ledger : Bool} (repository workflow ref : String) :
    (nameHold ledger hold repository workflow ref).Follows (purses m)
      (fun g' r => r = .ok () ∧ g' = g) g := by
  unfold nameHold
  split
  · exact ⟨rfl, rfl⟩
  · split
    · exact follows_bind (follows_attempt (follows_call trivial fun r => ⟨rfl, rfl⟩))
    · exact ⟨rfl, rfl⟩

theorem minds_recordOutcome {record : Delivery} {request : Request} {ledger : Bool} (fresh : g.Fresh hold)
    (r : Except Raised Unit) :
    (recordOutcome record ledger hold r).Follows (purses m) (fun g' r => g'.Leaves hold r)
      (g.note (.dispatch request) r) := by
  unfold recordOutcome
  split
  · rename_i text statusCode
    split
    · exact minds_finishOther rfl nofun
    · rename_i clear
      have definite : noRun (.error (.githubDispatchError text statusCode)) = true := by
        cases statusCode with
        | none => rfl
        | some code =>
          simp only [refusalUncertain, Option.any_some, Bool.or_eq_true, decide_eq_true_eq] at clear
          simp only [noRun, Option.all_some, decide_eq_true_eq]
          omega
      rw [note_noRun definite]
      refine follows_bind (follows_mono (follows_giveBack (fresh_returns fresh)) ?_)
      rintro g' _ ⟨rfl, returns⟩
      refine follows_mono (minds_finishRecord rfl) ?_
      rintro g₂ r (⟨-, rfl⟩ | ⟨⟨e, rfl⟩, unfit⟩)
      · exact returns_leaves returns
      · exact unfit_returns unfit
  · refine follows_bind (follows_mono (minds_finishRecord rfl) ?_)
    rintro g' r (⟨⟨said, text, rfl, rfl | rfl⟩, -⟩ | ⟨⟨e, rfl⟩, unfit⟩)
    · trivial
    · trivial
    · exact unfit_returns unfit
  · refine follows_bind (follows_mono (minds_nameHold _ _ _) ?_)
    rintro _ _ ⟨rfl, rfl⟩
    exact minds_finishOther rfl nofun

theorem minds_dispatchRecord {record : Delivery} {ledger : Bool} (fresh : g.Fresh hold)
    (pays : g.Pays m hold record.inputs) :
    (dispatchRecord record ledger hold).Follows (purses m) (fun g' r => g'.Leaves hold r) g := by
  refine follows_bind (follows_call trivial fun r => ?_)
  cases r with
  | error e => exact fresh_returns fresh
  | ok claimed =>
    simp only [before]
    split
    · refine follows_bind (follows_attempt
        (follows_mono (minds_dispatch (requestOf record) fresh pays) ?_))
      rintro _ r rfl
      exact minds_recordOutcome fresh r
    · refine follows_bind (follows_mono (follows_giveBack (fresh_returns fresh)) ?_)
      rintro g' _ ⟨rfl, returns⟩
      refine follows_bind (follows_idle (only_call trivial) fun r => ?_)
      cases r with
      | error e => exact returns
      | ok current =>
        simp only [before]
        split
        · trivial
        · split
          · exact returns
          · exact returns_leaves (r := .ok _) returns

/-- The job a push falls back to takes no hold and gives none back. -/
def Idles (fallback : Option (Program Unit)) : Prop := ∀ enqueue ∈ fallback, enqueue.Only Call.idle

theorem besides_idle {c : Call} (h : c.besides) : c.idle := by
  cases c with
  | reserve _ _ | release _ | dispatch _ | register _ _ _ _ _ _ _ | finish _ _ _ _ => exact h.elim
  | _ => trivial

theorem idle_fallback {b : Bool} {status : Nat} {body : List (String × Json)}
    {fallback : Option (Program Unit)} (idles : Idles fallback) :
    (match if b then fallback else none with
      | some enqueue => enqueue
      | none => send status body : Program Unit).Only Call.idle := by
  split
  · rename_i enqueue chosen
    split at chosen
    · exact idles enqueue chosen
    · cases chosen
  · exact idle_send _ _

/-- A hold for a request whose lane is known pays for it. -/
theorem minds_reserveFor (priced : Priced p) (inputs : List (String × String)) :
    (reserveFor p inputs).Follows (purses m) (fun g' r => ∀ hold, r = .ok (hold, none) →
      g'.Fresh hold ∧ g'.Pays p.minuteBudget.isSome hold inputs) g := by
  unfold reserveFor
  split
  · refine follows_mono (minds_reserveMetered priced _) ?_
    rintro g' r metes hold rfl
    exact ⟨metes.1, fun metered _ => Or.inl (metes.2.1 metered rfl)⟩
  · rename_i other
    rintro hold ⟨⟩
    exact ⟨fresh_none, fun _ hosted => absurd (of_decide_eq_true hosted) other⟩

section Deliveries
variable (priced : Priced server.policy) {event : PushEvent} {fallback : Option (Program Unit)}
  (idles : Idles fallback) {delivery : String}
include priced idles

theorem minds_dispatchExisting (existing : Delivery) :
    (dispatchExisting server event existing delivery fallback).Follows
      (purses server.policy.minuteBudget.isSome) (fun _ _ => True) g := by
  refine follows_bind (follows_mono (minds_reserveFor priced existing.inputs) fun g' r reserved => ?_)
  cases r with
  | error e => trivial
  | ok taken =>
    obtain ⟨hold, refusal⟩ := taken
    simp only [before]
    split
    · exact keeps_idle (idle_send _ _)
    · obtain ⟨fresh, pays⟩ := reserved hold rfl
      refine follows_bind (follows_attempt (follows_mono (minds_dispatchRecord fresh pays) ?_))
      intro g₂ r leaves
      simp only [before]
      split
      · exact minds_returned leaves (idle_sendError _ _)
      · trivial
      · exact keeps_idle (idle_fallback idles)

theorem minds_redeliver (existing : Delivery) :
    (redeliver server event existing delivery fallback).Follows
      (purses server.policy.minuteBudget.isSome) (fun _ _ => True) g := by
  refine follows_bind (follows_idle (only_attempt (only_checkAdapter (fun _ => besides_idle) idles))
    fun r => ?_)
  cases r with
  | error e => trivial
  | ok checked =>
    simp only [before]
    split
    · exact keeps_idle (idle_sendError _ _)
    · exact keeps_idle (idle_sendError _ _)
    · trivial
    · trivial
    · exact minds_dispatchExisting priced idles existing

omit priced idles in
theorem minds_gaveBack {decision : RouteDecision} {reservation : Option (String × Nat)}
    {rest : Program Unit} (may : g.Returns decision.reservation) (only : rest.Only Call.idle) : (do
      giveBack server decision reservation
      rest : Program Unit).Follows (purses m) (fun _ _ => True) g := by
  refine follows_bind (follows_bind (follows_idle (idle_dropRunner reservation) fun r => ?_))
  cases r with
  | error e => trivial
  | ok _ =>
    refine follows_mono (follows_giveBack may) ?_
    rintro g' _ ⟨rfl, -⟩
    exact keeps_idle only

omit priced in
theorem minds_answerPush {header : Option String} {branch : String} {decision : RouteDecision}
    {reservation : Option (String × Nat)} {record : Delivery} {handled : Handled × String}
    (leaves : g.Leaves decision.reservation (.ok handled)) :
    (answerPush server header event branch delivery fallback decision reservation record handled).Follows
      (purses m) (fun _ _ => True) g := by
  unfold answerPush
  split
  · exact minds_gaveBack leaves (idle_send _ _)
  · split
    · exact keeps_idle (only_bind (idle_dropRunner _) fun _ => idle_send _ _)
    · exact keeps_idle (idle_send _ _)
  · exact keeps_idle (only_bind (idle_dropRunner _) fun _ => idle_fallback idles)

omit priced in
theorem minds_registerPush {header : Option String} {fingerprint branch : String}
    {decision : RouteDecision} {reservation : Option (String × Nat)}
    (decides : Decides server.policy g (.ok decision)) :
    (registerPush server header fingerprint event branch delivery fallback decision reservation).Follows
      (purses server.policy.minuteBudget.isSome) (fun _ _ => True) g := by
  obtain ⟨fresh, owes, owns⟩ := decides
  refine follows_bind (follows_attempt (follows_call trivial fun r => ?_))
  simp only [before]
  split
  · exact minds_gaveBack (fresh_returns fresh) (idle_sendError _ _)
  · trivial
  · rename_i record
    have fresh : ((purses server.policy.minuteBudget.isSome).note g (.register event.repository delivery
        fingerprint server.workflowFile branch (pushInputs decision) event.after) (.ok record)).Fresh
        decision.reservation := fresh
    split
    · exact minds_gaveBack (fresh_returns fresh) (idle_sendError _ _)
    · have pays : ((purses server.policy.minuteBudget.isSome).note g (.register event.repository delivery
          fingerprint server.workflowFile branch (pushInputs decision) event.after) (.ok record)).Pays
          server.policy.minuteBudget.isSome decision.reservation record.inputs := by
        intro metered hosted
        by_cases lane : decision.lane = hostedLane
        · exact Or.inl (owes metered lane)
        · have other : hostedInputs (pushInputs decision) = false := by
            simp [hostedInputs, pushInputs, lane]
          refine Or.inr ?_
          show (!hostedInputs (pushInputs decision) && hostedInputs record.inputs) = true
          rw [other, hosted]
          rfl
      refine follows_bind (follows_attempt (follows_mono (minds_dispatchRecord fresh pays) ?_))
      intro g' r leaves
      simp only [before]
      split
      · exact minds_gaveBack leaves (idle_sendError _ _)
      · trivial
      · exact minds_answerPush idles leaves

theorem minds_firstDelivery {header : Option String} {fingerprint branch : String} :
    (firstDelivery server header fingerprint event branch delivery fallback).Follows
      (purses server.policy.minuteBudget.isSome) (fun _ _ => True) g := by
  unfold firstDelivery
  split
  · exact keeps_idle (idle_sendError _ _)
  have decides : (decidePush server event fallback).Follows (purses server.policy.minuteBudget.isSome)
      (fun g' r => ∀ d reservation, r = .ok (some (d, reservation)) →
        Decides server.policy g' (.ok d)) g := by
    refine follows_bind (follows_idle (only_call trivial) fun r => ?_)
    cases r with
    | error e => rintro _ _ ⟨⟩
    | ok found =>
      simp only [before]
      split
      · refine follows_bind (follows_mono (minds_dispatchDecision priced _ _ _) fun g' r decides => ?_)
        cases r with
        | error e => rintro _ _ ⟨⟩
        | ok d =>
          rintro _ _ ⟨⟩
          exact decides
      · refine follows_bind (follows_idle (only_adapterAbsent (fun _ => telling_idle) idles) fun r => ?_)
        cases r <;> rintro _ _ ⟨⟩
  refine follows_bind (follows_attempt (follows_mono decides fun g' r decides => ?_))
  simp only [before]
  split
  · exact keeps_idle (idle_sendError _ _)
  · exact keeps_idle (idle_sendError _ _)
  · trivial
  · trivial
  · exact minds_registerPush idles (decides _ _ rfl)

theorem minds_dispatchPush {header : Option String} {fingerprint branch : String} :
    (dispatchPush server header fingerprint event branch fallback).Follows
      (purses server.policy.minuteBudget.isSome) (fun _ _ => True) g := by
  unfold dispatchPush
  split
  · exact keeps_idle (idle_sendError _ _)
  split
  · exact keeps_idle (idle_sendError _ _)
  refine follows_bind (follows_idle (only_attempt (only_call trivial)) fun known => ?_)
  cases known with
  | error e => trivial
  | ok known =>
    simp only [before]
    unfold answerLookup
    split
    · exact keeps_idle (idle_sendError _ _)
    · trivial
    unfold answerKnown
    simp only
    split
    · exact minds_firstDelivery priced idles
    split
    · exact keeps_idle (idle_sendError _ _)
    split
    · exact minds_redeliver priced idles _
    split
    · exact keeps_idle (idle_send _ _)
    · exact minds_firstDelivery priced idles

end Deliveries

theorem minds_pushWebhook (priced : Priced server.policy) (request : WebhookRequest) :
    (pushWebhook server request).Follows (purses server.policy.minuteBudget.isSome)
      (fun _ _ => True) g := by
  have direct {event : PushEvent} : (enqueueDirect server request.delivery event.repository event.after
      event.branch none []).Only Call.idle :=
    only_enqueueDirect (fun _ => telling_idle) trivial _
  unfold pushWebhook
  split
  · exact keeps_idle (idle_sendError _ _)
  split
  · exact keeps_idle (idle_sendError _ _)
  split
  · exact keeps_idle (idle_send _ _)
  split
  · exact keeps_idle (idle_send _ _)
  unfold handlePush
  simp only
  split
  · exact keeps_idle direct
  · refine minds_dispatchPush priced fun enqueue member => ?_
    obtain rfl := Option.mem_some_iff.mp member
    exact direct
  · exact minds_dispatchPush priced fun _ member => by cases member

theorem minds_webhook (priced : Priced server.policy) (request : WebhookRequest)
    (pulls : request.event = some "pull_request" → g.pulls = true) :
    (webhook server request).Follows (purses server.policy.minuteBudget.isSome) (fun _ _ => True) g := by
  unfold webhook
  split
  · exact keeps_idle (idle_sendError _ _)
  split
  · exact keeps_idle (idle_sendError _ _)
  split
  · exact keeps_idle (idle_sendError _ _)
  split
  · rename_i event
    exact minds_pullRequestWebhook priced _ _ (pulls event)
  split
  · exact minds_pushWebhook priced request
  · exact keeps_idle (idle_send _ _)

/-! ## Replays -/

theorem minds_replayRecord (priced : Priced server.policy) (record : Delivery) :
    (replayRecord server record).Follows (purses server.policy.minuteBudget.isSome)
      (fun _ _ => True) g := by
  have rejects {reason : String} {g' : Purse} : (do
      rejectAndHandOff server record reason
      pure none : Program (Option (Option Nat))).Follows (purses server.policy.minuteBudget.isSome)
        (fun g' r => ∀ hold, r = .ok (some hold) → g'.Fresh hold ∧
          g'.Pays server.policy.minuteBudget.isSome hold record.inputs) g' := by
    refine follows_bind (follows_idle (only_rejectAndHandOff (fun _ => besides_idle) trivial reason) ?_)
    intro r
    cases r <;> rintro _ ⟨⟩
  have ready : (replayHold server record).Follows (purses server.policy.minuteBudget.isSome)
      (fun g' r => ∀ hold, r = .ok (some hold) → g'.Fresh hold ∧
        g'.Pays server.policy.minuteBudget.isSome hold record.inputs) g := by
    unfold replayHold
    split
    · exact rejects
    · refine follows_bind (follows_idle (only_call trivial) fun r => ?_)
      cases r with
      | error e => rintro _ ⟨⟩
      | ok found =>
        simp only [before]
        split
        · refine follows_bind (follows_mono (minds_reserveFor priced record.inputs)
            fun g' r reserved => ?_)
          cases r with
          | error e => rintro _ ⟨⟩
          | ok taken =>
            obtain ⟨hold, refusal⟩ := taken
            cases refusal with
            | some reason => rintro _ ⟨⟩
            | none =>
              rintro _ ⟨⟩
              exact reserved hold rfl
        · exact rejects
  refine follows_bind (follows_attempt (follows_mono ready fun g' r ready => ?_))
  simp only [before]
  split
  · trivial
  · trivial
  · rename_i hold
    obtain ⟨fresh, pays⟩ := ready hold rfl
    refine follows_bind (follows_attempt
      (follows_bind (follows_mono (minds_dispatchRecord fresh pays) ?_)))
    intro g₂ r leaves
    cases r with
    | error e => exact follows_mono (follows_giveBack leaves) fun _ _ _ => trivial
    | ok handled =>
      obtain ⟨handled, text⟩ := handled
      simp only [before]
      split
      · rename_i rejected
        obtain rfl : handled = .state .rejected := of_decide_eq_true rejected
        refine follows_idle (only_handOff trivial) fun r => ?_
        cases r with
        | error e => exact follows_mono (follows_giveBack leaves) fun _ _ _ => trivial
        | ok _ => trivial
      · trivial

theorem minds_recoverReady (priced : Priced server.policy) :
    (recoverReady server).Follows (purses server.policy.minuteBudget.isSome) (fun _ _ => True) g := by
  unfold recoverReady
  split
  · trivial
  · refine follows_bind (follows_call trivial fun pending => ?_)
    cases pending with
    | error e => trivial
    | ok records =>
      exact follows_forEach (I := fun _ => True)
        (fun record _ g' _ => minds_replayRecord priced record) (fun _ _ _ => trivial) trivial

end Follows
end Cindral.Dispatch

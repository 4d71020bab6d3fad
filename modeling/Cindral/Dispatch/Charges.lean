import Cindral.Dispatch.AllowList
import Cindral.Dispatch.Course
import Cindral.Dispatch.Discipline

/-!
# What a hold is kept for

Three pieces of code read GitHub's answer to a hosted dispatch and give the hold back or keep it: the
dispatch endpoint's, the pull request handler's and the one the deliveries share. They do not agree,
and each ends every request of its own with the hold as its own reading has it.
-/

namespace Cindral.Dispatch
open Base Routing Script

/-- The three places that judge GitHub's answer. -/
inductive Judge where
  | endpoint | pullRequest | delivery
  deriving DecidableEq

/-- The ways in. A webhook is a push, first delivered or again, or a pull request. -/
inductive Way where
  | endpoint (request : DispatchRequest)
  | webhook (request : WebhookRequest)
  | replay (record : Delivery)

namespace Way

def program (server : Server) : Way → Program Unit
  | endpoint request => dispatchEndpoint server request
  | webhook request => Dispatch.webhook server request
  | replay record => replayRecord server record

def judge : Way → Judge
  | endpoint _ => .endpoint
  | webhook request => if request.event = some "pull_request" then .pullRequest else .delivery
  | replay _ => .delivery

end Way

/-- What has to go well for the hold to be kept or given back by the rule. -/
structure Judge.Sound (judge : Judge) (t : Course) : Prop where
  unsent : t.answer = none → t.stopped = false ∧ t.stuck = false
  definite : ∀ outcome, t.answer = some outcome → outcome.provesNoRun = true → t.stuck = false ∧
    (judge = .delivery → ∀ detail, outcome ≠ .refused 403 detail ∧ outcome ≠ .refused 429 detail)
  unclear : ∀ statusCode detail, t.answer = some (.refused statusCode detail) → 500 ≤ statusCode →
    judge = .pullRequest → t.stuck = true

/-! ## The judges -/

/-- The answers after which the code gives the hold back. -/
def Judge.gives : Judge → DispatchOutcome → Bool
  | endpoint, .refused statusCode _ => statusCode < 500
  | pullRequest, .refused _ _ => true
  | delivery, .refused statusCode _ => !refusalUncertain (some statusCode)
  | _, .unreachable _ => true
  | _, .accepted | _, .lost _ => false

/-- How a request can end with its hold: in hand or not, with which answer, stopped or stuck. -/
inductive Judge.Ends (judge : Judge) : Bool → Option DispatchOutcome → Bool → Bool → Prop
  | untouched : judge.Ends false none false false
  | adrift {stopped stuck : Bool} (why : stopped = true ∨ stuck = true) :
      judge.Ends true none stopped stuck
  | returned {outcome : DispatchOutcome} (gives : judge.gives outcome = true) :
      judge.Ends false (some outcome) false false
  | unreturned {outcome : DispatchOutcome} (gives : judge.gives outcome = true) :
      judge.Ends true (some outcome) false true
  | kept {outcome : DispatchOutcome} (keeps : judge.gives outcome = false) :
      judge.Ends true (some outcome) false false

/-- Below 500 an answer is definite for every judge, but for the 403 and 429 of a delivery. -/
theorem gives_definite {judge : Judge} {outcome : DispatchOutcome}
    (definite : outcome.provesNoRun = true) : judge.gives outcome = true ↔
      (judge = .delivery → ∀ detail, outcome ≠ .refused 403 detail ∧ outcome ≠ .refused 429 detail) := by
  cases outcome with
  | accepted | lost _ => cases definite
  | unreachable _ => cases judge <;> simp [Judge.gives]
  | refused statusCode detail =>
    have below : statusCode < 500 := by simpa [DispatchOutcome.provesNoRun] using definite
    cases judge with
    | endpoint | pullRequest => simp [Judge.gives, below]
    | delivery =>
      have clear : ¬500 ≤ statusCode := by omega
      simp only [Judge.gives, refusalUncertain, Option.any_some, clear, decide_false, Bool.false_or,
        Bool.not_or, Bool.and_eq_true, Bool.not_eq_true', decide_eq_false_iff_not, forall_const,
        DispatchOutcome.refused.injEq, ne_eq, not_and]
      constructor
      · exact fun other _ => ⟨fun same => absurd same other.1, fun same => absurd same other.2⟩
      · exact fun other => ⟨fun same => (other detail).1 same rfl, fun same => (other detail).2 same rfl⟩

/-- From 500 on only the pull request handler takes an answer for a definite one. -/
theorem gives_unclear {judge : Judge} {outcome : DispatchOutcome}
    (unclear : outcome.provesNoRun = false) : judge.gives outcome = true ↔
      ∃ statusCode detail, outcome = .refused statusCode detail ∧ 500 ≤ statusCode ∧
        judge = .pullRequest := by
  cases outcome with
  | unreachable _ => cases unclear
  | accepted | lost _ => cases judge <;> simp [Judge.gives]
  | refused statusCode detail =>
    have above : 500 ≤ statusCode := by simpa [DispatchOutcome.provesNoRun] using unclear
    cases judge <;> simp [Judge.gives, refusalUncertain, above]

theorem ends_sound {judge : Judge} {held : Bool} {t : Course}
    (ends : judge.Ends held t.answer t.stopped t.stuck) :
    (held = true ↔ ∃ outcome, t.answer = some outcome ∧ outcome.provesNoRun = false) ↔
      judge.Sound t := by
  obtain ⟨taken, inHand, answer, stopped, stuck⟩ := t
  dsimp only at ends ⊢
  have unsent (free : stopped = false ∧ stuck = false) :
      judge.Sound ⟨taken, inHand, none, stopped, stuck⟩ :=
    ⟨fun _ => free, fun _ same => (nomatch same), fun _ _ same => (nomatch same)⟩
  have sent (outcome : DispatchOutcome) : judge.Sound ⟨taken, inHand, some outcome, stopped, stuck⟩ ↔
      if outcome.provesNoRun then stuck = false ∧ judge.gives outcome = true
      else judge.gives outcome = true → stuck = true := by
    split
    · rename_i definite
      rw [gives_definite definite]
      constructor
      · exact fun sound => sound.definite outcome rfl definite
      · refine fun holds => ⟨fun same => (nomatch same), fun o same _ => ?_,
          fun code detail same high => ?_⟩
        · obtain rfl := Option.some.inj same
          exact holds
        · obtain rfl := Option.some.inj same
          simp only [DispatchOutcome.provesNoRun, decide_eq_true_eq] at definite
          omega
    · rename_i unclear
      have unclear := Bool.eq_false_of_not_eq_true unclear
      rw [gives_unclear unclear]
      constructor
      · rintro sound ⟨code, detail, rfl, high, pulls⟩
        exact sound.unclear code detail rfl high pulls
      · refine fun holds => ⟨fun same => (nomatch same), fun o same definite => ?_,
          fun code detail same high pulls => holds ⟨code, detail, Option.some.inj same, high, pulls⟩⟩
        obtain rfl := Option.some.inj same
        rw [unclear] at definite
        cases definite
  cases ends with
  | untouched => exact iff_of_true (by simp) (unsent ⟨rfl, rfl⟩)
  | adrift why =>
    refine iff_of_false (by simp) fun sound => ?_
    obtain ⟨unstopped, unstuck⟩ := sound.unsent rfl
    dsimp only at unstopped unstuck
    rw [unstopped, unstuck] at why
    simp at why
  | @returned outcome gives =>
    rw [sent]
    cases definite : outcome.provesNoRun <;> simp [definite, gives]
  | @unreturned outcome gives =>
    rw [sent]
    cases definite : outcome.provesNoRun <;> simp [definite, gives]
  | @kept outcome keeps =>
    rw [sent]
    cases definite : outcome.provesNoRun <;> simp [definite, keeps]

/-! ## After the dispatch -/

section Answers
variable {l : MeteredLedger} {judge : Judge} {hold : Option Nat} {held stopped stuck ledger : Bool}
  {answer : Option DispatchOutcome} {outcome : DispatchOutcome} {s : World × Course} {α : Type}
  {program : Program α}

/-- The request stands as it may end. -/
def Settled (judge : Judge) (l : MeteredLedger) (s : World × Course) : Prop :=
  ∃ held answer stopped stuck, Phase l held answer stopped stuck s ∧ judge.Ends held answer stopped stuck

/-- Nothing the request has met forbids that the hold goes back. -/
def Returnable (judge : Judge) (l : MeteredLedger) (hold : Option Nat) (s : World × Course) : Prop :=
  ∃ held answer stuck, Bears l hold held answer false stuck s ∧ (held = false → stuck = false) ∧
    ∀ outcome, answer = some outcome → judge.gives outcome = true

/-- The hold was given back, or the ledger failed to take it. -/
def Returned (judge : Judge) (l : MeteredLedger) (hold : Option Nat) (s : World × Course) : Prop :=
  ∃ answer stuck, Bears l hold stuck answer false stuck s ∧
    ∀ outcome, answer = some outcome → judge.gives outcome = true

theorem clear_settled (h : Clear l s) : Settled judge l s := ⟨_, _, _, _, h, .untouched⟩

theorem bears_settled (h : Bears l hold held answer stopped stuck s)
    (ends : judge.Ends held answer stopped stuck) : Settled judge l s := by
  rcases h with ⟨-, clear⟩ | ⟨-, phase⟩
  · exact clear_settled clear
  · exact ⟨_, _, _, _, phase, ends⟩

theorem returned_settled (h : Returned judge l hold s) : Settled judge l s := by
  obtain ⟨answer, stuck, bears, gives⟩ := h
  refine bears_settled bears ?_
  cases answer with
  | none =>
    cases stuck with
    | false => exact .untouched
    | true => exact .adrift (Or.inr rfl)
  | some outcome =>
    cases stuck with
    | false => exact .returned (gives outcome rfl)
    | true => exact .unreturned (gives outcome rfl)

theorem returned_again (h : Returned judge l hold s) : Returnable judge l hold s := by
  obtain ⟨answer, stuck, bears, gives⟩ := h
  exact ⟨stuck, answer, stuck, bears, id, gives⟩

/-- A hold that no dispatch went out for. -/
theorem unsent_returnable (h : Bears l hold true none false false s) : Returnable judge l hold s :=
  ⟨true, none, false, h, fun _ => rfl, fun _ same => nomatch same⟩

theorem noted_returned (given : hold.isSome → ledger = true) (h : Returnable judge l hold s) :
    Noted (releaseReservation ledger hold) s fun r s' => r = .ok () ∧ Returned judge l hold s' := by
  obtain ⟨held, answer, stuck, bears, fresh, gives⟩ := h
  refine ensures_mono (noted_releaseReservation given bears fresh) fun r s' left => ⟨left.1, ?_⟩
  exact left.2.elim (fun back => ⟨answer, false, back, gives⟩) fun failed => ⟨answer, held, failed, gives⟩

/-- What a request says or does beside its hold leaves it settled. -/
theorem noted_settled (only : program.Only (Call.still True True)) (h : Settled judge l s) :
    Noted program s fun _ s' => Settled judge l s' := by
  refine ensures_only (I := Settled judge l) (fun k s c r s' still now performed => ?_) only h
  obtain ⟨held, answer, stopped, stuck, phase, ends⟩ := now
  have still : c.still (held = true) True := by
    cases c with
    | dispatch _ => exact absurd trivial still
    | _ => exact still
  by_cases quiet : held = false ∨ answer ≠ none ∨ stopped = true
  · exact ⟨_, _, _, _, still_phase True (fun _ => quiet) phase performed still, ends⟩
  · cases ends with
    | untouched => exact absurd (Or.inl rfl) quiet
    | returned _ | unreturned _ | kept _ => exact absurd (Or.inr (Or.inl (Option.some_ne_none _))) quiet
    | adrift why =>
      cases c with
      | postStatus _ _ _ _ =>
        rcases status_phase phase performed with ⟨-, same⟩ | ⟨-, noted⟩
        · exact ⟨_, _, _, _, same, .adrift why⟩
        · exact ⟨_, _, _, _, noted, .adrift (Or.inl (by simp))⟩
      | _ => exact ⟨_, _, _, _, still_phase False False.elim phase performed still, .adrift why⟩

theorem noted_returnable (only : program.Only (Call.still True False)) (h : Returnable judge l hold s) :
    Noted program s fun _ s' => Returnable judge l hold s' := by
  obtain ⟨held, answer, stuck, bears, fresh, gives⟩ := h
  refine ensures_mono (noted_bears False False.elim only bears) fun _ _ bears => ?_
  exact ⟨held, answer, stuck, bears, fresh, gives⟩

theorem noted_releaseIf {definite : Bool} (given : hold.isSome → ledger = true)
    (judged : judge.gives outcome = definite) (h : Bears l hold true (some outcome) false false s) :
    Noted (releaseIf definite ledger hold) s fun r s' => r = .ok () ∧
      if definite then Returned judge l hold s' else Settled judge l s' := by
  unfold releaseIf
  split
  · rename_i gives
    refine noted_returned given ⟨true, _, false, h, fun _ => rfl, fun o same => ?_⟩
    obtain rfl := Option.some.inj same
    exact judged.trans gives
  · rename_i keeps
    exact ensures_done ⟨rfl, bears_settled h (.kept (judged.trans (Bool.eq_false_of_not_eq_true keeps)))⟩

theorem tells_still {held : Prop} {c : Call} (tells : c.telling) : c.still held True :=
  telling_still trivial tells

theorem only_dropRunner_still (reservation : Option (String × Nat)) {steady : Prop} :
    (dropRunner reservation).Only (Call.still True steady) :=
  only_dropRunner_of trivial trivial (fun _ _ => trivial) reservation

end Answers

/-! ## The dispatch endpoint -/

section Endpoint
variable {l : MeteredLedger} {server : Server} {s : World × Course} {judge : Judge} {α : Type}
  {program : Program α}

/-- Without a hold in hand, a script that leaves the count alone ends as it began. -/
theorem settles_clear (only : program.Only Call.unmetered) (h : Clear l s) :
    Noted program s fun _ s' => Settled judge l s' :=
  ensures_mono (noted_clear only h) fun _ _ => clear_settled

/-- A request that got no decision has no hold, or one that the ledger failed to take back. -/
theorem undecided_settled {e : Raised} (h : Undecided l e s) : Settled judge l s := by
  rcases h with clear | ⟨-, failed⟩
  · exact clear_settled clear
  · exact ⟨_, _, _, _, failed, .adrift (Or.inr rfl)⟩

theorem tells_unmetered (c : Call) (tells : c.telling) : c.unmetered := telling_unmetered tells

theorem noted_sendError {status : Nat} {text : String} (h : Clear l s) :
    Noted (sendError status text) s fun _ s' => Settled judge l s' :=
  settles_clear (tells_sendError tells_unmetered _ _) h

theorem noted_send {status : Nat} {body : List (String × Json)} (h : Clear l s) :
    Noted (send status body) s fun _ s' => Settled judge l s' :=
  settles_clear (tells_send tells_unmetered _ _) h

theorem noted_dispatchToGithub {decision : RouteDecision} {inputs : List (String × String)}
    (given : decision.reservation.isSome → server.jobsDb = true)
    (lane : decision.reservation.isSome → inputs.lookup "cindral_lane" = some hostedLane)
    (h : Bears l decision.reservation true none false false s) (repository workflow ref : String)
    (reservation : Option (String × Nat)) :
    Noted (dispatchToGithub server repository workflow ref inputs reservation decision) s
      fun _ s' => Settled .endpoint l s' := by
  have refuses (text : String) {s' : World × Course} (h : Settled .endpoint l s') : Noted (do
      dropRunner reservation
      sendError 502 text : Program Unit) s' fun _ s' => Settled .endpoint l s' :=
    noted_settled (only_bind (only_dropRunner_still reservation) fun _ =>
      tells_sendError (fun _ => tells_still) _ _) h
  have definite {outcome : DispatchOutcome} {s' : World × Course} {statusCode : Option Nat}
      (text : String)
      (judged : Judge.endpoint.gives outcome = statusCode.all (· < 500))
      (sent : Bears l decision.reservation true (some outcome) false false s') :
      Noted (do
        releaseIf (statusCode.all (· < 500)) server.jobsDb decision.reservation
        dropRunner reservation
        sendError 502 text : Program Unit) s' fun _ s' => Settled .endpoint l s' := by
    refine ensures_bind (ensures_mono (noted_releaseIf given judged sent) ?_)
    rintro _ s₂ ⟨rfl, answered⟩
    refine refuses text ?_
    split at answered
    · exact returned_settled answered
    · exact answered
  refine ensures_try (ensures_mono (noted_dispatch lane h) ?_)
  rintro _ s' (⟨stopped, text, rfl⟩ | ⟨outcome, sent, rfl⟩)
  · exact refuses _ (bears_settled stopped (.adrift (Or.inl rfl)))
  · cases outcome with
    | accepted =>
      refine ensures_bind (ensures_mono (noted_nameHold given sent repository workflow ref) ?_)
      rintro _ s₂ ⟨rfl, named⟩
      exact noted_settled (tells_send (fun _ => tells_still) _ _) (bears_settled named (.kept rfl))
    | refused statusCode detail => exact definite _ rfl sent
    | unreachable reason => exact definite _ rfl sent
    | lost text => exact refuses _ (bears_settled sent (.kept rfl))

variable (attached : Attached server)
include attached

theorem attached_gives : Gives server.policy := fun ceiling => (attached ceiling).1

theorem noted_dispatchChecked (route : RouteRequest) (repository workflow ref : String)
    (inputs : List (String × String)) (h : Clear l s) :
    Noted (dispatchChecked server route repository workflow ref inputs) s
      fun _ s' => Settled .endpoint l s' := by
  refine ensures_try (ensures_mono (noted_dispatchDecision (attached_gives attached) route repository
    false h) ?_)
  intro r s' decided
  split
  · exact noted_sendError (undecided_clear (by rintro _ ⟨⟩) decided)
  · exact noted_sendError (undecided_clear (by rintro _ ⟨⟩) decided)
  · exact ensures_fail (undecided_settled decided)
  · rename_i d reservation
    obtain ⟨bears, own⟩ := decided
    refine noted_dispatchToGithub (fun some => (attached (own some).2).2) (fun some => ?_) bears _ _ _ _
    have lane : d.lane = hostedLane := (own some).1
    simp [lookup_setInput, lane]

theorem noted_dispatchEndpoint (request : DispatchRequest) (h : Clear l s) :
    Noted (dispatchEndpoint server request) s fun _ s' => Settled .endpoint l s' := by
  unfold dispatchEndpoint
  split
  · exact noted_sendError h
  split
  · exact noted_sendError h
  split
  · exact noted_sendError h
  · exact noted_sendError h
  · exact noted_sendError h
  split
  · exact noted_sendError h
  split
  · exact noted_sendError h
  · exact noted_dispatchChecked attached _ _ _ _ _ h

end Endpoint

/-! ## Pull requests -/

section PullRequests
variable {l : MeteredLedger} {server : Server} {s : World × Course} {hold : Option Nat}

/-- The pending status of a pull request leaves the hold alone, or stops the handler. -/
theorem noted_pullRequestStatus (event : PullRequestEvent) (state : Queue.CommitState)
    (description : String) (h : Bears l hold true none false false s) :
    Noted (postPullRequestStatus server event state description) s fun r s' =>
      (∃ posted, r = .ok posted) ∧ Bears l hold true none false false s' ∨
        (∃ e, r = .error e) ∧ Settled .pullRequest l s' := by
  have posted {k : Choice} {r : Except Raised Unit} {s' : World × Course} {repository sha : String}
      (performed : noting perform Course.note k s (.postStatus repository sha state description) =
        some (r, s')) :
      (r = .ok () ∨ ∃ text, r = .error (.githubApiError text)) ∧ Bears l hold true none false false s' ∨
        (∃ text, r = .error (.other text)) ∧ Settled .pullRequest l s' := by
    rcases h with ⟨free, clear⟩ | ⟨own, phase⟩
    · exact (status_phase clear performed).imp (And.imp_right fun clear => Or.inl ⟨free, clear⟩)
        (And.imp_right fun clear => clear_settled clear)
    · refine (status_phase phase performed).imp (And.imp_right fun phase => Or.inr ⟨own, phase⟩) ?_
      exact And.imp_right fun phase => ⟨_, _, _, _, phase, .adrift (Or.inl rfl)⟩
  unfold postPullRequestStatus
  split
  · exact ensures_done (Or.inl ⟨⟨_, rfl⟩, h⟩)
  · refine ensures_try (ensures_call fun k r s' performed => ?_)
    rcases posted performed with ⟨rfl | ⟨text, rfl⟩, bears⟩ | ⟨⟨text, rfl⟩, settled⟩
    · exact ensures_done (Or.inl ⟨⟨_, rfl⟩, bears⟩)
    · exact ensures_done (Or.inl ⟨⟨_, rfl⟩, bears⟩)
    · exact ensures_fail (Or.inr ⟨⟨_, rfl⟩, settled⟩)

theorem noted_answerPullRequest {delivery : Option String} {event : PullRequestEvent}
    {decision : RouteDecision} {posted : Bool} {outcome : DispatchOutcome}
    (given : decision.reservation.isSome → server.jobsDb = true)
    (h : Bears l decision.reservation true (some outcome) false false s) :
    Noted (answerPullRequest server delivery event decision posted
      (outcome.raised.elim (.ok ()) .error)) s
      fun _ s' => Settled .pullRequest l s' := by
  have tells {state : Queue.CommitState} {description text : String} {s' : World × Course}
      (h : Settled .pullRequest l s') : Noted (do
        let _ ← postPullRequestStatus server event state description
        sendError 502 text : Program Unit) s' fun _ s' => Settled .pullRequest l s' :=
    noted_settled (only_bind (tells_pullRequestStatus fun _ => tells_still) fun _ =>
      tells_sendError (fun _ => tells_still) _ _) h
  have refused {text : String} {statusCode : Option Nat}
      (gives : Judge.pullRequest.gives outcome = true) :
      Noted (answerPullRequest server delivery event decision posted
        (.error (.githubDispatchError text statusCode))) s fun _ s' => Settled .pullRequest l s' := by
    have returnable : Returnable .pullRequest l decision.reservation s := by
      refine ⟨true, _, false, h, fun _ => rfl, fun o same => ?_⟩
      obtain rfl := Option.some.inj same
      exact gives
    refine ensures_bind (ensures_mono (noted_returned given returnable) ?_)
    rintro _ s₂ ⟨rfl, returned⟩
    exact tells (returned_settled returned)
  cases outcome with
  | accepted =>
    refine ensures_bind (ensures_mono (noted_nameHold given h _ _ _) ?_)
    rintro _ s₂ ⟨rfl, named⟩
    exact noted_settled (tells_send (fun _ => tells_still) _ _) (bears_settled named (.kept rfl))
  | refused statusCode detail => exact refused rfl
  | unreachable reason => exact refused rfl
  | lost text => exact tells (bears_settled h (.kept rfl))

variable (attached : Attached server)
include attached

theorem noted_sendPullRequest {delivery : Option String} {event : PullRequestEvent}
    {decision : RouteDecision} (h : Decided server.policy l (.ok decision) s) :
    Noted (sendPullRequest server delivery event decision) s fun _ s' => Settled .pullRequest l s' := by
  obtain ⟨bears, own⟩ := h
  refine ensures_bind (ensures_mono (noted_pullRequestStatus event .pending _ bears) ?_)
  rintro _ s₂ (⟨⟨posted, rfl⟩, bears⟩ | ⟨⟨e, rfl⟩, settled⟩)
  · refine ensures_try (ensures_mono (noted_dispatch (fun some => ?_) bears) ?_)
    · have lane : decision.lane = hostedLane := (own some).1
      simp [pullRequestInputs, lane]
    · rintro _ s₃ (⟨stopped, text, rfl⟩ | ⟨outcome, sent, rfl⟩)
      · refine noted_settled ?_ (bears_settled stopped (.adrift (Or.inl rfl)))
        exact only_bind (tells_pullRequestStatus fun _ => tells_still) fun _ =>
          tells_sendError (fun _ => tells_still) _ _
      · exact noted_answerPullRequest (fun some => (attached (own some).2).2) sent
  · exact settled

theorem noted_handlePullRequest (delivery : Option String) (event : PullRequestEvent) (h : Clear l s) :
    Noted (handlePullRequest server delivery event) s fun _ s' => Settled .pullRequest l s' := by
  unfold handlePullRequest
  split
  · exact noted_sendError h
  split
  · exact noted_send h
  split
  · exact settles_clear (only_bind (only_resolveRunSha trivial) fun _ =>
      only_enqueueDirect tells_unmetered trivial _) h
  split
  · exact noted_sendError h
  refine ensures_try (ensures_mono (noted_clear (only_call trivial) h) fun r s₂ clear => ?_)
  split
  · exact noted_sendError clear
  · exact ensures_fail (clear_settled clear)
  · exact settles_clear (only_bind (tells_pullRequestStatus tells_unmetered) fun _ =>
      tells_send tells_unmetered _ _) clear
  · refine ensures_try (ensures_mono (noted_choose (attached_gives attached) _ _ clear) ?_)
    intro r s₃ decided
    split
    · exact noted_sendError (undecided_clear (by rintro _ ⟨⟩) decided)
    · exact ensures_fail (undecided_settled decided)
    · exact noted_sendPullRequest attached decided

theorem noted_pullRequestWebhook (delivery : Option String) (payload : Option Json) (h : Clear l s) :
    Noted (pullRequestWebhook server delivery payload) s fun _ s' => Settled .pullRequest l s' := by
  unfold pullRequestWebhook
  split
  · exact noted_sendError h
  · exact noted_handlePullRequest attached delivery _ h

end PullRequests

/-! ## Deliveries -/

section Deliveries
variable {l : MeteredLedger} {server : Server} {s s' : World × Course} {hold : Option Nat} {ledger : Bool}
  {k : Choice} {record : Delivery} {outcome : DispatchOutcome} {event : PushEvent}
  {fallback : Option (Program Unit)} {delivery : String}

/-- What `dispatch_record` leaves to its caller. A delivery that is not sent, or that GitHub turns
away, has its hold given back already. -/
def Handed (l : MeteredLedger) (hold : Option Nat) :
    Except Raised (Handled × String) → World × Course → Prop
  | .ok (.state .rejected, _), s | .ok (.duplicate, _), s => Returned .delivery l hold s
  | .ok _, s => Settled .delivery l s
  | .error e, s => (∃ text, e = .sqliteError text) ∧ Returnable .delivery l hold s

theorem returned_handed (handled : Handled × String) (h : Returned .delivery l hold s) :
    Handed l hold (.ok handled) s := by
  obtain ⟨handled, text⟩ := handled
  cases handled with
  | duplicate => exact h
  | state state =>
    cases state with
    | rejected => exact h
    | _ => exact returned_settled h

theorem handed_settled {handled : Handled × String} (h : Handed l hold (.ok handled) s) :
    Settled .delivery l s := by
  obtain ⟨handled, text⟩ := handled
  cases handled with
  | duplicate => exact returned_settled h
  | state state =>
    cases state with
    | rejected => exact returned_settled h
    | _ => exact h

/-- A statement on the delivery ledger fails with SQLite's error only. -/
def Call.recording : Call → Prop
  | .register _ _ _ _ _ _ _ | .claimDelivery _ _ | .getDelivery _ _ => True
  | _ => False

theorem recording_raises {c : Call} {e : Raised}
    (performed : noting perform Course.note k s c = some (.error e, s')) (h : c.recording) :
    ∃ text, e = .sqliteError text := by
  rcases perform_cases (noting_eq performed).1 with ⟨e', -, possible, same, -⟩ | ⟨-, answered⟩
  · obtain rfl := Except.error.inj same
    cases c with
    | register _ _ _ _ _ _ _ | claimDelivery _ _ | getDelivery _ _ =>
      cases e with
      | sqliteError text => exact ⟨text, rfl⟩
      | _ => cases possible
    | _ => exact h.elim
  · cases c with
    | register _ _ _ _ _ _ _ | claimDelivery _ _ | getDelivery _ _ =>
      cases (Prod.mk.inj (Option.some.inj answered)).1
    | _ => exact h.elim

theorem finishRecord_tells {state : DeliveryState} {error : String} (terminal : state.terminal = true) :
    Noted (finishRecord record state error) s fun r _ =>
      ∃ said text, r = .ok (.state said, text) ∧ (said = state ∨ said = .uncertain) := by
  refine ensures_try (ensures_call fun k r s' performed => ?_)
  have said : r = .ok () ∨ (∃ text, r = .error (.sqliteError text)) ∨
      ∃ text, r = .error (.runtimeError text) := by
    rcases perform_cases (noting_eq performed).1 with ⟨e, -, possible, rfl, -⟩ | ⟨-, answered⟩
    · cases e with
      | sqliteError text => exact Or.inr (Or.inl ⟨text, rfl⟩)
      | _ => cases possible
    · simp only [answer, terminal, Bool.not_true, Bool.false_eq_true, if_false] at answered
      have told := (Prod.mk.inj (Option.some.inj answered)).1
      split at told
      · exact Or.inl told.symm
      · exact Or.inr (Or.inr ⟨_, told.symm⟩)
  rcases said with rfl | ⟨text, rfl⟩ | ⟨text, rfl⟩
  · exact ensures_done ⟨_, _, rfl, Or.inl rfl⟩
  · exact ensures_done ⟨_, _, rfl, Or.inr rfl⟩
  · exact ensures_done ⟨_, _, rfl, Or.inr rfl⟩

theorem only_finishRecord_still {state : DeliveryState} {error : String} {steady : Prop} :
    (finishRecord record state error).Only (Call.still True steady) := by
  refine only_bind (only_attempt (only_call trivial)) fun outcome => ?_
  split <;> trivial

/-- A delivery that is finished otherwise than as rejected stays as it stands. -/
theorem noted_finishOther {state : DeliveryState} {error : String} (terminal : state.terminal = true)
    (other : state ≠ .rejected) (h : Settled .delivery l s) :
    Noted (finishRecord record state error) s (Handed l hold) := by
  refine ensures_mono (ensures_and (finishRecord_tells terminal)
    (noted_settled only_finishRecord_still h)) ?_
  rintro r s' ⟨⟨said, text, rfl, same⟩, settled⟩
  cases said with
  | rejected => rcases same with rfl | same <;> contradiction
  | _ => exact settled

theorem noted_finishRejected {error : String} (h : Returned .delivery l hold s) :
    Noted (finishRecord record .rejected error) s (Handed l hold) := by
  obtain ⟨answer, stuck, bears, gives⟩ := h
  refine ensures_mono (ensures_and (finishRecord_tells rfl)
    (noted_bears False False.elim only_finishRecord_still bears)) ?_
  rintro r s' ⟨⟨said, text, rfl, -⟩, bears⟩
  exact returned_handed _ ⟨answer, stuck, bears, gives⟩

/-- An exception that is not the client's own leaves the delivery uncertain, and its hold alone. -/
theorem noted_recordUnclear {text : String} (h : Settled .delivery l s) :
    Noted (recordOutcome record ledger hold (.error (.other text))) s (Handed l hold) := by
  refine ensures_bind (ensures_mono (ensures_and (finishRecord_tells rfl)
    (noted_settled only_finishRecord_still h)) ?_)
  rintro r s' ⟨⟨said, text, rfl, rfl | rfl⟩, settled⟩
  · exact ensures_done settled
  · exact ensures_done settled

theorem noted_recordOutcome (given : hold.isSome → ledger = true)
    (h : Bears l hold true (some outcome) false false s) :
    Noted (recordOutcome record ledger hold (outcome.raised.elim (.ok ()) .error)) s (Handed l hold) := by
  have refused {statusCode : Option Nat} {text : String}
      (judged : Judge.delivery.gives outcome = !refusalUncertain statusCode) :
      Noted (recordOutcome record ledger hold (.error (.githubDispatchError text statusCode))) s
        (Handed l hold) := by
    cases unclear : refusalUncertain statusCode with
    | true =>
      rw [unclear] at judged
      simp only [recordOutcome, unclear, if_true]
      refine ensures_bind (ensures_mono (noted_releaseIf given judged h) ?_)
      rintro _ s₂ ⟨rfl, settled⟩
      exact noted_finishOther rfl nofun settled
    | false =>
      rw [unclear] at judged
      simp only [recordOutcome, unclear, Bool.false_eq_true, if_false]
      refine ensures_bind (ensures_mono (noted_releaseIf given judged h) ?_)
      rintro _ s₂ ⟨rfl, returned⟩
      exact noted_finishRejected returned
  cases outcome with
  | accepted =>
    refine ensures_bind (ensures_mono (noted_nameHold given h _ _ _) ?_)
    rintro _ s₂ ⟨rfl, named⟩
    exact noted_finishOther rfl nofun (bears_settled named (.kept rfl))
  | refused statusCode detail => exact refused rfl
  | unreachable reason => exact refused rfl
  | lost text => exact noted_recordUnclear (bears_settled h (.kept rfl))

theorem noted_dispatchRecord (given : hold.isSome → ledger = true)
    (lane : hold.isSome → record.inputs.lookup "cindral_lane" = some hostedLane)
    (h : Bears l hold true none false false s) :
    Noted (dispatchRecord record ledger hold) s (Handed l hold) := by
  refine ensures_bind (ensures_call fun k r s₂ performed => ?_)
  have bears := bears_still False False.elim h performed trivial
  cases r with
  | error e => exact ⟨recording_raises performed trivial, unsent_returnable bears⟩
  | ok claimed =>
    simp only [onward]
    split
    · refine ensures_try (ensures_mono (noted_dispatch lane bears) ?_)
      rintro _ s₃ (⟨stopped, text, rfl⟩ | ⟨outcome, sent, rfl⟩)
      · exact noted_recordUnclear (bears_settled stopped (.adrift (Or.inl rfl)))
      · exact noted_recordOutcome given sent
    · have returnable : Returnable .delivery l hold s₂ := unsent_returnable bears
      refine ensures_bind (ensures_mono (noted_returned given returnable) ?_)
      rintro _ s₃ ⟨rfl, answer, stuck, bears, gives⟩
      refine ensures_bind (ensures_call fun k r s₄ performed => ?_)
      have returned : Returned .delivery l hold s₄ :=
        ⟨answer, stuck, bears_still False False.elim bears performed trivial, gives⟩
      cases r with
      | error e => exact ⟨recording_raises performed trivial, returned_again returned⟩
      | ok current =>
        simp only [onward]
        split
        · exact ensures_done (returned_handed _ returned)
        · split
          · exact ensures_done (returned_handed _ returned)
          · exact ensures_done (returned_handed _ returned)

theorem still_unmetered {steady : Prop} (c : Call) (h : c.still True steady) : c.unmetered := by
  cases c with
  | reserve _ _ | release _ | attributeHold _ _ _ _ => exact h.elim
  | _ => trivial

/-- The job a push falls back to moves no hold. -/
def Unheld (fallback : Option (Program Unit)) : Prop :=
  ∀ enqueue ∈ fallback, enqueue.Only (Call.still True True)

theorem spare_unmetered (spare : Unheld fallback) : ∀ enqueue ∈ fallback, enqueue.Only Call.unmetered :=
  fun enqueue member => only_mono (spare enqueue member) still_unmetered

theorem only_fallback {b : Bool} {status : Nat} {body : List (String × Json)} (spare : Unheld fallback) :
    (match if b then fallback else none with
      | some enqueue => enqueue
      | none => send status body : Program Unit).Only (Call.still True True) := by
  split
  · rename_i enqueue chosen
    split at chosen
    · exact spare enqueue chosen
    · cases chosen
  · exact tells_send (fun _ => tells_still) _ _

/-- A hold for a request whose lane is known is for the hosted lane. -/
theorem noted_reserveFor (inputs : List (String × String)) (h : Clear l s) :
    Noted (reserveFor server.policy inputs) s fun r s' => Reserved server.policy l r s' ∧
      ∀ hold refusal, r = .ok (hold, refusal) → hold.isSome →
        inputs.lookup "cindral_lane" = some hostedLane := by
  unfold reserveFor
  split
  · rename_i hosted
    exact ensures_mono (noted_reserveMetered _ h) fun r s' reserved => ⟨reserved, fun _ _ _ _ => hosted⟩
  · refine ensures_done ⟨⟨clear_bears rfl h, fun some => nomatch some⟩, ?_⟩
    rintro hold refusal ⟨⟩ some
    cases some

variable (attached : Attached server)
include attached

theorem noted_dispatchExisting {existing : Delivery} (spare : Unheld fallback) (h : Clear l s) :
    Noted (dispatchExisting server event existing delivery fallback) s
      fun _ s' => Settled .delivery l s' := by
  refine ensures_bind (ensures_mono (noted_reserveFor existing.inputs h) ?_)
  rintro r s₂ ⟨reserved, lane⟩
  cases r with
  | error e => exact clear_settled reserved
  | ok taken =>
    obtain ⟨hold, refusal⟩ := taken
    simp only [onward]
    split
    · exact noted_send (reserved_refused reserved)
    · obtain ⟨bears, own⟩ := reserved
      have given : hold.isSome → server.jobsDb = true := fun some => (attached (own some).2).2
      refine ensures_try (ensures_mono (noted_dispatchRecord given (lane _ _ rfl) bears) ?_)
      intro r s₃ handed
      split
      · refine ensures_bind (ensures_mono (noted_returned given handed.2) ?_)
        rintro _ s₄ ⟨rfl, returned⟩
        exact noted_settled (tells_sendError (fun _ => tells_still) _ _) (returned_settled returned)
      · rename_i e other
        obtain ⟨⟨text, rfl⟩, -⟩ := handed
        exact absurd rfl (other text)
      · exact noted_settled (only_fallback spare) (handed_settled handed)

theorem noted_redeliver {existing : Delivery} (spare : Unheld fallback) (h : Clear l s) :
    Noted (redeliver server event existing delivery fallback) s fun _ s' => Settled .delivery l s' := by
  refine ensures_try (ensures_mono (noted_clear
    (only_checkAdapter (fun _ => besides_unmetered) (spare_unmetered spare)) h) fun r s₂ clear => ?_)
  split
  · exact noted_sendError clear
  · exact noted_sendError clear
  · exact ensures_fail (clear_settled clear)
  · exact ensures_done (clear_settled clear)
  · exact noted_dispatchExisting attached spare clear

/-! ## First deliveries -/

omit attached in
theorem dropRunner_runs (reservation : Option (String × Nat)) :
    Noted (dropRunner reservation) s fun r _ => r = .ok () := by
  unfold dropRunner
  split
  · exact ensures_done rfl
  · refine noted_holding trivial trivial (fun _ _ _ same _ _ => same) fun s₂ _ _ =>
      ensures_call fun k r s₃ performed => ?_
    obtain ⟨⟨⟨⟩, rfl⟩, -, -⟩ := sure_keeps (c := .dropReservation _ _) trivial performed
    rfl

omit attached in
theorem noted_giveBack {decision : RouteDecision} {reservation : Option (String × Nat)}
    (given : decision.reservation.isSome → server.jobsDb = true)
    (h : Returnable .delivery l decision.reservation s) :
    Noted (giveBack server decision reservation) s fun r s' =>
      r = .ok () ∧ Returned .delivery l decision.reservation s' := by
  refine ensures_bind (ensures_mono (ensures_and (dropRunner_runs reservation)
    (noted_returnable (only_dropRunner_still reservation) h)) ?_)
  rintro _ s₂ ⟨rfl, returnable⟩
  exact noted_returned given returnable

omit attached in
/-- A row that the ledger did not have is stored as it was handed in. -/
theorem register_fresh {repository fingerprint workflow ref sha : String}
    {inputs : List (String × String)}
    (absent : s.1.deliveries.get repository delivery = none)
    (performed : noting perform Course.note k s
      (.register repository delivery fingerprint workflow ref inputs sha) = some (.ok record, s')) :
    record.inputs = inputs := by
  rcases perform_cases (noting_eq performed).1 with ⟨e, -, -, same, -⟩ | ⟨-, answered⟩
  · cases same
  · have stored := Except.ok.inj (Prod.mk.inj (Option.some.inj answered)).1
    have unknown : s.1.deliveries.find? (lower repository, delivery) = none := absent
    simp only [Deliveries.register, Delivery.key, unknown] at stored
    rw [← stored]

omit attached in
theorem noted_answerPush {header : Option String} {branch : String} {decision : RouteDecision}
    {reservation : Option (String × Nat)} {handled : Handled × String} (spare : Unheld fallback)
    (given : decision.reservation.isSome → server.jobsDb = true)
    (h : Handed l decision.reservation (.ok handled) s) :
    Noted (answerPush server header event branch delivery fallback decision reservation record handled) s
      fun _ s' => Settled .delivery l s' := by
  have drops {after : Program Unit} (only : after.Only (Call.still True True)) :
      (do
        dropRunner reservation
        after : Program Unit).Only (Call.still True True) :=
    only_bind (only_dropRunner_still reservation) fun _ => only
  unfold answerPush
  split
  · refine ensures_bind (ensures_mono (noted_giveBack given (returned_again h)) ?_)
    rintro _ s₂ ⟨rfl, returned⟩
    exact noted_settled (tells_send (fun _ => tells_still) _ _) (returned_settled returned)
  · split
    · exact noted_settled (drops (tells_send (fun _ => tells_still) _ _)) (handed_settled h)
    · exact noted_settled (tells_send (fun _ => tells_still) _ _) (handed_settled h)
  · exact noted_settled (drops (only_fallback spare)) (handed_settled h)

theorem noted_registerPush {header : Option String} {fingerprint branch : String}
    {decision : RouteDecision} {reservation : Option (String × Nat)} (spare : Unheld fallback)
    (absent : s.1.deliveries.get event.repository delivery = none)
    (h : Decided server.policy l (.ok decision) s) :
    Noted (registerPush server header fingerprint event branch delivery fallback decision reservation) s
      fun _ s' => Settled .delivery l s' := by
  obtain ⟨bears, own⟩ := h
  have given : decision.reservation.isSome → server.jobsDb = true := fun some => (attached (own some).2).2
  have gone {status : Nat} {text : String} {s' : World × Course}
      (h : Returnable .delivery l decision.reservation s') :
      Noted (do
        giveBack server decision reservation
        sendError status text : Program Unit) s' fun _ s' => Settled .delivery l s' := by
    refine ensures_bind (ensures_mono (noted_giveBack given h) ?_)
    rintro _ s₂ ⟨rfl, returned⟩
    exact noted_settled (tells_sendError (fun _ => tells_still) _ _) (returned_settled returned)
  refine ensures_try (ensures_call fun k r s₂ performed => ?_)
  have bears := bears_still False False.elim bears performed trivial
  split
  · exact gone (unsent_returnable bears)
  · rename_i e other
    obtain ⟨text, rfl⟩ := recording_raises performed trivial
    exact absurd rfl (other text)
  · rename_i record
    have inputs := register_fresh absent performed
    split
    · exact gone (unsent_returnable bears)
    · refine ensures_try (ensures_mono (noted_dispatchRecord given (fun some => ?_) bears) ?_)
      · have lane : decision.lane = hostedLane := (own some).1
        simp [inputs, pushInputs, lane]
      · intro r s₃ handed
        split
        · exact gone handed.2
        · rename_i e other
          obtain ⟨⟨text, rfl⟩, -⟩ := handed
          exact absurd rfl (other text)
        · exact noted_answerPush spare given handed

/-- What is decided of a first delivery, with the delivery ledger left alone. -/
def Chosen (server : Server) (l : MeteredLedger) (deliveries : Deliveries) :
    Except Raised (Option (RouteDecision × Option (String × Nat))) → World × Course → Prop
  | .error e, s => Undecided l e s
  | .ok none, s => Clear l s
  | .ok (some (d, _)), s => Decided server.policy l (.ok d) s ∧ s.1.deliveries = deliveries

theorem noted_decidePush (spare : Unheld fallback) (h : Clear l s) :
    Noted (decidePush server event fallback) s (Chosen server l s.1.deliveries) := by
  refine ensures_bind (ensures_call fun k r s₂ performed => ?_)
  have clear := still_phase True (fun _ => Or.inl rfl) h performed trivial
  have same := (sideline_keeps (noting_eq performed).1 trivial).2.2
  cases r with
  | error e => exact Or.inl clear
  | ok found =>
    simp only [onward]
    split
    · have unmoved : Noted (dispatchDecision server (pushRoute server event) event.repository true) s₂
          fun _ s' => s'.1.deliveries = s.1.deliveries :=
        ensures_only (I := fun s' => s'.1.deliveries = s.1.deliveries)
          (fun _ _ _ _ _ side before taken => (sideline_keeps (noting_eq taken).1 side).2.2.trans before)
          (only_dispatchDecision _ _ _ _) same
      have decides := noted_dispatchDecision (attached_gives attached) (pushRoute server event)
        event.repository true clear
      refine ensures_bind (ensures_mono (ensures_and decides unmoved) ?_)
      rintro r s₃ ⟨decided, kept⟩
      cases r with
      | error e => exact decided
      | ok d => exact ensures_done ⟨decided, kept⟩
    · refine ensures_bind (ensures_mono (noted_clear
        (only_adapterAbsent tells_unmetered (spare_unmetered spare)) clear) fun r s₃ clear => ?_)
      cases r with
      | error e => exact Or.inl clear
      | ok _ => exact ensures_done clear

theorem noted_firstDelivery {header : Option String} {fingerprint branch : String}
    (spare : Unheld fallback)
    (absent : server.github = true → s.1.deliveries.get event.repository delivery = none)
    (h : Clear l s) :
    Noted (firstDelivery server header fingerprint event branch delivery fallback) s
      fun _ s' => Settled .delivery l s' := by
  unfold firstDelivery
  split
  · exact noted_sendError h
  rename_i client
  refine ensures_try (ensures_mono (noted_decidePush attached spare h) fun r s₂ chosen => ?_)
  split
  · exact noted_sendError (undecided_clear (by rintro _ ⟨⟩) chosen)
  · exact noted_sendError (undecided_clear (by rintro _ ⟨⟩) chosen)
  · exact ensures_fail (undecided_settled chosen)
  · exact ensures_done (clear_settled chosen)
  · refine noted_registerPush attached spare ?_ chosen.1
    rw [chosen.2]
    exact absent (by simpa using client)

theorem noted_dispatchPush {header : Option String} {fingerprint branch : String}
    (spare : Unheld fallback)
    (h : Clear l s) :
    Noted (dispatchPush server header fingerprint event branch fallback) s
      fun _ s' => Settled .delivery l s' := by
  unfold dispatchPush
  split
  · exact noted_sendError h
  split
  · exact noted_sendError h
  refine ensures_try (ensures_call fun k r s₂ performed => ?_)
  have clear := still_phase True (fun _ => Or.inl rfl) h performed trivial
  unfold answerLookup
  split
  · exact noted_sendError clear
  · exact ensures_fail (clear_settled clear)
  rename_i existing
  unfold answerKnown
  simp only
  split
  · refine noted_firstDelivery attached spare (fun _ => ?_) clear
    rcases perform_cases (noting_eq performed).1 with ⟨e, -, -, same, -⟩ | ⟨-, answered⟩
    · cases same
    · obtain ⟨known, world⟩ := Prod.mk.inj (Option.some.inj answered)
      rw [← world]
      exact Except.ok.inj known
  split
  · exact noted_sendError clear
  split
  · exact noted_redeliver attached spare clear
  rename_i held
  split
  · exact noted_send clear
  · rename_i ready
    refine noted_firstDelivery attached spare (fun client => ?_) clear
    exact absurd ⟨not_not.mp ready, client⟩ held

theorem noted_pushWebhook (request : WebhookRequest) (h : Clear l s) :
    Noted (pushWebhook server request) s fun _ s' => Settled .delivery l s' := by
  have direct {event : PushEvent} : (enqueueDirect server request.delivery event.repository event.after
      event.branch none []).Only (Call.still True True) :=
    only_enqueueDirect (fun _ => tells_still) trivial _
  unfold pushWebhook
  split
  · exact noted_sendError h
  split
  · exact noted_sendError h
  split
  · exact noted_send h
  split
  · exact noted_send h
  unfold handlePush
  simp only
  split
  · exact noted_settled direct (clear_settled h)
  · refine noted_dispatchPush attached (fun enqueue member => ?_) h
    obtain rfl := Option.mem_some_iff.mp member
    exact direct
  · exact noted_dispatchPush attached (fun _ member => nomatch member) h

/-! ## Replays -/

omit attached in
/-- A delivery that is sent in this pass has its hold in hand, if it needs one. -/
def Ready (server : Server) (record : Delivery) (l : MeteredLedger) :
    Except Raised (Option (Option Nat)) → World × Course → Prop
  | .ok (some hold), s => Bears l hold true none false false s ∧
      (hold.isSome → server.jobsDb = true ∧ record.inputs.lookup "cindral_lane" = some hostedLane)
  | _, s => Clear l s

theorem noted_replayHold (h : Clear l s) :
    Noted (replayHold server record) s (Ready server record l) := by
  have rejects {reason : String} {s' : World × Course} (h : Clear l s') :
      Noted (do
        rejectAndHandOff server record reason
        pure none : Program (Option (Option Nat))) s' (Ready server record l) := by
    refine ensures_bind (ensures_mono (noted_clear
      (only_rejectAndHandOff (fun _ => besides_unmetered) trivial reason) h) fun r s₂ clear => ?_)
    cases r with
    | error e => exact clear
    | ok _ => exact ensures_done clear
  unfold replayHold
  split
  · exact rejects h
  · refine ensures_bind (ensures_mono (noted_clear (only_call trivial) h) fun r s₂ clear => ?_)
    cases r with
    | error e => exact clear
    | ok found =>
      simp only [onward]
      split
      · refine ensures_bind (ensures_mono (noted_reserveFor record.inputs clear) ?_)
        rintro r s₃ ⟨reserved, lane⟩
        cases r with
        | error e => exact reserved
        | ok taken =>
          obtain ⟨hold, refusal⟩ := taken
          cases refusal with
          | some reason => exact ensures_done (reserved_refused reserved)
          | none =>
            obtain ⟨bears, own⟩ := reserved
            exact ensures_done ⟨bears, fun some => ⟨(attached (own some).2).2, lane _ _ rfl some⟩⟩
      · exact rejects clear

omit attached in
/-- Once it is sent, only a delivery whose hold may go back raises anything. -/
theorem noted_replaySend (given : hold.isSome → server.jobsDb = true)
    (lane : hold.isSome → record.inputs.lookup "cindral_lane" = some hostedLane)
    (h : Bears l hold true none false false s) :
    Noted (replaySend server record hold) s fun r s' =>
      (r = .ok () → Settled .delivery l s') ∧ (r ≠ .ok () → Returnable .delivery l hold s') := by
  refine ensures_bind (ensures_mono (noted_dispatchRecord given lane h) fun r s₂ handed => ?_)
  cases r with
  | error e => exact ⟨(nomatch ·), fun _ => handed.2⟩
  | ok handled =>
    obtain ⟨handled, text⟩ := handled
    simp only [onward]
    split
    · rename_i rejected
      obtain rfl : handled = .state .rejected := of_decide_eq_true rejected
      obtain ⟨answer, stuck, bears, gives⟩ := handed
      refine ensures_mono (noted_bears False False.elim (only_handOff trivial) bears) ?_
      intro r s₃ bears
      have returned : Returned .delivery l hold s₃ := ⟨answer, stuck, bears, gives⟩
      exact ⟨fun _ => returned_settled returned, fun _ => returned_again returned⟩
    · exact ensures_done ⟨fun _ => handed_settled handed, fun raised => absurd rfl raised⟩

theorem noted_replayRecord (h : Clear l s) :
    Noted (replayRecord server record) s fun _ s' => Settled .delivery l s' := by
  refine ensures_try (ensures_mono (noted_replayHold attached h) fun r s₂ ready => ?_)
  split
  · exact ensures_done (clear_settled ready)
  · exact ensures_done (clear_settled ready)
  · obtain ⟨bears, own⟩ := ready
    have sends := noted_replaySend (fun some => (own some).1) (fun some => (own some).2) bears
    refine ensures_try (ensures_mono sends ?_)
    rintro r s₃ ⟨sent, raised⟩
    split
    · exact ensures_done (sent rfl)
    · refine ensures_mono (noted_returned (fun some => (own some).1) (raised nofun)) ?_
      exact fun _ _ left => returned_settled left.2

end Deliveries

/-! ## Every way in -/

section Ways
variable {l : MeteredLedger} {server : Server} {s : World × Course}

theorem noted_way (attached : Attached server) (way : Way) (h : Clear l s) :
    Noted (way.program server) s fun _ s' => Settled way.judge l s' := by
  cases way with
  | endpoint request => exact noted_dispatchEndpoint attached request h
  | replay record => exact noted_replayRecord attached h
  | webhook request =>
    show Noted (webhook server request) s _
    unfold webhook
    split
    · exact noted_sendError h
    split
    · exact noted_sendError h
    split
    · exact noted_sendError h
    split
    · rename_i pulls
      have judge : (Way.webhook request).judge = .pullRequest := if_pos pulls
      rw [judge]
      exact noted_pullRequestWebhook attached _ _ h
    rename_i other
    split
    · have judge : (Way.webhook request).judge = .delivery := if_neg other
      rw [judge]
      exact noted_pushWebhook attached request h
    · exact noted_send h

/-- The answer that was noted is GitHub's to a hosted request that went out. -/
theorem answer_sent {α : Type} {program : Program α} {w w' : World} {x : Except Raised α} {t : Course}
    (ran : Ran (noting perform Course.note) program (w, {}) x (w', t)) {outcome : DispatchOutcome}
    (answered : t.answer = some outcome) :
    ∃ request, (request, outcome) ∈ w'.sent ∧ request.inputs.lookup "cindral_lane" = some hostedLane := by
  have every : ∀ outcome, t.answer = some outcome → ∃ request, (request, outcome) ∈ w'.sent ∧
      request.inputs.lookup "cindral_lane" = some hostedLane := by
    refine ran_only (I := fun s : World × Course => ∀ outcome, s.2.answer = some outcome →
      ∃ request, (request, outcome) ∈ s.1.sent ∧ request.inputs.lookup "cindral_lane" = some hostedLane)
      (fun k s c r s' _ before performed outcome answered => ?_) (only_any program)
      (fun _ none => by cases none) ran
    obtain ⟨performed, noted⟩ := noting_eq performed
    rw [noted] at answered
    rcases s.2.note_answer k c r with same | ⟨request, rfl, calm, hosted, own⟩
    · obtain ⟨request, sent, hosted⟩ := before outcome (same ▸ answered)
      exact ⟨request, (sent_grows performed).subset sent, hosted⟩
    · obtain rfl := Option.some.inj (own.symm.trans answered)
      rcases perform_cases performed with ⟨e, raised, -, -, -⟩ | ⟨-, told⟩
      · rw [calm] at raised
        cases raised
      · obtain ⟨-, world⟩ := Prod.mk.inj (Option.some.inj told)
        refine ⟨request, ?_, hosted⟩
        rw [← world]
        exact List.mem_append_right _ (List.mem_singleton_self _)
  exact every outcome answered

/-- A hosted dispatch went out for the hold, and GitHub's answer leaves a run possible. -/
def MayHaveRun (w : World) (t : Course) : Prop :=
  ∃ request outcome, (request, outcome) ∈ w.sent ∧
    request.inputs.lookup "cindral_lane" = some hostedLane ∧
    t.answer = some outcome ∧ outcome.provesNoRun = false

/-- A hold is counted when its request is finished just where a run may have started for it, if no
exception and no failing ledger got in the way, and the judge of that request reads GitHub's answer as
the others do. -/
theorem hold_counted_iff {q : Policy} (attached : q.attachBudget server.jobsDb = .ok server.policy)
    (way : Way) {w w' : World} {x : Except Raised Unit} {t : Course}
    (ran : Ran (noting perform Course.note) (way.program server) (w, {}) x (w', t)) {id : Nat}
    (taken : id ∈ t.taken) :
    (Charged w'.metered id ↔ MayHaveRun w' t) ↔ way.judge.Sound t := by
  obtain ⟨held, answer, stopped, stuck, phase, ends⟩ :=
    noted_way (attached_of attached) way ⟨rfl, [], rfl, fun _ member => absurd member List.not_mem_nil⟩ x (w', t) ran
  obtain ⟨taken', course, own⟩ := phase.course
  obtain rfl : t = ⟨taken', if held then some w.metered.nextId else none, answer, stopped, stuck⟩ :=
    course
  obtain rfl := own id taken
  have counted : Charged w'.metered w.metered.nextId ↔ held = true := by
    have ledger := phase.ledger
    cases held with
    | true => exact iff_of_true ledger.2 rfl
    | false =>
      have same : w'.metered = w.metered := ledger
      rw [same]
      exact iff_of_false (not_charged _) (by simp)
  have run : MayHaveRun w'
      ⟨taken', if held then some w.metered.nextId else none, answer, stopped, stuck⟩ ↔
      ∃ outcome, answer = some outcome ∧ outcome.provesNoRun = false := by
    constructor
    · rintro ⟨request, outcome, -, -, answered, unclear⟩
      exact ⟨outcome, answered, unclear⟩
    · rintro ⟨outcome, answered, unclear⟩
      obtain ⟨request, sent, hosted⟩ := answer_sent ran answered
      exact ⟨request, outcome, sent, hosted, answered, unclear⟩
  rw [counted, run]
  exact ends_sound (t := ⟨taken', _, answer, stopped, stuck⟩) ends

end Ways

/-! ## A fork's pull request under the ceiling -/

def forkPull : Way :=
  .webhook { event := some "pull_request", delivery := none, fingerprint := "digest"
             payload := some forkPayload }

/-- Every call succeeds at one instant, and GitHub answers the dispatch so. -/
def answering (outcome : DispatchOutcome) : Call → Choice :=
  fun _ => { now := 1770000000, outcome := outcome }

/-- The request on a fresh month, and what it met. -/
def finished (outcome : DispatchOutcome) : Option (Except Raised Unit × (World × Course)) :=
  (forkPull.program ceilingServer).play (fun s c => noting perform Course.note (answering outcome c) s c)
    (restingWorld Table.empty, {})

theorem finished_ran (outcome : DispatchOutcome)
    (met : (finished outcome).map (fun x => (x.2.2.taken, x.2.2.answer, x.2.2.stuck)) =
      some ([1], some outcome, false)) :
    ∃ x w' t, finished outcome = some (x, (w', t)) ∧
      Ran (noting perform Course.note) (forkPull.program ceilingServer) (restingWorld Table.empty, {}) x
        (w', t) ∧ 1 ∈ t.taken ∧ t.answer = some outcome ∧ t.stuck = false := by
  obtain ⟨⟨x, w', t⟩, ran, same⟩ := Option.map_eq_some_iff.mp met
  obtain ⟨taken, rest⟩ := Prod.mk.inj same
  obtain ⟨answered, stuck⟩ := Prod.mk.inj rest
  have first : t.taken = [1] := taken
  refine ⟨x, w', t, ran, ran_of_play (answering outcome) ran, ?_, answered, stuck⟩
  rw [first]
  exact List.mem_singleton_self 1

/-- An accepted dispatch keeps its hold, and one that GitHub turns away does not. -/
theorem forkPull_kept_or_returned :
    (∃ x w' t, Ran (noting perform Course.note) (forkPull.program ceilingServer)
      (restingWorld Table.empty, {}) x (w', t) ∧ MayHaveRun w' t ∧ Charged w'.metered 1) ∧
    ∃ x w' t, Ran (noting perform Course.note) (forkPull.program ceilingServer)
      (restingWorld Table.empty, {}) x (w', t) ∧ ¬MayHaveRun w' t ∧ ¬Charged w'.metered 1 := by
  have attached : { Policy.shipped with minuteBudget := some 20 }.attachBudget ceilingServer.jobsDb =
    .ok ceilingServer.policy := rfl
  constructor
  · obtain ⟨x, w', t, -, ran, taken, answered, stuck⟩ :=
      finished_ran .accepted (by decide +kernel)
    have sound : forkPull.judge.Sound t := by
      refine ⟨fun none => ?_, fun outcome same definite => ?_, fun statusCode detail same => ?_⟩
      · rw [answered] at none
        cases none
      · obtain rfl := Option.some.inj (answered.symm.trans same)
        cases definite
      · cases Option.some.inj (answered.symm.trans same)
    obtain ⟨request, sent, hosted⟩ := answer_sent ran answered
    have run : MayHaveRun w' t := ⟨request, .accepted, sent, hosted, answered, rfl⟩
    exact ⟨x, w', t, ran, run, ((hold_counted_iff attached forkPull ran taken).mpr sound).mpr run⟩
  · obtain ⟨x, w', t, -, ran, taken, answered, stuck⟩ :=
      finished_ran (.refused 422 "no ref found") (by decide +kernel)
    have sound : forkPull.judge.Sound t := by
      refine ⟨fun none => ?_, fun _ _ _ => ⟨stuck, nofun⟩, fun statusCode detail same high => ?_⟩
      · rw [answered] at none
        cases none
      · cases Option.some.inj (answered.symm.trans same)
        exact absurd high (by decide)
    have run : ¬MayHaveRun w' t := by
      rintro ⟨_, outcome, -, -, same, unclear⟩
      obtain rfl := Option.some.inj (answered.symm.trans same)
      cases unclear
    exact ⟨x, w', t, ran, run, fun charged =>
      run (((hold_counted_iff attached forkPull ran taken).mpr sound).mp charged)⟩

/-- GitHub answers a pull request's dispatch with a 503, and the hold goes back. -/
theorem overloaded_gives_back :
    ¬ ∀ (q : Policy) (server : Server) (way : Way) (w w' : World) (x : Except Raised Unit) (t : Course)
      (id : Nat), q.attachBudget server.jobsDb = .ok server.policy →
      Ran (noting perform Course.note) (way.program server) (w, {}) x (w', t) → id ∈ t.taken →
      (Charged w'.metered id ↔ MayHaveRun w' t) := by
  intro claim
  obtain ⟨x, w', t, played, ran, taken, answered, -⟩ :=
    finished_ran (.refused 503 "no server is available") (by decide +kernel)
  have empty : (finished (.refused 503 "no server is available")).map (fun x => x.2.1.metered.rows) =
    some [] := by decide +kernel
  rw [played] at empty
  obtain ⟨request, sent, hosted⟩ := answer_sent ran answered
  obtain ⟨row, member, -⟩ := (claim { Policy.shipped with minuteBudget := some 20 } ceilingServer forkPull
    _ w' x t 1 rfl ran taken).mpr ⟨request, _, sent, hosted, answered, rfl⟩
  rw [show w'.metered.rows = [] from Option.some.inj empty] at member
  cases member

end Cindral.Dispatch

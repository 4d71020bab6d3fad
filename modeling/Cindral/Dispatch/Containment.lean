import Cindral.Dispatch.Parts

/-!
# Where an untrusted pull request runs

The handler asks for the hosted lane, and the policy decides again: a metered ceiling that is
reached sends the request to the first local lane instead, whoever it is for.
-/

namespace Cindral.Dispatch
open Base Routing Script
open Queue (CommitState)

/-- A broker that handles one pull request event: its configuration, the event's delivery header,
and GitHub. -/
structure Handling where
  server : Server
  delivery : Option String
  event : PullRequestEvent
  env : Environment

/-- No request went out, or one for the hosted lane. -/
def Hosted (before after : World) : Prop :=
  after.sent = before.sent ∨ ∃ request outcome, after.sent = before.sent ++ [(request, outcome)] ∧
    request.inputs.lookup "cindral_lane" = some hostedLane

/-- No device job was queued either. -/
def Contained (before after : World) : Prop := after.jobs = before.jobs ∧ Hosted before after

theorem aside_sideline {α : Type} {s : Program α} (only : s.Only Call.aside) : s.Only Call.sideline :=
  aside_only (fun _ h => h) only

theorem aside_unqueued {α : Type} {s : Program α} (only : s.Only Call.aside) : s.Only Call.unqueued :=
  aside_only (fun _ => sideline_unqueued) only

/-- From the adapter lookup on, a pull request is not for the device queue. -/
theorem only_dispatchPullRequest (server : Server) (delivery : Option String) (event : PullRequestEvent) :
    (dispatchPullRequest server delivery event).Only Call.unqueued := by
  refine only_bind (only_attempt (only_call trivial)) fun found => ?_
  split
  · exact aside_unqueued (only_sendError _ _)
  · trivial
  · exact only_bind (aside_unqueued only_pullRequestStatus) fun _ => aside_unqueued (only_send _ _)
  · have choosing := only_mono (only_choose server.policy (pullRequestRoute event) server.runners)
      fun _ metering =>
      sideline_unqueued (metering_sideline metering)
    refine only_bind (only_attempt choosing) fun decided => ?_
    split
    · exact aside_unqueued (only_sendError _ _)
    · trivial
    · exact only_bind (aside_unqueued only_pullRequestStatus) fun posted =>
        only_bind (only_attempt (only_call trivial)) fun outcome =>
          aside_unqueued (only_answerPullRequest _ posted outcome)

namespace Handling
variable (h : Handling) (w : World)

/-- The minutes the ledger holds against the month of the clock. -/
def used : Double :=
  h.server.policy.spent (w.metered.count (monthStart (h.env.choice .countMetered).now) hostedLane)

/-- The metered ceiling is set and counted, and one more run reaches it. -/
def spent : Prop :=
  h.server.policy.meteredMinutes = true ∧ (h.env.choice .countMetered).raised = none ∧
    ∃ budget, h.server.policy.minuteBudget = some budget ∧
      h.server.policy.full budget (h.used w) (pullRequestRoute h.event).estimatedMinutes = true

/-- The first local lane of the policy that a runner of the inventory can serve. -/
def localLane : Option RouteDecision :=
  (h.server.policy.localLanes (pullRequestRoute h.event) h.server.runners).head?

/-- The event is one the handler dispatches, and GitHub finds the adapter. -/
def routed : Prop :=
  isRepositorySlug h.event.repository = true ∧ h.event.shouldRoute = true ∧ h.server.github = true ∧
    (h.env.choice (.workflowExists h.event.repository h.server.workflowFile)).raised = none ∧
    (h.env.choice (.workflowExists h.event.repository h.server.workflowFile)).present = true

def request (lane : String) : Request :=
  ⟨none, h.event.repository, h.server.workflowFile, h.event.defaultBranch,
    [("cindral_lane", lane), ("cindral_target", ""), ("cindral_reason", h.event.hostedReason),
      ("cindral_ref", h.event.ref)]⟩

def pendingStatus (lane : String) : Call :=
  .postStatus h.event.repository h.event.statusSha .pending s!"dispatched on the {lane} lane"

/-- No exception but GitHub's own stops the handler between the decision and the request. -/
def unstopped (lane : String) : Prop :=
  (h.event.statusSha = "" ∨ ∀ text, (h.env.choice (h.pendingStatus lane)).raised ≠ some (.other text)) ∧
    (h.env.choice (.dispatch (h.request lane))).raised = none

/-- The ceiling is reached and a local lane that is not named hosted takes the event. -/
def escapes : Prop :=
  h.routed ∧ h.spent w ∧ ∃ d, h.localLane = some d ∧ d.lane ≠ hostedLane ∧ h.unstopped d.lane

def run : Option (Except Raised Unit × World) :=
  (handlePullRequest h.server h.delivery h.event).play h.env.step w

variable {h w}

theorem play_quiet {α : Type} {s : Program α} (only : s.Only Call.sideline) {env : Environment}
    {w : World}
    {x : Except Raised α × World} (played : s.play env.step w = some x) : x.2.sent = w.sent := by
  refine play_only (I := fun v => v.sent = w.sent) (fun v c r v' side kept taken => ?_) only rfl played
  exact (sideline_keeps taken side).1.trans kept

theorem hosted_of_quiet {s : Program Unit} (only : s.Only Call.sideline)
    {x : Except Raised Unit × World} (played : s.play h.env.step w = some x) : Hosted w x.2 :=
  Or.inl (play_quiet only played)

theorem calm_of_safe {env : Environment} {c : Call} (safe : ∀ e, mayRaise c e = false) :
    (env.choice c).raised = none := by
  cases raised : (env.choice c).raised with
  | none => rfl
  | some e =>
    have possible := env.possible c e raised
    rw [safe e] at possible
    cases possible

theorem step_calm {env : Environment} {c : Call} (calm : (env.choice c).raised = none) :
    env.step w c = answer (env.choice c) w c := by
  simp only [Environment.step, perform, calm]

theorem step_raised {env : Environment} {c : Call} {e : Raised}
    (raised : (env.choice c).raised = some e) :
    env.step w c = some (.error e, w) := by
  have possible := env.possible c e raised
  simp only [Environment.step, perform, raised, possible, if_true]

/-- A body run under the budget lock, which is free before and after. -/
theorem play_holding {α : Type} {env : Environment} {body : Program α} (free : w.budgetLock = false) :
    (holding .lockBudget .unlockBudget body).play env.step w =
      (body.play env.step { w with budgetLock := true }).map fun x =>
      (x.1, { x.2 with budgetLock := false }) := by
  have locked : env.step w .lockBudget = some (.ok (), { w with budgetLock := true }) := by
    rw [step_calm (calm_of_safe fun _ => rfl)]
    simp only [answer, take, free, Bool.false_eq_true, if_false]
  have unlocked (v : World) : env.step v .unlockBudget = some (.ok (), { v with budgetLock := false }) :=
    step_calm (calm_of_safe fun _ => rfl)
  simp only [holding, bind_eq, play_bind, play_call, locked, Option.bind_some, andThen, play_attempt]
  cases body.play env.step { w with budgetLock := true } with
  | none => rfl
  | some x => simp only [Option.map_some, Option.bind_some, andThen, play_bind, play_call, unlocked,
      play_lift]

theorem play_spentMinutes {env : Environment} {p : Policy}
    (calm : (env.choice .countMetered).raised = none) :
    (spentMinutes p).play env.step w =
      some (.ok (p.spent (w.metered.count (monthStart (env.choice .countMetered).now) hostedLane)),
      w) := by
  simp only [spentMinutes, bind_eq, play_bind, play_call, step_calm calm, answer, Option.bind_some,
    andThen, pure_eq,
    play_done]

variable {p : Policy} {env : Environment}

/-- Where the ceiling is set, counted and reached, no hold is taken. -/
theorem reserve_refuses {budget : ℚ} {estimated : Double} (free : w.budgetLock = false)
    (counted : p.meteredMinutes = true) (calm : (env.choice .countMetered).raised = none)
    (ceiling : p.minuteBudget = some budget)
    (reached : p.full budget
      (p.spent (w.metered.count (monthStart (env.choice .countMetered).now) hostedLane))
      estimated = true) :
    ∃ reason, (reserveMetered p estimated).play env.step w = some (.ok (none, some reason), w) := by
  simp only [reserveMetered, ceiling, counted, Bool.not_true, Bool.false_eq_true, if_false]
  split
  · rename_i unreserved
    rw [Policy.full, if_neg (by simpa using unreserved), Bool.not_eq_true'] at reached
    simp only [budgetRefusal, bind_eq, play_bind, play_spentMinutes calm, Option.bind_some, andThen,
      reached,
      Bool.false_eq_true, if_false, pure_eq, play_done]
    exact ⟨_, rfl⟩
  · rename_i reserved
    rw [Policy.full, if_pos (by simpa using reserved)] at reached
    rw [play_holding free]
    simp only [reserveUnder, bind_eq, play_bind, play_spentMinutes calm, Option.bind_some, andThen,
      if_pos reached,
      pure_eq, play_done, Option.map_some]
    rw [← free]
    exact ⟨_, rfl⟩

/-- A refusal from the ceiling says that it is set, counted and reached. -/
theorem refused_reached {estimated : Double} (free : w.budgetLock = false) {held : Option Nat}
    {reason : String} {w' : World}
    (played : (reserveMetered p estimated).play env.step w = some (.ok (held, some reason), w')) :
    p.meteredMinutes = true ∧ (env.choice .countMetered).raised = none ∧ ∃ budget,
      p.minuteBudget = some budget ∧
      p.full budget (p.spent (w.metered.count (monthStart (env.choice .countMetered).now)
        hostedLane)) estimated =
        true := by
  have calm : (env.choice .countMetered).raised = none := by
    cases raised : (env.choice .countMetered).raised with
    | none => rfl
    | some e =>
      have stopped (v : World) : (spentMinutes p).play env.step v = some (.error e, v) := by
        simp only [spentMinutes, bind_eq, play_bind, play_call, step_raised raised,
          Option.bind_some, andThen]
      unfold reserveMetered at played
      split at played
      · cases played
      · split at played
        · cases played
        · split at played
          · simp only [budgetRefusal, bind_eq, play_bind, stopped, Option.bind_some, andThen] at played
            cases played
          · rw [play_holding free] at played
            simp only [reserveUnder, bind_eq, play_bind, stopped, Option.bind_some, andThen,
              Option.map_some] at played
            cases played
  unfold reserveMetered at played
  split at played
  · cases played
  · rename_i budget ceiling
    split at played
    · cases played
    · rename_i counted
      refine ⟨by simpa using counted, calm, budget, ceiling, ?_⟩
      split at played
      · rename_i unreserved
        simp only [budgetRefusal, bind_eq, play_bind, play_spentMinutes calm, Option.bind_some,
          andThen] at played
        split at played
        · cases played
        · rename_i full
          rw [Policy.full, if_neg (by simpa using unreserved), Bool.eq_false_of_not_eq_true full]
          rfl
      · rename_i reserved
        rw [play_holding free] at played
        simp only [reserveUnder, bind_eq, play_bind, play_spentMinutes calm, Option.bind_some,
          andThen] at played
        split at played
        · rename_i reached
          rw [Policy.full, if_pos (by simpa using reserved)]
          exact reached
        · -- a hold that was taken carries no refusal
          obtain ⟨x, ran, same⟩ := Option.map_eq_some_iff.mp played
          rcases play_bind_cases ran with ⟨id, v, _, rest⟩ | ⟨e, v, _, rfl⟩
          · obtain rfl := Option.some.inj rest
            cases same
          · cases same

theorem firstLocal_lane {request : RouteRequest} {runners : List Runner} {d : RouteDecision}
    (served : (p.localLanes request runners).head? = some d) (reason : String) :
    ∃ d', p.firstLocal request runners reason = .ok d' ∧ d'.lane = d.lane := by
  unfold Policy.firstLocal
  cases lanes : p.localLanes request runners with
  | nil => rw [lanes] at served; cases served
  | cons first rest =>
    rw [lanes, List.head?_cons, Option.some.injEq] at served
    subst served
    exact ⟨_, rfl, rfl⟩

theorem firstLocal_served {request : RouteRequest} {runners : List Runner} {reason : String}
    {d : RouteDecision}
    (h : p.firstLocal request runners reason = .ok d) :
    ∃ d', (p.localLanes request runners).head? = some d' ∧ d.lane = d'.lane := by
  unfold Policy.firstLocal at h
  cases lanes : p.localLanes request runners with
  | nil => rw [lanes] at h; cases h
  | cons first rest =>
    rw [lanes] at h
    obtain rfl := Except.ok.inj h
    exact ⟨first, rfl, rfl⟩

theorem choose_eq {request : RouteRequest} {runners : List Runner}
    (hosted : request.requestedLane = "hosted") :
    choose p request runners = chooseHeld p request runners := by
  have unread : p.readsQuota request = false := by
    simp [Policy.readsQuota, hosted]
  simp only [choose, unread, Bool.false_eq_true, if_false]

/-- The lane decided for a hosted request: hosted, or the one the ceiling sends it to. -/
theorem choose_lane {request : RouteRequest} {runners : List Runner}
    (hosted : request.requestedLane = "hosted")
    {d : RouteDecision} {w' : World}
    (played : (choose p request runners).play env.step w = some (.ok d, w')) :
    d.lane = hostedLane ∨ ∃ held reason v, (reserveMetered p request.estimatedMinutes).play env.step w =
      some (.ok (held, some reason), v) ∧ p.firstLocal request runners reason = .ok d := by
  rw [choose_eq hosted] at played
  rcases play_bind_cases played with ⟨⟨held, refusal⟩, v, reserved, rest⟩ | ⟨e, v, _, same⟩
  · cases refusal with
    | some reason =>
      rw [play_lift, Option.some.injEq, Prod.mk.injEq] at rest
      exact Or.inr ⟨held, reason, v, reserved, rest.1⟩
    | none =>
      left
      simp only [Policy.chooseLane, hosted, if_true] at rest
      split at rest
      · obtain ⟨same, -⟩ := Prod.mk.inj (Option.some.inj rest)
        obtain rfl := Except.ok.inj same
        rfl
      · rcases play_bind_cases rest with ⟨_, u, _, last⟩ | ⟨e, u, _, same⟩
        · obtain ⟨same, -⟩ := Prod.mk.inj (Option.some.inj last)
          obtain rfl := Except.ok.inj same
          rfl
        · cases same
  · cases same

variable {h : Handling}

theorem post_outcome {state : CommitState} {description : String} (github : h.server.github = true)
    {r : Except Raised Bool} {w' : World}
    (played : (postPullRequestStatus h.server h.event state description).play h.env.step
    w = some (r, w')) :
    (∃ posted, r = .ok posted) ↔ h.event.statusSha = "" ∨ ∀ text,
      (h.env.choice (.postStatus h.event.repository h.event.statusSha state description)).raised ≠
      some (.other text) := by
  unfold postPullRequestStatus at played
  simp only [github, Bool.not_true, Bool.false_or, decide_eq_true_eq] at played
  split at played
  · rename_i none_to_post
    obtain ⟨rfl, -⟩ := Prod.mk.inj (Option.some.inj played)
    exact ⟨fun _ => Or.inl none_to_post, fun _ => ⟨false, rfl⟩⟩
  · rename_i to_post
    simp only [postQuietly, bind_eq, play_bind, play_attempt, play_call] at played
    cases raised :
      (h.env.choice (.postStatus h.event.repository h.event.statusSha state description)).raised
      with
    | none =>
      rw [step_calm raised] at played
      obtain ⟨rfl, -⟩ := Prod.mk.inj (Option.some.inj played)
      exact ⟨fun _ => Or.inr fun _ same => (nomatch same), fun _ => ⟨true, rfl⟩⟩
    | some e =>
      have possible := h.env.possible _ e raised
      rw [step_raised raised] at played
      cases e with
      | githubApiError text =>
        obtain ⟨rfl, -⟩ := Prod.mk.inj (Option.some.inj played)
        exact ⟨fun _ => Or.inr fun _ same => (nomatch same), fun _ => ⟨false, rfl⟩⟩
      | other text =>
        obtain ⟨rfl, -⟩ := Prod.mk.inj (Option.some.inj played)
        exact ⟨fun ⟨_, same⟩ => (nomatch same), fun reached =>
          (reached.resolve_left to_post text rfl).elim⟩
      | sqliteError _ | githubDispatchError _ _ | routeUnavailable _ | dispatchNotPermitted _ | runtimeError _ => cases possible

/-- The one request a decision leads to, unless an exception stops the handler first. -/
theorem sendPullRequest_sent (untrusted : h.event.trusted = false) (github : h.server.github = true)
    {d : RouteDecision}
    {x : Except Raised Unit × World}
    (played : (sendPullRequest h.server h.delivery h.event d).play h.env.step w = some x) :
    (h.unstopped d.lane ∧ ∃ outcome, x.2.sent = w.sent ++ [(h.request d.lane, outcome)]) ∨
      (¬ h.unstopped d.lane ∧ x.2.sent = w.sent) := by
  have inputs : pullRequestInputs h.event d = (h.request d.lane).inputs := by
    simp only [pullRequestInputs, untrusted, Bool.false_eq_true, if_false, request]
  rcases play_bind_cases played with ⟨posted, v, post, rest⟩ | ⟨e, v, post, rfl⟩
  · have reached := (post_outcome github post).mp ⟨posted, rfl⟩
    have sent := play_quiet (aside_sideline only_pullRequestStatus) post
    obtain ⟨r, u, taken, last⟩ := play_attempt_cases rest
    have sent' := play_quiet (aside_sideline (only_answerPullRequest d posted r)) last
    rw [sent']
    rw [inputs, play_call] at taken
    change h.env.step v (.dispatch (h.request d.lane)) = some (r, u) at taken
    cases raised : (h.env.choice (.dispatch (h.request d.lane))).raised with
    | none =>
      rw [step_calm raised] at taken
      obtain ⟨-, rfl⟩ := Prod.mk.inj (Option.some.inj taken)
      exact Or.inl ⟨⟨reached, raised⟩, _, by rw [← sent]⟩
    | some e =>
      rw [step_raised raised] at taken
      obtain ⟨-, rfl⟩ := Prod.mk.inj (Option.some.inj taken)
      exact Or.inr ⟨fun through => (nomatch raised.symm.trans through.2), sent⟩
  · refine Or.inr ⟨fun through => ?_, play_quiet (aside_sideline only_pullRequestStatus) post⟩
    obtain ⟨posted, same⟩ := (post_outcome github post).mpr through.1
    cases same

theorem sendPullRequest_total (d : RouteDecision) (w : World) :
    ∃ x, (sendPullRequest h.server h.delivery h.event d).play h.env.step w = some x := by
  have prompt : (sendPullRequest h.server h.delivery h.event d).Only Call.prompt := by
    refine only_bind (only_mono only_pullRequestStatus fun _ aside => aside.2) fun posted => ?_
    refine only_bind (only_attempt (only_call trivial)) fun outcome => ?_
    exact only_mono (only_answerPullRequest d posted outcome) fun _ aside => aside.2
  exact play_total (prompt_answered h.env) prompt w

theorem choose_outcome (untrusted : h.event.trusted = false) (free : w.budgetLock = false)
    {d : RouteDecision} {w' : World}
    (played : (choose h.server.policy (pullRequestRoute h.event) h.server.runners).play h.env.step w =
      some (.ok d, w')) :
    d.lane = hostedLane ∨ (h.spent w ∧ ∃ d', h.localLane = some d' ∧ d.lane = d'.lane) := by
  have hosted : (pullRequestRoute h.event).requestedLane = "hosted" := by
    simp only [pullRequestRoute, untrusted, Bool.false_eq_true, if_false]
  refine (choose_lane hosted played).imp_right fun ⟨held, reason, v, refused, served⟩ => ?_
  obtain ⟨counted, calm, budget, ceiling, reached⟩ := refused_reached free refused
  exact ⟨⟨counted, calm, budget, ceiling, reached⟩, firstLocal_served served⟩

theorem decide_hosted (untrusted : h.event.trusted = false) (free : w.budgetLock = false)
    (github : h.server.github = true)
    (kept : ¬ (h.spent w ∧ ∃ d, h.localLane = some d ∧ d.lane ≠ hostedLane ∧ h.unstopped d.lane))
    {x : Except Raised Unit × World}
    (played : (decidePullRequest h.server h.delivery h.event).play h.env.step w = some x) :
    Hosted w x.2 := by
  obtain ⟨r, v, chosen, rest⟩ := play_attempt_cases played
  have sent := play_quiet (only_mono (only_choose _ _ _) fun _ => metering_sideline) chosen
  split at rest
  · exact Or.inl ((play_quiet (aside_sideline (only_sendError _ _)) rest).trans sent)
  · exact Or.inl ((play_quiet (s := raise _) trivial rest).trans sent)
  · rename_i d
    rcases sendPullRequest_sent untrusted github rest with ⟨through, outcome, sent'⟩ | ⟨_, sent'⟩
    · refine Or.inr ⟨_, outcome, sent'.trans (by rw [sent]), ?_⟩
      rcases choose_outcome untrusted free chosen with hosted | ⟨spent, d', served, same⟩
      · exact congrArg some hosted
      · by_contra other
        refine kept ⟨spent, d', served, fun hosted => other ?_, same ▸ through⟩
        exact congrArg some (same.trans hosted)
    · exact Or.inl (sent'.trans sent)

theorem dispatch_hosted (untrusted : h.event.trusted = false) (free : w.budgetLock = false)
    (github : h.server.github = true)
    (kept : ¬ ((h.env.choice (.workflowExists h.event.repository h.server.workflowFile)).raised = none ∧
      (h.env.choice (.workflowExists h.event.repository h.server.workflowFile)).present = true ∧
      h.spent w ∧
      ∃ d, h.localLane = some d ∧ d.lane ≠ hostedLane ∧ h.unstopped d.lane))
    {x : Except Raised Unit × World}
    (played : (dispatchPullRequest h.server h.delivery h.event).play h.env.step w = some x) :
    Hosted w x.2 := by
  obtain ⟨r, v, looked, rest⟩ := play_attempt_cases played
  rw [play_call] at looked
  have same : v = w ∧ (r = .ok true →
      (h.env.choice (.workflowExists h.event.repository h.server.workflowFile)).raised = none ∧
      (h.env.choice (.workflowExists h.event.repository h.server.workflowFile)).present = true) := by
    cases raised : (h.env.choice (.workflowExists h.event.repository h.server.workflowFile)).raised with
    | none =>
      rw [step_calm raised] at looked
      obtain ⟨rfl, rfl⟩ := Prod.mk.inj (Option.some.inj looked)
      exact ⟨rfl, fun found => ⟨rfl, Except.ok.inj found⟩⟩
    | some e =>
      rw [step_raised raised] at looked
      obtain ⟨rfl, rfl⟩ := Prod.mk.inj (Option.some.inj looked)
      exact ⟨rfl, fun found => (nomatch found)⟩
  obtain ⟨rfl, found⟩ := same
  split at rest
  · exact hosted_of_quiet (aside_sideline (only_sendError _ _)) rest
  · exact hosted_of_quiet (s := raise _) trivial rest
  · exact hosted_of_quiet (aside_sideline (only_bind only_pullRequestStatus fun _ => only_send _ _)) rest
  · obtain ⟨calm, present⟩ := found rfl
    exact decide_hosted untrusted free github (fun out => kept ⟨calm, present, out⟩) rest

theorem handle_hosted (untrusted : h.event.trusted = false) (free : w.budgetLock = false)
    (kept : ¬ h.escapes w)
    {x : Except Raised Unit × World} (played : h.run w = some x) : Hosted w x.2 := by
  have ineligible : h.event.directEligible = false := by
    simp only [PullRequestEvent.directEligible, untrusted, Bool.and_false, Bool.false_and]
  unfold run handlePullRequest at played
  simp only [ineligible, Bool.and_false, Bool.false_and, Bool.false_eq_true, if_false] at played
  split at played
  · exact hosted_of_quiet (aside_sideline (only_sendError _ _)) played
  · rename_i slug
    split at played
    · exact hosted_of_quiet (aside_sideline (only_send _ _)) played
    · rename_i routable
      split at played
      · exact hosted_of_quiet (aside_sideline (only_sendError _ _)) played
      · rename_i github
        simp only [Bool.not_eq_eq_eq_not, Bool.not_true, Bool.not_eq_false] at slug routable github
        refine dispatch_hosted untrusted free github (fun found => kept ?_) played
        obtain ⟨calm, present, out⟩ := found
        exact ⟨⟨slug, routable, github, calm, present⟩, out⟩

/-- No device job is queued for an untrusted event, also where the request escapes. -/
theorem handle_unqueued (untrusted : h.event.trusted = false) {x : Except Raised Unit × World}
    (played : h.run w = some x) :
    x.2.jobs = w.jobs := by
  have ineligible : h.event.directEligible = false := by
    simp only [PullRequestEvent.directEligible, untrusted, Bool.and_false, Bool.false_and]
  have keep (v : World) (c : Call) (r : Except Raised (Ans c)) (v' : World) (free : c.unqueued)
      (same : v.jobs = w.jobs)
      (taken : h.env.step v c = some (r, v')) : v'.jobs = w.jobs :=
    (unqueued_keeps taken free).trans same
  refine play_only keep ?_ rfl played
  unfold handlePullRequest
  simp only [ineligible, Bool.and_false, Bool.false_and, Bool.false_eq_true, if_false]
  split
  · exact aside_unqueued (only_sendError _ _)
  · split
    · exact aside_unqueued (only_send _ _)
    · split
      · exact aside_unqueued (only_sendError _ _)
      · exact only_dispatchPullRequest _ _ _

theorem run_routed (routed : h.routed) (ineligible : h.event.directEligible = false) :
    h.run w = (decidePullRequest h.server h.delivery h.event).play h.env.step w := by
  obtain ⟨slug, routable, github, calm, present⟩ := routed
  simp only [run, handlePullRequest, slug, routable, github, ineligible, Bool.not_true,
    Bool.and_false, Bool.false_and,
    Bool.false_eq_true, if_false, dispatchPullRequest, bind_eq, play_bind, play_attempt, play_call,
    step_calm calm,
    answer, present, Option.map_some, Option.bind_some, andThen]

theorem escapes_sent (untrusted : h.event.trusted = false) (free : w.budgetLock = false)
    (out : h.escapes w) :
    ∃ x lane outcome, h.run w = some x ∧ lane ≠ hostedLane ∧
    x.2.sent = w.sent ++ [(h.request lane, outcome)] := by
  obtain ⟨routed, ⟨counted, calm, budget, ceiling, reached⟩, d, served, other, through⟩ := out
  have hosted : (pullRequestRoute h.event).requestedLane = "hosted" := by
    simp only [pullRequestRoute, untrusted, Bool.false_eq_true, if_false]
  obtain ⟨reason, refused⟩ := reserve_refuses free counted calm ceiling reached
  obtain ⟨d', chosen, same⟩ := firstLocal_lane served reason
  obtain ⟨x, sent⟩ := sendPullRequest_total (h := h) d' w
  have ran : h.run w = some x := by
    have ineligible : h.event.directEligible = false := by
      simp only [PullRequestEvent.directEligible, untrusted, Bool.and_false, Bool.false_and]
    rw [run_routed routed ineligible, ← sent]
    simp only [decidePullRequest, bind_eq, play_bind, play_attempt, choose_eq hosted, chooseHeld, refused,
      Option.bind_some, andThen, chosen, play_lift, Option.map_some]
  have cases := sendPullRequest_sent untrusted routed.2.2.1 sent
  rw [← same] at other through
  obtain ⟨-, outcome, grown⟩ := cases.resolve_right fun stopped => stopped.1 through
  exact ⟨x, d'.lane, outcome, ran, other, grown⟩

end Handling

/-- An untrusted pull request stays off the broker's own machines exactly when the ceiling sends it
to no local lane. -/
theorem untrusted_pull_request_contained (server : Server) (delivery : Option String)
    (payload : Option Json)
    (env : Environment) (w : World) (event : PullRequestEvent)
    (parsed : parsePullRequestEvent payload = .ok event)
    (untrusted : event.trusted = false) (free : w.budgetLock = false) :
    (∀ x, (pullRequestWebhook server delivery payload).play env.step w = some x → Contained w x.2) ↔
      ¬ Handling.escapes ⟨server, delivery, event, env⟩ w := by
  simp only [pullRequestWebhook, parsed]
  constructor
  · intro contained out
    obtain ⟨x, lane, outcome, ran, other, grown⟩ := Handling.escapes_sent untrusted free out
    rcases (contained x ran).2 with same | ⟨request, outcome', sent, hosted⟩
    · have length := congrArg List.length (grown.symm.trans same)
      simp only [List.length_append, List.length_singleton] at length
      omega
    · obtain ⟨rfl, -⟩ :=
        Prod.mk.inj (List.singleton_injective (List.append_cancel_left (grown.symm.trans sent)))
      exact other (Option.some.inj hosted)
  · intro kept x ran
    have handled : (Handling.mk server delivery event env).run w = some x := ran
    exact ⟨Handling.handle_unqueued untrusted handled, Handling.handle_hosted untrusted free kept handled⟩

/-! ## A fork's pull request after the month is spent -/

/-- The policy file of the source, with a ceiling of two runs a month. -/
def ceilingPolicy : Policy :=
  { Policy.shipped with
    minuteBudget := some 20, assumedMinutesPerRun := 10
    meteredMinutes := true, reserveMeteredMinutes := true, releaseMeteredMinutes := true }

example : { Policy.shipped with minuteBudget := some 20 }.attachBudget true = .ok ceilingPolicy := rfl

def ceilingServer : Server :=
  { policy := ceilingPolicy, github := true, jobsDb := true, agentToken := true, webhookSecret := true
    runners := [⟨"pi", "online", false, ["self-hosted", "Linux", "ARM64", "fallback"], true⟩] }

def forkPayload : Json :=
  .obj [("action", .str "opened"), ("number", .int 42),
    ("repository", .obj [("full_name", .str "example-org/example-app"), ("private", .bool true),
      ("default_branch", .str "main")]),
    ("pull_request", .obj [("author_association", .str "CONTRIBUTOR"), ("draft", .bool false),
      ("head", .obj [("sha", .str "head123"),
      ("repo", .obj [("full_name", .str "attacker/example-app")])]),
      ("merge_commit_sha", .str "merge123"),
      ("user", .obj [("login", .str "octocat"), ("type", .str "User")])])]

def forkEvent : PullRequestEvent :=
  { repository := "example-org/example-app", isPrivate := true, defaultBranch := "main",
      number := 42, action := "opened"
    authorAssociation := "CONTRIBUTOR", headRepo := "attacker/example-app", headSha := "head123"
    mergeSha := "merge123", author := "octocat", authorType := "User" }

/-- Every call succeeds, at one instant of February 2026. -/
def calmDay : Environment := ⟨fun _ => { now := 1770000000 }, fun _ _ raised => nomatch raised⟩

def restingWorld (metered : MeteredLedger) : World :=
  { deliveries := Deliveries.empty, metered := metered, jobs := Queue.Store.empty,
      reservations := [], budgetLock := false
    capacityLock := false, sent := [], replies := [] }

def onceSpent : MeteredLedger :=
  (MeteredLedger.reserve Table.empty repositoryUnknown hostedLane "" "" 1769990000).2

theorem fresh_month_contains_fork :
    ∃ x, (pullRequestWebhook ceilingServer none (some forkPayload)).play calmDay.step
      (restingWorld Table.empty) = some x ∧
      x.2.sent.length = 1 ∧ Contained (restingWorld Table.empty) x.2 := by
  have sends : ((pullRequestWebhook ceilingServer none (some forkPayload)).play calmDay.step
      (restingWorld Table.empty)).map (fun x => x.2.sent.length) = some 1 := by decide +kernel
  obtain ⟨x, ran, sent⟩ := Option.map_eq_some_iff.mp sends
  refine ⟨x, ran, sent, (untrusted_pull_request_contained ceilingServer none (some forkPayload) calmDay
    (restingWorld Table.empty) forkEvent rfl rfl rfl).mpr (fun out => ?_) x ran⟩
  obtain ⟨_, ⟨_, _, budget, ceiling, reached⟩, _⟩ := out
  obtain rfl := Option.some.inj ceiling
  revert reached
  decide +kernel

theorem spent_month_sends_fork_to_fallback :
    ¬ ∀ (server : Server) (delivery : Option String) (payload : Option Json) (env : Environment)
      (w : World)
      (event : PullRequestEvent), parsePullRequestEvent payload = .ok event → event.trusted = false →
      w.budgetLock = false →
      ∀ x, (pullRequestWebhook server delivery payload).play env.step w = some x → Contained w x.2 := by
  intro claim
  have contained := claim ceilingServer none (some forkPayload) calmDay (restingWorld onceSpent)
    forkEvent rfl rfl rfl
  have lanes : ((pullRequestWebhook ceilingServer none (some forkPayload)).play calmDay.step
      (restingWorld onceSpent)).map
      (fun x => x.2.sent.map fun sent => sent.1.inputs.lookup "cindral_lane") =
      some [some "fallback"] := by decide +kernel
  obtain ⟨x, ran, lane⟩ := Option.map_eq_some_iff.mp lanes
  rcases (contained x ran).2 with none_sent | ⟨request, outcome, sent, hosted⟩
  · rw [none_sent] at lane
    cases lane
  · rw [sent] at lane
    simp only [restingWorld, List.nil_append, List.map_cons, List.map_nil, hosted, List.cons.injEq,
      Option.some.injEq,
      and_true] at lane
    exact absurd lane (by decide)

end Cindral.Dispatch

import Cindral.Dispatch.Ceiling
import Cindral.Dispatch.Containment

/-!
# Asking for a lane

`/v1/route` answers what a dispatch would be decided on, and decides it the same way, hold included. A
request for an owned machine passes the metered ceiling first, like any other.
-/

namespace Cindral.Dispatch
open Base Routing Script Handling

/-- The body of a `/v1/route` request, decoded: what it is refused for, or what it asks. -/
structure RouteCall where
  oversized : Bool := false
  request : Except String RouteRequest
  plainInputs : Bool := true

/-- `/v1/route`, which nobody has to be authorized for. -/
def routePreview (server : Server) (call : RouteCall) : Program Unit :=
  if call.oversized then sendError 413 "payload too large"
  else match call.request with
    | .error text => sendError 400 text
    | .ok request =>
      if !call.plainInputs then sendError 400 "inputs must be a string-to-string object"
      else do
        match ← (choose server.policy request server.runners).attempt with
        | .ok decision => send 200 (asDict decision decision.reason)
        | .error (.routeUnavailable text) => sendError 409 text
        | .error e => raise e

/-- The request a call puts to the policy. -/
def RouteCall.asks (call : RouteCall) : Option RouteRequest :=
  if call.oversized || !call.plainInputs then none else call.request.toOption

/-! ## The lane -/

/-- The policy sends the request to the hosted lane: it is named, or billing allows it, or a local
lane has its name. -/
def Hostable (p : Policy) (request : RouteRequest) (runners : List Runner) : Prop :=
  request.requestedLane = "hosted" ∨
    request.requestedLane = "auto" ∧
      (request.repositoryVisibility = "public" ∨ p.hostedQuotaAvailable request = true ∨
        (request.quotaStatus = "unknown" ∨ request.quotaStatus = "exhausted" ∨
          request.remainingMinutes.isSome = true) ∧
          ∃ d, (p.localLanes request runners).head? = some d ∧ d.lane = hostedLane)

section Lane
variable {p : Policy} {request : RouteRequest} {runners : List Runner}

theorem explicitLane_lane {d : RouteDecision} (h : p.explicitLane request runners = .ok d) :
    d.lane = request.requestedLane := by
  simp only [Policy.explicitLane] at h
  split at h
  · cases h
  · split_ifs at h
    all_goals
      split at h
      · cases h
      · obtain rfl := Except.ok.inj h
        rfl

theorem firstLocal_hosted (reason : String) :
    (∃ d, p.firstLocal request runners reason = .ok d ∧ d.lane = hostedLane) ↔
      ∃ d, (p.localLanes request runners).head? = some d ∧ d.lane = hostedLane := by
  constructor
  · rintro ⟨d, chosen, hosted⟩
    obtain ⟨d', served, same⟩ := firstLocal_served chosen
    exact ⟨d', served, same.symm.trans hosted⟩
  · rintro ⟨d, served, hosted⟩
    obtain ⟨d', chosen, same⟩ := firstLocal_lane served reason
    exact ⟨d', chosen, same.trans hosted⟩

theorem chooseLane_hosted :
    (∃ d, p.chooseLane request runners = .ok d ∧ d.lane = hostedLane) ↔ Hostable p request runners := by
  have plain (reason : String) : ∃ d, Except.ok (ε := Raised) (p.hosted reason) = .ok d ∧
      d.lane = hostedLane :=
    ⟨_, rfl, rfl⟩
  unfold Policy.chooseLane Hostable
  split
  · rename_i named
    exact ⟨fun _ => Or.inl named, fun _ => plain _⟩
  rename_i unnamed
  simp only [unnamed, false_or]
  split
  · rename_i other
    refine ⟨?_, fun auto => absurd auto.1 other⟩
    rintro ⟨d, chosen, hosted⟩
    exact absurd ((explicitLane_lane chosen).symm.trans hosted) unnamed
  rename_i auto
  simp only [not_not.mp auto, true_and]
  split
  · rename_i open'
    exact ⟨fun _ => Or.inl open', fun _ => plain _⟩
  rename_i closed
  simp only [closed, false_or]
  split
  · rename_i available
    exact ⟨fun _ => Or.inl available, fun _ => plain _⟩
  rename_i unavailable
  simp only [unavailable, Bool.false_eq_true, false_or]
  split
  · rename_i unknown
    simp only [unknown, true_or, true_and]
    exact firstLocal_hosted _
  rename_i known
  split
  · rename_i exhausted
    simp only [exhausted, true_or, or_true, true_and]
    exact firstLocal_hosted _
  rename_i some_left
  simp only [known, some_left, false_or]
  cases request.remainingMinutes with
  | none => simp
  | some remaining =>
    simp only [Option.isSome_some, true_and]
    exact firstLocal_hosted _

end Lane

/-! ## The hold -/

variable {env : Environment} {p : Policy} {w : World}

/-- The minutes a ledger has against the month the clock reads. -/
def usedMinutes (env : Environment) (p : Policy) (ledger : MeteredLedger) : Double :=
  p.spent (ledger.count (monthStart (env.choice .countMetered).now) hostedLane)

/-- One more run of this cost stays below the budget. -/
def Room (env : Environment) (p : Policy) (budget : ℚ) (ledger : MeteredLedger)
    (estimatedMinutes : Double) : Prop :=
  p.full budget (usedMinutes env p ledger) estimatedMinutes = false

/-- The ceiling is set, its ledger answers, and there is room: the request gets a hold. -/
def TakesHold (env : Environment) (p : Policy) (ledger : MeteredLedger)
    (estimatedMinutes : Double) : Prop :=
  p.meteredMinutes = true ∧ p.reserveMeteredMinutes = true ∧ (env.choice .countMetered).raised = none ∧
    (env.choice (.reserve repositoryUnknown hostedLane)).raised = none ∧
    ∃ budget, p.minuteBudget = some budget ∧ Room env p budget ledger estimatedMinutes

/-- Nobody gives the hold back: the lane is the hosted one, or there is nothing to give it back with. -/
def KeepsHold (env : Environment) (p : Policy) (ledger : MeteredLedger) (request : RouteRequest)
    (runners : List Runner) :
    Prop :=
  Hostable p request runners ∨ p.releaseMeteredMinutes = false ∨
  (env.choice (.release ledger.nextId)).raised ≠ none

theorem room_iff {budget : ℚ} {ledger : MeteredLedger} {estimatedMinutes : Double}
    (reserves : p.reserveMeteredMinutes = true) :
    Room env p budget ledger estimatedMinutes ↔ ¬p.reaches budget (usedMinutes env p ledger)
    estimatedMinutes = true := by
  rw [Room, Policy.full, if_pos reserves, Bool.not_eq_true]

theorem holding_free {α : Type} {body : Program α} {x : Except Raised α × World}
    (played : (holding .lockBudget .unlockBudget body).play env.step w = some x) :
    w.budgetLock = false := by
  by_contra locked
  have locked : w.budgetLock = true := Bool.eq_true_of_not_eq_false locked
  have waits : env.step w .lockBudget = none := by
    rw [step_calm (calm_of_safe fun _ => rfl)]
    simp only [answer, take, locked, if_true]
  rw [holding, bind_eq, play_bind, play_call, waits] at played
  cases played

theorem play_spentMinutes_raised {e : Raised} (raised : (env.choice .countMetered).raised = some e) :
    (spentMinutes p).play env.step w = some (.error e, w) := by
  simp only [spentMinutes, bind_eq, play_bind, play_call, step_raised raised, Option.bind_some, andThen]

theorem play_reserveUnder {budget : ℚ} {estimated : Double}
    (counted : (env.choice .countMetered).raised = none) :
    (reserveUnder p budget estimated).play env.step w =
      if p.reaches budget (usedMinutes env p w.metered) estimated then
        some (.ok (none, some (spentText budget (usedMinutes env p w.metered))), w)
      else (env.step w (.reserve repositoryUnknown hostedLane)).bind fun x =>
        some (x.1.map fun id => (some id, none), x.2) := by
  have spent : (spentMinutes p).play env.step w = some (.ok (usedMinutes env p w.metered), w) :=
    play_spentMinutes counted
  by_cases reached : p.reaches budget (usedMinutes env p w.metered) estimated = true
  · simp only [reserveUnder, bind_eq, play_bind, spent, Option.bind_some, andThen, if_pos reached,
      pure_eq, play_done]
  · simp only [reserveUnder, bind_eq, play_bind, spent, Option.bind_some, andThen, if_neg reached,
      play_call]
    cases env.step w (.reserve repositoryUnknown hostedLane) with
    | none => rfl
    | some x =>
      obtain ⟨r, v⟩ := x
      cases r with
      | ok id => rfl
      | error e => rfl

theorem play_unmetered {α : Type} {s : Program α} (only : s.Only Call.unmetered)
    {x : Except Raised α × World}
    (played : s.play env.step w = some x) : x.2.metered = w.metered := by
  refine play_only (I := fun v => v.metered = w.metered) (fun v c r v' un kept taken => ?_)
    only rfl played
  exact (unmetered_keeps taken un).trans kept

theorem only_budgetRefusal (budget : ℚ) (estimated : Double) :
    (budgetRefusal p budget estimated).Only Call.unmetered := by
  refine only_bind (only_bind (only_call trivial) fun _ => trivial) fun used => ?_
  split
  · trivial
  · trivial

/-- The ledger a request leaves behind it at the ceiling. -/
theorem reserve_ledger {estimated : Double} {r : Except Raised (Option Nat × Option String)} {v : World}
    (played : (reserveMetered p estimated).play env.step w = some (r, v)) :
    (TakesHold env p w.metered estimated ∧ r = .ok (some w.metered.nextId, none) ∧
      ∃ now, v.metered = (w.metered.reserve repositoryUnknown hostedLane "" "" now).2) ∨
    (¬TakesHold env p w.metered estimated ∧ v.metered = w.metered ∧
      ∀ held refusal, r = .ok (held, refusal) → held = none) := by
  unfold reserveMetered at played
  split at played
  · rename_i unlimited
    obtain ⟨rfl, rfl⟩ := Prod.mk.inj (Option.some.inj played)
    refine Or.inr ⟨?_, rfl, fun held refusal same => (Prod.mk.inj (Except.ok.inj same)).1.symm⟩
    rintro ⟨-, -, -, -, budget, ceiling, -⟩
    rw [unlimited] at ceiling
    cases ceiling
  rename_i budget ceiling
  split at played
  · rename_i uncounted
    obtain ⟨rfl, rfl⟩ := Prod.mk.inj (Option.some.inj played)
    refine Or.inr ⟨fun takes => ?_, rfl, fun held refusal same =>
      (Prod.mk.inj (Except.ok.inj same)).1.symm⟩
    rw [takes.1] at uncounted
    cases uncounted
  rename_i counted
  split at played
  · rename_i unreserved
    have idle : ¬TakesHold env p w.metered estimated := by
      intro takes
      rw [takes.2.1] at unreserved
      cases unreserved
    refine Or.inr ⟨idle, play_unmetered (only_bind (only_budgetRefusal _ _) fun _ => only_done _)
      played, ?_⟩
    rcases play_bind_cases played with ⟨refusal, u, asked, rest⟩ | ⟨e, u, asked, same⟩
    · obtain ⟨rfl, rfl⟩ := Prod.mk.inj (Option.some.inj rest)
      exact fun held refusal same => (Prod.mk.inj (Except.ok.inj same)).1.symm
    · obtain ⟨rfl, -⟩ := Prod.mk.inj same
      exact fun held refusal same => by cases same
  rename_i reserves
  have reserves : p.reserveMeteredMinutes = true := by simpa using reserves
  rw [play_holding (holding_free played)] at played
  obtain ⟨⟨r', u⟩, body, same⟩ := Option.map_eq_some_iff.mp played
  obtain ⟨rfl, rfl⟩ := Prod.mk.inj same
  cases raised : (env.choice .countMetered).raised with
  | some e =>
    rw [reserveUnder, bind_eq, play_bind, play_spentMinutes_raised raised] at body
    obtain ⟨rfl, rfl⟩ := Prod.mk.inj (Option.some.inj body)
    exact Or.inr ⟨fun takes => absurd takes.2.2.1 (by rw [raised]; exact Option.some_ne_none e), rfl,
      fun held refusal same => by cases same⟩
  | none =>
    rw [play_reserveUnder raised] at body
    split at body
    · rename_i reached
      obtain ⟨rfl, rfl⟩ := Prod.mk.inj (Option.some.inj body)
      refine Or.inr ⟨?_, rfl, fun held refusal same => (Prod.mk.inj (Except.ok.inj same)).1.symm⟩
      rintro ⟨-, -, -, -, budget', ceiling', room⟩
      obtain rfl := Option.some.inj (ceiling.symm.trans ceiling')
      exact (room_iff reserves).mp room reached
    · rename_i room
      obtain ⟨x, reserved, same⟩ := Option.bind_eq_some_iff.mp body
      obtain ⟨rfl, rfl⟩ := Prod.mk.inj (Option.some.inj same)
      cases failed : (env.choice (.reserve repositoryUnknown hostedLane)).raised with
      | some e =>
        rw [step_raised failed] at reserved
        obtain rfl := Option.some.inj reserved
        exact Or.inr ⟨fun takes => absurd takes.2.2.2.1
          (by rw [failed]; exact Option.some_ne_none e), rfl,
          fun held refusal same => by cases same⟩
      | none =>
        rw [step_calm failed] at reserved
        obtain rfl := Option.some.inj reserved
        exact Or.inl ⟨⟨by simpa using counted, reserves, raised, failed, budget, ceiling,
          (room_iff reserves).mpr room⟩,
          rfl, _, rfl⟩

/-! ## The preview -/

theorem release_reserve (ledger : MeteredLedger) (repository lane workflow ref : String) (now : ℚ) :
    (ledger.reserve repository lane workflow ref now).2.release ledger.nextId = ledger := by
  have older (r : Hold) (member : r ∈ ledger.rows) : r.id ≠ ledger.nextId :=
    Nat.ne_of_lt (MeteredLedger.id_lt_nextId member)
  have others : ledger.rows.filter (fun r => decide (r.id ≠ ledger.nextId)) = ledger.rows :=
    List.filter_eq_self.mpr fun r member => decide_eq_true (older r member)
  refine Table.eq_of_rows ?_
  show List.filter _ (List.filter _ ledger.rows ++ [_]) = ledger.rows
  rw [List.filter_append, others, others]
  simp

theorem reserve_ne (ledger : MeteredLedger) (repository lane workflow ref : String) (now : ℚ) :
    (ledger.reserve repository lane workflow ref now).2 ≠ ledger := by
  intro same
  have member : (⟨ledger.nextId, lower repository, lane, workflow, ref, now⟩ : Hold) ∈ ledger.rows := by
    have added : (⟨ledger.nextId, lower repository, lane, workflow, ref, now⟩ : Hold) ∈
        (ledger.reserve repository lane workflow ref now).2.rows :=
      List.mem_append_right _ (List.mem_singleton_self _)
    rwa [same] at added
  exact Nat.lt_irrefl _ (MeteredLedger.id_lt_nextId member)

theorem releaseHold_ledger {id : Nat} {r : Except Raised Unit} {v : World}
    (played : (releaseHold p (some id)).play env.step w = some (r, v)) :
    (p.releaseMeteredMinutes = true ∧ (env.choice (.release id)).raised = none ∧
      v.metered = w.metered.release id) ∨
      ((p.releaseMeteredMinutes = false ∨ (env.choice (.release id)).raised ≠ none) ∧
      v.metered = w.metered) := by
  simp only [releaseHold] at played
  split at played
  · rename_i set
    rw [play_call] at played
    cases raised : (env.choice (.release id)).raised with
    | none =>
      rw [step_calm raised] at played
      obtain ⟨-, rfl⟩ := Prod.mk.inj (Option.some.inj played)
      exact Or.inl ⟨set, rfl, rfl⟩
    | some e =>
      rw [step_raised raised] at played
      obtain ⟨-, rfl⟩ := Prod.mk.inj (Option.some.inj played)
      exact Or.inr ⟨Or.inr (Option.some_ne_none e), rfl⟩
  · rename_i unset
    obtain ⟨-, rfl⟩ := Prod.mk.inj (Option.some.inj played)
    exact Or.inr ⟨Or.inl (Bool.eq_false_of_not_eq_true unset), rfl⟩

section Ledger
variable {request : RouteRequest} {runners : List Runner} {u v : World}

/-- A hold that was taken for a request the policy sends elsewhere goes back, if it can. -/
theorem released_ledger {now : ℚ}
    (taken : u.metered = (w.metered.reserve repositoryUnknown hostedLane "" "" now).2)
    (elsewhere : ¬Hostable p request runners) {r : Except Raised Unit}
    (played : (releaseHold p (some w.metered.nextId)).play env.step u = some (r, v)) :
    v.metered = w.metered ↔ ¬KeepsHold env p w.metered request runners := by
  rcases releaseHold_ledger played with ⟨set, calm, back⟩ | ⟨stuck, same⟩
  · rw [back, taken, release_reserve]
    refine iff_of_true rfl ?_
    rintro (hosted | unset | failed)
    · exact elsewhere hosted
    · rw [set] at unset
      cases unset
    · exact failed calm
  · rw [same, taken]
    exact iff_of_false (reserve_ne _ _ _ _ _ _) fun gone => gone (Or.inr stuck)

/-- What a script does past a hold that was taken. -/
theorem decided_ledger {now : ℚ}
    (taken : u.metered = (w.metered.reserve repositoryUnknown hostedLane "" "" now).2)
    {r : Except Raised RouteDecision}
    (played : (match p.chooseLane request runners with
      | .error e => do
        releaseHold p (some w.metered.nextId)
        raise e
      | .ok decision =>
        if (some w.metered.nextId).isSome ∧ decision.lane = hostedLane then
          pure { decision with reservation := some w.metered.nextId }
        else do
          releaseHold p (some w.metered.nextId)
          pure decision : Program RouteDecision).play env.step u = some (r, v)) :
    v.metered = w.metered ↔ ¬KeepsHold env p w.metered request runners := by
  have hosted : (∃ d, p.chooseLane request runners = .ok d ∧ d.lane = hostedLane) ↔
      Hostable p request runners :=
    chooseLane_hosted
  cases lane : p.chooseLane request runners with
  | error e =>
    rw [lane] at played hosted
    have elsewhere : ¬Hostable p request runners := fun h => by
      obtain ⟨d, chosen, -⟩ := hosted.mpr h
      cases chosen
    rcases play_bind_cases played with ⟨_, v', done, last⟩ | ⟨e', v', done, last⟩
    · obtain ⟨-, rfl⟩ := Prod.mk.inj (Option.some.inj last)
      exact released_ledger taken elsewhere done
    · obtain ⟨-, rfl⟩ := Prod.mk.inj last
      exact released_ledger taken elsewhere done
  | ok d =>
    rw [lane] at played hosted
    simp only [Option.isSome_some, true_and] at played
    split at played
    · rename_i here
      obtain ⟨-, rfl⟩ := Prod.mk.inj (Option.some.inj played)
      rw [taken]
      exact iff_of_false (reserve_ne _ _ _ _ _ _) fun gone => gone (Or.inl (hosted.mp ⟨d, rfl, here⟩))
    · rename_i there
      have elsewhere : ¬Hostable p request runners := fun h => by
        obtain ⟨d', chosen, here⟩ := hosted.mpr h
        obtain rfl := Except.ok.inj chosen
        exact there here
      rcases play_bind_cases played with ⟨_, v', done, last⟩ | ⟨e', v', done, last⟩
      · obtain ⟨-, rfl⟩ := Prod.mk.inj (Option.some.inj last)
        exact released_ledger taken elsewhere done
      · obtain ⟨-, rfl⟩ := Prod.mk.inj last
        exact released_ledger taken elsewhere done

theorem chooseHeld_ledger {r : Except Raised RouteDecision}
    (played : (chooseHeld p request runners).play env.step w = some (r, v)) :
    v.metered = w.metered ↔
      (TakesHold env p w.metered request.estimatedMinutes → ¬KeepsHold env p w.metered request
      runners) := by
  rcases play_bind_cases played with ⟨⟨held, refusal⟩, u, reserved, rest⟩ | ⟨e, u, reserved, same⟩
  · rcases reserve_ledger reserved with ⟨takes, same, now, taken⟩ | ⟨idle, kept, unheld⟩
    · obtain ⟨rfl, rfl⟩ := Prod.mk.inj (Except.ok.inj same)
      simp only [takes, true_imp_iff]
      exact decided_ledger taken rest
    · obtain rfl := unheld held refusal rfl
      refine iff_of_true ?_ fun takes => absurd takes idle
      refine (play_unmetered ?_ rest).trans kept
      simp only
      split
      · exact only_lift _
      · split
        · trivial
        · split
          · trivial
          · trivial
  · obtain ⟨-, rfl⟩ := Prod.mk.inj same
    rcases reserve_ledger reserved with ⟨_, failed, _⟩ | ⟨idle, kept, _⟩
    · cases failed
    · exact iff_of_true kept fun takes => absurd takes idle

end Ledger

/-- The request with the billing reading it is decided on. -/
def readFor (env : Environment) (p : Policy) (request : RouteRequest) : RouteRequest :=
  if p.readsQuota request then request.withReading (env.choice .quotaReading).reading else request

theorem choose_ledger {request : RouteRequest} {runners : List Runner}
    {r : Except Raised RouteDecision} {v : World}
    (played : (choose p request runners).play env.step w = some (r, v)) :
    v.metered = w.metered ↔
      (TakesHold env p w.metered request.estimatedMinutes → ¬KeepsHold env p w.metered
      (readFor env p request) runners) := by
  unfold choose at played
  unfold readFor
  split at played
  · rename_i reads
    have read : env.step w .quotaReading = some (.ok (env.choice .quotaReading).reading, w) :=
      step_calm (calm_of_safe fun _ => rfl)
    rw [bind_eq, play_bind, play_call, read] at played
    have cost : (request.withReading (env.choice .quotaReading).reading).estimatedMinutes =
        request.estimatedMinutes := by
      unfold RouteRequest.withReading
      split
      · rfl
      · rfl
    rw [if_pos reads, ← cost]
    exact chooseHeld_ledger played
  · rename_i unread
    rw [if_neg unread]
    exact chooseHeld_ledger played

/-- A preview leaves the ledger as it was unless it takes a hold that nobody gives back. -/
theorem preview_keeps_ledger {server : Server} {call : RouteCall} {x : Except Raised Unit × World}
    (played : (routePreview server call).play env.step w = some x) :
    x.2.metered = w.metered ↔ ∀ request, call.asks = some request →
      TakesHold env server.policy w.metered request.estimatedMinutes →
        ¬KeepsHold env server.policy w.metered (readFor env server.policy request) server.runners := by
  have answers (v : World) (status : Nat) (text : String)
      (sent : (sendError status text).play env.step v = some x) : x.2.metered = v.metered :=
    play_unmetered (s := sendError status text) ⟨trivial, fun r => only_lift r⟩ sent
  unfold routePreview at played
  unfold RouteCall.asks
  split at played
  · rename_i oversized
    refine iff_of_true (answers w _ _ played) fun request asked => ?_
    rw [oversized] at asked
    cases asked
  rename_i sized
  simp only [Bool.eq_false_of_not_eq_true sized, Bool.false_or]
  cases body : call.request with
  | error text =>
    rw [body] at played
    refine iff_of_true (answers w _ _ played) fun request asked => ?_
    split at asked
    · cases asked
    · cases asked
  | ok request =>
    rw [body] at played
    simp only at played
    split at played
    · rename_i mixed
      refine iff_of_true (answers w _ _ played) fun request asked => ?_
      rw [mixed] at asked
      cases asked
    · rename_i plain
      obtain ⟨r, v, chosen, rest⟩ := play_attempt_cases played
      have replied : x.2.metered = v.metered := by
        split at rest
        · exact play_unmetered (s := send _ _) ⟨trivial, fun r => only_lift r⟩ rest
        · exact answers v _ _ rest
        · obtain rfl := Option.some.inj rest
          rfl
      rw [replied, choose_ledger chosen]
      simp [plain, Except.toOption]

def previewOf (lane : String) : RouteCall := { request := .ok { requestedLane := lane } }

/-- A hold for a request that stays on the fallback lane goes back. -/
theorem preview_of_fallback_keeps_ledger :
    ∃ x, (routePreview ceilingServer (previewOf "auto")).play calmDay.step
      (restingWorld Table.empty) = some x ∧
      x.2.metered = Table.empty := by
  have answered : ((routePreview ceilingServer (previewOf "auto")).play calmDay.step
      (restingWorld Table.empty)).isSome =
      true := by decide +kernel
  obtain ⟨x, played⟩ := Option.isSome_iff_exists.mp answered
  refine ⟨x, played, (preview_keeps_ledger played).mpr fun request asked _ keeps => ?_⟩
  obtain rfl := Option.some.inj asked
  rcases keeps with hosted | unset | failed
  · obtain ⟨d, chosen, here⟩ := chooseLane_hosted.mpr hosted
    have lane : (Policy.chooseLane ceilingPolicy { requestedLane := "auto" }
        ceilingServer.runners).toOption.map (·.lane) =
        some "fallback" := by decide +kernel
    rw [show Policy.chooseLane ceilingPolicy { requestedLane := "auto" } ceilingServer.runners = .ok
      d from chosen] at lane
    obtain same := Option.some.inj lane
    exact absurd (same.symm.trans here) (by decide)
  · cases unset
  · exact failed rfl

theorem preview_of_hosted_spends :
    ¬ ∀ (server : Server) (call : RouteCall) (env : Environment) (w : World)
      (x : Except Raised Unit × World),
      (routePreview server call).play env.step w = some x → x.2.metered = w.metered := by
  intro claim
  have holds : ((routePreview ceilingServer (previewOf "hosted")).play calmDay.step
      (restingWorld Table.empty)).map
      (fun x => x.2.metered.rows.length) = some 1 := by decide +kernel
  obtain ⟨x, played, one⟩ := Option.map_eq_some_iff.mp holds
  rw [claim _ _ _ _ x played] at one
  cases one

/-! ## A request for an owned machine -/

/-- A lane is named, and it is not the one that costs money. -/
structure Owned (request : RouteRequest) : Prop where
  named : request.requestedLane ≠ "auto"
  unhosted : request.requestedLane ≠ "hosted"

def World.withLedger (w : World) (ledger : MeteredLedger) : World := { w with metered := ledger }

/-- What a request is told, if it is told anything. -/
def decisionOn (env : Environment) (p : Policy) (request : RouteRequest) (runners : List Runner)
    (w : World) :
    Option (Except Raised RouteDecision) :=
  ((choose p request runners).play env.step w).map Prod.fst

/-- The two ledgers look the same from the ceiling: they cannot be read, or both have room, or both
are spent and print alike. -/
def Alike (env : Environment) (p : Policy) (w : World) (estimatedMinutes : Double)
    (ledger ledger' : MeteredLedger) : Prop :=
  ∀ budget, p.minuteBudget = some budget →
    w.budgetLock = true ∨ (env.choice .countMetered).raised ≠ none ∨
    (Room env p budget ledger estimatedMinutes ∧ Room env p budget ledger' estimatedMinutes) ∨
    (¬Room env p budget ledger estimatedMinutes ∧ ¬Room env p budget ledger' estimatedMinutes ∧
      (usedMinutes env p ledger).formatG = (usedMinutes env p ledger').formatG)

section Owned
variable {request : RouteRequest} {runners : List Runner} {budget : ℚ}

theorem Owned.choose_eq (owned : Owned request) :
    choose p request runners = chooseHeld p request runners := by
  have unread : p.readsQuota request = false := by simp [Policy.readsQuota, owned.named]
  simp only [choose, unread, Bool.false_eq_true, if_false]

theorem Owned.chooseLane_eq (owned : Owned request) :
    p.chooseLane request runners = p.explicitLane request runners := by
  simp only [Policy.chooseLane, if_neg owned.unhosted, if_pos owned.named]

/-- A request without a ceiling to pass. -/
theorem decision_unlimited (owned : Owned request) (unlimited : p.minuteBudget = none) :
    decisionOn env p request runners w = some (p.explicitLane request runners) := by
  have reserved : reserveMetered p request.estimatedMinutes = pure (none, none) := by
    simp only [reserveMetered, unlimited]
  have unheld : releaseHold p none = pure () := rfl
  rw [decisionOn, owned.choose_eq]
  simp only [chooseHeld, reserved, owned.chooseLane_eq, unheld, pure_eq, bind_eq, done_bind]
  cases p.explicitLane request runners with
  | error e => rfl
  | ok d => rfl

def told : Except Raised RouteDecision → String
  | .ok d => d.reason
  | .error e => e.text

/-- What `firstLocal` puts behind the reason it is given. -/
def afterReason (p : Policy) (request : RouteRequest) (runners : List Runner) : String :=
  match p.localLanes request runners with
  | d :: _ => "; selected " ++ d.lane
  | [] => "; no local runner is eligible"

theorem firstLocal_told (reason : String) :
    told (p.firstLocal request runners reason) = reason ++ afterReason p request runners := by
  unfold Policy.firstLocal afterReason
  cases p.localLanes request runners with
  | nil => simp only [told, Raised.text, toString]
  | cons d rest => simp only [told, toString, String.append_assoc]

theorem firstLocal_inj {reason reason' : String}
    (same : p.firstLocal request runners reason = p.firstLocal request runners reason') :
    reason = reason' := by
  have texts := congrArg told same
  rw [firstLocal_told, firstLocal_told] at texts
  exact (String.append_left_inj _).mp texts

theorem spentText_eq (used : Double) : spentText budget used =
    "the metered budget of " ++
    (formatG budget ++ (" minutes is spent: " ++ (used.formatG ++ " minutes used this month")))
    := by
  delta spentText
  simp only [String.append_assoc]
  rfl

theorem spentText_inj {used used' : Double} :
    spentText budget used = spentText budget used' ↔ used.formatG = used'.formatG := by
  rw [spentText_eq, spentText_eq]
  -- the texts are compared as they stand, not worked out
  generalize used.formatG = text
  generalize used'.formatG = text'
  simp only [String.append_left_inj, String.append_right_inj]

theorem spentText_initial (used : Double) (rest : String) :
    (spentText budget used ++ rest).toList.head? = some 't' := by
  have first : "the metered budget of ".toList.head? = some 't' := by decide
  rw [spentText_eq]
  simp only [String.toList_append, List.head?_append, first, Option.some_or]

/-- A lane that is named is never answered with the ceiling's words. -/
theorem explicitLane_initial : (told (p.explicitLane request runners)).toList.head? ≠ some 't' := by
  have starts (start : String) (c : Char) (first : start.toList.head? = some c) (other : c ≠ 't')
      (rest : String) :
      (start ++ rest).toList.head? ≠ some 't' := by
    rw [String.toList_append, List.head?_append, first]
    exact fun same => other (Option.some.inj same)
  simp only [Policy.explicitLane]
  split
  · exact starts "unknown lane: " 'u' (by decide) (by decide) _
  · split
    · exact starts "device lane " 'd' (by decide) (by decide) "requires an explicit target"
    · split
      · exact starts "unknown device target: " 'u' (by decide) (by decide) _
      · split
        · exact starts "no eligible runner for lane " 'n' (by decide) (by decide) _
        · simp only [told, toString, String.append_assoc]
          exact starts "explicit " 'e' (by decide) (by decide) _

theorem explicitLane_ne (used : Double) :
    p.explicitLane request runners ≠ p.firstLocal request runners (spentText budget used) := by
  intro same
  have first : (told (p.explicitLane request runners)).toList.head? ≠ some 't' := explicitLane_initial
  rw [same, firstLocal_told] at first
  exact first (spentText_initial used _)

/-- What a request with room is told: its lane, or what stopped the hold from being taken or given
back. -/
def served (env : Environment) (p : Policy) (request : RouteRequest) (runners : List Runner)
    (hold : Nat) :
    Except Raised RouteDecision :=
  match (env.choice (.reserve repositoryUnknown hostedLane)).raised,
    (env.choice (.release hold)).raised with
  | some e, _ => .error e
  | none, some e => .error e
  | none, none => p.explicitLane request runners

theorem served_ne (hold : Nat) (used : Double) :
    served env p request runners hold ≠ p.firstLocal request runners (spentText budget used) := by
  have local' (e : Raised) (possible : mayRaise (.release hold) e = true) :
      Except.error e ≠ p.firstLocal request runners (spentText budget used) := by
    cases e with
    | sqliteError text =>
      unfold Policy.firstLocal
      split
      · exact fun same => nomatch same
      · exact fun same => nomatch Except.error.inj same
    | _ => cases possible
  unfold served
  split
  · rename_i e raised
    exact local' e (env.possible (.reserve repositoryUnknown hostedLane) e raised)
  · rename_i e _ raised
    exact local' e (env.possible _ e raised)
  · exact explicitLane_ne used

theorem counted_gives {q : Policy} {ledger : Bool} (attached : q.attachBudget ledger = .ok p)
    (ceiling : q.minuteBudget = some budget) : Counted p budget ∧ p.releaseMeteredMinutes = true := by
  cases ledger with
  | false =>
    rw [Policy.attachBudget, ceiling] at attached
    cases attached
  | true =>
    refine ⟨(counted_of_attached attached ceiling).1, ?_⟩
    rw [Policy.attachBudget, ceiling] at attached
    simp only [Bool.not_true, Bool.false_eq_true, if_false] at attached
    split_ifs at attached
    obtain rfl := Except.ok.inj attached
    rfl

section Counted
variable (owned : Owned request) (counts : Counted p budget)
include owned counts

theorem decision_waits (held : w.budgetLock = true) : decisionOn env p request runners w = none := by
  have waits : env.step w .lockBudget = none := by
    rw [step_calm (calm_of_safe fun _ => rfl)]
    simp only [answer, take, held, if_true]
  rw [decisionOn, owned.choose_eq, chooseHeld, reserveMetered_eq counts]
  simp only [holding, bind_eq, play_bind, play_call, waits, Option.bind_none, Option.map_none]

theorem decision_unread (free : w.budgetLock = false) {e : Raised}
    (raised : (env.choice .countMetered).raised = some e) :
    decisionOn env p request runners w = some (.error e) := by
  rw [decisionOn, owned.choose_eq, chooseHeld, reserveMetered_eq counts]
  simp only [bind_eq, play_bind, play_holding free, reserveUnder, play_spentMinutes_raised raised,
    Option.bind_some,
    andThen, Option.map_some]

theorem decision_spent (free : w.budgetLock = false) (counted : (env.choice .countMetered).raised = none)
    (full : ¬Room env p budget w.metered request.estimatedMinutes) :
    decisionOn env p request runners w =
      some (p.firstLocal request runners (spentText budget (usedMinutes env p w.metered))) := by
  have reached : p.reaches budget (usedMinutes env p w.metered) request.estimatedMinutes = true :=
    not_not.mp (mt (room_iff counts.reserves).mpr full)
  rw [decisionOn, owned.choose_eq, chooseHeld, reserveMetered_eq counts]
  simp only [bind_eq, play_bind, play_holding free, play_reserveUnder counted]
  rw [if_pos (show p.reaches budget (usedMinutes env p (World.metered _)) _ = true from reached)]
  simp only [Option.map_some, Option.bind_some, andThen, play_lift]

theorem decision_room (gives : p.releaseMeteredMinutes = true) (free : w.budgetLock = false)
    (counted : (env.choice .countMetered).raised = none)
    (room : Room env p budget w.metered request.estimatedMinutes) :
    decisionOn env p request runners w = some (served env p request runners w.metered.nextId) := by
  have open' : ¬p.reaches budget (usedMinutes env p w.metered) request.estimatedMinutes = true :=
    (room_iff counts.reserves).mp room
  have elsewhere {d : RouteDecision} (chosen : p.explicitLane request runners = .ok d) :
      d.lane ≠ hostedLane :=
    fun hosted => owned.unhosted ((explicitLane_lane chosen).symm.trans hosted)
  rw [decisionOn, owned.choose_eq, chooseHeld, reserveMetered_eq counts]
  simp only [bind_eq, play_bind, play_holding free, play_reserveUnder counted]
  rw [if_neg (show ¬p.reaches budget (usedMinutes env p (World.metered _)) _ = true from open')]
  unfold served
  cases refused : (env.choice (.reserve repositoryUnknown hostedLane)).raised with
  | some e => simp only [step_raised refused, Option.bind_some, Except.map, Option.map_some, andThen]
  | none =>
    have stays (u : World) : (releaseHold p (some w.metered.nextId)).play env.step u = env.step u
        (.release w.metered.nextId) := by
      simp only [releaseHold, gives, if_true, play_call]
    simp only [step_calm refused, answer, Option.bind_some, Except.map, Option.map_some, andThen,
      owned.chooseLane_eq,
      MeteredLedger.reserve]
    cases stuck : (env.choice (.release w.metered.nextId)).raised with
    | some e =>
      cases lane : p.explicitLane request runners with
      | error _ => simp only [play_bind, stays, step_raised stuck, Option.bind_some, andThen,
          Option.map_some]
      | ok d =>
        simp only [elsewhere lane, and_false, if_false, play_bind, stays, step_raised stuck,
          Option.bind_some, andThen,
          Option.map_some]
    | none =>
      cases lane : p.explicitLane request runners with
      | error _ =>
        simp only [play_bind, stays, step_calm stuck, answer, Option.bind_some, andThen,
          Option.map_some, raise, play_fail]
      | ok d =>
        simp only [elsewhere lane, and_false, if_false, play_bind, stays, step_calm stuck, answer,
          Option.bind_some, andThen,
          Option.map_some, pure_eq, play_done]

end Counted

/-- With everything else the same, two ledgers decide a request for an owned machine alike where the
ceiling cannot tell them apart, and nowhere else. -/
theorem owned_decision_same {q : Policy} {ledger : Bool} (attached : q.attachBudget ledger = .ok p)
    (owned : Owned request)
    (uniform : ∀ hold hold', (env.choice (.release hold)).raised = (env.choice (.release hold')).raised)
    (before after : MeteredLedger) :
    decisionOn env p request runners (w.withLedger before) = decisionOn env p request runners
      (w.withLedger after) ↔
      Alike env p w request.estimatedMinutes before after := by
  cases ceiling : q.minuteBudget with
  | none =>
    rw [Policy.attachBudget, ceiling] at attached
    obtain rfl := Except.ok.inj attached
    rw [decision_unlimited owned ceiling, decision_unlimited owned ceiling]
    refine iff_of_true rfl fun budget set => ?_
    cases ceiling.symm.trans set
  | some budget =>
    obtain ⟨counts, gives⟩ := counted_gives attached ceiling
    have only : Alike env p w request.estimatedMinutes before after ↔ _ :=
      ⟨fun alike => alike budget counts.ceiling, fun holds budget' set => by
        obtain rfl := Option.some.inj (counts.ceiling.symm.trans set)
        exact holds⟩
    rw [only]
    cases lock : w.budgetLock with
    | true =>
      rw [decision_waits owned counts (w := w.withLedger before) lock,
        decision_waits owned counts (w := w.withLedger after) lock]
      exact iff_of_true rfl (Or.inl rfl)
    | false =>
      cases counted : (env.choice .countMetered).raised with
      | some e =>
        rw [decision_unread owned counts (w := w.withLedger before) lock counted,
          decision_unread owned counts (w := w.withLedger after) lock counted]
        exact iff_of_true rfl (Or.inr (Or.inl (Option.some_ne_none e)))
      | none =>
        have spent (l : MeteredLedger) (full : ¬Room env p budget l request.estimatedMinutes) :
            decisionOn env p request runners (w.withLedger l) =
              some (p.firstLocal request runners (spentText budget (usedMinutes env p l))) :=
          decision_spent owned counts (w := w.withLedger l) lock counted full
        have room (l : MeteredLedger) (open' : Room env p budget l request.estimatedMinutes) :
            decisionOn env p request runners (w.withLedger l) =
            some (served env p request runners before.nextId) := by
          rw [decision_room owned counts gives (w := w.withLedger l) lock counted open']
          simp only [served, uniform _ before.nextId]
        simp only [Bool.false_eq_true, ne_eq, not_true_eq_false, false_or]
        by_cases here : Room env p budget before request.estimatedMinutes
        · by_cases there : Room env p budget after request.estimatedMinutes
          · rw [room before here, room after there]
            exact iff_of_true rfl (Or.inl ⟨here, there⟩)
          · rw [room before here, spent after there]
            refine iff_of_false (fun same => served_ne _ _ (Option.some.inj same)) ?_
            rintro (⟨-, open'⟩ | ⟨full, -, -⟩)
            · exact there open'
            · exact full here
        · by_cases there : Room env p budget after request.estimatedMinutes
          · rw [spent before here, room after there]
            refine iff_of_false (fun same => served_ne _ _ (Option.some.inj same).symm) ?_
            rintro (⟨open', -⟩ | ⟨-, full, -⟩)
            · exact here open'
            · exact full there
          · rw [spent before here, spent after there, Option.some.injEq]
            constructor
            · exact fun same => Or.inr ⟨here, there, spentText_inj.mp (firstLocal_inj same)⟩
            · rintro (⟨open', -⟩ | ⟨-, -, same⟩)
              · exact absurd open' here
              · rw [spentText_inj.mpr same]

end Owned

def deviceRequest : RouteRequest := { requestedLane := "device", target := some "laptop" }

def laptop : List Runner :=
  [⟨"laptop-1", "online", false, ["self-hosted", "Linux", "ARM64", "laptop"], true⟩]

/-- A run of another month does not change where a request for the laptop goes. -/
theorem last_month_alike :
    decisionOn calmDay ceilingPolicy deviceRequest laptop
      ((restingWorld Table.empty).withLedger Table.empty) =
      decisionOn calmDay ceilingPolicy deviceRequest laptop ((restingWorld Table.empty).withLedger
        (MeteredLedger.reserve Table.empty repositoryUnknown hostedLane "" "" 1760000000).2) := by
  have attached : { Policy.shipped with minuteBudget := some 20 }.attachBudget true = .ok
    ceilingPolicy := rfl
  refine (owned_decision_same attached ⟨by decide, by decide⟩ (fun _ _ => rfl) _ _).mpr
    fun budget set => ?_
  obtain rfl := Option.some.inj set
  exact Or.inr (Or.inr (Or.inl ⟨by unfold Room; decide +kernel, by unfold Room; decide +kernel⟩))

/-- Once the month is spent, the idle laptop is refused. -/
theorem spent_month_blocks_laptop :
    ¬ ∀ (q p : Policy) (ledger : Bool) (request : RouteRequest) (runners : List Runner)
      (env : Environment) (w : World)
      (before after : MeteredLedger), q.attachBudget ledger = .ok p → Owned request →
      (∀ hold hold', (env.choice (.release hold)).raised = (env.choice (.release hold')).raised) →
      decisionOn env p request runners (w.withLedger before) = decisionOn env p request runners
      (w.withLedger after) := by
  intro claim
  have same := claim { Policy.shipped with minuteBudget := some 20 } ceilingPolicy true
    deviceRequest laptop calmDay
    (restingWorld Table.empty) Table.empty onceSpent rfl ⟨by decide, by decide⟩ fun _ _ => rfl
  have fresh : (decisionOn calmDay ceilingPolicy deviceRequest laptop
      ((restingWorld Table.empty).withLedger Table.empty)).map Except.toBool = some true := by
        decide +kernel
  have spent : (decisionOn calmDay ceilingPolicy deviceRequest laptop
      ((restingWorld Table.empty).withLedger onceSpent)).map Except.toBool = some false := by
        decide +kernel
  rw [same, spent] at fresh
  cases fresh

end Cindral.Dispatch

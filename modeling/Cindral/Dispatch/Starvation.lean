import Cindral.Dispatch.Once
import Cindral.Dispatch.Parts
import Cindral.Dispatch.Preview
import Mathlib.Data.Finset.Card

/-!
# Whether a ready delivery is replayed at last

A pass reads the thirty oldest ready deliveries, and leaves some of them ready: those whose lookup
fails, and those the metered ceiling refuses. Each pass here runs alone in one environment. A row is
then settled by a pass that reads it or is left as it was, and what a row is left for does not pass.
-/

namespace Cindral.Dispatch
open Base Routing Script Handling

/-! ## What one replay can touch -/

/-- A call of one replay: on its own row, with its own hold, and outside the locks. -/
def Call.within (key : String × String) (hold : Option Nat) : Call → Prop
  | .claimDelivery repository delivery | .rejectReady repository delivery _ | .finish repository
      delivery _ _ =>
    (lower repository, delivery) = key
  | .release id | .attributeHold id _ _ _ => hold = some id
  | .register _ _ _ _ _ _ _ | .reserve _ _ | .lockBudget | .lockCapacity => False
  | _ => True

/-- The metered ledger is what it was, but for the one hold. -/
def Backs (ledger : MeteredLedger) (hold : Option Nat) (later : MeteredLedger) : Prop :=
  match hold with
  | none => later = ledger
  | some id => later.release id = ledger

/-- What a replay leaves as it was. -/
structure Beside (key : String × String) (hold : Option Nat) (w v : World) : Prop where
  others : ∀ k, k ≠ key → v.deliveries.find? k = w.deliveries.find? k
  free : v.budgetLock = false
  backs : Backs w.metered hold v.metered

variable {env : Environment} {server : Server} {w v u : World} {d : Delivery}
    {key : String × String} {hold : Option Nat}

theorem release_release (ledger : MeteredLedger) (id : Nat) :
    (ledger.release id).release id = ledger.release id := by
  refine Table.eq_of_rows ?_
  simp only [MeteredLedger.release, Table.filter, List.filter_filter, Bool.and_self]

theorem release_attributed (ledger : MeteredLedger) (id : Nat) (repository workflow ref : String) :
    (ledger.attributeHold id repository workflow ref).release id = ledger.release id := by
  refine Table.eq_of_rows ?_
  simp only [MeteredLedger.release, MeteredLedger.attributeHold, Table.filter, Table.update,
    List.filter_map]
  have kept : ∀ r ∈ ledger.rows.filter ((fun r : Hold => decide (r.id ≠ id)) ∘
      ((Hold.named repository workflow ref).only fun r => decide (r.id = id))),
      ((Hold.named repository workflow ref).only fun r => decide (r.id = id)) r = r := by
    intro r member
    have other := (List.mem_filter.mp member).2
    simp only [Function.comp_apply, Edit.keeps, decide_eq_true_eq] at other
    simp only [Edit.only_apply, other, decide_false, Bool.false_eq_true, if_false]
  rw [List.map_congr_left kept, List.map_id']
  refine List.filter_congr fun r _ => ?_
  simp only [Function.comp_apply, Edit.keeps]

theorem backs_count {ledger later : MeteredLedger} (backs : Backs ledger hold later) (since : ℚ)
    (lane : String) :
    ledger.count since lane ≤ later.count since lane := by
  cases hold with
  | none =>
    obtain rfl : later = ledger := backs
    exact le_rfl
  | some id =>
    obtain rfl : later.release id = ledger := backs
    exact List.filter_sublist.countP_le

theorem move_other (t : Deliveries) {repository delivery : String} {source target : DeliveryState}
    {error : Option String}
    {now : ℚ} {k : String × String} (other : k ≠ (lower repository, delivery)) :
    (t.move repository delivery source target error now).2.find? k = t.find? k := by
  simp only [Deliveries.move, Table.find?_update]
  cases found : t.find? k with
  | none => rfl
  | some d =>
    have named : d.key = k := (Table.find?_some found).2
    have unhit : (d.key = (lower repository, delivery)) = False := by
      rw [named]
      exact eq_false other
    simp only [Option.map_some, Edit.only_apply, unhit, decide_false, Bool.false_and,
      Bool.false_eq_true, if_false]

theorem within_beside {k : Choice} {c : Call} {r : Except Raised (Ans c)} (beside : Beside key hold w v)
    (inside : c.within key hold) (performed : perform k v c = some (r, u)) : Beside key hold w u := by
  rcases perform_cases performed with ⟨_, _, _, _, rfl⟩ | ⟨_, answered⟩
  · exact beside
  · cases c with
    | claimDelivery repository delivery | rejectReady repository delivery _ =>
      obtain ⟨-, rfl⟩ := Prod.mk.inj (Option.some.inj answered)
      refine ⟨fun k other => (move_other _ ?_).trans (beside.others k other), beside.free, beside.backs⟩
      rw [show (lower repository, delivery) = key from inside]
      exact other
    | finish repository delivery state _ =>
      simp only [answer] at answered
      split at answered
      · obtain ⟨-, rfl⟩ := Prod.mk.inj (Option.some.inj answered)
        exact beside
      · obtain ⟨-, rfl⟩ := Prod.mk.inj (Option.some.inj answered)
        refine ⟨fun k other => (move_other _ ?_).trans (beside.others k other), beside.free, beside.backs⟩
        rw [show (lower repository, delivery) = key from inside]
        exact other
    | release id =>
      obtain ⟨-, rfl⟩ := Prod.mk.inj (Option.some.inj answered)
      obtain rfl : hold = some id := inside
      exact ⟨beside.others, beside.free, (release_release _ _).trans beside.backs⟩
    | attributeHold id _ _ _ =>
      obtain ⟨-, rfl⟩ := Prod.mk.inj (Option.some.inj answered)
      obtain rfl : hold = some id := inside
      exact ⟨beside.others, beside.free, (release_attributed _ _ _ _ _).trans beside.backs⟩
    | register _ _ _ _ _ _ _ | reserve _ _ | lockBudget | lockCapacity => exact inside.elim
    | enqueue _ =>
      simp only [answer] at answered
      split at answered
      · obtain ⟨-, rfl⟩ := Prod.mk.inj (Option.some.inj answered)
        exact ⟨beside.others, beside.free, beside.backs⟩
      · obtain ⟨-, rfl⟩ := Prod.mk.inj (Option.some.inj answered)
        exact beside
    | unlockBudget =>
      obtain ⟨-, rfl⟩ := Prod.mk.inj (Option.some.inj answered)
      exact ⟨beside.others, rfl, beside.backs⟩
    | _ =>
      obtain ⟨-, rfl⟩ := Prod.mk.inj (Option.some.inj answered)
      exact ⟨beside.others, beside.free, beside.backs⟩

theorem within_prompt {c : Call} (inside : c.within key hold) : c.prompt := by
  cases c with
  | lockBudget | lockCapacity => exact inside.elim
  | _ => trivial

variable (env) in
theorem play_within {α : Type} {s : Program α} (only : s.Only (Call.within key hold))
    (beside : Beside key hold w v) :
    ∃ r u, s.play env.step v = some (r, u) ∧ Beside key hold w u ∧ (v.Past key → u.Past key) := by
  obtain ⟨⟨r, u⟩, played⟩ :=
    play_total (fun v c inside => prompt_answered env v c (within_prompt inside)) only v
  refine ⟨r, u, played, ?_, fun past => ?_⟩
  · exact play_only (I := Beside key hold w)
      (fun v c r u inside beside taken => within_beside beside inside taken) only
      beside played
  · have keep (v : World) (c : Call) (r : Except Raised (Ans c)) (u : World) (_ : c.within key hold)
        (past : v.Past key)
        (taken : env.step v c = some (r, u)) : u.Past key := past_evolves (perform_evolves taken) past
    exact play_only keep only past played

section Row
variable (lowered : lower d.repository = d.repository)
include lowered

theorem named_key : (lower d.repository, d.delivery) = d.key := by rw [lowered]; rfl

omit lowered in
variable (key hold) in
theorem within_releaseReservation (ledger : Bool) :
    (releaseReservation ledger hold).Only (Call.within key hold) := by
  unfold releaseReservation
  split
  · trivial
  · split
    · exact only_bind (only_attempt (only_call rfl)) fun _ => trivial
    · trivial

theorem within_finishRecord (state : DeliveryState) (error : String) :
    (finishRecord d state error).Only (Call.within d.key hold) := by
  refine only_bind (only_attempt (only_call (named_key lowered))) fun outcome => ?_
  split
  · trivial
  · trivial
  · trivial
  · trivial

theorem within_recordOutcome (ledger : Bool) (outcome : Except Raised Unit) :
    (recordOutcome d ledger hold outcome).Only (Call.within d.key hold) := by
  have releases (definite : Bool) : (releaseIf definite ledger hold).Only (Call.within d.key hold) := by
    unfold releaseIf
    split
    · exact within_releaseReservation _ _ ledger
    · trivial
  unfold recordOutcome
  split
  · exact only_bind (releases _) fun _ => within_finishRecord lowered _ _
  · exact only_bind (within_finishRecord lowered _ _) fun _ => only_bind (releases _) fun _ => only_done _
  · refine only_bind ?_ fun _ => within_finishRecord lowered _ _
    unfold nameHold
    split
    · trivial
    · split
      · exact only_bind (only_attempt (only_call rfl)) fun _ => trivial
      · trivial

variable (hold) in
/-- `dispatch_record` past its claim. -/
theorem within_claimed (ledger claimed : Bool) :
    (if claimed then dispatchClaimed d ledger hold
      else do
        releaseReservation ledger hold
        match ← ask (.getDelivery d.repository d.delivery) with
        | none => pure (.state .uncertain, "delivery record vanished before dispatch")
        | some current => if current.state.terminal then pure (.duplicate, "") else pure (.state current.state, "") :
          Program (Handled × String)).Only (Call.within d.key hold) := by
  split
  · exact only_bind (only_attempt (only_call trivial)) fun outcome => within_recordOutcome lowered
      ledger outcome
  · refine only_bind (within_releaseReservation _ _ ledger) fun _ => only_bind (only_call trivial)
      fun current => ?_
    split
    · trivial
    · split <;> trivial

end Row

/-! ## What a row waits for -/

/-- The ceiling lets one more run of the hosted lane through, hold included. -/
def Admits (env : Environment) (p : Policy) (ledger : MeteredLedger) : Prop :=
  ∀ budget, p.minuteBudget = some budget → p.meteredMinutes = true →
    (env.choice .countMetered).raised = none ∧ Room env p budget ledger (.finite 0) ∧
      (p.reserveMeteredMinutes = true →
      (env.choice (.reserve repositoryUnknown hostedLane)).raised = none)

/-- The replay of a row needs no hold, or gets one. -/
def Affords (env : Environment) (p : Policy) (ledger : MeteredLedger) (d : Delivery) : Prop :=
  d.inputs.lookup "cindral_lane" = some hostedLane → Admits env p ledger

/-- The replay of a row settles it: it is permitted and its adapter is there, it can be afforded and
claimed, or it is to be rejected. -/
def Clears (env : Environment) (server : Server) (ledger : MeteredLedger) (d : Delivery) : Prop :=
  match server.policy.checkDispatch d.repository d.workflow d.ref with
  | .error e => (env.choice (.rejectReady d.repository d.delivery e.text)).raised = none
  | .ok _ => (env.choice (.workflowExists d.repository d.workflow)).raised = none ∧
    if (env.choice (.workflowExists d.repository d.workflow)).present then
      Affords env server.policy ledger d ∧
      (env.choice (.claimDelivery d.repository d.delivery)).raised = none
    else (env.choice (.rejectReady d.repository d.delivery
    (removedReason d.repository d.workflow))).raised = none

def Settles (env : Environment) (server : Server) (ledger : MeteredLedger) (d : Delivery) : Prop :=
  server.github = true ∧ (env.choice .pending).raised = none ∧ Clears env server ledger d

theorem admits_fewer {p : Policy} {ledger later : MeteredLedger} (rates : 0 < p.minutesPerRun)
    (grown : ∀ since lane, ledger.count since lane ≤ later.count since lane)
    (admits : Admits env p later) :
    Admits env p ledger := by
  intro budget set counted
  obtain ⟨calm, room, reserved⟩ := admits budget set counted
  refine ⟨calm, Bool.eq_false_of_not_eq_true fun full => ?_, reserved⟩
  have still : p.full budget (usedMinutes env p later) (.finite 0) = true :=
    Policy.full_mono rates (grown _ _) full
  rw [Room, still] at room
  cases room

/-- The ledger matters to a row through the ceiling alone. -/
theorem clears_through {ledger later : MeteredLedger}
    (ceiling : Admits env server.policy ledger → Admits env server.policy later)
    (clears : Clears env server ledger d) : Clears env server later d := by
  unfold Clears at clears ⊢
  split
  · rename_i e refused
    simpa only [refused] using clears
  · rename_i permitted
    simp only [permitted] at clears
    refine ⟨clears.1, ?_⟩
    have rest := clears.2
    split
    · rename_i present
      simp only [present, if_true] at rest
      exact ⟨fun hosted => ceiling (rest.1 hosted), rest.2⟩
    · rename_i absent
      rw [if_neg absent] at rest
      exact rest

theorem settles_through {ledger later : MeteredLedger}
    (ceiling : Admits env server.policy ledger → Admits env server.policy later)
    (settles : Settles env server ledger d) : Settles env server later d :=
  ⟨settles.1, settles.2.1, clears_through ceiling settles.2.2⟩

theorem clears_fewer {ledger later : MeteredLedger} (rates : 0 < server.policy.minutesPerRun)
    (grown : ∀ since lane, ledger.count since lane ≤ later.count since lane)
    (clears : Clears env server later d) :
    Clears env server ledger d :=
  clears_through (admits_fewer rates grown) clears

/-! ## One replay -/

theorem beside_refl (free : w.budgetLock = false) : Beside key none w w := ⟨fun _ _ => rfl, free, rfl⟩

theorem moved_past {t : Deliveries} {repository delivery : String} {source : DeliveryState}
    (target : DeliveryState)
    (error : Option String) (now : ℚ) (found : t.find? (lower repository, delivery) = some d)
    (state : d.state = source) :
    ∃ d', (t.move repository delivery source target error now).2.find?
      (lower repository, delivery) = some d' ∧
      d'.state = target := by
  refine ⟨Delivery.moved target error now d, ?_, rfl⟩
  have named : d.key = (lower repository, delivery) := (Table.find?_some found).2
  simp only [Deliveries.move, Table.find?_update, found, Option.map_some, Edit.only_apply, named,
    state, decide_true,
    Bool.and_self, if_true]

/-- The end of a request for a hold: it is let through, with a hold where one is kept, or it is not. -/
structure Asked (admitted : Prop) (w : World) (r : Except Raised (Option Nat × Option String))
    (v : World) : Prop where
  deliveries : v.deliveries = w.deliveries
  free : v.budgetLock = false
  ends : (admitted ∧ ∃ hold, r = .ok (hold, none) ∧ Backs w.metered hold v.metered) ∨
    (¬admitted ∧ v.metered = w.metered ∧ ∀ hold, r ≠ .ok (hold, none))

theorem asked_unheld {admitted : Prop} (free : w.budgetLock = false) (lets : admitted) :
    Asked admitted w (.ok (none, none)) w :=
  ⟨rfl, free, Or.inl ⟨lets, none, rfl, rfl⟩⟩

section Ceiling
variable {p : Policy} {budget : ℚ}

theorem play_budgetRefusal {p : Policy} (unreserved : p.reserveMeteredMinutes = false) (budget : ℚ)
    (estimated : Double)
    (w : World) (calm : (env.choice .countMetered).raised = none) :
    ∃ refusal, (budgetRefusal p budget estimated).play env.step w = some (.ok refusal, w) ∧
      (refusal = none ↔ Room env p budget w.metered estimated) := by
  have spent : (spentMinutes p).play env.step w = some (.ok (usedMinutes env p w.metered), w) :=
    play_spentMinutes calm
  have room : Room env p budget w.metered estimated ↔ p.admits budget (usedMinutes env p w.metered)
      estimated = true := by
    rw [Room, Policy.full, if_neg (by rw [unreserved]; exact Bool.false_ne_true), Bool.not_eq_false']
  rw [room]
  cases open' : p.admits budget (usedMinutes env p w.metered) estimated with
  | true =>
    refine ⟨none, ?_, iff_of_true rfl rfl⟩
    simp only [budgetRefusal, bind_eq, play_bind, spent, Option.bind_some, andThen, open', if_true,
      pure_eq, play_done]
  | false =>
    simp only [budgetRefusal, bind_eq, play_bind, spent, Option.bind_some, andThen, open',
      Bool.false_eq_true, if_false,
      pure_eq, play_done]
    exact ⟨_, rfl, iff_of_false (by rintro ⟨⟩) not_false⟩

variable (ceiling : p.minuteBudget = some budget) (counted : p.meteredMinutes = true)
include ceiling counted

theorem admits_under (ledger : MeteredLedger) : Admits env p ledger ↔
    (env.choice .countMetered).raised = none ∧ Room env p budget ledger (.finite 0) ∧
      (p.reserveMeteredMinutes = true →
      (env.choice (.reserve repositoryUnknown hostedLane)).raised = none) := by
  refine ⟨fun admits => admits budget ceiling counted, fun holds budget' set _ => ?_⟩
  obtain rfl := Option.some.inj (ceiling.symm.trans set)
  exact holds

/-- A ceiling without a ledger to hold in is asked alone. -/
theorem asked_refusal (free : w.budgetLock = false) (unreserved : p.reserveMeteredMinutes = false) :
    ∃ r v, (do
      let refusal ← budgetRefusal p budget (.finite 0)
      pure (none, refusal) : Program (Option Nat × Option String)).play env.step w = some (r, v) ∧
        Asked (Admits env p w.metered) w r v := by
  have under : Admits env p w.metered ↔ _ := admits_under ceiling counted w.metered
  rw [unreserved] at under
  rw [under]
  cases calm : (env.choice .countMetered).raised with
  | some e =>
    refine ⟨.error e, w, ?_, rfl, free, Or.inr
      ⟨fun admits => absurd admits.1 (by simp), rfl, by rintro _ ⟨⟩⟩⟩
    simp only [budgetRefusal, bind_eq, play_bind, play_spentMinutes_raised calm, Option.bind_some,
      andThen]
  | none =>
    obtain ⟨refusal, played, room⟩ := play_budgetRefusal unreserved budget (.finite 0) w calm
    refine ⟨.ok (none, refusal), w, ?_, rfl, free, ?_⟩
    · simp only [bind_eq, play_bind, played, Option.bind_some, andThen, pure_eq, play_done]
    · cases refusal with
      | none => exact Or.inl ⟨⟨rfl, room.mp rfl, by rintro ⟨⟩⟩, none, rfl, rfl⟩
      | some reason => exact Or.inr ⟨fun admits => absurd (room.mpr admits.2.1) (by simp),
          rfl, by rintro _ ⟨⟩⟩

theorem asked_reserve (free : w.budgetLock = false) (reserves : p.reserveMeteredMinutes = true) :
    ∃ r v, (holding .lockBudget .unlockBudget (reserveUnder p budget (.finite 0))).play env.step
      w = some (r, v) ∧
      Asked (Admits env p w.metered) w r v := by
  have under : Admits env p w.metered ↔ _ := admits_under ceiling counted w.metered
  rw [room_iff reserves, reserves] at under
  rw [under, play_holding free]
  cases calm : (env.choice .countMetered).raised with
  | some e =>
    refine ⟨.error e, { w with budgetLock := false }, ?_, rfl, rfl, Or.inr
      ⟨fun admits => absurd admits.1 (by simp), rfl, by rintro _ ⟨⟩⟩⟩
    simp only [reserveUnder, bind_eq, play_bind, play_spentMinutes_raised calm, Option.bind_some,
      andThen, Option.map_some]
  | none =>
    rw [play_reserveUnder calm]
    split
    · rename_i reached
      exact ⟨_, _, rfl, rfl, rfl, Or.inr ⟨fun admits => admits.2.1 reached, rfl, by rintro _ ⟨⟩⟩⟩
    · rename_i open'
      cases failed : (env.choice (.reserve repositoryUnknown hostedLane)).raised with
      | some e =>
        rw [step_raised failed]
        exact ⟨_, _, rfl, rfl, rfl, Or.inr
          ⟨fun admits => absurd (admits.2.2 rfl) (by simp), rfl, by rintro _ ⟨⟩⟩⟩
      | none =>
        rw [step_calm failed]
        exact ⟨_, _, rfl, rfl, rfl, Or.inl
          ⟨⟨rfl, open', fun _ => rfl⟩, _, rfl, release_reserve _ _ _ _ _ _⟩⟩

end Ceiling

theorem asked_reserveMetered (p : Policy) (free : w.budgetLock = false) :
    ∃ r v, (reserveMetered p (.finite 0)).play env.step w = some (r, v) ∧
    Asked (Admits env p w.metered) w r v := by
  unfold reserveMetered
  split
  · rename_i unlimited
    refine ⟨_, w, rfl, asked_unheld free fun budget set => ?_⟩
    rw [unlimited] at set
    cases set
  rename_i budget ceiling
  split
  · rename_i uncounted
    refine ⟨_, w, rfl, asked_unheld free fun _ _ counted => ?_⟩
    rw [counted] at uncounted
    cases uncounted
  rename_i counted
  simp only [Bool.not_eq_true', Bool.not_eq_false] at counted
  split
  · rename_i unreserved
    exact asked_refusal ceiling counted free (by simpa using unreserved)
  · rename_i reserves
    exact asked_reserve ceiling counted free (by simpa using reserves)

variable (env d) in
theorem asked_reserveFor (p : Policy) (free : w.budgetLock = false) :
    ∃ r v, (reserveFor p d.inputs).play env.step w = some (r, v) ∧ Asked (Affords env p w.metered d)
    w r v := by
  unfold reserveFor
  split
  · rename_i hosted
    have needs : Affords env p w.metered d ↔ Admits env p w.metered :=
      ⟨fun affords => affords hosted, fun admits _ => admits⟩
    rw [needs]
    exact asked_reserveMetered p free
  · rename_i elsewhere
    exact ⟨_, w, rfl, asked_unheld free fun hosted => absurd hosted elsewhere⟩

/-- A row of the ledger that waits to be replayed, under its lowered name. -/
structure Waiting (w : World) (d : Delivery) : Prop where
  found : w.deliveries.find? d.key = some d
  ready : d.state = .ready
  lowered : lower d.repository = d.repository

/-- What a replay did to its row: settled it, or left it as it was. -/
structure Replayed (settled : Prop) (d : Delivery) (w v : World) : Prop where
  others : ∀ k, k ≠ d.key → v.deliveries.find? k = w.deliveries.find? k
  free : v.budgetLock = false
  grown : ∀ since lane, w.metered.count since lane ≤ v.metered.count since lane
  past : settled → v.Past d.key
  kept : ¬settled → v.deliveries = w.deliveries

theorem replayed_of_beside {settled : Prop} (beside : Beside d.key hold w v)
    (past : settled → v.Past d.key)
    (kept : ¬settled → v.deliveries = w.deliveries) : Replayed settled d w v :=
  ⟨beside.others, beside.free, backs_count beside.backs, past, kept⟩

theorem waiting_past (waiting : Waiting w d) (same : v.deliveries = w.deliveries) {target : DeliveryState}
    (target_past : target ≠ .ready) {error : Option String} {now : ℚ} :
    ({ v with deliveries := (v.deliveries.move d.repository d.delivery .ready target error now).2
    } : World).Past d.key := by
  have named := named_key waiting.lowered
  have found : v.deliveries.find? (lower d.repository, d.delivery) = some d := by
    rw [named, same]; exact waiting.found
  obtain ⟨d', moved, state⟩ := moved_past target error now found waiting.ready
  rw [named] at moved
  exact ⟨d', moved, by rw [state]; exact target_past⟩

variable (env server) in
theorem replayed_reject (waiting : Waiting w d) (free : w.budgetLock = false) (reason : String) :
    ∃ r v, (rejectAndHandOff server d reason).play env.step w = some (r, v) ∧
      Replayed ((env.choice (.rejectReady d.repository d.delivery reason)).raised = none) d w v := by
  cases calm : (env.choice (.rejectReady d.repository d.delivery reason)).raised with
  | some e =>
    refine ⟨.error e, w, ?_, replayed_of_beside (beside_refl free) (by rintro ⟨⟩) fun _ => rfl⟩
    simp only [rejectAndHandOff, bind_eq, play_bind, play_call, step_raised calm, Option.bind_some,
      andThen]
  | none =>
    have inside : Call.within d.key none (.rejectReady d.repository d.delivery reason) :=
      named_key waiting.lowered
    have performed : perform (env.choice (.rejectReady d.repository d.delivery reason)) w
        (.rejectReady d.repository d.delivery reason) = _ := step_calm calm
    have first := within_beside (beside_refl free) inside performed
    have rejected : DeliveryState.rejected ≠ .ready := by decide
    have rest (rejected : Bool) : (if rejected then handOff server d else pure ()).Only
        (Call.within d.key none) := by
      split
      · exact only_handOff trivial
      · trivial
    obtain ⟨r, u, played, beside, past⟩ := play_within env (rest _) first
    refine ⟨r, u, ?_, replayed_of_beside beside (fun _ => past (waiting_past waiting rfl rejected))
      fun out => absurd rfl out⟩
    simp only [rejectAndHandOff, bind_eq, play_bind, play_call, step_calm calm, answer,
      Option.bind_some, andThen]
    exact played

variable (env server) in
/-- A replay past its hold: the row is claimed and settled, or nothing is sent. -/
theorem replayed_send (waiting : Waiting w d) (same : v.deliveries = w.deliveries)
    (beside : Beside d.key hold w v) :
    ∃ r u, (replaySend server d hold).play env.step v = some (r, u) ∧ Beside d.key hold w u ∧
      ((env.choice (.claimDelivery d.repository d.delivery)).raised = none → u.Past d.key) ∧
      ((env.choice (.claimDelivery d.repository d.delivery)).raised ≠ none → u = v) := by
  cases calm : (env.choice (.claimDelivery d.repository d.delivery)).raised with
  | some e =>
    refine ⟨.error e, v, ?_, beside, by rintro ⟨⟩, fun _ => rfl⟩
    simp only [replaySend, dispatchRecord, bind_eq, play_bind, play_call, step_raised calm,
      Option.bind_some, andThen]
  | none =>
    have inside : Call.within d.key hold (.claimDelivery d.repository d.delivery) :=
      named_key waiting.lowered
    have performed : perform (env.choice (.claimDelivery d.repository d.delivery)) v
        (.claimDelivery d.repository d.delivery) = _ := step_calm calm
    have first := within_beside beside inside performed
    have attempting : DeliveryState.attempting ≠ .ready := by decide
    have rest (claimed : Bool) := only_bind (within_claimed hold waiting.lowered server.jobsDb claimed)
      (f := fun handled => if shouldFallback handled.1 then handOff server d else pure ())
      fun handled => by
        split
        · exact only_handOff trivial
        · trivial
    obtain ⟨r, u, played, after, past⟩ := play_within env (rest _) first
    refine ⟨r, u, ?_, after, fun _ => past (waiting_past waiting same attempting), fun out =>
      absurd rfl out⟩
    rw [← played]
    simp only [replaySend, dispatchRecord, bind_eq, play_bind, play_call, step_calm calm, answer,
      Option.bind_some, andThen]
    rfl

/-- A replay that does not come to its hold ends there. -/
theorem stopped_replayRecord {r : Except Raised (Option (Option Nat))}
    (held : ∀ hold, r ≠ .ok (some hold))
    (played : (replayHold server d).play env.step w = some (r, v)) :
    (replayRecord server d).play env.step w = some (.ok (), v) := by
  simp only [replayRecord, bind_eq, play_bind, play_attempt, played, Option.map_some,
    Option.bind_some, andThen]
  cases r with
  | error e => rfl
  | ok begun =>
    cases begun with
    | none => rfl
    | some hold => exact absurd rfl (held hold)

theorem reject_replayRecord {reason : String} {r : Except Raised Unit}
    (played : (rejectAndHandOff server d reason).play env.step w = some (r, v))
    (begins : (replayHold server d).play env.step w =
      ((rejectAndHandOff server d reason).bind fun _ => pure none).play env.step w) :
    (replayRecord server d).play env.step w = some (.ok (), v) := by
  cases r with
  | error e =>
    refine stopped_replayRecord (r := .error e) (by rintro _ ⟨⟩) ?_
    rw [begins, play_bind, played, Option.bind_some, andThen]
  | ok _ =>
    refine stopped_replayRecord (r := .ok none) (by rintro _ ⟨⟩) ?_
    rw [begins, play_bind, played, Option.bind_some, andThen]
    rfl

/-- Giving a hold back never fails, as far as its caller can tell. -/
theorem releaseReservation_ok {ledger : Bool} {r : Except Raised Unit}
    (played : (releaseReservation ledger hold).play env.step v = some (r, u)) : r = .ok () := by
  unfold releaseReservation at played
  split at played
  · exact (Prod.mk.inj (Option.some.inj played)).1.symm
  · split at played
    · obtain ⟨r', u', -, rest⟩ := play_attempt_cases played
      exact (Prod.mk.inj (Option.some.inj rest)).1.symm
    · exact (Prod.mk.inj (Option.some.inj played)).1.symm

variable (env) in
theorem play_releaseReservation (beside : Beside key hold w v) (ledger : Bool) :
    ∃ u, (releaseReservation ledger hold).play env.step v = some (.ok (), u) ∧ Beside key hold w u ∧
      u.deliveries = v.deliveries ∧ (v.Past key → u.Past key) := by
  obtain ⟨r, u, played, after, past⟩ := play_within env (within_releaseReservation key hold ledger) beside
  have keep (x : World) (c : Call) (r : Except Raised (Ans c)) (y : World) (quiet : c.aside)
      (kept : x.deliveries = v.deliveries) (taken : env.step x c = some (r, y)) :
      y.deliveries = v.deliveries :=
    (sideline_keeps taken quiet.1).2.2.trans kept
  obtain rfl := releaseReservation_ok played
  exact ⟨u, played, after, play_only keep (only_releaseReservation mute_aside ledger hold) rfl
    played, past⟩

/-- A replay that has its hold, or needs none. -/
theorem held_replayRecord (waiting : Waiting w d) (same : v.deliveries = w.deliveries)
    (beside : Beside d.key hold w v)
    (held : (replayHold server d).play env.step w = some (.ok (some hold), v)) :
    ∃ u, (replayRecord server d).play env.step w = some (.ok (), u) ∧
      Replayed ((env.choice (.claimDelivery d.repository d.delivery)).raised = none) d w u := by
  obtain ⟨r, u, sent, after, claimed, unclaimed⟩ := replayed_send env server waiting same beside
  have kept (failed : (env.choice (.claimDelivery d.repository d.delivery)).raised ≠ none) :
      u.deliveries = w.deliveries := by rw [unclaimed failed, same]
  cases r with
  | ok _ =>
    refine ⟨u, ?_, replayed_of_beside after claimed kept⟩
    simp only [replayRecord, bind_eq, play_bind, play_attempt, held, sent, Option.map_some,
      Option.bind_some, andThen, pure_eq,
      play_done]
  | error e =>
    obtain ⟨x, released, last, still, past⟩ := play_releaseReservation env after server.jobsDb
    refine ⟨x, ?_, replayed_of_beside last (fun calm => past (claimed calm)) fun failed =>
      still.trans (kept failed)⟩
    simp only [replayRecord, bind_eq, play_bind, play_attempt, held, sent, Option.map_some,
      Option.bind_some, andThen, released]

variable (env server) in
/-- One replay of a waiting row, in full. -/
theorem replayed_record (waiting : Waiting w d) (free : w.budgetLock = false) :
    ∃ v, (replayRecord server d).play env.step w = some (.ok (), v) ∧
    Replayed (Clears env server w.metered d) d w v := by
  unfold Clears
  cases checked : server.policy.checkDispatch d.repository d.workflow d.ref with
  | error e =>
    obtain ⟨r, v, played, replayed⟩ := replayed_reject env server waiting free e.text
    refine ⟨v, reject_replayRecord played ?_, replayed⟩
    simp only [replayHold, checked, bind_eq]
  | ok _ =>
    simp only
    cases looked : (env.choice (.workflowExists d.repository d.workflow)).raised with
    | some e =>
      refine ⟨w, stopped_replayRecord (r := .error e) (by rintro _ ⟨⟩) ?_,
        replayed_of_beside (beside_refl free) (fun clears => absurd clears.1 (by simp)) fun _ => rfl⟩
      simp only [replayHold, checked, bind_eq, play_bind, play_call, step_raised looked,
        Option.bind_some, andThen]
    | none =>
      have found : env.step w (.workflowExists d.repository d.workflow) =
          some (.ok (env.choice (.workflowExists d.repository d.workflow)).present, w) := step_calm looked
      cases present : (env.choice (.workflowExists d.repository d.workflow)).present with
      | false =>
        rw [present] at found
        obtain ⟨r, v, played, replayed⟩ := replayed_reject env server waiting free
          (removedReason d.repository d.workflow)
        refine ⟨v, reject_replayRecord played ?_, ?_⟩
        · simp only [replayHold, checked, bind_eq, play_bind, play_call, found, Option.bind_some,
            andThen, Bool.false_eq_true,
            if_false]
        · simpa only [true_and, Bool.false_eq_true, if_false] using replayed
      | true =>
        rw [present] at found
        obtain ⟨r, v, asked, taken⟩ := asked_reserveFor env d server.policy free
        have holds : (replayHold server d).play env.step w =
            (andThen env.step (fun x : Option Nat × Option String =>
              (pure (if x.2.isSome then none else some x.1) : Program (Option (Option Nat))))
                (r, v)) := by
          simp only [replayHold, checked, bind_eq, play_bind, play_call, found, Option.bind_some,
            andThen, if_true, asked]
        simp only [true_and, if_true]
        rcases taken.ends with ⟨affords, hold, rfl, backs⟩ | ⟨short, kept, unheld⟩
        · have beside : Beside d.key hold w v := ⟨fun k _ => by rw [taken.deliveries], taken.free, backs⟩
          obtain ⟨u, played, replayed⟩ := held_replayRecord waiting taken.deliveries beside holds
          exact ⟨u, played, by simpa only [affords, true_and] using replayed⟩
        · have beside : Beside d.key none w v := ⟨fun k _ => by rw [taken.deliveries], taken.free, kept⟩
          refine ⟨v, ?_, replayed_of_beside beside (fun clears => absurd clears.1 short) fun _ =>
            taken.deliveries⟩
          cases r with
          | error e => exact stopped_replayRecord (r := .error e) (by rintro _ ⟨⟩) holds
          | ok begun =>
            obtain ⟨hold, reason⟩ := begun
            cases reason with
            | none => exact absurd rfl (unheld hold)
            | some reason => exact stopped_replayRecord (r := .ok none) (by rintro _ ⟨⟩) holds

/-! ## A pass -/

/-- No handler is inside the budget lock, and every row has the name `register` gives it. -/
structure Resting (w : World) : Prop where
  free : w.budgetLock = false
  lowered : ∀ k d, w.deliveries.find? k = some d → lower d.repository = d.repository

theorem waiting_other {settled : Prop} {d' : Delivery} (waiting : Waiting w d')
    (replayed : Replayed settled d w v) (other : d'.key ≠ d.key) :
    Waiting v d' :=
  ⟨(replayed.others _ other).trans waiting.found, waiting.ready, waiting.lowered⟩

variable (env) in
/-- The rows of a pass, one after another. -/
theorem replayed_rows {rows : List Delivery} (rates : 0 < server.policy.minutesPerRun)
    (distinct : (rows.map Delivery.key).Nodup)
    (waiting : ∀ d ∈ rows, Waiting w d) (free : w.budgetLock = false) :
    ∃ v, (Script.forEach rows (replayRecord server)).play env.step w = some (.ok (), v) ∧
      v.budgetLock = false ∧
      (∀ since lane, w.metered.count since lane ≤ v.metered.count since lane) ∧
      (∀ k ∉ rows.map Delivery.key, v.deliveries.find? k = w.deliveries.find? k) ∧
      ((∀ d ∈ rows, ¬Clears env server w.metered d) → v.deliveries = w.deliveries) ∧
      ∀ d ∈ rows, (Clears env server v.metered d → v.Past d.key) ∧
      (v.Past d.key ∨ v.deliveries.find? d.key = some d) := by
  induction rows generalizing w with
  | nil => exact ⟨w, rfl, free, fun _ _ => le_rfl, fun _ _ => rfl, fun _ => rfl, by rintro _ ⟨⟩⟩
  | cons d rest ih =>
    rw [List.map_cons, List.nodup_cons] at distinct
    have apart (d' : Delivery) (member : d' ∈ rest) : d'.key ≠ d.key := fun same =>
      distinct.1 (same ▸ List.mem_map_of_mem member)
    obtain ⟨u, first, replayed⟩ := replayed_record env server (waiting d List.mem_cons_self) free
    obtain ⟨v, later, unlocked, grown, others, stuck, each⟩ := ih distinct.2
      (fun d' member => waiting_other (waiting d' (List.mem_cons_of_mem d member)) replayed
      (apart d' member)) replayed.free
    have here : v.deliveries.find? d.key = u.deliveries.find? d.key := others d.key distinct.1
    have keeps (past : u.Past d.key) : v.Past d.key := by
      obtain ⟨d', found, state⟩ := past
      exact ⟨d', here.trans found, state⟩
    refine ⟨v, ?_, unlocked, fun since lane => (replayed.grown since lane).trans (grown since lane),
      fun k outside => ?_,
      fun refused => ?_, fun d' member => ?_⟩
    · rw [Script.forEach, play_bind, first, Option.bind_some, andThen, later]
    · rw [List.map_cons, List.mem_cons, not_or] at outside
      exact (others k outside.2).trans (replayed.others k outside.1)
    · have first_kept := replayed.kept (refused d List.mem_cons_self)
      refine (stuck fun d' member clears => ?_).trans first_kept
      exact refused d' (List.mem_cons_of_mem d member) (clears_fewer rates replayed.grown clears)
    · rcases List.mem_cons.mp member with rfl | inRest
      · refine ⟨fun clears => keeps (replayed.past (clears_fewer rates
          (fun since lane => (replayed.grown since lane).trans (grown since lane)) clears)), ?_⟩
        by_cases settled : Clears env server w.metered d'
        · exact Or.inl (keeps (replayed.past settled))
        · rw [here, replayed.kept settled]
          exact Or.inr (waiting d' List.mem_cons_self).found
      · exact each d' inRest

/-- A replay pass with nothing beside it. -/
def pass (env : Environment) (server : Server) (w : World) : Option World :=
  ((recoverReady server).play env.step w).map Prod.snd

def passes (env : Environment) (server : Server) : Nat → World → Option World
  | 0, w => some w
  | n + 1, w => (passes env server n w).bind (pass env server)

/-- What one pass does to the rows it reads, and to no other. -/
structure Passed (env : Environment) (server : Server) (w v : World) : Prop where
  resting : Resting v
  grown : ∀ since lane, w.metered.count since lane ≤ v.metered.count since lane
  unread : ∀ k, (∀ d ∈ w.deliveries.pending 30, d.key ≠ k) → v.deliveries.find? k = w.deliveries.find? k
  settled : ∀ d ∈ w.deliveries.pending 30, Settles env server v.metered d → v.Past d.key
  stays : ∀ d ∈ w.deliveries.pending 30, v.Past d.key ∨ v.deliveries.find? d.key = some d
  stuck : (∀ d ∈ w.deliveries.pending 30, ¬Settles env server w.metered d) → v.deliveries = w.deliveries

theorem pending_nodup (t : Deliveries) (limit : Nat) : ((t.pending limit).map Delivery.key).Nodup := by
  have sorted : (((t.rows.filter (·.state = .ready)).insertionSort (·.createdAt ≤ ·.createdAt)).map
      Delivery.key).Nodup :=
    ((List.perm_insertionSort _ _).map _).nodup_iff.mpr (t.nodup.sublist (List.filter_sublist.map _))
  exact sorted.sublist ((List.take_sublist _ _).map _)

theorem pending_ready {t : Deliveries} {limit : Nat} (member : d ∈ t.pending limit) :
    d.state = .ready := by
  have sorted := List.mem_of_mem_take member
  rw [List.mem_insertionSort] at sorted
  exact of_decide_eq_true (List.mem_filter.mp sorted).2

/-- Whatever runs, every row keeps a lowered name. -/
theorem play_lowered {α : Type} {s : Program α} {x : Except Raised α × World}
    (lowered : ∀ k d, w.deliveries.find? k = some d → lower d.repository = d.repository)
    (played : s.play env.step w = some x) :
    ∀ k d, x.2.deliveries.find? k = some d → lower d.repository = d.repository := by
  refine play_only (I := fun v => ∀ k d, v.deliveries.find? k = some d →
    lower d.repository = d.repository)
    (fun v c r u _ before taken k d found => ?_) (only_any s) lowered played
  have evolves : v.deliveries.Evolves u.deliveries := perform_evolves taken
  cases known : v.deliveries.find? k with
  | none => exact (evolves.born k d known found).2
  | some d₀ =>
    obtain ⟨d', found', evolved⟩ := evolves.kept k d₀ known
    obtain rfl := Option.some.inj (found.symm.trans found')
    have named : d.repository = d₀.repository := congrArg Prod.fst evolved.key
    rw [named]
    exact before k d₀ known

theorem passed_idle (resting : Resting w) (idle : ∀ d, ¬Settles env server w.metered d) :
    Passed env server w w :=
  ⟨resting, fun _ _ => le_rfl, fun _ _ => rfl, fun d _ settles => absurd settles (idle d),
    fun d member => Or.inr (pending_present _ _ d member), fun _ => rfl⟩

variable (env) in
theorem pass_passed (rates : 0 < server.policy.minutesPerRun) (resting : Resting w) :
    ∃ v, pass env server w = some v ∧ Passed env server w v := by
  cases github : server.github with
  | false =>
    refine ⟨w, ?_, passed_idle resting fun d settles => ?_⟩
    · simp only [pass, recoverReady, github, Bool.not_false, if_true]
      rfl
    · have on := settles.1
      rw [github] at on
      exact Bool.false_ne_true on
  | true =>
    cases listed : (env.choice .pending).raised with
    | some e =>
      refine ⟨w, ?_, passed_idle resting fun d settles => ?_⟩
      · simp only [pass, recoverReady, github, Bool.not_true, Bool.false_eq_true, if_false, bind_eq,
          play_bind, play_call,
          step_raised listed, Option.bind_some, andThen, Option.map_some]
      · have read := settles.2.1
        rw [listed] at read
        cases read
    | none =>
      have ready : ∀ d ∈ w.deliveries.pending 30, Waiting w d := fun d member =>
        ⟨pending_present _ _ d member, pending_ready member, resting.lowered _ d
          (pending_present _ _ d member)⟩
      obtain ⟨v, played, unlocked, grown, others, stuck, each⟩ :=
        replayed_rows env rates (pending_nodup _ 30) ready resting.free
      have passed : (recoverReady server).play env.step w = some (.ok (), v) := by
        simp only [recoverReady, github, Bool.not_true, Bool.false_eq_true, if_false, bind_eq,
          play_bind, play_call,
          step_calm listed, answer, Option.bind_some, andThen, played]
      refine ⟨v, by rw [pass, passed]; rfl, ⟨unlocked, play_lowered resting.lowered
        passed⟩, grown, fun k unread => ?_,
        fun d member settles => (each d member).1 settles.2.2, fun d member => (each d member).2,
        fun refused => ?_⟩
      · refine others k fun member => ?_
        obtain ⟨d, inside, same⟩ := List.mem_map.mp member
        exact unread d inside same
      · exact stuck fun d member clears => refused d member ⟨github, listed, clears⟩

/-! ## Passes without end -/

section Passes
variable {n : Nat}

theorem passes_add (n m : Nat) : passes env server (n + m) w = (passes env server n w).bind
    (passes env server m) := by
  induction m with
  | zero => cases passes env server n w <;> rfl
  | succ m ih =>
    rw [← Nat.add_assoc, passes, ih, Option.bind_assoc]
    rfl

theorem passes_between {m : Nat} (before : m ≤ n) (ran : passes env server m w = some v) :
    passes env server (n - m) v = passes env server n w := by
  have all : passes env server (m + (n - m)) w = _ := passes_add m (n - m)
  rw [Nat.add_sub_cancel' before, ran, Option.bind_some] at all
  exact all.symm

theorem Passed.row (passed : Passed env server w v) (k : String × String) :
    v.deliveries.find? k = w.deliveries.find? k ∨ v.Past k := by
  by_cases read : ∀ d ∈ w.deliveries.pending 30, d.key ≠ k
  · exact Or.inl (passed.unread k read)
  · push Not at read
    obtain ⟨d, listed, rfl⟩ := read
    rcases passed.stays d listed with past | kept
    · exact Or.inr past
    · exact Or.inl (kept.trans (pending_present _ _ d listed).symm)

theorem Passed.past (passed : Passed env server w v) {k : String × String} (past : w.Past k) :
    v.Past k := by
  rcases passed.row k with same | moved
  · obtain ⟨d, found, state⟩ := past
    exact ⟨d, same.trans found, state⟩
  · exact moved

theorem past_unready (past : w.Past key) (found : w.deliveries.find? key = some d) :
    d.state ≠ .ready := by
  obtain ⟨d', found', state⟩ := past
  obtain rfl := Option.some.inj (found.symm.trans found')
  exact state

variable (rates : 0 < server.policy.minutesPerRun)
include rates

variable (env) in
theorem passes_resting (resting : Resting w) : ∀ n, ∃ v, passes env server n w = some v ∧ Resting v
  | 0 => ⟨w, rfl, resting⟩
  | n + 1 => by
    obtain ⟨v, ran, rests⟩ := passes_resting resting n
    obtain ⟨u, passed, after⟩ := pass_passed env rates rests
    refine ⟨u, ?_, after.resting⟩
    rw [passes, ran, Option.bind_some, passed]

theorem passes_next (resting : Resting w) (ran : passes env server n w = some v) :
    ∃ u, passes env server (n + 1) w = some u ∧ Passed env server v u ∧ Resting u := by
  obtain ⟨v', ran', rests⟩ := passes_resting env rates resting n
  obtain rfl := Option.some.inj (ran.symm.trans ran')
  obtain ⟨u, passed, after⟩ := pass_passed env rates rests
  refine ⟨u, ?_, after, after.resting⟩
  rw [passes, ran, Option.bind_some, passed]

theorem passes_past (resting : Resting w) (past : w.Past key) :
    ∀ n v, passes env server n w = some v → v.Past key
  | 0, v, ran => by
    obtain rfl := Option.some.inj ran
    exact past
  | n + 1, v, ran => by
    obtain ⟨u, before, -⟩ := passes_resting env rates resting n
    obtain ⟨v', ran', after, -⟩ := passes_next rates resting before
    obtain rfl := Option.some.inj (ran.symm.trans ran')
    exact after.past (passes_past resting past n u before)

/-- Once no row of a pass can be settled, no pass settles any. -/
theorem passes_stuck (resting : Resting w)
    (stuck : ∀ d ∈ w.deliveries.pending 30, ¬Settles env server w.metered d) :
    ∀ n v, passes env server n w = some v →
      v.deliveries = w.deliveries ∧ ∀ since lane, w.metered.count since lane ≤ v.metered.count since lane
  | 0, v, ran => by
    obtain rfl := Option.some.inj ran
    exact ⟨rfl, fun _ _ => le_rfl⟩
  | n + 1, v, ran => by
    obtain ⟨u, before, -⟩ := passes_resting env rates resting n
    obtain ⟨v', ran', after, -⟩ := passes_next rates resting before
    obtain rfl := Option.some.inj (ran.symm.trans ran')
    obtain ⟨same, grown⟩ := passes_stuck resting stuck n u before
    have still (d : Delivery) (listed : d ∈ u.deliveries.pending 30) :
        ¬Settles env server u.metered d := by
      rw [same] at listed
      exact fun settles => stuck d listed (settles_through (admits_fewer rates grown) settles)
    exact ⟨(after.stuck still).trans same, fun since lane => (grown since lane).trans
      (after.grown since lane)⟩

end Passes

/-! ## The ready rows grow fewer -/

def readyKeys (w : World) : Finset (String × String) :=
  ((w.deliveries.rows.filter (·.state = .ready)).map Delivery.key).toFinset

theorem mem_readyKeys : key ∈ readyKeys w ↔ ∃ d, w.deliveries.find? key = some d ∧ d.state = .ready := by
  simp only [readyKeys, List.mem_toFinset, List.mem_map, List.mem_filter, decide_eq_true_eq]
  constructor
  · rintro ⟨d, ⟨member, ready⟩, rfl⟩
    exact ⟨d, Table.find?_of_mem member, ready⟩
  · rintro ⟨d, found, ready⟩
    obtain ⟨member, named⟩ := Table.find?_some found
    exact ⟨d, ⟨member, ready⟩, named⟩

theorem Passed.fewer (passed : Passed env server w v) : readyKeys v ⊆ readyKeys w := by
  intro k member
  obtain ⟨d, found, ready⟩ := mem_readyKeys.mp member
  rcases passed.row k with same | moved
  · exact mem_readyKeys.mpr ⟨d, same.symm.trans found, ready⟩
  · exact absurd ready (past_unready moved found)

theorem readyKeys_less (fewer : readyKeys v ⊆ readyKeys w) (listed : d ∈ w.deliveries.pending 30)
    (past : v.Past d.key) :
    (readyKeys v).card < (readyKeys w).card := by
  refine Finset.card_lt_card ((Finset.ssubset_iff_of_subset fewer).mpr ⟨d.key, ?_, fun member => ?_⟩)
  · exact mem_readyKeys.mpr ⟨d, pending_present _ _ d listed, pending_ready listed⟩
  · obtain ⟨d', found, ready⟩ := mem_readyKeys.mp member
    exact past_unready past found ready

/-- Of two passes that each have a row to settle, one settles a row: what the first leaves for want
of a hold leaves the second with a row that needs none. -/
theorem two_passes_less {w₁ w₂ : World} (first : Passed env server w w₁)
    (second : Passed env server w₁ w₂)
    (moves : ∃ r ∈ w.deliveries.pending 30, Settles env server w.metered r)
    (moves₁ : ∃ r ∈ w₁.deliveries.pending 30, Settles env server w₁.metered r) :
    (readyKeys w₂).card < (readyKeys w).card := by
  by_cases admits : Admits env server.policy w₁.metered
  · obtain ⟨r, listed, settles⟩ := moves
    have past := first.settled r listed (settles_through (fun _ => admits) settles)
    exact readyKeys_less (second.fewer.trans first.fewer) listed (second.past past)
  · obtain ⟨r, listed, settles⟩ := moves₁
    have past := second.settled r listed (settles_through (fun through => absurd through admits) settles)
    exact (readyKeys_less second.fewer listed past).trans_le (Finset.card_le_card first.fewer)

/-- The row is in the ledger as it was registered, and waits. -/
def Waits (w : World) (d : Delivery) : Prop := w.deliveries.find? d.key = some d ∧ d.state = .ready

theorem Passed.waits (passed : Passed env server w v) (waits : Waits w d) : Waits v d ∨ v.Past d.key := by
  rcases passed.row d.key with same | moved
  · exact Or.inl ⟨same.trans waits.1, waits.2⟩
  · exact Or.inr moved

section Passes
variable {n : Nat} (rates : 0 < server.policy.minutesPerRun)
include rates

theorem passes_waits (resting : Resting w) (waits : Waits w d) :
    ∀ n v, passes env server n w = some v → Waits v d ∨ v.Past d.key
  | 0, v, ran => by
    obtain rfl := Option.some.inj ran
    exact Or.inl waits
  | n + 1, v, ran => by
    obtain ⟨u, before, -⟩ := passes_resting env rates resting n
    obtain ⟨v', ran', after, -⟩ := passes_next rates resting before
    obtain rfl := Option.some.inj (ran.symm.trans ran')
    rcases passes_waits resting waits n u before with still | past
    · exact after.waits still
    · exact Or.inr (after.past past)

/-- While a pass can settle some row whenever the delivery waits, the delivery waits no longer at last. -/
theorem past_at_last (resting : Resting w) (waits : Waits w d)
    (moves : ∀ n v, passes env server n w = some v → Waits v d → ∃ r ∈ v.deliveries.pending 30,
    Settles env server v.metered r)
    (ran : passes env server n w = some v) : ∃ n v, passes env server n w = some v ∧ v.Past d.key := by
  induction ready : (readyKeys v).card using Nat.strong_induction_on generalizing n v with
  | _ size ih =>
    obtain ⟨w₁, ran₁, first, -⟩ := passes_next rates resting ran
    obtain ⟨w₂, ran₂, second, -⟩ := passes_next rates resting ran₁
    rcases passes_waits rates resting waits n v ran with here | past
    · rcases passes_waits rates resting waits (n + 1) w₁ ran₁ with next | past
      · have less := two_passes_less first second (moves n v ran here) (moves (n + 1) w₁ ran₁ next)
        exact ih _ (ready ▸ less) ran₂ rfl
      · exact ⟨n + 1, w₁, ran₁, past⟩
    · exact ⟨n, v, ran, past⟩

theorem stuck_waits (resting : Resting w) (waits : Waits w d)
    (stuck : ∀ r ∈ w.deliveries.pending 30, ¬Settles env server w.metered r)
    (ran : passes env server n w = some v) :
    ¬v.Past d.key := by
  obtain ⟨same, -⟩ := passes_stuck rates resting stuck n v ran
  refine fun past => past_unready past ?_ waits.2
  rw [same]
  exact waits.1

end Passes

/-- A ready delivery is replayed at last exactly when, for as long as it waits, each pass can settle
one of the thirty oldest ready deliveries: a pass that finds thirty it must leave finds the same
thirty for ever. -/
theorem ready_replayed_at_last (rates : 0 < server.policy.minutesPerRun) (resting : Resting w)
    (waits : Waits w d) :
    (∃ n v, passes env server n w = some v ∧ v.Past d.key) ↔
      ∀ n v, passes env server n w = some v → Waits v d →
        ∃ r ∈ v.deliveries.pending 30, Settles env server v.metered r := by
  constructor
  · rintro ⟨m, u, reached, past⟩ n v ran here
    by_contra none_settles
    push Not at none_settles
    rcases le_total m n with before | after
    · obtain ⟨u', reached', rests⟩ := passes_resting env rates resting m
      obtain rfl := Option.some.inj (reached.symm.trans reached')
      have later := (passes_between before reached).trans ran
      exact past_unready (passes_past rates rests past (n - m) v later) here.1 here.2
    · obtain ⟨v', ran', rests⟩ := passes_resting env rates resting n
      obtain rfl := Option.some.inj (ran.symm.trans ran')
      have later := (passes_between after ran).trans reached
      exact stuck_waits rates rests here none_settles later past
  · intro moves
    exact past_at_last rates resting waits moves (n := 0) rfl

/-! ## Thirty deliveries of a spent month -/

/-- Deliveries of one repository, a second apart, of which the first thirty are for the hosted lane. -/
def queuedDelivery (i : Nat) : Delivery :=
  { repository := "example-org/example-app", delivery := String.ofList (List.replicate (i + 1) 'd'),
      fingerprint := ""
    workflow := "cindral-dispatch.yml", ref := "main"
    inputs := [("cindral_lane", if i < 30 then hostedLane else "fallback")], state := .ready
    createdAt := 1769990000 + i, updatedAt := 1769990000 + i, sha := "head123" }

theorem queued_apart {i j : Nat} (same : (queuedDelivery i).key = (queuedDelivery j).key) : i = j := by
  have ids : List.replicate (i + 1) 'd' = List.replicate (j + 1) 'd' :=
    String.ofList_injective (Prod.mk.inj same).2
  have lengths := congrArg List.length ids
  simpa only [List.length_replicate, Nat.add_right_cancel_iff] using lengths

/-- So many deliveries, up to the first of a lane that is not hosted. -/
def queuedDeliveries (start count : Nat) : Deliveries :=
  ⟨(List.range' start count).map queuedDelivery, by
    have apart : Function.Injective (Delivery.key ∘ queuedDelivery) := fun _ _ same => queued_apart same
    rw [List.map_map, List.nodup_map_iff apart]
    exact List.nodup_range'⟩

/-- A broker at rest in a month whose ceiling is reached. -/
def spentWorld (start count : Nat) : World :=
  { restingWorld onceSpent with deliveries := queuedDeliveries start count }

theorem mem_queued {start count : Nat} :
    d ∈ (queuedDeliveries start count).rows ↔ ∃ i, start ≤ i ∧ i < start + count ∧
    queuedDelivery i = d := by
  simp only [queuedDeliveries, List.mem_map, List.mem_range'_1, and_assoc]

theorem spentWorld_resting (start count : Nat) : Resting (spentWorld start count) := by
  refine ⟨rfl, fun k d found => ?_⟩
  obtain ⟨i, -, -, rfl⟩ := mem_queued.mp (Table.find?_some found).1
  change lower "example-org/example-app" = "example-org/example-app"
  decide +kernel

theorem spentWorld_waits {start count i : Nat} (from_ : start ≤ i) (until_ : i < start + count) :
    Waits (spentWorld start count) (queuedDelivery i) :=
  ⟨Table.find?_of_mem (mem_queued.mpr ⟨i, from_, until_, rfl⟩), rfl⟩

/-- The oldest are those registered first. -/
theorem queued_pending {start count limit : Nat} :
    (queuedDeliveries start count).pending
    limit = ((List.range' start count).map queuedDelivery).take limit := by
  have ready : ((List.range' start count).map queuedDelivery).filter (·.state = .ready) =
      (List.range' start count).map queuedDelivery := List.filter_eq_self.mpr fun d member => by
    obtain ⟨i, -, rfl⟩ := List.mem_map.mp member
    rfl
  have sorted : ((List.range' start count).map queuedDelivery).Pairwise (·.createdAt ≤ ·.createdAt) := by
    refine List.pairwise_map.mpr (List.pairwise_le_range'.imp fun {i j} before => ?_)
    exact add_le_add_right (Nat.cast_le.mpr before) 1769990000
  rw [Deliveries.pending, queuedDeliveries]
  simp only [ready]
  rw [sorted.insertionSort_eq]

theorem queued_permitted (i : Nat) : ceilingServer.policy.checkDispatch (queuedDelivery i).repository
    (queuedDelivery i).workflow (queuedDelivery i).ref = .ok () := by
  change ceilingServer.policy.checkDispatch "example-org/example-app" "cindral-dispatch.yml"
    "main" = .ok ()
  decide +kernel

theorem last_delivery_replayed_alone :
    (∃ n v, passes calmDay ceilingServer n (spentWorld 30 1) = some v ∧ v.Past (queuedDelivery 30).key) ∧
      ∃ r ∈ (spentWorld 30 1).deliveries.pending 30, Settles calmDay ceilingServer
      (spentWorld 30 1).metered r := by
  have state : (passes calmDay ceilingServer 1 (spentWorld 30 1)).map
      (fun v => (v.deliveries.find? (queuedDelivery 30).key).map Delivery.state) =
      some (some .accepted) := by decide +kernel
  have waits : Waits (spentWorld 30 1) (queuedDelivery 30) := spentWorld_waits le_rfl (by decide)
  have rates : 0 < ceilingServer.policy.minutesPerRun := by decide +kernel
  have replayed : ∃ n v, passes calmDay ceilingServer n (spentWorld 30 1) = some v ∧
      v.Past (queuedDelivery 30).key := by
    obtain ⟨v, ran, found⟩ := Option.map_eq_some_iff.mp state
    obtain ⟨d, found, accepted⟩ := Option.map_eq_some_iff.mp found
    exact ⟨1, v, ran, d, found, by rw [accepted]; decide⟩
  exact ⟨replayed, (ready_replayed_at_last rates (spentWorld_resting 30 1) waits).mp replayed 0 _
    rfl waits⟩

theorem hosted_deliveries_starve :
    ¬ ∀ (env : Environment) (server : Server) (w : World) (d : Delivery),
      0 < server.policy.minutesPerRun → Resting w →
      Waits w d → (∀ n v, passes env server n w = some v → Waits v d → Settles env server v.metered d) →
      ∃ n v, passes env server n w = some v ∧ v.Past d.key := by
  intro claim
  have rates : 0 < ceilingServer.policy.minutesPerRun := by decide +kernel
  have waits : Waits (spentWorld 0 31) (queuedDelivery 30) :=
    spentWorld_waits (Nat.zero_le 30) (by decide)
  have due (ledger : MeteredLedger) : Settles calmDay ceilingServer ledger (queuedDelivery 30) := by
    refine ⟨rfl, rfl, ?_⟩
    simp only [Clears, queued_permitted]
    exact ⟨rfl, fun hosted => absurd hosted (by decide), rfl⟩
  have spent : ¬Admits calmDay ceilingServer.policy onceSpent := by
    intro admits
    have room := (admits 20 rfl rfl).2.1
    unfold Room at room
    revert room
    decide +kernel
  have stuck : ∀ r ∈ (spentWorld 0 31).deliveries.pending 30, ¬Settles calmDay ceilingServer
      (spentWorld 0 31).metered r := by
    rintro r listed ⟨-, -, clears⟩
    change r ∈ (queuedDeliveries 0 31).pending 30 at listed
    rw [queued_pending, ← List.map_take, List.take_range'_of_length_ge (by decide)] at listed
    obtain ⟨i, member, rfl⟩ := List.mem_map.mp listed
    have hosted : (queuedDelivery i).inputs.lookup "cindral_lane" = some hostedLane := by
      have oldest : i < 30 := (List.mem_range'_1.mp member).2
      simp only [queuedDelivery, oldest, if_true, List.lookup_cons_self]
    simp only [Clears, queued_permitted] at clears
    exact spent (clears.2.1 hosted)
  obtain ⟨n, v, ran, past⟩ :=
    claim calmDay ceilingServer _ (queuedDelivery 30) rates (spentWorld_resting 0 31) waits
    fun n v _ _ => due v.metered
  exact stuck_waits rates (spentWorld_resting 0 31) waits stuck ran past

end Cindral.Dispatch

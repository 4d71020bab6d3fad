import Cindral.Dispatch.Containment
import Cindral.Dispatch.Once
import Cindral.Dispatch.Purse

/-!
# Who pays for which run

Every hold in the ledger against what the threads have in hand and what they have sent: a dispatch onto
the lane that costs money has a hold of its own, and only the thread that took a hold takes it out again.
-/

namespace Cindral.Dispatch
open Base Routing Script

/-! ## Payments -/

def DispatchOutcome.overloaded : DispatchOutcome → Bool
  | refused statusCode _ => 500 ≤ statusCode
  | _ => false

/-- A dispatch that went out, whether its month had a ceiling, and the hold its thread had in hand. -/
structure Payment where
  request : Request
  outcome : DispatchOutcome
  metered : Bool
  hold : Option Nat

/-- A run that may exist, on the lane that costs money, in a month with a ceiling. -/
def Payment.due (x : Payment) : Bool :=
  x.metered && hostedInputs x.request.inputs && !x.outcome.provesNoRun

/-- What a call adds to the payments, once it is answered. -/
def Purse.paid (g : Purse) (metered : Bool) (k : Choice) : Call → List Payment
  | .dispatch request => if k.raised = none then [⟨request, k.outcome, metered, g.hand⟩] else []
  | _ => []

/-- The broker at work, with what each thread knows of its holds, and every dispatch that went out. -/
structure Watch where
  site : Site
  purse : Thread → Purse
  payments : List Payment

namespace Watch

def start (server : Server) : Watch := ⟨Site.start server, fun _ => {}, []⟩

def ledger (w : Watch) : MeteredLedger := w.site.state.metered

def metered (w : Watch) : Bool := w.site.server.policy.minuteBudget.isSome

/-- The records after an action. -/
def noted (w : Watch) : Action → Watch
  | .webhook p request =>
    { w with purse := Function.update w.purse p { pulls := request.event = some "pull_request" } }
  | .dispatch p _ | .replay p => { w with purse := Function.update w.purse p {} }
  | .turn p k =>
    match w.site.crew.task p with
    | some (.ask c _) =>
      match perform k w.site.state c with
      | some (r, _) =>
        { w with purse := Function.update w.purse p ((w.purse p).note c r)
                 payments := w.payments ++ (w.purse p).paid w.metered k c }
      | none => w
    | _ => w
  | .restart _ _ | .queue _ => w

def step (w : Watch) (a : Action) : Option Watch :=
  (w.site.step a).map fun s => { w.noted a with site := s }

/-- Every hosted dispatch that may have started a run is counted by a hold of its own. -/
structure Paid (w : Watch) : Prop where
  sent : w.payments.map (fun x => (x.request, x.outcome)) = w.site.state.sent
  counted : ∀ x ∈ w.payments, x.due = true → ∃ id, x.hold = some id ∧ Charged w.ledger id
  own : ((w.payments.filter Payment.due).map Payment.hold).Nodup

/-- A hold that leaves the ledger is the one the acting thread has in hand, and has not paid for
anything. -/
def OwnRelease (w : Watch) (a : Action) : Prop :=
  ∀ t, w.step a = some t → ∀ row ∈ w.ledger.rows, (∀ row' ∈ t.ledger.rows, row'.id ≠ row.id) →
    ∃ p k, a = .turn p k ∧ (w.purse p).hand = some row.id ∧ (w.purse p).spent = false

end Watch

/-- What the environment must not make of a call. A hold that is given back again is not another's by
then. A row that is for another lane than the request was registered for is turned away by GitHub. And
no pull request with a hold in hand is answered with a 5xx. -/
def Purse.Regular (g : Purse) (metered : Bool) (ledger : MeteredLedger) (k : Choice) : Call → Prop
  | .release id => g.hand = none → id ∈ g.gone → ∀ row ∈ ledger.rows, row.id ≠ id
  | .dispatch request => hostedInputs request.inputs = true →
      (metered = true → g.astray = true → k.outcome.provesNoRun = true) ∧
      (g.pulls = true → g.hand.isSome = true → k.outcome.overloaded = false)
  | _ => True

/-- The call a thread is about to make. -/
def Watch.next? (w : Watch) (p : Thread) : Option Call :=
  match w.site.crew.task p with
  | some (.ask c _) => some c
  | _ => none

def Watch.Regular (w : Watch) : Action → Prop
  | .turn p k => k.raised = none → ∀ c ∈ w.next? p, (w.purse p).Regular w.metered w.ledger k c
  | _ => True

instance (g : Purse) (metered : Bool) (ledger : MeteredLedger) (k : Choice) :
    (c : Call) → Decidable (g.Regular metered ledger k c)
  | .release _ => inferInstanceAs (Decidable (_ → _ → ∀ row ∈ ledger.rows, _))
  | .dispatch _ => inferInstanceAs (Decidable (_ → (_ → _ → _) ∧ (_ → _ → _)))
  | .workflowExists _ _ | .postStatus _ _ _ _ | .publishCheckRun _ | .pullRequestMergeSha _ _
  | .listRunners _ | .getDelivery _ _ | .register _ _ _ _ _ _ _ | .claimDelivery _ _
  | .finish _ _ _ _ | .rejectReady _ _ _ | .pending | .countMetered | .reserve _ _
  | .attributeHold _ _ _ _ | .enqueue _ | .quotaReading | .lockBudget | .unlockBudget | .lockCapacity
  | .unlockCapacity | .monotonic | .monotonicNs | .expireReservations _ _ | .reservations _
  | .reserveRunner _ | .dropReservation _ _ | .send _ _ => isTrue trivial

instance (w : Watch) : (a : Action) → Decidable (w.Regular a)
  | .turn p _ => inferInstanceAs (Decidable (_ → ∀ c ∈ w.next? p, _))
  | .webhook _ _ | .dispatch _ _ | .replay _ | .restart _ _ | .queue _ => isTrue trivial

/-- The configuration of a broker: `attach_budget` has attached its ceiling, if any, and the lane that
costs money is none of the local ones. -/
structure Configured (server : Server) : Prop where
  attached : ∃ q : Policy, q.attachBudget server.jobsDb = .ok server.policy
  elsewhere : hostedLane ∈ server.policy.localPriority →
    server.policy.laneLabels.lookup hostedLane = none

theorem configured_priced {server : Server} (h : Configured server) : Priced server.policy := by
  obtain ⟨q, attached⟩ := h.attached
  refine ⟨fun budget ceiling => ?_, fun ceiling => (attached_of attached ceiling).1, h.elsewhere⟩
  cases minutes : q.minuteBudget with
  | none =>
    rw [Policy.attachBudget, minutes] at attached
    obtain rfl := Except.ok.inj attached
    rw [minutes] at ceiling
    cases ceiling
  | some minutes' =>
    have counts := (counted_gives attached minutes).1
    obtain rfl := Option.some.inj (ceiling.symm.trans counts.ceiling)
    exact counts

/-! ## The ledger -/

section Ledger
variable {ledger : MeteredLedger} {id : Nat}

theorem charged_reserve (repository lane workflow ref : String) (now : ℚ) (h : Charged ledger id) :
    Charged (ledger.reserve repository lane workflow ref now).2 id := by
  obtain ⟨row, member, own, hosted⟩ := h
  refine ⟨row, List.mem_append_left _ (List.mem_filter.mpr ⟨member, ?_⟩), own, hosted⟩
  exact decide_eq_true (Nat.ne_of_lt (MeteredLedger.id_lt_nextId member))

theorem charged_attribute (reservation : Nat) (repository workflow ref : String) (h : Charged ledger id) :
    Charged (ledger.attributeHold reservation repository workflow ref) id := by
  obtain ⟨row, member, own, hosted⟩ := h
  refine ⟨_, List.mem_map_of_mem member, ?_, ?_⟩
  · exact (((Hold.named repository workflow ref).only (·.id = reservation)).keeps row).trans own
  · rw [Edit.only_apply]
    split
    · exact hosted
    · exact hosted

theorem charged_release {other : Nat} (different : id ≠ other) (h : Charged ledger id) :
    Charged (ledger.release other) id := by
  obtain ⟨row, member, own, hosted⟩ := h
  exact ⟨row, List.mem_filter.mpr ⟨member, decide_eq_true (own ▸ different)⟩, own, hosted⟩

theorem charged_fresh (h : Charged ledger id) : id ≠ ledger.nextId := by
  rintro rfl
  exact not_charged ledger h

end Ledger

/-! ## What the ledger owes -/

/-- A hold in hand is in the ledger, and nobody else's. So is one that has paid for a run, and a
thread that still has it in hand knows. -/
structure Solvent (ledger : MeteredLedger) (purse : Thread → Purse) (payments : List Payment) : Prop where
  held : ∀ p id, (purse p).hand = some id → Charged ledger id
  apart : ∀ p q id, (purse p).hand = some id → (purse q).hand = some id → p = q
  counted : ∀ x ∈ payments, x.due = true → ∃ id, x.hold = some id ∧ Charged ledger id
  spent : ∀ x ∈ payments, x.due = true → ∀ p, (purse p).hand = x.hold → (purse p).spent = true
  own : ((payments.filter Payment.due).map Payment.hold).Nodup

section Solvent
variable {ledger ledger' : MeteredLedger} {purse : Thread → Purse} {payments : List Payment} {p : Thread}
  {g : Purse} {id : Nat}

theorem solvent_ledger (h : Solvent ledger purse payments)
    (keeps : ∀ id, Charged ledger id → Charged ledger' id) :
    Solvent ledger' purse payments := by
  refine ⟨fun p id hand => keeps id (h.held p id hand), h.apart, fun x member due => ?_, h.spent, h.own⟩
  obtain ⟨id, hold, charged⟩ := h.counted x member due
  exact ⟨id, hold, keeps id charged⟩

theorem update_hand (same : g.hand = (purse p).hand) (q : Thread) :
    (Function.update purse p g q).hand = (purse q).hand := by
  by_cases acting : q = p
  · subst acting
    rw [Function.update_self, same]
  · rw [Function.update_of_ne acting]

/-- A thread that has the same hold in hand, and has not forgotten that it is spent. -/
theorem solvent_noted (h : Solvent ledger purse payments) (hand : g.hand = (purse p).hand)
    (spent : (purse p).spent = true → g.spent = true) :
    Solvent ledger (Function.update purse p g) payments := by
  have same := update_hand hand
  refine ⟨fun q id held => h.held q id (same q ▸ held),
    fun q q' id held held' => h.apart q q' id (same q ▸ held) (same q' ▸ held'), h.counted,
    fun x member due q held => ?_, h.own⟩
  have known := h.spent x member due q (same q ▸ held)
  by_cases acting : q = p
  · subst acting
    rw [Function.update_self]
    exact spent known
  · rwa [Function.update_of_ne acting]

/-- Only another thread has a hold in hand once this one has none. -/
theorem update_none (empty : g.hand = none) {q : Thread}
    (hand : (Function.update purse p g q).hand = some id) : q ≠ p ∧ (purse q).hand = some id := by
  by_cases acting : q = p
  · subst acting
    rw [Function.update_self, empty] at hand
    cases hand
  · rw [Function.update_of_ne acting] at hand
    exact ⟨acting, hand⟩

theorem solvent_drops (h : Solvent ledger purse payments) (empty : g.hand = none) :
    Solvent ledger (Function.update purse p g) payments := by
  refine ⟨fun q id hand => h.held q id (update_none empty hand).2,
    fun q q' id hand hand' => h.apart q q' id (update_none empty hand).2 (update_none empty hand').2,
    h.counted, fun x member due q hand => ?_, h.own⟩
  obtain ⟨id, hold, -⟩ := h.counted x member due
  obtain ⟨other, hand'⟩ := update_none empty (hand.trans hold)
  rw [Function.update_of_ne other]
  exact h.spent x member due q (hand'.trans hold.symm)

/-- A hold that has not paid for anything goes back. -/
theorem solvent_returns (h : Solvent ledger purse payments) (hand : (purse p).hand = some id)
    (unspent : (purse p).spent = false) (empty : g.hand = none) :
    Solvent (ledger.release id) (Function.update purse p g) payments := by
  have dropped := solvent_drops (p := p) h empty
  refine ⟨fun q id' held => charged_release ?_ (dropped.held q id' held), dropped.apart,
    fun x member due => ?_,
    dropped.spent, h.own⟩
  · rintro rfl
    obtain ⟨other, held⟩ := update_none empty held
    exact other (h.apart q p id' held hand)
  · obtain ⟨id', hold, charged⟩ := h.counted x member due
    refine ⟨id', hold, charged_release ?_ charged⟩
    rintro rfl
    exact absurd (h.spent x member due p (hand.trans hold.symm)) (by simp [unspent])

theorem solvent_takes (h : Solvent ledger purse payments) (repository workflow ref : String) (now : ℚ)
    (hand : g.hand = some ledger.nextId) :
    Solvent (ledger.reserve repository hostedLane workflow ref now).2 (Function.update purse p g)
      payments := by
  have kept := solvent_ledger h fun id => charged_reserve repository hostedLane workflow ref now
  have mine {q : Thread} {id : Nat} (held : (Function.update purse p g q).hand = some id) :
      q = p ∧ id = ledger.nextId ∨ q ≠ p ∧ (purse q).hand = some id := by
    by_cases acting : q = p
    · subst acting
      rw [Function.update_self, hand] at held
      exact Or.inl ⟨rfl, (Option.some.inj held).symm⟩
    · rw [Function.update_of_ne acting] at held
      exact Or.inr ⟨acting, held⟩
  refine ⟨fun q id held => ?_, fun q q' id held held' => ?_, kept.counted,
    fun x member due q held => ?_, h.own⟩
  · rcases mine held with ⟨-, rfl⟩ | ⟨-, before⟩
    · exact ⟨_, List.mem_append_right _ (List.mem_singleton_self _), rfl, rfl⟩
    · exact kept.held q id before
  · rcases mine held with ⟨rfl, rfl⟩ | ⟨-, before⟩
    · rcases mine held' with ⟨rfl, -⟩ | ⟨-, before'⟩
      · rfl
      · exact absurd rfl (charged_fresh (h.held q' _ before'))
    · rcases mine held' with ⟨-, rfl⟩ | ⟨-, before'⟩
      · exact absurd rfl (charged_fresh (h.held q _ before))
      · exact h.apart q q' id before before'
  · obtain ⟨id, hold, charged⟩ := h.counted x member due
    rcases mine (held.trans hold) with ⟨-, rfl⟩ | ⟨other, before⟩
    · exact absurd rfl (charged_fresh charged)
    · rw [Function.update_of_ne other]
      exact h.spent x member due q (before.trans hold.symm)

/-- A dispatch that may have started a run is paid for with the hold in hand, which is then spent. -/
theorem solvent_pays (h : Solvent ledger purse payments) {x : Payment} (hold : x.hold = (purse p).hand)
    (fresh : x.due = true → (purse p).hand.isSome = true ∧ (purse p).spent = false)
    (hand : g.hand = (purse p).hand) (spent : (purse p).spent = true → g.spent = true)
    (pays : x.due = true → g.spent = true) :
    Solvent ledger (Function.update purse p g) (payments ++ [x]) := by
  have noted := solvent_noted h hand spent
  have added {y : Payment} (member : y ∈ payments ++ [x]) : y ∈ payments ∨ y = x :=
    (List.mem_append.mp member).imp_right List.mem_singleton.mp
  refine ⟨noted.held, noted.apart, fun y member due => ?_, fun y member due q held => ?_, ?_⟩
  · rcases added member with before | rfl
    · exact h.counted y before due
    · obtain ⟨id, own⟩ := Option.isSome_iff_exists.mp (fresh due).1
      exact ⟨id, hold.trans own, h.held p id own⟩
  · rcases added member with before | rfl
    · exact noted.spent y before due q held
    · obtain ⟨id, own⟩ := Option.isSome_iff_exists.mp (fresh due).1
      rw [update_hand hand, hold, own] at held
      obtain rfl := h.apart q p id held own
      rw [Function.update_self]
      exact pays due
  · rw [List.filter_append, List.map_append]
    cases due : x.due with
    | false => simpa [due] using h.own
    | true =>
      obtain ⟨-, unspent⟩ := fresh due
      rw [List.filter_cons_of_pos due]
      refine h.own.append (List.nodup_singleton _) fun hold' member same => ?_
      obtain rfl := List.mem_singleton.mp same
      obtain ⟨y, paid, same⟩ := List.mem_map.mp member
      obtain ⟨before, owed⟩ := List.mem_filter.mp paid
      have known := h.spent y before owed p (hold.symm.trans same.symm)
      rw [unspent] at known
      cases known

end Solvent

section Turn
variable {w w' : World} {purse : Thread → Purse} {payments : List Payment} {p : Thread} {m : Bool}
  {k : Choice} {c : Call} {r : Except Raised (Ans c)}

theorem due_iff {x : Payment} : x.due = true ↔
    x.metered = true ∧ hostedInputs x.request.inputs = true ∧ x.outcome.provesNoRun = false := by
  simp only [Payment.due, Bool.and_eq_true, Bool.not_eq_true', and_assoc]

theorem paid_undispatched {g : Purse} (quiet : c.undispatched) : g.paid m k c = [] := by
  cases c with
  | dispatch _ => exact quiet.elim
  | _ => rfl

theorem noRun_outcome (outcome : DispatchOutcome) :
    noRun (outcome.raised.elim (.ok ()) .error) = outcome.provesNoRun ∧
      overloadedAnswer (outcome.raised.elim (.ok ()) .error) = outcome.overloaded := by
  cases outcome with
  | refused statusCode detail => exact ⟨rfl, rfl⟩
  | accepted | unreachable _ | lost _ => exact ⟨rfl, rfl⟩

theorem charged_kept (performed : perform k w c = some (r, w')) (free : ∀ id, c ≠ .release id) {id : Nat}
    (charged : Charged w.metered id) : Charged w'.metered id := by
  rcases perform_cases performed with ⟨_, -, -, -, rfl⟩ | ⟨-, answered⟩
  · exact charged
  · cases c with
    | release id => exact absurd rfl (free id)
    | reserve repository lane =>
      obtain ⟨-, rfl⟩ := Prod.mk.inj (Option.some.inj answered)
      exact charged_reserve repository lane "" "" k.now charged
    | attributeHold reservation repository workflow ref =>
      obtain ⟨-, rfl⟩ := Prod.mk.inj (Option.some.inj answered)
      exact charged_attribute reservation repository workflow ref charged
    | _ => rwa [unmetered_keeps performed trivial]

/-- A call that is none of those a thread watches. -/
theorem solvent_idle (h : Solvent w.metered purse payments) (idle : c.idle)
    (performed : perform k w c = some (r, w')) :
    Solvent w'.metered (Function.update purse p ((purse p).note c r)) payments := by
  have free (id : Nat) : c ≠ .release id := by
    rintro rfl
    exact idle
  have same : (purse p).note c r = purse p := (idle_keeps (m := true) idle).2 r
  rw [same, Function.update_eq_self]
  exact solvent_ledger h fun id => charged_kept performed free

theorem solvent_released {id : Nat} {r : Except Raised Unit} (h : Solvent w.metered purse payments)
    (fit : (purse p).fit = true)
    (allowed : (purse p).may m (.release id))
    (regular : k.raised = none → (purse p).Regular m w.metered k (.release id))
    (performed : perform k w (.release id) = some (r, w')) :
    Solvent w'.metered (Function.update purse p ((purse p).note (.release id) r)) payments := by
  rcases perform_cases performed with ⟨e, -, -, rfl, rfl⟩ | ⟨quiet, answered⟩
  · exact solvent_noted h rfl fun spent => spent
  · obtain ⟨rfl, rfl⟩ := Prod.mk.inj (Option.some.inj answered)
    rcases allowed fit with ⟨hand, unspent⟩ | ⟨empty, gone⟩
    · simp only [Purse.note, hand, if_true]
      exact solvent_returns h hand unspent rfl
    · -- a hold that is gone already: nobody has taken its number since
      have absent := regular quiet empty gone
      have same : w.metered.release id = w.metered := Table.eq_of_rows
        (List.filter_eq_self.mpr fun row member => decide_eq_true (absent row member))
      have noted : (purse p).note (.release id) (.ok ()) = purse p := by
        simp [Purse.note, empty]
      rw [noted, Function.update_eq_self]
      show Solvent (w.metered.release id) purse payments
      rwa [same]

theorem solvent_dispatched {request : Request} {r : Except Raised Unit}
    (h : Solvent w.metered purse payments)
    (allowed : (purse p).may m (.dispatch request))
    (regular : k.raised = none → (purse p).Regular m w.metered k (.dispatch request))
    (performed : perform k w (.dispatch request) = some (r, w')) :
    Solvent w'.metered (Function.update purse p ((purse p).note (.dispatch request) r))
      (payments ++ (purse p).paid m k (.dispatch request)) := by
  have hand : ((purse p).note (.dispatch request) r).hand = (purse p).hand := by
    simp only [Purse.note]
    split <;> rfl
  have spent (known : (purse p).spent = true) : ((purse p).note (.dispatch request) r).spent = true := by
    simp only [Purse.note]
    split
    · rfl
    · exact known
  rcases perform_cases performed with ⟨e, raised, -, rfl, rfl⟩ | ⟨quiet, answered⟩
  · have unpaid : (purse p).paid m k (.dispatch request) = [] := by simp [Purse.paid, raised]
    rw [unpaid, List.append_nil]
    exact solvent_noted h hand spent
  · obtain ⟨rfl, rfl⟩ := Prod.mk.inj (Option.some.inj answered)
    simp only [Purse.paid, quiet, if_true]
    refine solvent_pays h rfl (fun due => ?_) hand spent fun due => ?_
    · obtain ⟨metered, hosted, unclear⟩ := due_iff.mp due
      rcases allowed metered hosted with own | astray
      · exact own
      · rw [(regular quiet hosted).1 metered astray] at unclear
        cases unclear
    · obtain ⟨-, hosted, unclear⟩ := due_iff.mp due
      simp [Purse.note, hosted, (noRun_outcome k.outcome).1, unclear]

theorem solvent_undispatched (h : Solvent w.metered purse payments) (fit : (purse p).fit = true)
    (allowed : (purse p).may m c) (regular : k.raised = none → (purse p).Regular m w.metered k c)
    (performed : perform k w c = some (r, w')) (quiet : c.undispatched) :
    Solvent w'.metered (Function.update purse p ((purse p).note c r)) payments := by
  cases c with
  | dispatch _ => exact quiet.elim
  | reserve repository lane =>
    rcases perform_cases performed with ⟨e, -, -, rfl, rfl⟩ | ⟨-, answered⟩
    · exact solvent_noted h rfl fun spent => spent
    · obtain ⟨rfl, rfl⟩ := Prod.mk.inj (Option.some.inj answered)
      obtain rfl : lane = hostedLane := allowed
      exact solvent_takes h repository "" "" k.now rfl
  | release id =>
    exact solvent_released h fit allowed regular performed
  | register repository delivery fingerprint workflow ref inputs sha =>
    rw [unmetered_keeps performed trivial]
    cases r with
    | error e => exact solvent_noted h rfl fun spent => spent
    | ok row => exact solvent_noted h rfl fun spent => spent
  | finish repository delivery state error =>
    rw [unmetered_keeps performed trivial]
    have same : ((purse p).note (.finish repository delivery state error) r).hand = (purse p).hand ∧
        ((purse p).note (.finish repository delivery state error) r).spent = (purse p).spent := by
      rcases r with e | _
      · cases e <;> exact ⟨rfl, rfl⟩
      · exact ⟨rfl, rfl⟩
    exact solvent_noted h same.1 fun spent => same.2.trans spent
  | _ => exact solvent_idle h trivial performed

/-- One allowed call of one thread, in a state that is regular for it. -/
theorem solvent_perform (h : Solvent w.metered purse payments) (fit : (purse p).fit = true)
    (allowed : (purse p).may m c) (regular : k.raised = none → (purse p).Regular m w.metered k c)
    (performed : perform k w c = some (r, w')) :
    Solvent w'.metered (Function.update purse p ((purse p).note c r))
      (payments ++ (purse p).paid m k c) := by
  by_cases quiet : c.undispatched
  · rw [paid_undispatched quiet, List.append_nil]
    exact solvent_undispatched h fit allowed regular performed quiet
  · cases c with
    | dispatch request => exact solvent_dispatched h allowed regular performed
    | _ => exact absurd trivial quiet

/-- A thread stays fit as long as no pull request is answered with a 5xx. -/
theorem fit_perform (fit : (purse p).fit = true) (allowed : (purse p).may m c)
    (regular : k.raised = none → (purse p).Regular m w.metered k c)
    (performed : perform k w c = some (r, w')) : ((purse p).note c r).fit = true := by
  cases c with
  | dispatch request =>
    simp only [Purse.note]
    split
    · rename_i unclear
      have hosted : hostedInputs request.inputs = true := ((Bool.and_eq_true _ _).mp unclear).1
      rcases perform_cases performed with ⟨e, raised, possible, rfl, rfl⟩ | ⟨quiet, answered⟩
      · have unread : overloadedAnswer (.error e) = false := by
          cases e with
          | other _ => rfl
          | _ => cases possible
        simp [fit, unread]
      · obtain ⟨rfl, -⟩ := Prod.mk.inj (Option.some.inj answered)
        simp only [(noRun_outcome k.outcome).2, fit, Bool.true_and, Bool.not_eq_true',
          Bool.and_eq_false_iff]
        by_cases pulls : (purse p).pulls = true
        · by_cases hand : (purse p).hand.isSome = true
          · exact Or.inr ((regular quiet hosted).2 pulls hand)
          · exact Or.inl (Or.inr (by simpa using hand))
        · exact Or.inl (Or.inl (by simpa using pulls))
    · exact fit
  | finish repository delivery state error =>
    rcases perform_cases performed with ⟨e, raised, possible, rfl, rfl⟩ | ⟨quiet, answered⟩
    · cases e with
      | sqliteError _ => exact fit
      | _ => cases possible
    · have ends : state.terminal = true := allowed
      simp only [answer, ends, Bool.not_true, Bool.false_eq_true, if_false] at answered
      obtain ⟨rfl, -⟩ := Prod.mk.inj (Option.some.inj answered)
      split
      · exact fit
      · exact fit
  | reserve _ _ =>
    cases r <;> exact fit
  | release id =>
    cases r with
    | error e => exact fit
    | ok _ =>
      simp only [Purse.note]
      split <;> exact fit
  | register _ _ _ _ _ _ _ =>
    cases r <;> exact fit
  | _ => exact fit

theorem sent_perform (performed : perform k w c = some (r, w')) (g : Purse) (m : Bool) :
    w'.sent = w.sent ++ (g.paid m k c).map fun x => (x.request, x.outcome) := by
  by_cases quiet : c.undispatched
  · rw [paid_undispatched quiet, List.map_nil, List.append_nil]
    exact undispatched_sends performed quiet
  · cases c with
    | dispatch request =>
      rcases perform_cases performed with ⟨e, raised, -, -, rfl⟩ | ⟨quiet, answered⟩
      · simp [Purse.paid, raised]
      · obtain ⟨-, rfl⟩ := Prod.mk.inj (Option.some.inj answered)
        simp [Purse.paid, quiet]
    | _ => exact absurd trivial quiet

/-- Only giving a hold back takes a row away. -/
theorem kept_perform (performed : perform k w c = some (r, w')) (free : ∀ id, c ≠ .release id)
    {row : Hold}
    (member : row ∈ w.metered.rows) : ∃ row' ∈ w'.metered.rows, row'.id = row.id := by
  rcases perform_cases performed with ⟨_, -, -, -, rfl⟩ | ⟨-, answered⟩
  · exact ⟨row, member, rfl⟩
  · cases c with
    | release id => exact absurd rfl (free id)
    | reserve repository lane =>
      obtain ⟨-, rfl⟩ := Prod.mk.inj (Option.some.inj answered)
      refine ⟨row, List.mem_append_left _ (List.mem_filter.mpr ⟨member, ?_⟩), rfl⟩
      exact decide_eq_true (Nat.ne_of_lt (MeteredLedger.id_lt_nextId member))
    | attributeHold reservation repository workflow ref =>
      obtain ⟨-, rfl⟩ := Prod.mk.inj (Option.some.inj answered)
      exact ⟨_, List.mem_map_of_mem member,
        ((Hold.named repository workflow ref).only (·.id = reservation)).keeps row⟩
    | _ =>
      rw [unmetered_keeps performed trivial]
      exact ⟨row, member, rfl⟩

end Turn

/-! ## Runs -/

namespace Watch
variable {w t : Watch} {a : Action} {actions : List Action} {server : Server} {p : Thread} {k : Choice}

/-- Watching changes no run of the site. -/
theorem run_site (w : Watch) (actions : List Action) :
    (run step w actions).map Watch.site = run Site.step w.site actions := by
  refine run_map (fun w a => ?_) w actions
  rw [step, Option.map_map]
  exact congrFun Option.map_id _

theorem step_site (taken : w.step a = some t) :
    ∃ site, w.site.step a = some site ∧ t = { w.noted a with site := site } := by
  obtain ⟨site, moved, rfl⟩ := Option.map_eq_some_iff.mp taken
  exact ⟨site, moved, rfl⟩

/-- Every thread keeps to what its purse allows, and the ledger owes nobody. -/
structure Sound (w : Watch) : Prop where
  configured : Configured w.site.server
  disciplined : Crew.Disciplined (purses w.metered) w.purse w.site.crew
  fit : ∀ p, (w.purse p).fit = true
  solvent : Solvent w.ledger w.purse w.payments
  sent : w.payments.map (fun x => (x.request, x.outcome)) = w.site.state.sent

theorem start_sound (configured : Configured server) : (start server).Sound := by
  refine ⟨configured, Crew.disciplined_fresh _, fun _ => rfl, ?_, rfl⟩
  refine ⟨fun _ _ hand => ?_, fun _ _ _ hand => ?_, fun _ member => ?_, fun _ member => ?_,
    List.nodup_nil⟩
  · cases hand
  · cases hand
  · cases member
  · cases member

/-- A thread starts with an empty purse. -/
theorem spawn_sound (h : w.Sound) {program : Program Unit} {g : Purse} {site : Site}
    (empty : g.hand = none) (fit : g.fit = true)
    (follows : program.Follows (purses w.metered) (fun _ _ => True) g)
    (spawned : w.site.spawn p program = some site) :
    Sound { w with site := site, purse := Function.update w.purse p g } := by
  obtain ⟨crew, started, rfl⟩ := Option.map_eq_some_iff.mp spawned
  obtain ⟨same, kept⟩ := Crew.disciplined_spawn h.disciplined follows started
  refine ⟨h.configured, kept, update_forall (P := fun g : Purse => g.fit = true) h.fit fit, ?_, ?_⟩
  · show Solvent crew.state.metered _ _
    rw [same]
    exact solvent_drops h.solvent empty
  · show _ = crew.state.sent
    rw [same]
    exact h.sent

/-- What a turn does to the site and to the records. -/
theorem turn_cases (taken : w.step (.turn p k) = some t) :
    ∃ c next r state, w.site.crew.task p = some (.ask c next) ∧
      perform k w.site.state c = some (r, state) ∧
      t.site.server = w.site.server ∧ t.site.state = state ∧
      t.site.crew.task = Function.update w.site.crew.task p (some (next r)) ∧
      t.purse = Function.update w.purse p ((w.purse p).note c r) ∧
      t.payments = w.payments ++ (w.purse p).paid w.metered k c := by
  obtain ⟨site, moved, rfl⟩ := step_site taken
  obtain ⟨crew, turned, rfl⟩ := Option.map_eq_some_iff.mp moved
  obtain ⟨c, next, r, task, performed, tasks, -⟩ := Crew.turn_eq turned
  have noted : w.noted (.turn p k) = { w with
      purse := Function.update w.purse p ((w.purse p).note c r)
      payments := w.payments ++ (w.purse p).paid w.metered k c } := by
    show (match w.site.crew.task p with
      | some (.ask c _) => _
      | _ => w) = _
    rw [task]
    show (match perform k w.site.crew.state c with
      | some (r, _) => _
      | none => w) = _
    rw [performed]
  refine ⟨c, next, r, crew.state, task, performed, rfl, rfl, tasks, ?_, ?_⟩
  · rw [noted]
  · rw [noted]

theorem turn_regular (regular : w.Regular (.turn p k)) {c : Call}
    {next : Except Raised (Ans c) → Program Unit}
    (task : w.site.crew.task p = some (.ask c next)) (quiet : k.raised = none) :
    (w.purse p).Regular w.metered w.ledger k c :=
  regular quiet c (by rw [next?, task]; rfl)

theorem turn_sound (h : w.Sound) (regular : w.Regular (.turn p k)) (taken : w.step (.turn p k) = some t) :
    t.Sound := by
  obtain ⟨c, next, r, state, task, performed, server, same, tasks, purse, payments⟩ := turn_cases taken
  obtain ⟨allowed, kept⟩ := Crew.disciplined_answer h.disciplined task tasks
  have quiet := turn_regular regular task
  have metered : t.metered = w.metered := by rw [Watch.metered, Watch.metered, server]
  refine ⟨server ▸ h.configured, ?_, ?_, ?_, ?_⟩
  · rw [metered, purse]
    exact kept
  · rw [purse]
    exact update_forall (P := fun g : Purse => g.fit = true) h.fit
      (fit_perform (h.fit p) allowed quiet performed)
  · rw [Watch.ledger, same, purse, payments]
    exact solvent_perform h.solvent (h.fit p) allowed quiet performed
  · rw [payments, same, sent_perform performed (w.purse p) w.metered, List.map_append, h.sent]

/-- What a new process finds. -/
def restarted (site : Site) (server : Server) (now : ℚ) : World :=
  if server.jobsDb then site.state.recovered now
  else { site.state with reservations := [], budgetLock := false, capacityLock := false }

theorem restart_keeps (site : Site) (server : Server) (now : ℚ) :
    (restarted site server now).metered = site.state.metered ∧
      (restarted site server now).sent = site.state.sent := by
  unfold restarted
  split
  · exact ⟨rfl, rfl⟩
  · exact ⟨rfl, rfl⟩

theorem step_sound (h : w.Sound) (regular : w.Regular a) (taken : w.step a = some t)
    (restarts : ∀ server now, a = .restart server now → Configured server) : t.Sound := by
  have priced := configured_priced h.configured
  obtain ⟨site, moved, same⟩ := step_site taken
  cases a with
  | webhook p request =>
    subst same
    exact spawn_sound h rfl rfl (minds_webhook priced request fun pulls => decide_eq_true pulls) moved
  | dispatch p request =>
    subst same
    exact spawn_sound h rfl rfl (minds_dispatchEndpoint priced request) moved
  | replay p =>
    subst same
    simp only [Site.step] at moved
    split at moved
    · exact spawn_sound h rfl rfl (minds_recoverReady priced) moved
    · cases moved
  | turn p k => exact turn_sound h regular taken
  | restart server now =>
    subst same
    obtain rfl := Option.some.inj moved
    obtain ⟨ledger, sent⟩ := restart_keeps w.site server now
    refine ⟨restarts server now rfl, Crew.disciplined_stop _ _, h.fit, ?_, h.sent.trans sent.symm⟩
    show Solvent (restarted w.site server now).metered w.purse w.payments
    rw [ledger]
    exact h.solvent
  | queue op =>
    subst same
    obtain rfl := Option.some.inj moved
    exact ⟨h.configured, h.disciplined, h.fit, h.solvent, h.sent⟩

theorem spawn_state {program : Program Unit} {site : Site} (spawned : w.site.spawn p program = some site) :
    site.state = w.site.state := by
  obtain ⟨crew, started, rfl⟩ := Option.map_eq_some_iff.mp spawned
  obtain ⟨-, rfl⟩ := Crew.spawn_eq started
  rfl

/-- A hold leaves the ledger only as the acting thread gives its own back, before it has paid. -/
theorem step_owns (h : w.Sound) (regular : w.Regular a) : w.OwnRelease a := by
  intro t taken row member gone
  have stays (same : t.ledger = w.ledger) : False := gone row (same ▸ member) rfl
  cases a with
  | turn p k =>
    refine ⟨p, k, rfl, ?_⟩
    obtain ⟨c, next, r, state, task, performed, -, same, tasks, -⟩ := turn_cases taken
    obtain ⟨allowed, -⟩ := Crew.disciplined_answer h.disciplined task tasks
    by_cases back : ∃ id, c = .release id
    · obtain ⟨id, rfl⟩ := back
      rcases perform_cases performed with ⟨_, -, -, -, rfl⟩ | ⟨quiet, answered⟩
      · exact (stays (congrArg World.metered same)).elim
      · obtain ⟨-, rfl⟩ := Prod.mk.inj (Option.some.inj answered)
        obtain rfl : id = row.id := by
          by_contra other
          refine gone row ?_ rfl
          rw [Watch.ledger, same]
          exact List.mem_filter.mpr ⟨member, decide_eq_true (Ne.symm other)⟩
        rcases allowed (h.fit p) with own | ⟨empty, again⟩
        · exact own
        · exact absurd rfl (turn_regular regular task quiet empty again row member)
    · obtain ⟨row', member', own⟩ := kept_perform performed (fun id same => back ⟨id, same⟩) member
      refine absurd own (gone row' ?_)
      rw [Watch.ledger, same]
      exact member'
  | webhook p request =>
    obtain ⟨site, moved, rfl⟩ := step_site taken
    exact (stays (congrArg World.metered (spawn_state moved))).elim
  | dispatch p request =>
    obtain ⟨site, moved, rfl⟩ := step_site taken
    exact (stays (congrArg World.metered (spawn_state moved))).elim
  | replay p =>
    obtain ⟨site, moved, rfl⟩ := step_site taken
    simp only [Site.step] at moved
    split at moved
    · exact (stays (congrArg World.metered (spawn_state moved))).elim
    · cases moved
  | restart server now =>
    obtain ⟨site, moved, rfl⟩ := step_site taken
    obtain rfl := Option.some.inj moved
    exact (stays (restart_keeps w.site server now).1).elim
  | queue op =>
    obtain ⟨site, moved, rfl⟩ := step_site taken
    obtain rfl := Option.some.inj moved
    exact (stays rfl).elim

theorem sound_paid (h : w.Sound) : w.Paid := ⟨h.sent, h.solvent.counted, h.solvent.own⟩

/-- Every hold that leaves the ledger is its own thread's, and every hosted dispatch that may have
started a run keeps one. -/
theorem holds_stay_own (configured : Configured server)
    (restarts : ∀ server' now, Action.restart server' now ∈ actions → Configured server')
    (ran : run step (start server) actions = some w)
    (regular : Along step Regular (start server) actions) :
    w.Paid ∧ Along step OwnRelease (start server) actions := by
  have along := along_and regular (along_of_forall
    (fun a => ∀ server' now, a = .restart server' now → Configured server')
    fun a member server' now same => restarts server' now (same ▸ member))
  have keep (w : Watch) (a : Action) (t : Watch) (h : w.Sound)
      (guard : w.Regular a ∧ ∀ server' now, a = .restart server' now → Configured server')
      (taken : w.step a = some t) : t.Sound := step_sound h guard.1 taken guard.2
  refine ⟨sound_paid (along_invariant keep along (start_sound configured) ran), ?_⟩
  exact along_derives keep (fun w a h guard => step_owns h guard.1) along (start_sound configured)

end Watch

/-! ## One delivery, two lanes -/

theorem ceilingServer_configured : Configured ceilingServer :=
  ⟨⟨{ Policy.shipped with minuteBudget := some 20 }, rfl⟩, by decide⟩

/-- Every call succeeds, and the fallback runner is idle. -/
def quietHour : Choice :=
  { now := 1770000000
    runners := [⟨"pi", "online", ["self-hosted", "Linux", "ARM64", "fallback"], false⟩] }

def forkRequest : WebhookRequest :=
  { event := some "pull_request", delivery := some "9b1c", fingerprint := "fork"
    payload := some forkPayload }

/-- GitHub refuses the pull request, and the push takes its hold's number. -/
def refusedThenAccepted : List Action :=
  [.webhook 0 forkRequest, .webhook 1 (pushOf "digest" "abc123")] ++
    List.replicate 2 (.turn 1 quietHour) ++
    List.replicate 10 (.turn 0 { quietHour with outcome := .refused 422 "no ref found" }) ++
    List.replicate 10 (.turn 1 quietHour)

theorem refusedThenAccepted_paid :
    ∃ w, run Watch.step (Watch.start ceilingServer) refusedThenAccepted = some w ∧
      w.payments.map (fun x => (x.due, x.hold)) = [(false, some 1), (true, some 1)] ∧
      w.Paid ∧ Along Watch.step Watch.OwnRelease (Watch.start ceilingServer) refusedThenAccepted := by
  have ends : (run Watch.step (Watch.start ceilingServer) refusedThenAccepted).map
      (fun w => w.payments.map fun x => (x.due, x.hold)) = some [(false, some 1), (true, some 1)] := by
    decide +kernel
  obtain ⟨w, ran, payments⟩ := Option.map_eq_some_iff.mp ends
  have restarts (server : Server) (now : ℚ) : Action.restart server now ∉ refusedThenAccepted := by
    simp [refusedThenAccepted]
  exact ⟨w, ran, payments, Watch.holds_stay_own ceilingServer_configured
    (fun server now member => absurd member (restarts server now)) ran (by decide +kernel)⟩

/-- The first request takes the month's last hold and registers the delivery for the hosted lane. The
second, which came before that, decides for the fallback lane, and is the one that dispatches it. -/
def twoLanes : List Action :=
  [.webhook 0 (pushOf "digest" "abc123"), .webhook 1 (pushOf "digest" "abc123")] ++
    List.replicate 2 (.turn 1 quietHour) ++ List.replicate 7 (.turn 0 quietHour) ++
    List.replicate 22 (.turn 1 quietHour) ++ List.replicate 5 (.turn 0 quietHour)

theorem twoLanes_unpaid :
    ¬ ∀ (server : Server) (actions : List Action) (w : Watch), Configured server →
      (∀ server' now, Action.restart server' now ∈ actions → Configured server') →
      run Watch.step (Watch.start server) actions = some w →
      w.Paid ∧ Along Watch.step Watch.OwnRelease (Watch.start server) actions := by
  intro claim
  have ends : (run Watch.step (Watch.start ceilingServer) twoLanes).map
      (fun w => (w.payments.map Payment.due, w.ledger.rows)) = some ([true], []) := by decide +kernel
  obtain ⟨w, ran, same⟩ := Option.map_eq_some_iff.mp ends
  obtain ⟨dues, rows⟩ := Prod.mk.inj same
  have restarts (server : Server) (now : ℚ) : Action.restart server now ∉ twoLanes := by simp [twoLanes]
  obtain ⟨paid, -⟩ := claim ceilingServer twoLanes w ceilingServer_configured
    (fun server now member => absurd member (restarts server now)) ran
  obtain ⟨x, member, due⟩ : ∃ x ∈ w.payments, x.due = true := by
    have member : true ∈ w.payments.map Payment.due := by rw [dues]; exact List.mem_singleton_self _
    exact List.mem_map.mp member
  obtain ⟨id, -, row, charged, -⟩ := paid.counted x member due
  rw [rows] at charged
  cases charged

end Cindral.Dispatch

import Cindral.Dispatch.Frame
import Cindral.Dispatch.Site

/-!
# The metered ceiling

Requests take holds under the budget lock and give them back beside it, while the clock goes on. The
hosted holds of a month stay below its budget, unless the spend is read in the half microsecond
before a month that `datetime` rounds into it. The minutes are rationals here: nothing of a sum or a
product is rounded.
-/

namespace Cindral.Dispatch
open Base Routing Script

/-- The broker's till: the threads at the ledger, and the last reading of the clock. -/
structure Till where
  crew : Crew Thread Call Ans Raised World
  clock : ℚ

inductive TillAction where
  | reserve (thread : Thread) (estimatedMinutes : Double)
  | releaseHold (thread : Thread) (reservation : Option Nat)
  | releaseReservation (thread : Thread) (reservation : Option Nat)
  | attributeHold (thread : Thread) (reservation : Option Nat) (repository workflow ref : String)
  | turn (thread : Thread) (choice : Choice)
  /-- The process stops, and the next one starts under the same policy. -/
  | restart

def monthHolds (ledger : MeteredLedger) (month : ℤ) : Nat :=
  ledger.rows.countP fun r => r.lane = hostedLane && inMonth month r.createdAt

namespace Till

def start (clock : ℚ) : Till := ⟨Crew.fresh World.empty, clock⟩

def world (t : Till) : World := t.crew.state

def spawn (t : Till) (thread : Thread) (program : Program Unit) : Option Till :=
  (t.crew.spawn thread program).map fun crew => { t with crew := crew }

/-- The clock never goes back. -/
def step (p : Policy) (t : Till) : TillAction → Option Till
  | .reserve thread estimatedMinutes => t.spawn thread do
    let _ ← reserveMetered p estimatedMinutes
    pure ()
  | .releaseHold thread reservation => t.spawn thread (Dispatch.releaseHold p reservation)
  | .releaseReservation thread reservation =>
      t.spawn thread (Dispatch.releaseReservation true reservation)
  | .attributeHold thread reservation repository workflow ref =>
      t.spawn thread (nameHold true reservation repository workflow ref)
  | .turn thread choice =>
    if t.clock ≤ choice.now then
      (t.crew.turn perform thread choice).map fun crew => { crew := crew, clock := choice.now }
    else none
  | .restart => some { t with crew := t.crew.stop { t.world with budgetLock := false } }

/-- A thread reads the month's spend only where the month it falls in has begun. -/
def Punctual (t : Till) : TillAction → Prop
  | .turn thread choice => (∃ next, t.crew.task thread = some (.ask .countMetered next)) →
      monthStart choice.now ≤ choice.now
  | _ => True

end Till

/-! ## Under the lock -/

/-- What a thread holds in hand: nothing, the lock, or the lock and the spend it read. -/
inductive Grip where
  | free
  | locked
  | counted (dispatches : Nat)
  deriving DecidableEq

def Grip.after (g : Grip) : (c : Call) → Except Raised (Ans c) → Grip
  | .lockBudget, _ => .locked
  | .unlockBudget, _ => .free
  | .countMetered, .ok dispatches => .counted dispatches
  | .reserve _ _, _ => .locked
  | _, _ => g

/-- What the three functions at the ledger may call, and when. -/
def Grip.may (budget minutesPerRun : ℚ) (g : Grip) : Call → Prop
  | .lockBudget => g = .free
  | .unlockBudget => g ≠ .free
  | .countMetered => g ≠ .free
  | .reserve _ lane => lane = hostedLane ∧ ∃ n : Nat, g = .counted n ∧
      n * minutesPerRun + minutesPerRun < budget
  | .release _ | .attributeHold _ _ _ _ => True
  | _ => False

def atTill (budget minutesPerRun : ℚ) : Protocol Call Ans Raised Grip :=
  ⟨Grip.may budget minutesPerRun, Grip.after⟩

section Follows
variable {p : Policy} {budget : ℚ}

structure Counted (p : Policy) (budget : ℚ) : Prop where
  ceiling : p.minuteBudget = some budget
  assumed : p.assumedMinutesPerRun = p.minutesPerRun
  positive : 0 < p.minutesPerRun
  metered : p.meteredMinutes = true
  reserves : p.reserveMeteredMinutes = true

theorem counted_of_attached {q : Policy} (attached : q.attachBudget true = .ok p)
    (ceiling : q.minuteBudget = some budget) :
    Counted p budget ∧ p.minutesPerRun = q.minutesPerRun ∧ p.rounding = q.rounding := by
  rw [Policy.attachBudget, ceiling] at attached
  simp only [Bool.not_true, Bool.false_eq_true, if_false] at attached
  split_ifs at attached with negative nothing
  obtain rfl := Except.ok.inj attached
  exact ⟨⟨rfl, rfl, not_le.mp nothing, rfl, rfl⟩, rfl, rfl⟩

theorem reserveMetered_eq (counts : Counted p budget) (estimatedMinutes : Double) :
    reserveMetered p estimatedMinutes = holding .lockBudget .unlockBudget
    (reserveUnder p budget estimatedMinutes) := by
  simp only [reserveMetered, counts.ceiling, counts.metered, counts.reserves, Bool.not_true,
    Bool.false_eq_true, if_false]

section Exact
variable (counts : Counted p budget) (exact : p.rounding = .exact)
include counts exact

theorem spent_exact (dispatches : Nat) : p.spent dispatches = .finite (dispatches * p.minutesPerRun) := by
  rw [Policy.spent, exact, Rounding.exact_mul dispatches counts.positive]

/-- A cost is no less than the one a run is assumed to have. -/
theorem room_exact {dispatches : Nat} {estimatedMinutes : Double}
    (room : ¬p.reaches budget (p.spent dispatches) estimatedMinutes = true) :
    dispatches * p.minutesPerRun + p.minutesPerRun < budget := by
  by_contra full
  refine room (Double.le_trans (Double.le_finite.mpr (not_lt.mp full)) ?_)
  have least : (Double.finite 0).le (.finite p.minutesPerRun) = true :=
    Double.le_finite.mpr counts.positive.le
  have spent := Policy.spent_least counts.positive dispatches
  have cost : (Double.finite p.minutesPerRun).le (p.cost estimatedMinutes) = true := by
    rw [← counts.assumed]
    exact Policy.cost_assumed estimatedMinutes
  have sum := Rounding.add_mono (r := p.rounding) spent
    (Double.le_refl (Double.number_of_le spent).2) least cost
  rw [spent_exact counts exact, exact] at sum
  rw [spent_exact counts exact, exact]
  exact sum

/-- The body takes a hold only after it has read a spend that leaves room for one. -/
theorem follows_reserveUnder (estimatedMinutes : Double) :
    (reserveUnder p budget estimatedMinutes).Follows (atTill budget p.minutesPerRun)
    (fun g _ => g ≠ .free) .locked := by
  refine follows_bind (follows_bind (follows_call (by exact Grip.noConfusion) fun r => ?_))
  cases r with
  | error e => exact Grip.noConfusion
  | ok dispatches =>
    show Follows _ (if _ then _ else _) _ (Grip.counted dispatches)
    split
    · exact Grip.noConfusion
    · rename_i room
      refine follows_bind (follows_call ⟨rfl, dispatches, rfl, room_exact counts exact room⟩ fun r => ?_)
      cases r with
      | error e => exact Grip.noConfusion
      | ok id => exact Grip.noConfusion

theorem follows_reserve (estimatedMinutes : Double) :
    (do let _ ← reserveMetered p estimatedMinutes; pure () : Program Unit).Follows
      (atTill budget p.minutesPerRun)
      (fun _ _ => True) .free := by
  rw [reserveMetered_eq counts]
  refine follows_bind (follows_bind (follows_call rfl fun r => ?_))
  cases r with
  | error e => trivial
  | ok _ =>
    refine follows_bind (follows_attempt
      (follows_mono (follows_reserveUnder counts exact estimatedMinutes) fun g outcome held => ?_))
    refine follows_bind (follows_call held fun r => ?_)
    cases r with
    | error e => trivial
    | ok _ => exact follows_lift (by cases outcome <;> trivial)

end Exact

theorem follows_releaseHold (reservation : Option Nat) :
    (Dispatch.releaseHold p reservation).Follows (atTill budget p.minutesPerRun) (fun _ _ => True)
    .free := by
  unfold Dispatch.releaseHold
  split
  · trivial
  · split
    · exact follows_call trivial fun _ => trivial
    · trivial

theorem follows_releaseReservation (reservation : Option Nat) :
    (Dispatch.releaseReservation true reservation).Follows (atTill budget p.minutesPerRun)
    (fun _ _ => True) .free := by
  unfold Dispatch.releaseReservation
  split
  · trivial
  · exact follows_bind (follows_attempt (follows_call trivial fun _ => trivial))

theorem follows_nameHold (reservation : Option Nat) (repository workflow ref : String) :
    (nameHold true reservation repository workflow ref).Follows (atTill budget p.minutesPerRun)
    (fun _ _ => True) .free := by
  unfold nameHold
  split
  · trivial
  · exact follows_bind (follows_attempt (follows_call trivial fun _ => trivial))

end Follows

/-! ## The lock -/

/-- At most one thread has the lock, and it is taken then. -/
structure Held (told : Thread → Grip) (lock : Bool) : Prop where
  alone : ∀ a b, told a ≠ .free → told b ≠ .free → a = b
  taken : ∀ a, told a ≠ .free → lock = true

section Held
variable {told : Thread → Grip} {lock : Bool} {thread : Thread}

theorem held_idle (lock : Bool) : Held (fun _ => .free) lock :=
  ⟨fun _ _ idle => absurd rfl idle, fun _ idle => absurd rfl idle⟩

theorem held_lock (h : Held told false) (g : Grip) : Held (Function.update told thread g) true := by
  have idle (a : Thread) : told a = .free := by
    by_contra busy
    cases h.taken a busy
  have only (a : Thread) (busy : Function.update told thread g a ≠ .free) : a = thread := by
    by_contra other
    rw [Function.update_of_ne other] at busy
    exact busy (idle a)
  exact ⟨fun a b busy busy' => (only a busy).trans (only b busy').symm, fun _ _ => rfl⟩

theorem held_keep (h : Held told lock) {g : Grip} (mine : g ≠ .free → told thread ≠ .free) :
    Held (Function.update told thread g) lock := by
  have before (a : Thread) (busy : Function.update told thread g a ≠ .free) : told a ≠ .free := by
    by_cases same : a = thread
    · rw [same, Function.update_self] at busy
      rw [same]
      exact mine busy
    · rwa [Function.update_of_ne same] at busy
  exact ⟨fun a b busy busy' => h.alone a b (before a busy) (before b busy'), fun a busy =>
    h.taken a (before a busy)⟩

theorem held_unlock (h : Held told lock) (mine : told thread ≠ .free) :
    Held (Function.update told thread .free) false := by
  have idle (a : Thread) : Function.update told thread .free a = .free := by
    by_cases same : a = thread
    · rw [same, Function.update_self]
    · rw [Function.update_of_ne same]
      by_contra busy
      exact same (h.alone a thread busy mine)
  exact ⟨fun a _ busy => absurd (idle a) busy, fun a busy => absurd (idle a) busy⟩

theorem held_read (h : Held told lock) (mine : told thread ≠ .free) {g : Grip}
    (grip : ∀ dispatches, g ≠ .counted dispatches)
    (a : Thread) (dispatches : Nat) : Function.update told thread g a ≠ .counted dispatches := by
  by_cases acting : a = thread
  · rw [acting, Function.update_self]
    exact grip dispatches
  · rw [Function.update_of_ne acting]
    intro counted
    exact acting (h.alone a thread (by rw [counted]; exact Grip.noConfusion) mine)

end Held

/-! ## The ledger -/

/-- Of no kind of hold, told by lane and instant, are there more. -/
def Thins (ledger ledger' : MeteredLedger) : Prop :=
  ∀ kind : String → ℚ → Bool, (ledger'.rows.countP fun r => kind r.lane r.createdAt) ≤
    ledger.rows.countP fun r => kind r.lane r.createdAt

theorem thins_refl (ledger : MeteredLedger) : Thins ledger ledger := fun _ => Nat.le_refl _

theorem thins_release (ledger : MeteredLedger) (reservation : Nat) :
    Thins ledger (ledger.release reservation) :=
  fun _ => List.filter_sublist.countP_le

theorem thins_attribute (ledger : MeteredLedger) (reservation : Nat) (repository workflow ref : String) :
    Thins ledger (ledger.attributeHold reservation repository workflow ref) := by
  intro kind
  have same (r : Hold) : (Edit.only (·.id = reservation) (Hold.named repository workflow ref)
      r).lane = r.lane ∧
      (Edit.only (·.id = reservation) (Hold.named repository workflow ref) r).createdAt =
      r.createdAt := by
    rw [Edit.only_apply]
    split
    · exact ⟨rfl, rfl⟩
    · exact ⟨rfl, rfl⟩
  rw [MeteredLedger.attributeHold, Table.update, List.countP_map]
  refine Nat.le_of_eq (List.countP_congr fun r _ => ?_)
  rw [Function.comp_apply, (same r).1, (same r).2]

theorem countP_reserve_le (ledger : MeteredLedger) (repository lane workflow ref : String) (now : ℚ)
    (kind : String → ℚ → Bool) : ((ledger.reserve repository lane workflow ref now).2.rows.countP
      fun r => kind r.lane r.createdAt) ≤
      (ledger.rows.countP fun r => kind r.lane r.createdAt) + if kind lane now then 1 else 0 := by
  rw [MeteredLedger.reserve, Table.replace, List.countP_append, List.countP_singleton]
  exact Nat.add_le_add_right List.filter_sublist.countP_le _

/-- The holds of every month cost less than the budget. -/
def Below (budget minutesPerRun : ℚ) (ledger : MeteredLedger) : Prop :=
  ∀ month, monthHolds ledger month = 0 ∨ monthHolds ledger month * minutesPerRun < budget

def Past (ledger : MeteredLedger) (clock : ℚ) : Prop := ∀ r ∈ ledger.rows, r.createdAt ≤ clock

/-- A spend that was read at an instant of a month that had begun, since when no hold was taken. -/
def Read (ledger : MeteredLedger) (dispatches : Nat) (instant : ℚ) : Prop :=
  monthStart instant ≤ instant ∧ Past ledger instant ∧ ledger.count (monthStart instant)
  hostedLane ≤ dispatches

section Ledger
variable {ledger ledger' : MeteredLedger} {budget minutesPerRun clock instant : ℚ} {dispatches : Nat}

theorem past_thins (thins : Thins ledger ledger') (h : Past ledger clock) : Past ledger' clock := by
  have none : (ledger.rows.countP fun r => !decide (r.createdAt ≤ clock)) = 0 :=
    List.countP_eq_zero.mpr fun r member => by simpa using h r member
  have fewer := thins fun _ createdAt => !decide (createdAt ≤ clock)
  intro r member
  have kept := List.countP_eq_zero.mp (Nat.le_zero.mp (none ▸ fewer)) r member
  simpa using kept

theorem below_le (positive : 0 < minutesPerRun) {before after : Nat} (fewer : after ≤ before)
    (h : before = 0 ∨ before * minutesPerRun < budget) : after = 0 ∨ after * minutesPerRun < budget := by
  rcases h with none | below
  · exact Or.inl (Nat.le_zero.mp (none ▸ fewer))
  · exact Or.inr (lt_of_le_of_lt (mul_le_mul_of_nonneg_right (Nat.cast_le.mpr fewer) positive.le) below)

theorem below_thins (positive : 0 < minutesPerRun) (thins : Thins ledger ledger')
    (h : Below budget minutesPerRun ledger) :
    Below budget minutesPerRun ledger' := by
  intro month
  have fewer := thins fun lane createdAt => lane = hostedLane && inMonth month createdAt
  exact below_le positive fewer (h month)

theorem read_thins (thins : Thins ledger ledger') (h : Read ledger dispatches instant) :
    Read ledger' dispatches instant := by
  have fewer := thins fun lane createdAt => lane = hostedLane && monthStart instant ≤ createdAt
  exact ⟨h.1, past_thins thins h.2.1, Nat.le_trans fewer h.2.2⟩

/-- The holds of a month that goes on are among those that were counted. -/
theorem monthHolds_le {month : ℤ} {now : ℚ} (h : Read ledger dispatches instant) (later : instant ≤ now)
    (inside : inMonth month now) : monthHolds ledger month ≤ dispatches := by
  rcases Nat.eq_zero_or_pos (monthHolds ledger month) with none | some
  · rw [none]
    exact Nat.zero_le _
  obtain ⟨r, member, hosted⟩ := List.countP_pos_iff.mp some
  obtain ⟨-, mine⟩ := (Bool.and_eq_true _ _).mp hosted
  obtain ⟨begun, -⟩ := (Bool.and_eq_true _ _).mp mine
  obtain ⟨-, ending⟩ := (Bool.and_eq_true _ _).mp inside
  have within : inMonth month instant := (Bool.and_eq_true _ _).mpr
    ⟨decide_eq_true ((of_decide_eq_true begun).trans (h.2.1 r member)),
      decide_eq_true (lt_of_le_of_lt later (of_decide_eq_true ending))⟩
  have since := monthFirst_le_of_inMonth h.1 within
  refine Nat.le_trans (List.countP_mono_left fun r _ hosted => ?_) h.2.2
  obtain ⟨lane, mine⟩ := (Bool.and_eq_true _ _).mp hosted
  obtain ⟨begun, -⟩ := (Bool.and_eq_true _ _).mp mine
  exact (Bool.and_eq_true _ _).mpr ⟨lane, decide_eq_true (since.trans (of_decide_eq_true begun))⟩

theorem below_reserve (positive : 0 < minutesPerRun) (h : Below budget minutesPerRun ledger)
    (read : Read ledger dispatches instant)
    (room : dispatches * minutesPerRun + minutesPerRun < budget) {now : ℚ}
    (later : instant ≤ now) (repository lane workflow ref : String) :
    Below budget minutesPerRun (ledger.reserve repository lane workflow ref now).2 := by
  intro month
  have more := countP_reserve_le ledger repository lane workflow ref now
    fun lane createdAt => lane = hostedLane && inMonth month createdAt
  by_cases inside : inMonth month now
  · have few := monthHolds_le read later inside
    have total : monthHolds (ledger.reserve repository lane workflow ref now).2 month ≤ dispatches +
        1 := by
      refine Nat.le_trans more (Nat.add_le_add few ?_)
      split
      · exact Nat.le_refl 1
      · exact Nat.zero_le 1
    refine below_le positive total (Or.inr ?_)
    push_cast
    rwa [add_mul, one_mul]
  · have same : (decide (lane = hostedLane) && inMonth month now) = false := by
      rw [Bool.eq_false_of_not_eq_true inside, Bool.and_false]
    rw [same] at more
    exact below_le positive more (h month)

theorem past_reserve (h : Past ledger clock) {now : ℚ} (later : clock ≤ now)
    (repository lane workflow ref : String) :
    Past (ledger.reserve repository lane workflow ref now).2 now := by
  intro r member
  rcases List.mem_append.mp member with before | new
  · exact (h r (List.mem_of_mem_filter before)).trans later
  · rw [List.mem_singleton.mp new]

theorem past_later (h : Past ledger clock) {now : ℚ} (later : clock ≤ now) : Past ledger now :=
  fun r member => (h r member).trans later

end Ledger

/-! ## Runs -/

namespace Till
variable {p : Policy} {budget : ℚ} {told : Thread → Grip} {t t' : Till} {a : TillAction}

/-- Every thread keeps to the rule, what it has read is still right, and the holds are below the
budget. -/
structure Sound (p : Policy) (budget : ℚ) (told : Thread → Grip) (t : Till) : Prop where
  disciplined : Crew.Disciplined (atTill budget p.minutesPerRun) told t.crew
  held : Held told t.world.budgetLock
  past : Past t.world.metered t.clock
  read : ∀ thread dispatches, told thread = .counted dispatches → ∃ instant ≤ t.clock,
    Read t.world.metered dispatches instant
  below : Below budget p.minutesPerRun t.world.metered

theorem sound_start (p : Policy) (budget clock : ℚ) : Sound p budget (fun _ => .free) (start clock) where
  disciplined := Crew.disciplined_fresh _
  held := held_idle _
  past := fun _ member => absurd member List.not_mem_nil
  read := fun _ _ counted => by cases counted
  below := fun _ => Or.inl rfl

/-- A call that takes no hold, of a thread that does not let go of the lock. -/
theorem sound_thins (h : Sound p budget told t) (positive : 0 < p.minutesPerRun) {thread : Thread}
    {g : Grip}
    {crew : Crew Thread Call Ans Raised World} {now : ℚ} (later : t.clock ≤ now)
    (disciplined : Crew.Disciplined (atTill budget p.minutesPerRun) (Function.update told thread g) crew)
    (lock : crew.state.budgetLock = t.world.budgetLock) (thins : Thins t.world.metered crew.state.metered)
    (grip : g = told thread ∨ told thread ≠ .free ∧ ∀ dispatches, g ≠ .counted dispatches) :
    Sound p budget (Function.update told thread g) ⟨crew, now⟩ where
  disciplined := disciplined
  held := by
    show Held _ crew.state.budgetLock
    rw [lock]
    rcases grip with rfl | ⟨mine, -⟩
    · rw [Function.update_eq_self]
      exact h.held
    · exact held_keep h.held fun _ => mine
  past := past_thins thins (past_later h.past later)
  read := by
    intro a dispatches counted
    have before : told a = .counted dispatches := by
      by_cases same : a = thread
      · rw [same, Function.update_self] at counted
        rcases grip with rfl | ⟨-, other⟩
        · rw [same, counted]
        · exact absurd counted (other dispatches)
      · rwa [Function.update_of_ne same] at counted
    obtain ⟨instant, earlier, read⟩ := h.read a dispatches before
    exact ⟨instant, earlier.trans later, read_thins thins read⟩
  below := below_thins positive thins h.below

/-- A call that leaves the ledger alone. -/
theorem sound_same (h : Sound p budget told t) {told' : Thread → Grip}
    {crew : Crew Thread Call Ans Raised World} {now : ℚ}
    (later : t.clock ≤ now) (disciplined : Crew.Disciplined (atTill budget p.minutesPerRun) told' crew)
    (held : Held told' crew.state.budgetLock) (metered : crew.state.metered = t.world.metered)
    (read : ∀ thread dispatches, told' thread = .counted dispatches →
      ∃ instant ≤ now, Read t.world.metered dispatches instant) : Sound p budget told' ⟨crew, now⟩ where
  disciplined := disciplined
  held := held
  past := by
    show Past crew.state.metered now
    rw [metered]
    exact past_later h.past later
  read := by
    show ∀ thread dispatches, told' thread = .counted dispatches → ∃ instant ≤ now,
      Read crew.state.metered dispatches instant
    rw [metered]
    exact read
  below := by
    show Below budget p.minutesPerRun crew.state.metered
    rw [metered]
    exact h.below

theorem read_update (h : Sound p budget told t) {now : ℚ} (later : t.clock ≤ now) {thread : Thread}
    {g : Grip}
    (grip : ∀ dispatches, g ≠ .counted dispatches) (a : Thread) (dispatches : Nat)
    (counted : Function.update told thread g a = .counted dispatches) :
    ∃ instant ≤ now, Read t.world.metered dispatches instant := by
  by_cases acting : a = thread
  · rw [acting, Function.update_self] at counted
    exact absurd counted (grip dispatches)
  · rw [Function.update_of_ne acting] at counted
    obtain ⟨instant, earlier, read⟩ := h.read a dispatches counted
    exact ⟨instant, earlier.trans later, read⟩

/-- What a call at the ledger does. -/
theorem turn_sound (counts : Counted p budget) (h : Sound p budget told t) {k : Choice} {thread : Thread}
    {crew : Crew Thread Call Ans Raised World} (turned : t.crew.turn perform thread k = some crew)
    (later : t.clock ≤ k.now)
    (punctual : (∃ next, t.crew.task thread = some (.ask .countMetered next)) →
    monthStart k.now ≤ k.now) :
    ∃ told', Sound p budget told' ⟨crew, k.now⟩ := by
  obtain ⟨c, next, r, task, performed, allowed, after⟩ := Crew.disciplined_ask h.disciplined turned
  have quiet (thins : Thins t.world.metered crew.state.metered)
      (lock : crew.state.budgetLock = t.world.budgetLock)
      (grip : (told thread).after c r = told thread ∨
        told thread ≠ .free ∧ ∀ dispatches, (told thread).after c r ≠ .counted dispatches) :
      ∃ told', Sound p budget told' ⟨crew, k.now⟩ :=
    ⟨_, sound_thins h counts.positive later after lock thins grip⟩
  rcases perform_cases performed with ⟨e, _, possible, rfl, same⟩ | ⟨_, answered⟩
  · have lock : crew.state.budgetLock = t.world.budgetLock := by rw [same]; rfl
    have thins : Thins t.world.metered crew.state.metered := by rw [same]; exact thins_refl _
    cases c with
    | countMetered | release _ | attributeHold _ _ _ _ => exact quiet thins lock (Or.inl rfl)
    | reserve _ _ =>
      obtain ⟨-, n, counted, -⟩ := allowed
      exact quiet thins lock (Or.inr ⟨by rw [counted]; exact Grip.noConfusion, fun _ => Grip.noConfusion⟩)
    | lockBudget | unlockBudget => cases possible
    | _ => exact allowed.elim
  · cases c with
    | lockBudget =>
      simp only [answer, take] at answered
      split at answered
      · cases answered
      · rename_i free
        obtain ⟨rfl, same⟩ := Prod.mk.inj (Option.some.inj answered)
        have held := h.held
        rw [show t.world.budgetLock = false from Bool.eq_false_of_not_eq_true free] at held
        have held : Held (Function.update told thread .locked) crew.state.budgetLock := by
          rw [← same]
          exact held_lock held .locked
        exact ⟨_, sound_same h later after held (by rw [← same]; rfl)
          (read_update h later fun _ => Grip.noConfusion)⟩
    | unlockBudget =>
      obtain ⟨rfl, same⟩ := Prod.mk.inj (Option.some.inj answered)
      have held : Held (Function.update told thread .free) crew.state.budgetLock := by
        rw [← same]
        exact held_unlock h.held allowed
      exact ⟨_, sound_same h later after held (by rw [← same]; rfl)
        (read_update h later fun _ => Grip.noConfusion)⟩
    | countMetered =>
      obtain ⟨rfl, same⟩ := Prod.mk.inj (Option.some.inj answered)
      have held : Held (Function.update told thread
          (.counted (t.world.metered.count (monthStart k.now) hostedLane))) crew.state.budgetLock := by
        rw [← same]
        exact held_keep h.held fun _ => allowed
      refine ⟨_, sound_same h later after held (by rw [← same]; rfl) fun a dispatches counted => ?_⟩
      by_cases acting : a = thread
      · rw [acting, Function.update_self] at counted
        obtain rfl := Grip.counted.inj counted
        exact ⟨k.now, le_refl _, punctual ⟨next, task⟩, past_later h.past later, Nat.le_refl _⟩
      · rw [Function.update_of_ne acting] at counted
        obtain ⟨instant, earlier, read⟩ := h.read a dispatches counted
        exact ⟨instant, earlier.trans later, read⟩
    | reserve repository lane =>
      obtain ⟨rfl, same⟩ := Prod.mk.inj (Option.some.inj answered)
      obtain ⟨rfl, n, counted, room⟩ := allowed
      obtain ⟨instant, earlier, read⟩ := h.read thread n counted
      have mine : told thread ≠ .free := by rw [counted]; exact Grip.noConfusion
      have metered : crew.state.metered =
          (t.world.metered.reserve repository hostedLane "" "" k.now).2 := by
        rw [← same]
        rfl
      have held : Held (Function.update told thread .locked) crew.state.budgetLock := by
        rw [← same]
        exact held_keep h.held fun _ => mine
      refine ⟨_, after, held, ?_, fun a dispatches other => ?_, ?_⟩
      · show Past crew.state.metered k.now
        rw [metered]
        exact past_reserve h.past later _ _ _ _
      · -- no other thread has read anything
        exact absurd other (held_read h.held mine (fun _ => Grip.noConfusion) a dispatches)
      · show Below budget p.minutesPerRun crew.state.metered
        rw [metered]
        exact below_reserve counts.positive h.below read room (earlier.trans later) _ _ _ _
    | release reservation =>
      obtain ⟨rfl, same⟩ := Prod.mk.inj (Option.some.inj answered)
      exact quiet (by rw [← same]; exact thins_release _ _) (by rw [← same]; rfl) (Or.inl rfl)
    | attributeHold reservation repository workflow ref =>
      obtain ⟨rfl, same⟩ := Prod.mk.inj (Option.some.inj answered)
      exact quiet (by rw [← same]; exact thins_attribute _ _ _ _ _) (by rw [← same]; rfl) (Or.inl rfl)
    | _ => exact allowed.elim

theorem spawn_sound (h : Sound p budget told t) {thread : Thread} {program : Program Unit}
    (follows : program.Follows (atTill budget p.minutesPerRun) (fun _ _ => True) .free)
    (spawned : t.spawn thread program = some t') : ∃ told', Sound p budget told' t' := by
  obtain ⟨crew, started, rfl⟩ := Option.map_eq_some_iff.mp spawned
  obtain ⟨state, disciplined⟩ := Crew.disciplined_spawn h.disciplined follows started
  refine ⟨_, sound_same h (le_refl _) disciplined ?_ (by rw [state]; rfl)
    (read_update h (le_refl _) fun _ => Grip.noConfusion)⟩
  rw [state]
  exact held_keep h.held fun busy => absurd rfl busy

theorem step_sound (counts : Counted p budget) (exact : p.rounding = .exact) (h : Sound p budget told t)
    (punctual : t.Punctual a) (taken : step p t a = some t') : ∃ told', Sound p budget told' t' := by
  cases a with
  | reserve thread estimatedMinutes => exact spawn_sound h (follows_reserve counts exact estimatedMinutes) taken
  | releaseHold thread reservation => exact spawn_sound h (follows_releaseHold reservation) taken
  | releaseReservation thread reservation =>
      exact spawn_sound h (follows_releaseReservation reservation) taken
  | attributeHold thread reservation repository workflow ref =>
    exact spawn_sound h (follows_nameHold reservation repository workflow ref) taken
  | turn thread choice =>
    simp only [step] at taken
    split at taken
    · rename_i later
      obtain ⟨crew, turned, rfl⟩ := Option.map_eq_some_iff.mp taken
      exact turn_sound counts h turned later punctual
    · cases taken
  | restart =>
    obtain rfl := Option.some.inj taken
    exact ⟨fun _ => .free, Crew.disciplined_stop _ _, held_idle _, h.past,
      fun _ _ counted => by (cases counted), h.below⟩

end Till

/-! ## Refusals -/

/-- The calls a request has made, and the spend it read last. -/
structure Diary where
  made : List Call
  counted : Option Nat

def Diary.note (diary : Diary) : (c : Call) → Except Raised (Ans c) → Diary
  | .countMetered, .ok dispatches => ⟨diary.made ++ [.countMetered], some dispatches⟩
  | c, _ => ⟨diary.made ++ [c], diary.counted⟩

/-- Any call, answered in any way. -/
def diaries : Protocol Call Ans Raised Diary := ⟨fun _ _ => True, Diary.note⟩

/-- A refused reservation took no hold, and had read a spend that one more run of its cost would
bring to the budget. An infinite cost would bring any spend there. -/
def RefusedFor (p : Policy) (budget : ℚ) (estimatedMinutes : Double) (diary : Diary)
    (outcome : Except Raised (Option Nat × Option String)) : Prop :=
  ∀ hold reason, outcome = .ok (hold, some reason) → hold = none ∧
    (∀ repository lane, .reserve repository lane ∉ diary.made) ∧
    ∃ dispatches : Nat, diary.counted = some dispatches ∧
      ∀ cost : ℚ, p.cost estimatedMinutes = .finite cost → budget ≤ dispatches * p.minutesPerRun + cost

theorem reserve_refused {p : Policy} {budget : ℚ} (counts : Counted p budget)
    (exact : p.rounding = .exact)
    (estimatedMinutes : Double) :
    (reserveMetered p estimatedMinutes).Follows diaries (RefusedFor p budget estimatedMinutes)
    ⟨[], none⟩ := by
  have unlocked (diary : Diary) (outcome : Except Raised (Option Nat × Option String))
      (h : RefusedFor p budget estimatedMinutes diary outcome) :
      (do let _ ← ask .unlockBudget; lift outcome : Program (Option Nat × Option String)).Follows diaries
        (RefusedFor p budget estimatedMinutes) diary := by
    refine follows_bind (follows_call trivial fun r => ?_)
    cases r with
    | error e => exact fun _ _ same => by cases same
    | ok _ =>
      refine follows_lift fun hold reason same => ?_
      obtain ⟨none_held, unreserved, counted⟩ := h hold reason same
      refine ⟨none_held, fun repository lane member => ?_, counted⟩
      rcases List.mem_append.mp member with before | now
      · exact unreserved repository lane before
      · cases List.mem_singleton.mp now
  rw [reserveMetered_eq counts]
  refine follows_bind (follows_call trivial fun r => ?_)
  cases r with
  | error e => exact fun _ _ same => by cases same
  | ok _ =>
    refine follows_bind (follows_attempt (follows_mono ?_ unlocked))
    refine follows_bind (follows_bind (follows_call trivial fun r => ?_))
    cases r with
    | error e => exact fun _ _ same => by cases same
    | ok dispatches =>
      show Follows _ (if _ then _ else _) _ (Diary.mk _ (some dispatches))
      split
      · rename_i reached
        intro hold reason same
        obtain ⟨rfl, -⟩ := Prod.mk.inj (Except.ok.inj same)
        refine ⟨rfl, fun repository lane member => ?_, dispatches, rfl, fun cost same => ?_⟩
        case refine_2 =>
          rw [Policy.reaches, spent_exact counts exact, same, exact] at reached
          exact Double.le_finite.mp reached
        rcases List.mem_cons.mp (show .reserve repository
          lane ∈ [Call.lockBudget, .countMetered] from member) with same | last
        · cases same
        · cases List.mem_singleton.mp last
      · refine follows_bind (follows_call trivial fun r => ?_)
        cases r with
        | error e => exact fun _ _ same => by cases same
        | ok id =>
          intro hold reason same
          cases (Prod.mk.inj (Except.ok.inj same)).2

/-- Of every month the hosted holds cost less than the budget, and a reservation is refused only
where one more of its cost would not. -/
theorem metered_ceiling {q p : Policy} {budget clock : ℚ} {actions : List TillAction} {t : Till}
    (attached : q.attachBudget true = .ok p) (ceiling : q.minuteBudget = some budget)
    (exact : q.rounding = .exact)
    (punctual : Along (Till.step p) Till.Punctual (Till.start clock) actions)
    (h : run (Till.step p) (Till.start clock) actions = some t) :
    (∀ month, monthHolds t.world.metered month = 0 ∨ monthHolds t.world.metered month *
    p.minutesPerRun < budget) ∧
    ∀ estimatedMinutes,
      (reserveMetered p estimatedMinutes).Follows diaries (RefusedFor p budget estimatedMinutes)
      ⟨[], none⟩ := by
  obtain ⟨counts, -, same⟩ := counted_of_attached attached ceiling
  have exact := same.trans exact
  have start : ∃ told, Till.Sound p budget told (Till.start clock) := ⟨_, Till.sound_start p budget clock⟩
  have keep (s : Till) (a : TillAction) (u : Till) (holds : ∃ told, Till.Sound p budget told s)
      (guard : s.Punctual a)
      (taken : Till.step p s a = some u) : ∃ told, Till.Sound p budget told u := by
    obtain ⟨told, sound⟩ := holds
    exact Till.step_sound counts exact sound guard taken
  obtain ⟨told, sound⟩ := along_invariant keep punctual start h
  exact ⟨sound.below, fun estimatedMinutes => reserve_refused counts exact estimatedMinutes⟩

/-! ## The end of a month -/

/-- Two runs of ten minutes do not fit into twenty. -/
def twentyMinutes : Policy := { Policy.shipped with minuteBudget := some 20, rounding := .exact }

def twentyPolicy : Policy :=
  { twentyMinutes with assumedMinutesPerRun := 10, meteredMinutes := true, reserveMeteredMinutes := true,
                       releaseMeteredMinutes := true }

/-- A reservation, with the clock at one instant for all its calls. -/
def reserveAt (thread : Thread) (now : ℚ) (calls : Nat) : List TillAction :=
  .reserve thread (.finite 0) :: List.replicate calls (.turn thread { now := now })

/-- The first instant of 2026, which is month 24310. -/
def newYear : ℚ := monthFirst 24310 * secondsPerDay

/-- A clock that is never read just before a month. -/
def TillAction.begun : TillAction → Bool
  | .turn _ choice => monthStart choice.now ≤ choice.now
  | _ => true

theorem punctual_of_begun {p : Policy} {t : Till} {actions : List TillAction}
    (begun : actions.all TillAction.begun = true) :
    Along (Till.step p) Till.Punctual t actions := by
  have all : ∀ a ∈ actions, a.begun = true := List.all_eq_true.mp begun
  refine along_mono (fun _ a begun => ?_) (along_of_forall (fun a => a.begun = true) all)
  cases a with
  | turn thread choice => exact fun _ => of_decide_eq_true begun
  | _ => trivial

def holdsAfter (actions : List TillAction) : Option (List ℚ) :=
  (run (Till.step twentyPolicy) (Till.start 0) actions).map fun t => t.world.metered.rows.map
  Hold.createdAt

/-- The second reservation of December is refused, and January starts anew. -/
theorem newYear_below : ∃ t : Till, t.world.metered.rows.map Hold.createdAt =
    [newYear - 10, newYear + 1] ∧
    ∀ month, monthHolds t.world.metered month = 0 ∨ monthHolds t.world.metered month *
    twentyPolicy.minutesPerRun < 20 := by
  have ends : holdsAfter (reserveAt 0 (newYear - 10) 4 ++ reserveAt 1 (newYear - 1) 3 ++ reserveAt 2
      (newYear + 1) 4) =
      some [newYear - 10, newYear + 1] := by decide +kernel
  obtain ⟨t, ran, rows⟩ := Option.map_eq_some_iff.mp ends
  have begun : (reserveAt 0 (newYear - 10) 4 ++ reserveAt 1 (newYear - 1) 3 ++ reserveAt 2
      (newYear + 1) 4).all
      TillAction.begun = true := by decide +kernel
  have attached : twentyMinutes.attachBudget true = .ok twentyPolicy := rfl
  exact ⟨t, rows, (metered_ceiling attached rfl rfl (punctual_of_begun begun) ran).1⟩

/-- A quarter of a microsecond before the year `datetime` reads the month to come, so a second hold
of December is taken. -/
theorem newYear_over : ∃ t, twentyMinutes.attachBudget true = .ok twentyPolicy ∧
    run (Till.step twentyPolicy) (Till.start 0)
      (reserveAt 0 (newYear - 10) 4 ++ reserveAt 1 (newYear - 1 / 4194304) 4) =
      some t ∧
    ¬(monthHolds t.world.metered 24309 = 0 ∨ monthHolds t.world.metered 24309 *
    twentyPolicy.minutesPerRun < 20) := by
  have ends : (run (Till.step twentyPolicy) (Till.start 0)
      (reserveAt 0 (newYear - 10) 4 ++ reserveAt 1 (newYear - 1 / 4194304) 4)).map
        (fun t => monthHolds t.world.metered 24309) = some 2 := by decide +kernel
  obtain ⟨t, ran, two⟩ := Option.map_eq_some_iff.mp ends
  refine ⟨t, rfl, ran, ?_⟩
  rw [two]
  decide +kernel

end Cindral.Dispatch

import Cindral.Queue.Lease

/-! Which attempt a lease speaks for. A device proves it holds a lease by its name alone. -/

namespace Cindral.Queue
open Base

/-- One claim handed out: the run, which attempt at it, and the device it went to. -/
structure Attempt where
  job : String
  number : Nat
  device : String
  deriving DecidableEq, Repr

/-- The queue, and as ghost history every attempt it has handed out. -/
structure Fleet where
  store : Store
  issued : List Attempt

/-- What the process working an attempt can send about it. -/
inductive Statement where
  | report (report : Report)
  | renew (leaseSeconds : Int)
  | upload

namespace Fleet

def start : Fleet := ⟨Store.empty, []⟩

def issuedBy (s : Store) : Store.Op → List Attempt
  | .claim device labels leaseSeconds now limit =>
    match s.claim device labels leaseSeconds now limit with
    | .ok (some job, _) => [⟨job.id, job.attempts, device⟩]
    | _ => []
  | _ => []

def act (w : Fleet) (op : Store.Op) : Fleet := ⟨w.store.apply op, w.issued ++ issuedBy w.store op⟩

def after (w : Fleet) (ops : List Store.Op) : Fleet := ops.foldl act w

/-- Whether the queue takes a statement. The device name is all of the attempt it is shown. -/
def accepts (w : Fleet) (a : Attempt) (now : ℚ) : Statement → Bool
  | .report report => match w.store.report a.job a.device report now with
    | .ok _ => true
    | .error _ => false
  | .renew leaseSeconds => match w.store.renew a.job a.device leaseSeconds now with
    | .ok (renewed, _) => renewed
    | .error _ => false
  | .upload => w.store.holdsLease a.job a.device now

/-- Every issued attempt is one the row has reached, and a running row is on an issued one. -/
structure Traced (w : Fleet) : Prop where
  reached : ∀ a ∈ w.issued, ∃ r, w.store.row? a.job = some r ∧ a.number ≤ r.attempts
  current : ∀ r ∈ w.store.jobs.rows, r.status = .running →
    ∃ device, r.device = some device ∧ ⟨r.id, r.attempts, device⟩ ∈ w.issued

/-- A run at this attempt or past it, and past it if it is running. -/
structure Released (number : Nat) (r : Row) : Prop where
  reached : number ≤ r.attempts
  passed : r.status = .running → number < r.attempts

variable {s : Store} {op : Store.Op} {r r' : Row} {w : Fleet}

theorem step_released {number : Nat} (step : RowStep s op r r') (h : Released number r) :
    Released number r' := by
  refine ⟨h.reached.trans (step_attempts step), fun running => ?_⟩
  cases step with
  | same => exact h.passed running
  | taken _ _ _ => exact Nat.lt_succ_of_le h.reached
  | renewed _ _ was _ _ => exact h.passed was
  | failed _ _ _ _ _ | lapsed _ _ => exact absurd running released_not_running
  | settled _ _ _ _ _ _ => exact absurd running settled_not_running
  | drained _ | restored _ _ _ | owed _ | cleared _ => exact h.passed running

/-- A running row was running as the same attempt, or was just handed out. -/
theorem step_current (step : RowStep s op r r') (running : r'.status = .running) :
    (r.status = .running ∧ r'.device = r.device ∧ r'.attempts = r.attempts) ∨
      ∃ device, r'.device = some device ∧ ⟨r'.id, r'.attempts, device⟩ ∈ issuedBy s op := by
  cases step with
  | same => exact Or.inl ⟨running, rfl, rfl⟩
  | taken claimed _ _ =>
    refine Or.inr ⟨_, rfl, ?_⟩
    simp only [issuedBy, claimed]
    exact List.mem_singleton_self _
  | renewed _ _ was _ _ => exact Or.inl ⟨was, rfl, rfl⟩
  | failed _ _ _ _ _ | lapsed _ _ => exact absurd running released_not_running
  | settled _ _ _ _ _ _ => exact absurd running settled_not_running
  | drained _ | restored _ _ _ | owed _ | cleared _ => exact Or.inl ⟨running, rfl, rfl⟩

theorem issued_reached {a : Attempt} (h : a ∈ issuedBy s op) :
    ∃ r, (s.apply op).row? a.job = some r ∧ a.number ≤ r.attempts := by
  unfold issuedBy at h
  split at h
  · rename_i device labels leaseSeconds now limit
    split at h
    · rename_i job t claimed
      obtain rfl := List.mem_singleton.mp h
      obtain ⟨-, -, ⟨-, absent, -⟩ | ⟨picked, chosen, handed, same⟩⟩ := Store.claim_cases claimed
      · cases absent
      · obtain rfl := Option.some.inj handed
        obtain ⟨member, waiting⟩ := Store.pickJob_mem chosen
        refine ⟨Row.taken device (now + leaseSeconds) picked, ?_, le_refl _⟩
        have found : s.row? (Row.taken device (now + leaseSeconds) picked).job.id = some picked :=
          Store.row?_of_mem member
        rw [Store.apply, claimed, Store.kept, same, Store.row?_updateWhere, found]
        simp [waiting, Row.taken]
    · cases h
  · cases h

theorem act_traced (h : Traced w) : Traced (w.act op) := by
  constructor
  · intro a issued
    rcases List.mem_append.mp issued with old | new
    · obtain ⟨r, found, reached⟩ := h.reached a old
      obtain ⟨r', there, step⟩ := Store.apply_row op found
      exact ⟨r', there, reached.trans (step_attempts step)⟩
    · exact issued_reached new
  · intro r member running
    rcases Store.apply_rows w.store op with ⟨req, jobId, now, -, -, rows⟩ | ⟨e, rows, each⟩
    · simp only [act, rows] at member
      rcases List.mem_append.mp member with old | new
      · obtain ⟨device, held, issued⟩ := h.current r old running
        exact ⟨device, held, List.mem_append_left _ issued⟩
      · obtain rfl := List.mem_singleton.mp new
        cases running
    · simp only [act, rows] at member
      obtain ⟨x, there, rfl⟩ := List.mem_map.mp member
      rcases step_current (each x there) running with ⟨was, device, attempts⟩ | ⟨device, held, issued⟩
      · obtain ⟨holder, held, issued⟩ := h.current x there was
        exact ⟨holder, device.trans held, List.mem_append_left _
          (by rw [e.keeps, attempts]; exact issued)⟩
      · exact ⟨device, held, List.mem_append_right _ issued⟩

theorem after_traced (ops : List Store.Op) (h : Traced w) : Traced (w.after ops) := by
  induction ops generalizing w with
  | nil => exact h
  | cons op rest ih => exact ih (act_traced h)

theorem start_traced : Traced start :=
  ⟨fun _ issued => (nomatch issued), fun _ member => (nomatch member)⟩

/-- A statement is taken only while its device name holds an unspent lease on the run. -/
theorem accepted_held {a : Attempt} {now : ℚ} {statement : Statement}
    (h : w.accepts a now statement = true) :
    ∃ r, w.store.row? a.job = some r ∧ r.status = .running ∧ r.device = some a.device ∧
      w.store.spentLease now r = false := by
  cases statement with
  | report report =>
    simp only [accepts, Store.report] at h
    cases settled : w.store.settle a.job a.device report now with
    | error _ => simp [settled, Except.map] at h
    | ok t =>
      obtain ⟨r, found, running, held, unspent, -⟩ := Store.settle_cases settled
      exact ⟨r, found, running, held, unspent⟩
  | renew leaseSeconds =>
    simp only [accepts, Store.renew] at h
    split at h
    · rename_i renewed t done
      split at done
      · cases done
      · obtain ⟨rfl, -⟩ := Prod.mk.inj (Except.ok.inj done)
        have one := of_decide_eq_true h
        obtain ⟨r, member, hit⟩ := List.countP_pos_iff.mp (by rw [one]; exact Nat.one_pos)
        simp only [Bool.and_eq_true, decide_eq_true_eq, Bool.not_eq_eq_eq_not, Bool.not_true] at hit
        obtain ⟨⟨⟨same, running⟩, held⟩, unspent⟩ := hit
        exact ⟨r, same ▸ Store.row?_of_mem member, running, held, unspent⟩
    · cases h
  | upload =>
    simp only [accepts, Store.holdsLease, List.any_eq_true, Bool.and_eq_true, decide_eq_true_eq,
      Bool.not_eq_eq_eq_not, Bool.not_true] at h
    obtain ⟨r, member, ⟨⟨same, running⟩, held⟩, unspent⟩ := h
    exact ⟨r, same ▸ Store.row?_of_mem member, running, held, unspent⟩

/-- A released attempt stays released: the row only comes back to running as a later one. -/
theorem after_released {number : Nat} {id : String} (ops : List Store.Op)
    (h : ∃ r, w.store.row? id = some r ∧ Released number r) :
    ∃ r, (w.after ops).store.row? id = some r ∧ Released number r := by
  induction ops generalizing w with
  | nil => exact h
  | cons op rest ih =>
    obtain ⟨r, found, released⟩ := h
    obtain ⟨r', there, step⟩ := Store.apply_row op found
    exact ih ⟨r', there, step_released step released⟩

/-- What a reclaim took is released at the attempt it was on. -/
theorem reclaim_released {now : ℚ} {publish : Option (Job → Verdict)} {job : Job}
    (taken : job ∈ (w.store.reclaimExpired now publish).1) :
    ∃ r, (w.act (.reclaimExpired now publish)).store.row? job.id = some r ∧ r.attempts = job.attempts ∧
      r.status ≠ .running := by
  have inside := taken
  rw [Store.reclaimed_eq] at inside
  obtain ⟨r, member, rfl⟩ := List.mem_map.mp inside
  obtain ⟨r', after, given, -⟩ := Store.reclaimed_row now publish (List.mem_filter.mp member).1
  exact ⟨r', after, (given taken).attempts, (given taken).stopped⟩

/-- What a statement proves: the lease is its device's, at that attempt or a later one the same
device claimed; and once the attempt was reclaimed, only a later one. -/
theorem lease_fences_device :
    (∀ ops a statement now, a ∈ (start.after ops).issued → (start.after ops).accepts a now
      statement = true →
      ∃ r, (start.after ops).store.row? a.job = some r ∧ r.status = .running ∧ r.device = some a.device ∧
        (start.after ops).store.spentLease now r = false ∧ a.number ≤ r.attempts ∧
        ⟨a.job, r.attempts, a.device⟩ ∈ (start.after ops).issued) ∧
      ∀ before reclaimedAt publish later a job statement now, a ∈ (start.after before).issued →
        job ∈ ((start.after before).store.reclaimExpired reclaimedAt publish).1 → job.id = a.job →
        job.attempts = a.number →
        (start.after (before ++ .reclaimExpired reclaimedAt publish :: later)).accepts a now
        statement = true →
        ∃ number, a.number < number ∧
          ⟨a.job, number, a.device⟩ ∈
          (start.after (before ++ .reclaimExpired reclaimedAt publish :: later)).issued ∧
          ⟨a.job, number, a.device⟩ ∉
          (start.after (before ++ [.reclaimExpired reclaimedAt publish])).issued := by
  have spoken : ∀ ops a statement now, (start.after ops).accepts a now statement = true →
      ∃ r, (start.after ops).store.row? a.job = some r ∧ r.status = .running ∧ r.device = some a.device ∧
        (start.after ops).store.spentLease now r = false ∧
        ⟨a.job, r.attempts, a.device⟩ ∈ (start.after ops).issued := by
    intro ops a statement now accepted
    obtain ⟨r, found, running, held, unspent⟩ := accepted_held accepted
    obtain ⟨member, same⟩ := Store.row?_some found
    obtain ⟨device, again, issued⟩ := (after_traced ops start_traced).current r member running
    obtain rfl := Option.some.inj (held.symm.trans again)
    exact ⟨r, found, running, held, unspent, same ▸ issued⟩
  constructor
  · intro ops a statement now issued accepted
    obtain ⟨r, found, running, held, unspent, current⟩ := spoken ops a statement now accepted
    obtain ⟨x, there, reached⟩ := (after_traced ops start_traced).reached a issued
    obtain rfl := Option.some.inj (found.symm.trans there)
    exact ⟨r, found, running, held, unspent, reached, current⟩
  · intro before reclaimedAt publish later a job statement now issued taken same number accepted
    obtain ⟨r, found, running, held, -, current⟩ := spoken _ a statement now accepted
    obtain ⟨x, there, attempts, stopped⟩ := reclaim_released (w := start.after before) taken
    rw [same] at there
    have split_run : start.after (before ++ .reclaimExpired reclaimedAt publish :: later) =
        ((start.after before).act (.reclaimExpired reclaimedAt publish)).after later := List.foldl_append
    have released : Released a.number x :=
      ⟨(attempts.trans number).ge, fun running => absurd running stopped⟩
    obtain ⟨y, last, still⟩ := after_released later ⟨x, there, released⟩
    rw [split_run] at found
    obtain rfl := Option.some.inj (found.symm.trans last)
    refine ⟨r.attempts, still.passed running, current, fun early => ?_⟩
    -- the row had not reached that attempt when it was reclaimed
    have halfway : start.after (before ++ [.reclaimExpired reclaimedAt publish]) =
        (start.after before).act (.reclaimExpired reclaimedAt publish) := List.foldl_append
    rw [halfway] at early
    obtain ⟨z, here, reached⟩ := (act_traced (after_traced before start_traced)).reached _ early
    obtain rfl := Option.some.inj (there.symm.trans here)
    have past := still.passed running
    have limit : r.attempts ≤ x.attempts := reached
    omega

/-- The same device claims a run twice, and a report of its first attempt lands on its second. -/
def reclaimedTwice : List Store.Op :=
  [.enqueue { repository := "acme/app", sha := "c0ffee", ref := "main" } "job" 0,
    .claim "mini" [] 300 0 none,
    .reclaimExpired 1000 none, .claim "mini" [] 300 2000 none]

theorem report_of_reclaimed_attempt_accepted :
    ¬∀ ops a statement now, a ∈ (start.after ops).issued → (start.after ops).accepts a now
      statement = true →
      ((start.after ops).store.row? a.job).map Row.attempts = some a.number := by
  intro fenced
  have first := fenced reclaimedTwice ⟨"job", 1, "mini"⟩ (.report { exitCode := some 0 }) 2100
    (by decide +kernel) (by decide +kernel)
  exact absurd first (by decide +kernel)

end Fleet
end Cindral.Queue

import Cindral.Queue.Frame
import Mathlib.Tactic.Linarith

/-! When a lease is spent, as the renewal, the report and the reclaim each judge it. -/

namespace Cindral.Queue
open Base

def lapsedText : String := "job lease has expired"

namespace Store
variable {s t : Store} {r : Row} {now : ℚ} {device : String}

theorem present_iff : s.present now device = true ↔
    ∃ a ∈ s.agents.rows, a.device = device ∧ now - liveDeviceGraceSeconds ≤ a.lastSeen := by
  simp only [present, List.any_eq_true, Bool.and_eq_true, decide_eq_true_eq]

theorem present_congr (now : ℚ) (agents : t.agents = s.agents) : t.present now = s.present now := by
  funext device
  simp only [present, agents]

theorem unspent_of_le {expires : ℚ} (h : r.leaseExpires = some expires) (held : now ≤ expires) :
    s.spentLease now r = false := by
  simp [spentLease, h, not_lt.mpr held]

theorem spent_past_grace {expires : ℚ} (h : r.leaseExpires = some expires)
    (late : expires + liveDeviceGraceSeconds < now) : s.spentLease now r = true := by
  have cutoff : expires < now - liveDeviceGraceSeconds := by linarith
  have lapsed : expires < now := cutoff.trans_le (sub_le_self now (by norm_num [liveDeviceGraceSeconds]))
  simp [spentLease, h, cutoff, lapsed]

theorem spent_in_grace {expires : ℚ} (h : r.leaseExpires = some expires) (lapsed : expires < now)
    (grace : now ≤ expires + liveDeviceGraceSeconds) :
    s.spentLease now r = true ↔
      ¬∃ a ∈ s.agents.rows, r.device = some a.device ∧ now - liveDeviceGraceSeconds ≤ a.lastSeen := by
  have cutoff : ¬expires < now - liveDeviceGraceSeconds := by linarith
  cases held : r.device with
  | none => simp [spentLease, h, held, lapsed, cutoff]
  | some device =>
    have judged : s.spentLease now r = !s.present now device := by
      simp [spentLease, h, held, lapsed, cutoff]
    rw [judged, Bool.not_eq_true', ← Bool.not_eq_true, present_iff]
    simp only [Option.some.injEq, eq_comm]

/-- The row condition `renew`, `holds_lease` and `settle` share, read at one row. -/
theorem leased_row (member : r ∈ s.jobs.rows) (running : r.status = .running)
    (held : r.device = some device) (x : Row)
    (inside : x ∈ s.jobs.rows) :
    (x.id = r.id && x.status = .running && x.device = some device && !s.spentLease now x) = true ↔
      x = r ∧ s.spentLease now r = false := by
  simp only [Bool.and_eq_true, decide_eq_true_eq, Bool.not_eq_eq_eq_not, Bool.not_true]
  constructor
  · rintro ⟨⟨⟨same, -⟩, -⟩, unspent⟩
    obtain rfl := Table.eq_of_key inside member same
    exact ⟨rfl, unspent⟩
  · rintro ⟨rfl, unspent⟩
    exact ⟨⟨⟨rfl, running⟩, held⟩, unspent⟩

theorem holdsLease_iff (now : ℚ) (member : r ∈ s.jobs.rows) (running : r.status = .running)
    (held : r.device = some device) :
    s.holdsLease r.id device now = true ↔ s.spentLease now r = false := by
  simp only [holdsLease, List.any_eq_true]
  constructor
  · rintro ⟨x, inside, hit⟩
    exact ((leased_row member running held x inside).mp hit).2
  · intro unspent
    exact ⟨r, member, (leased_row member running held r member).mpr ⟨rfl, unspent⟩⟩

theorem renew_iff {leaseSeconds : Int} (lease : 0 < leaseSeconds) (member : r ∈ s.jobs.rows)
    (running : r.status = .running) (held : r.device = some device) :
    (∃ t, s.renew r.id device leaseSeconds now = .ok (true, t)) ↔ s.spentLease now r = false := by
  have hits : s.jobs.rows.countP (fun x =>
      x.id = r.id && x.status = .running && x.device = some device && !s.spentLease now x) =
      if s.spentLease now r = false then 1 else 0 := by
    by_cases unspent : s.spentLease now r = false
    · have only_r : s.jobs.rows.countP (fun x =>
          x.id = r.id && x.status = .running && x.device = some device && !s.spentLease now x) =
          s.jobs.rows.countP (· == r) := by
        refine List.countP_congr fun x inside => ?_
        rw [leased_row member running held x inside]
        simp [unspent]
      rw [only_r, if_pos unspent]
      exact Table.count_of_mem member
    · rw [if_neg unspent]
      exact List.countP_eq_zero.mpr fun x inside hit =>
        unspent ((leased_row member running held x inside).mp hit).2
  unfold renew
  rw [if_neg (not_le.mpr lease)]
  simp only [hits, Except.ok.injEq, Prod.mk.injEq, exists_and_left, exists_eq', and_true]
  by_cases unspent : s.spentLease now r = false <;> simp [unspent]

theorem report_lapsed_iff (report : Report) (member : r ∈ s.jobs.rows) (running : r.status = .running)
    (held : r.device = some device) :
    s.report r.id device report now = .error (.valueError lapsedText) ↔ s.spentLease now r = true := by
  have found := row?_of_mem member
  unfold Store.report settle
  simp only [found, running, held, ne_eq, not_true_eq_false, or_self, if_false]
  by_cases spent : s.spentLease now r = true
  · simp [spent, lapsedText, Except.map]
  · simp only [spent, if_false, Bool.false_eq_true]
    split
    · simp [Except.map]
    · split
      · simp [Except.map, lapsedText]
      · split <;> simp [Except.map]

theorem reclaimed_eq {publish : Option (Job → Verdict)} :
    (s.reclaimExpired now publish).1 = (s.lapsed now).map Row.job := by
  unfold reclaimExpired expire
  by_cases quiet : s.lapsed now = [] <;> simp [quiet]

theorem mem_reclaimed {publish : Option (Job → Verdict)} (member : r ∈ s.jobs.rows) :
    r.job ∈ (s.reclaimExpired now publish).1 ↔ r.status = .running ∧ s.spentLease now r = true := by
  rw [reclaimed_eq, List.mem_map]
  simp only [lapsed, List.mem_filter, Bool.and_eq_true, decide_eq_true_eq]
  constructor
  · rintro ⟨x, ⟨inside, spent⟩, same⟩
    obtain rfl := Table.eq_of_key inside member (congrArg Job.id same)
    exact spent
  · intro spent
    exact ⟨r, ⟨member, spent⟩, rfl⟩

theorem reclaimed_nodup {publish : Option (Job → Verdict)} :
    ((s.reclaimExpired now publish).1.map Job.id).Nodup := by
  rw [reclaimed_eq]
  exact (s.lapsedJobs now).nodup

/-- A renewal that succeeds moves the expiry of its row, and no other row. -/
theorem renewed_row {leaseSeconds : Int} (member : r ∈ s.jobs.rows) (running : r.status = .running)
    (held : r.device = some device) (renewed : s.renew r.id device leaseSeconds now = .ok (true, t)) :
    t.row? r.id = some { r with leaseExpires := some (now + leaseSeconds) } ∧ ∀ id, id ≠ r.id →
    t.row? id = s.row? id := by
  unfold renew at renewed
  split at renewed
  · cases renewed
  obtain ⟨counted, rfl⟩ := Prod.mk.inj (Except.ok.inj renewed)
  have unspent : s.spentLease now r = false := by
    by_contra spent
    refine Nat.zero_ne_one ((List.countP_eq_zero.mpr fun x inside hit => ?_).symm.trans
      (of_decide_eq_true counted))
    exact spent ((leased_row member running held x inside).mp hit).2
  constructor
  · rw [row?_updateWhere, row?_of_mem member, Option.map_some, Edit.only_apply,
      if_pos ((leased_row member running held r member).mpr ⟨rfl, unspent⟩)]
    rfl
  · intro id other
    rw [row?_updateWhere]
    cases found : s.row? id with
    | none => rfl
    | some x =>
      obtain ⟨-, rfl⟩ := row?_some found
      simp [other]

/-- The row of a run whose lease was spent at an instant, given back: without a device or a lease,
and parked or waiting out its back-off by the attempts it has had. -/
def GivenBack (now : ℚ) (publish : Option (Job → Verdict)) (r r' : Row) : Prop :=
  r' = { r with
    status := if r.attempts < maxAttempts then .pending else .dead
    device := none
    leaseExpires := none
    lastError := some leaseLost
    availableAt := some (now + backoffSeconds r.attempts)
    pendingStatus := (publish.map fun text => text r.job).or r.pendingStatus
    statusSeq := r.statusSeq + if publish.isSome then 1 else 0 }

theorem lapse_givenBack (now : ℚ) (publish : Option (Job → Verdict)) (r : Row) :
    GivenBack now publish r (lapse now publish r) := by
  have message : sliceTo leaseLost maxErrorChars = leaseLost := sliceTo_of_length_le (by decide)
  have last : (if parked r.attempts = true then JobStatus.dead else .pending) =
      if r.attempts < maxAttempts then .pending else .dead := by
    simp only [parked_iff, ← not_lt, ite_not]
  simp only [GivenBack, lapse, Edit.each_apply, Row.released, message, last, Option.isSome_map]

theorem GivenBack.stopped {publish : Option (Job → Verdict)} {r' : Row}
    (given : GivenBack now publish r r') :
    r'.status ≠ .running := by
  rw [GivenBack] at given
  subst given
  show (if r.attempts < maxAttempts then JobStatus.pending else .dead) ≠ .running
  split <;> decide

theorem GivenBack.attempts {publish : Option (Job → Verdict)} {r' : Row}
    (given : GivenBack now publish r r') :
    r'.attempts = r.attempts := by
  rw [GivenBack] at given
  subst given
  rfl

/-- After a reclaim each taken row has been given back once, and every other row is as it was. -/
theorem reclaimed_row (now : ℚ) (publish : Option (Job → Verdict)) (member : r ∈ s.jobs.rows) :
    ∃ r', (s.reclaimExpired now publish).2.row? r.id = some r' ∧
      (r.job ∈ (s.reclaimExpired now publish).1 → GivenBack now publish r r') ∧
      (r.job ∉ (s.reclaimExpired now publish).1 → r' = r) := by
  have after : (s.reclaimExpired now publish).2.row? r.id =
      some ((lapse now publish).only (fun r => r.status = .running && s.spentLease now r) r) := by
    rw [← ((lapse now publish).only fun r => r.status = .running && s.spentLease now r).keeps r]
    refine row?_of_mem ?_
    rw [reclaimExpired, expire_rows]
    exact List.mem_map_of_mem member
  refine ⟨_, after, fun taken => ?_, fun left => ?_⟩
  · rw [Edit.only_apply, if_pos (by simpa using (mem_reclaimed member).mp taken)]
    exact lapse_givenBack now publish r
  · rw [Edit.only_apply, if_neg (by simpa using mt (mem_reclaimed member).mpr left)]

theorem reclaim_counters {publish : Option (Job → Verdict)} :
    (s.reclaimExpired now publish).2.reclaims = s.reclaims + (s.reclaimExpired now publish).1.length ∧
      (s.reclaimExpired now publish).2.reclaimsLive.getD 0 =
        s.reclaimsLive.getD 0 + (s.reclaimExpired now publish).1.countP
        (fun job => job.device.any (s.present now)) := by
  have frame : ∀ jobs : List Job, ((jobs.foldl (fun t job =>
      t.release job.id job.attempts now leaseLost (publish.map (· job))) s).reclaims = s.reclaims) ∧
      ((jobs.foldl (fun t job =>
        t.release job.id job.attempts now leaseLost (publish.map (· job))) s).reclaimsLive =
          s.reclaimsLive) ∧
      ((jobs.foldl (fun t job =>
        t.release job.id job.attempts now leaseLost (publish.map (· job))) s).agents = s.agents) := by
    intro jobs
    generalize s = u
    induction jobs generalizing u with
    | nil => exact ⟨rfl, rfl, rfl⟩
    | cons job rest ih => exact ih _
  obtain ⟨counted, live, agents⟩ := frame ((s.lapsed now).map Row.job)
  have seen := present_congr now agents
  rw [reclaimed_eq]
  unfold reclaimExpired expire
  by_cases quiet : s.lapsed now = []
  · simp [quiet]
  · simp only [quiet, if_false, countReclaims, counted, live, seen, List.length_map,
      List.countP_map, Option.getD_some,
      true_and]
    rfl

/-- Renewal, `holds_lease`, report and reclaim judge a lease by one rule, and a reclaim takes each
spent run once. -/
theorem lease_judgements_agree (s : Store) (now : ℚ) (publish : Option (Job → Verdict)) :
    (∀ r ∈ s.jobs.rows, r.status = .running →
      (∀ device leaseSeconds report, r.device = some device → 0 < leaseSeconds →
        ((∃ t, s.renew r.id device leaseSeconds now = .ok (true, t)) ↔
        s.holdsLease r.id device now = true) ∧
        (s.holdsLease r.id device now = true ↔
          s.report r.id device report now ≠ .error (.valueError "job lease has expired")) ∧
        (s.holdsLease r.id device now = true → r.job ∉ (s.reclaimExpired now publish).1) ∧
        ∀ t, s.renew r.id device leaseSeconds now = .ok (true, t) →
          t.row? r.id = some { r with leaseExpires := some (now + leaseSeconds) } ∧
            ∀ id, id ≠ r.id → t.row? id = s.row? id) ∧
      ∀ expires, r.leaseExpires = some expires →
        (now ≤ expires → r.job ∉ (s.reclaimExpired now publish).1) ∧
        (expires + liveDeviceGraceSeconds < now → r.job ∈ (s.reclaimExpired now publish).1) ∧
        (expires < now → now ≤ expires + liveDeviceGraceSeconds →
          (r.job ∈ (s.reclaimExpired now publish).1 ↔
            ¬∃ a ∈ s.agents.rows, r.device = some a.device ∧
            now - liveDeviceGraceSeconds ≤ a.lastSeen))) ∧
      ((s.reclaimExpired now publish).1.map Job.id).Nodup ∧
      (∀ r ∈ s.jobs.rows, ∃ r', (s.reclaimExpired now publish).2.row? r.id = some r' ∧
        (r.job ∈ (s.reclaimExpired now publish).1 → GivenBack now publish r r') ∧
        (r.job ∉ (s.reclaimExpired now publish).1 → r' = r)) ∧
      (s.reclaimExpired now publish).2.reclaims = s.reclaims + (s.reclaimExpired now publish).1.length ∧
      (s.reclaimExpired now publish).2.reclaimsLive.getD 0 =
        s.reclaimsLive.getD 0 + (s.reclaimExpired now publish).1.countP
        (fun job => job.device.any (s.present now)) := by
  refine ⟨fun r member running => ⟨?_, ?_⟩, reclaimed_nodup, fun r member =>
    reclaimed_row now publish member, reclaim_counters⟩
  · intro device leaseSeconds report held lease
    have judged := holdsLease_iff now member running held
    refine ⟨(renew_iff lease member running held).trans judged.symm, ?_, ?_,
      fun t renewed => renewed_row member running held renewed⟩
    · rw [judged, ← Bool.not_eq_true, ← report_lapsed_iff report member running held]
      rfl
    · intro holds taken
      have spent := ((mem_reclaimed member).mp taken).2
      rw [judged.mp holds] at spent
      cases spent
  · intro expires given
    refine ⟨fun held taken => ?_, fun late => ?_, fun lapsed grace => ?_⟩
    · have spent := ((mem_reclaimed member).mp taken).2
      rw [unspent_of_le given held] at spent
      cases spent
    · exact (mem_reclaimed member).mpr ⟨running, spent_past_grace given late⟩
    · rw [mem_reclaimed member, spent_in_grace given lapsed grace]
      exact and_iff_right running

end Store
end Cindral.Queue

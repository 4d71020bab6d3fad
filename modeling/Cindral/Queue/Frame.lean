import Cindral.Queue.Store

/-! What each transaction may do to the rows, said once for every proof about the queue. -/

namespace Cindral.Queue
open Base

/-- How one call may rewrite a row that was already there. -/
inductive RowStep (s : Store) : Store.Op → Row → Row → Prop where
  | same {op r} : RowStep s op r r
  | taken {device labels leaseSeconds now limit t r} :
      s.claim device labels leaseSeconds now limit = .ok
      (some (Row.taken device (now + leaseSeconds) r).job, t) →
      s.pickJob (s.claimable now) labels limit = some r → r.status = .pending →
      RowStep s (.claim device labels leaseSeconds now limit) r (Row.taken device (now + leaseSeconds) r)
  | renewed {jobId device leaseSeconds now r} : 0 < leaseSeconds → r.id = jobId → r.status = .running →
      r.device = some device → s.spentLease now r = false →
      RowStep s (.renew jobId device leaseSeconds now) r (Row.renewed (now + leaseSeconds) r)
  | failed {jobId device report now r} : r.id = jobId → r.status = .running → r.device = some device →
      s.spentLease now r = false → report.error ≠ "" →
      RowStep s (.report jobId device report now) r
      (Row.released r.attempts now report.error none (Row.superseded r))
  | settled {jobId device report now exitCode r} : r.id = jobId → r.status = .running →
      r.device = some device →
      s.spentLease now r = false → report.error = "" → report.exitCode = some exitCode →
      RowStep s (.report jobId device report now) r (Row.settled exitCode report.log report.steps r)
  | lapsed {now publish r} : r.status = .running → s.spentLease now r = true →
      RowStep s (.reclaimExpired now publish) r
        (Row.released r.attempts now leaseLost (publish.map fun text => text r.job) r)
  | drained {r} : r.pendingStatus.isSome → RowStep s .claimOwed r (Row.noted none r)
  | restored {jobId status seq r} : r.id = jobId → r.pendingStatus = none → r.statusSeq = seq →
      RowStep s (.restoreStatus jobId status seq) r (Row.noted (some status) r)
  | owed {jobId status r} : r.id = jobId →
      RowStep s (.oweStatus jobId status) r (Row.owing status r)
  | cleared {jobId r} : r.id = jobId → RowStep s (.clearStatus jobId) r (Row.noted none r)

theorem released_not_running {attempts : Nat} {now : ℚ} {error : String} {owed : Option Verdict}
    {r : Row} :
    (Row.released attempts now error owed r).status ≠ .running := by
  simp only [Row.released]
  split <;> simp

theorem settled_not_running {exitCode : Int} {log : String} {steps : Json} {r : Row} :
    (Row.settled exitCode log steps r).status ≠ .running := by
  simp only [Row.settled]
  split <;> simp

theorem step_attempts {s : Store} {op : Store.Op} {r r' : Row} (step : RowStep s op r r') :
    r.attempts ≤ r'.attempts := by
  cases step with
  | taken _ _ _ => exact Nat.le_succ _
  | _ => exact le_refl _

namespace Store
variable {s t : Store} {r : Row}

@[simp] theorem rows_updateWhere (p : Row → Bool) (e : Edit Row.id) :
    (s.updateWhere p e).jobs.rows = s.jobs.rows.map (e.only p) := rfl

@[simp] theorem agents_updateWhere (p : Row → Bool) (e : Edit Row.id) :
    (s.updateWhere p e).agents = s.agents := rfl

@[simp] theorem row?_updateWhere (p : Row → Bool) (e : Edit Row.id) (id : String) :
    (s.updateWhere p e).row? id = (s.row? id).map (e.only p) := Table.find?_update s.jobs (e.only p) id

theorem row?_some {id : String} (h : s.row? id = some r) : r ∈ s.jobs.rows ∧ r.id = id :=
  Table.find?_some h

theorem row?_of_mem (h : r ∈ s.jobs.rows) : s.row? r.id = some r := Table.find?_of_mem h

def Rewrites (s : Store) (op : Op) (t : Store) : Prop :=
  ∃ e : Edit Row.id, t.jobs.rows = s.jobs.rows.map e ∧ ∀ r ∈ s.jobs.rows, RowStep s op r (e r)

theorem rewrites_same {op : Op} (rows : t.jobs = s.jobs) : s.Rewrites op t :=
  ⟨⟨id, fun _ => rfl⟩, by rw [rows]; exact (List.map_id _).symm, fun _ _ => RowStep.same⟩

theorem rewrites_updateWhere {op : Op} {p : Row → Bool} {e : Edit Row.id}
    (each : ∀ r ∈ s.jobs.rows, p r = true → RowStep s op r (e r)) :
    s.Rewrites op (s.updateWhere p e) := by
  refine ⟨e.only p, rfl, fun r member => ?_⟩
  rw [Edit.only_apply]
  split
  · rename_i hit; exact each r member hit
  · exact RowStep.same

/-- A loop of one-row updates over distinct ids rewrites each row at most once. -/
theorem foldl_rows {β : Type} (key : β → String) {body : Store → β → Store} {h : β → Edit Row.id}
    (one : ∀ t b, (body t b).jobs.rows = t.jobs.rows.map ((h b).only (·.id = key b))) (todo : Table key) :
    (todo.rows.foldl body s).jobs.rows =
      s.jobs.rows.map fun r => ((todo.find? r.id).map fun b => h b r).getD r := by
  obtain ⟨todo, nodup⟩ := todo
  simp only [Table.find?]
  induction todo generalizing s with
  | nil => simp
  | cons b rest ih =>
    obtain ⟨absent, nodup⟩ := List.nodup_cons.mp nodup
    rw [List.foldl_cons, ih nodup, one, List.map_map]
    refine List.map_congr_left fun r _ => ?_
    rw [Function.comp_apply, ((h b).only _).keeps r, Edit.only_apply]
    by_cases same : r.id = key b
    · have none_left : rest.find? (fun c => key c = r.id) = none := by
        refine List.find?_eq_none.mpr fun c member equal => absent ?_
        exact List.mem_map.mpr ⟨c, member, (of_decide_eq_true equal).trans same⟩
      rw [none_left]
      simp [same]
    · simp [same, Ne.symm same]

theorem insertJob?_some {row : Row} (h : s.insertJob? row = some t) :
    s.row? row.id = none ∧ t.jobs.rows = s.jobs.rows ++ [row] := by
  unfold insertJob? at h
  split at h
  · cases h
  · obtain ⟨jobs, inserted, rfl⟩ := Option.map_eq_some_iff.mp h
    exact ⟨Table.find?_fresh inserted, Table.rows_insert inserted⟩

theorem enqueue_rows {req : EnqueueRequest} {jobId : String} {now : ℚ} {job : Job}
    (h : s.enqueue req jobId now = .ok (job, t)) :
    (s.row? jobId = none ∧ job = (req.row jobId now).job ∧
      t.jobs.rows = s.jobs.rows ++ [req.row jobId now]) ∨
      (t = s ∧ ∃ delivery row, req.delivery = some delivery ∧ s.byDelivery? delivery = some row ∧
      job = row.job) := by
  unfold enqueue at h
  split at h
  · cases h
  split at h
  · cases h
  split at h
  · rename_i inserted
    obtain ⟨rfl, rfl⟩ := Prod.mk.inj (Except.ok.inj h)
    exact Or.inl ⟨(insertJob?_some inserted).1, rfl, (insertJob?_some inserted).2⟩
  · split at h
    · cases h
    · rename_i delivery given
      split at h
      · cases h
      split at h
      · rename_i row found
        obtain ⟨rfl, rfl⟩ := Prod.mk.inj (Except.ok.inj h)
        exact Or.inr ⟨rfl, delivery, row, given, found, rfl⟩
      · cases h

theorem pickJob_mem {now : ℚ} {labels : List String} {limit : Option Int}
    (h : s.pickJob (s.claimable now) labels limit = some r) :
    r ∈ s.jobs.rows ∧ r.status = .pending := by
  have member := List.argmin_mem (Option.mem_def.mpr h)
  have sorted := (List.mem_filter.mp member).1
  have found := List.mem_filter.mp ((List.mem_insertionSort _).mp sorted)
  simp only [Bool.and_eq_true, decide_eq_true_eq] at found
  exact ⟨found.1, found.2.1⟩

/-- `claim` hands out nothing, or marks the picked row running. -/
theorem claim_cases {device : String} {labels : List String} {leaseSeconds : Int} {now : ℚ}
    {limit : Option Int}
    {job : Option Job} (h : s.claim device labels leaseSeconds now limit = .ok (job, t)) :
    0 < leaseSeconds ∧ limit.any (· ≤ 0) = false ∧
      ((s.pickJob (s.claimable now) labels limit = none ∧ job = none ∧ t = s) ∨
        ∃ picked, s.pickJob (s.claimable now) labels limit = some picked ∧
          job = some (Row.taken device (now + leaseSeconds) picked).job ∧
          t = s.updateWhere (fun r => r.id = picked.id && r.status = .pending)
            (Row.taken device (now + leaseSeconds))) := by
  unfold claim at h
  split at h
  · cases h
  rename_i lease
  split at h
  · cases h
  rename_i cap
  refine ⟨not_le.mp lease, by simpa using cap, ?_⟩
  split at h
  · rename_i absent
    obtain ⟨rfl, rfl⟩ := Prod.mk.inj (Except.ok.inj h)
    exact Or.inl ⟨absent, rfl, rfl⟩
  · rename_i picked found
    obtain ⟨rfl, rfl⟩ := Prod.mk.inj (Except.ok.inj h)
    obtain ⟨member, waiting⟩ := pickJob_mem found
    refine Or.inr ⟨picked, found, ?_, rfl⟩
    simp [get, row?_of_mem member, waiting]

theorem claim_rewrites {device : String} {labels : List String} {leaseSeconds : Int} {now : ℚ}
    {limit : Option Int}
    {job : Option Job} (h : s.claim device labels leaseSeconds now limit = .ok (job, t)) :
    s.Rewrites (.claim device labels leaseSeconds now limit) t := by
  obtain ⟨-, -, ⟨-, -, rfl⟩ | ⟨picked, found, rfl, rfl⟩⟩ := claim_cases h
  · exact rewrites_same rfl
  · refine rewrites_updateWhere fun r member hit => ?_
    simp only [Bool.and_eq_true, decide_eq_true_eq] at hit
    obtain rfl := Table.eq_of_key member (pickJob_mem found).1 hit.1
    exact RowStep.taken h found hit.2

theorem renew_rewrites {jobId device : String} {leaseSeconds : Int} {now : ℚ} {done : Bool}
    (h : s.renew jobId device leaseSeconds now = .ok (done, t)) :
    s.Rewrites (.renew jobId device leaseSeconds now) t := by
  unfold renew at h
  split at h
  · cases h
  rename_i lease
  obtain ⟨rfl, rfl⟩ := Prod.mk.inj (Except.ok.inj h)
  refine rewrites_updateWhere fun r member hit => ?_
  simp only [Bool.and_eq_true, decide_eq_true_eq, Bool.not_eq_eq_eq_not, Bool.not_true] at hit
  exact RowStep.renewed (not_le.mp lease) hit.1.1.1 hit.1.1.2 hit.1.2 hit.2

/-- `settle` lands only on a running row of that device whose lease is unspent, in one of two ways. -/
theorem settle_cases {jobId device : String} {report : Report} {now : ℚ}
    (h : s.settle jobId device report now = .ok t) :
    ∃ row, s.row? jobId = some row ∧ row.status = .running ∧ row.device = some device ∧
      s.spentLease now row = false ∧
      ((report.error ≠ "" ∧
          t = (s.updateWhere (·.id = jobId) Row.superseded).release jobId row.attempts now
          report.error none) ∨
        ∃ exitCode, report.error = "" ∧ report.exitCode = some exitCode ∧
          t = s.updateWhere (·.id = jobId) (Row.settled exitCode report.log report.steps)) := by
  unfold settle at h
  split at h
  · cases h
  rename_i row found
  split at h
  · cases h
  rename_i leased
  obtain ⟨running, held⟩ := not_or.mp leased
  split at h
  · cases h
  rename_i unspent
  refine ⟨row, found, not_not.mp running, not_not.mp held, by simpa using unspent, ?_⟩
  split at h
  · rename_i failed
    exact Or.inl ⟨failed, (Except.ok.inj h).symm⟩
  · rename_i sound
    split at h
    · cases h
    rename_i exitCode given
    split at h
    · cases h
    exact Or.inr ⟨exitCode, not_not.mp sound, given, (Except.ok.inj h).symm⟩

/-- The job an accepted report reads back. -/
theorem report_job {jobId device : String} {report : Report} {now : ℚ} {job : Job}
    (h : s.report jobId device report now = .ok (some job, t)) :
    ∃ row, s.row? jobId = some row ∧ row.status = .running ∧ row.device = some device ∧
      ((report.error ≠ "" ∧ job = (Row.released row.attempts now report.error none
        (Row.superseded row)).job) ∨
        ∃ exitCode, report.error = "" ∧ report.exitCode = some exitCode ∧
          job = (Row.settled exitCode report.log report.steps row).job) := by
  cases settled : s.settle jobId device report now with
  | error e =>
    rw [Store.report, settled] at h
    cases h
  | ok u =>
    rw [Store.report, settled] at h
    obtain ⟨read, rfl⟩ := Prod.mk.inj (Except.ok.inj h)
    obtain ⟨row, found, running, held, -, ⟨failed, rfl⟩ | ⟨exitCode, sound, given, rfl⟩⟩ :=
      settle_cases settled
    · refine ⟨row, found, running, held, Or.inl ⟨failed, ?_⟩⟩
      have same : row.id = jobId := (row?_some found).2
      simp only [get, release, row?_updateWhere, found, Option.map_some, Edit.only_apply, same,
        decide_true, if_true,
        Option.some.injEq] at read
      rw [← read, if_pos]
      exact decide_eq_true same
    · refine ⟨row, found, running, held, Or.inr ⟨exitCode, sound, given, ?_⟩⟩
      have same : row.id = jobId := (row?_some found).2
      simp only [get, row?_updateWhere, found, Option.map_some, Edit.only_apply, same, decide_true,
        if_true,
        Option.some.injEq] at read
      exact read.symm

theorem settle_rewrites {jobId device : String} {report : Report} {now : ℚ}
    (h : s.settle jobId device report now = .ok t) : s.Rewrites (.report jobId device report now) t := by
  obtain ⟨row, found, running, held, unspent, ⟨failed, rfl⟩ | ⟨exitCode, sound, given, rfl⟩⟩ :=
    settle_cases h
  · refine ⟨((Row.released row.attempts now report.error none).comp Row.superseded).only
      (·.id = jobId), ?_, ?_⟩
    · simp only [release, rows_updateWhere, List.map_map]
      refine List.map_congr_left fun r _ => ?_
      by_cases hit : r.id = jobId <;> simp [hit, Row.superseded]
    · intro r member
      rw [Edit.only_apply]
      split
      · rename_i hit
        obtain rfl : row = r := Option.some.inj
          (found.symm.trans (of_decide_eq_true hit ▸ row?_of_mem member))
        exact RowStep.failed (of_decide_eq_true hit) running held unspent failed
      · exact RowStep.same
  · refine rewrites_updateWhere fun r member hit => ?_
    obtain rfl : row = r := Option.some.inj
      (found.symm.trans (of_decide_eq_true hit ▸ row?_of_mem member))
    exact RowStep.settled (of_decide_eq_true hit) running held unspent sound given

/-- The lapsed rows as the loop of `expire` meets them: each id once. -/
def lapsedJobs (s : Store) (now : ℚ) : Table Job.id :=
  ⟨(s.lapsed now).map Row.job, by
    rw [List.map_map]
    exact (s.jobs.filter fun r => r.status = .running && s.spentLease now r).nodup⟩

theorem lapsedJobs_find {now : ℚ} (member : r ∈ s.jobs.rows) :
    (s.lapsedJobs now).find? r.id = if r.status = .running ∧
    s.spentLease now r = true then some r.job else none := by
  split
  · rename_i spent
    refine Table.find?_of_mem (t := s.lapsedJobs now) (r := r.job) (List.mem_map_of_mem ?_)
    exact List.mem_filter.mpr ⟨member, by simpa using spent⟩
  · rename_i unspent
    refine List.find?_eq_none.mpr fun job inside same => unspent ?_
    obtain ⟨x, found, rfl⟩ := List.mem_map.mp inside
    obtain ⟨there, spent⟩ := List.mem_filter.mp found
    obtain rfl := Table.eq_of_key there member (of_decide_eq_true same)
    simpa using spent

/-- What `expire` does to a row it takes. -/
def lapse (now : ℚ) (publish : Option (Job → Verdict)) : Edit Row.id :=
  Edit.each fun r => Row.released r.attempts now leaseLost (publish.map fun text => text r.job)

/-- `expire` releases each lapsed row once, with what its release owes, and no other row. -/
theorem expire_rows {now : ℚ} {publish : Option (Job → Verdict)} :
    (s.expire now publish).2.jobs.rows =
      s.jobs.rows.map ((lapse now publish).only fun r => r.status = .running && s.spentLease now r) := by
  have loop : ((s.lapsedJobs now).rows.foldl (fun t job =>
      t.release job.id job.attempts now leaseLost (publish.map (· job))) s).jobs.rows = _ :=
    foldl_rows Job.id (h := fun job => Row.released job.attempts now leaseLost (publish.map (· job)))
      (fun _ _ => rfl) (s.lapsedJobs now)
  have each : ∀ r ∈ s.jobs.rows,
      (((s.lapsedJobs now).find? r.id).map fun job =>
        Row.released job.attempts now leaseLost (publish.map (· job)) r).getD r =
      (lapse now publish).only (fun r => r.status = .running && s.spentLease now r) r := by
    intro r member
    rw [lapsedJobs_find member, Edit.only_apply]
    simp only [Bool.and_eq_true, decide_eq_true_eq]
    split <;> rfl
  rw [← List.map_congr_left each]
  by_cases quiet : s.lapsed now = []
  · have nothing : (s.lapsedJobs now).rows = [] := by simp [lapsedJobs, quiet]
    rw [nothing] at loop
    simp only [expire, quiet, if_true]
    exact loop
  · simp only [expire, quiet, if_false]
    exact loop

theorem expire_rewrites {now : ℚ} {publish : Option (Job → Verdict)} :
    s.Rewrites (.reclaimExpired now publish) (s.expire now publish).2 := by
  refine ⟨_, expire_rows, fun r _ => ?_⟩
  rw [Edit.only_apply]
  split
  · rename_i spent
    simp only [Bool.and_eq_true, decide_eq_true_eq] at spent
    exact RowStep.lapsed spent.1 spent.2
  · exact RowStep.same

theorem mem_owedRows : r ∈ s.owedRows ↔ r ∈ s.jobs.rows ∧ r.pendingStatus.isSome := by
  simp only [owedRows, List.mem_insertionSort, List.mem_filter]

theorem mem_claimOwed {owed : Owed} : owed ∈ s.claimOwed.1 ↔
    ∃ r ∈ s.jobs.rows, r.pendingStatus = some owed.status ∧ owed.job = r.job ∧
    owed.seq = r.statusSeq := by
  simp only [claimOwed, List.mem_filterMap, mem_owedRows, Option.map_eq_some_iff]
  constructor
  · rintro ⟨r, ⟨member, -⟩, status, pending, rfl⟩
    exact ⟨r, member, pending, rfl, rfl⟩
  · obtain ⟨job, status, seq⟩ := owed
    rintro ⟨r, member, pending, rfl, rfl⟩
    exact ⟨r, ⟨member, by simp [pending]⟩, status, pending, rfl⟩

/-- The owed verdicts as the loop of `claim_owed` meets them: each id once. -/
def owedTable (s : Store) : Table fun owed : Owed => owed.job.id :=
  ⟨s.claimOwed.1, by
    have same : s.claimOwed.1.map (fun owed : Owed => owed.job.id) = s.owedRows.map Row.id := by
      simp only [claimOwed]
      have all : ∀ r ∈ s.owedRows, r.pendingStatus.isSome := fun r member => (mem_owedRows.mp member).2
      revert all
      generalize s.owedRows = rows
      intro all
      induction rows with
      | nil => rfl
      | cons r rest ih =>
        obtain ⟨status, pending⟩ := Option.isSome_iff_exists.mp (all r List.mem_cons_self)
        rw [List.filterMap_cons_some (b := ⟨r.job, status, r.statusSeq⟩) (by simp [pending]),
          List.map_cons, List.map_cons,
          ih fun x member => all x (List.mem_cons_of_mem r member)]
        rfl
    rw [same]
    exact ((List.perm_insertionSort _ _).map Row.id).nodup_iff.mpr (s.jobs.filter _).nodup⟩

/-- A drain takes every owed verdict out of its row. -/
theorem claimOwed_rows : s.claimOwed.2.jobs.rows = s.jobs.rows.map (Row.noted none) := by
  have loop : (s.owedTable.rows.foldl (fun t owed => t.discardStatus owed.job.id owed.status)
      s).jobs.rows = _ :=
    foldl_rows (fun owed : Owed => owed.job.id)
      (h := fun owed => (Row.noted none).only (·.pendingStatus = some owed.status))
      (fun t b => by
        refine List.map_congr_left fun r _ => ?_
        by_cases hit : r.id = b.job.id <;> simp [hit]) s.owedTable
  refine loop.trans (List.map_congr_left fun r member => ?_)
  cases pending : r.pendingStatus with
  | none =>
    have absent : s.owedTable.find? r.id = none := by
      refine List.find?_eq_none.mpr fun owed inside same => ?_
      obtain ⟨x, there, holds, job, -⟩ := mem_claimOwed.mp inside
      have equal : owed.job.id = r.id := of_decide_eq_true same
      rw [job] at equal
      obtain rfl := Table.eq_of_key there member equal
      rw [pending] at holds
      cases holds
    rw [absent]
    simp [Row.noted, ← pending]
  | some status =>
    have found : s.owedTable.find? r.id = some ⟨r.job, status, r.statusSeq⟩ :=
      Table.find?_of_mem (t := s.owedTable) (r := ⟨r.job, status, r.statusSeq⟩)
        (mem_claimOwed.mpr ⟨r, member, pending, rfl, rfl⟩)
    rw [found]
    simp [pending]

theorem claimOwed_rewrites : s.Rewrites .claimOwed s.claimOwed.2 := by
  refine ⟨_, claimOwed_rows, fun r _ => ?_⟩
  cases pending : r.pendingStatus with
  | none =>
    have unchanged : Row.noted none r = r := by simp [Row.noted, ← pending]
    exact unchanged.symm ▸ RowStep.same
  | some status => exact RowStep.drained (by simp [pending])

theorem recordHeartbeat_jobs {agent : Agent} {seen : ℚ} (h : s.recordHeartbeat agent = .ok (seen, t)) :
    t.jobs = s.jobs := by
  unfold recordHeartbeat at h
  split at h
  · cases h
  · obtain ⟨-, rfl⟩ := Prod.mk.inj (Except.ok.inj h)
    rfl

theorem kept_cases {α : Type} (result : Except QueueError (α × Store)) :
    s.kept result = s ∨ ∃ value t, result = .ok (value, t) ∧ s.kept result = t := by
  cases result with
  | error _ => exact Or.inl rfl
  | ok pair => exact Or.inr ⟨pair.1, pair.2, rfl, rfl⟩

/-- One call adds one fresh row at the end, or rewrites the rows that are there one by one. -/
theorem apply_rows (s : Store) (op : Op) :
    (∃ req jobId now, op = .enqueue req jobId now ∧ s.row? jobId = none ∧
      (s.apply op).jobs.rows = s.jobs.rows ++ [req.row jobId now]) ∨ s.Rewrites op (s.apply op) := by
  cases op with
  | enqueue req jobId now =>
    rcases kept_cases (s := s) (s.enqueue req jobId now) with same | ⟨job, t, done, same⟩
    · exact Or.inr (rewrites_same (by rw [apply, same]))
    · rcases enqueue_rows done with ⟨fresh, -, rows⟩ | ⟨rfl, -⟩
      · exact Or.inl ⟨req, jobId, now, rfl, fresh, by rw [apply, same, rows]⟩
      · exact Or.inr (rewrites_same (by rw [apply, same]))
  | claim device labels leaseSeconds now limit =>
    rcases kept_cases (s := s) (s.claim device labels leaseSeconds now limit) with same |
      ⟨job, t, done, same⟩
    · exact Or.inr (rewrites_same (by rw [apply, same]))
    · exact Or.inr (by rw [apply, same]; exact claim_rewrites done)
  | renew jobId device leaseSeconds now =>
    rcases kept_cases (s := s) (s.renew jobId device leaseSeconds now) with same | ⟨job, t, done, same⟩
    · exact Or.inr (rewrites_same (by rw [apply, same]))
    · exact Or.inr (by rw [apply, same]; exact renew_rewrites done)
  | report jobId device report now =>
    rcases kept_cases (s := s) (s.report jobId device report now) with same | ⟨job, t, done, same⟩
    · exact Or.inr (rewrites_same (by rw [apply, same]))
    · refine Or.inr ?_
      rw [apply, same]
      unfold Store.report at done
      cases settled : s.settle jobId device report now with
      | error _ => rw [settled] at done; cases done
      | ok u =>
        rw [settled] at done
        obtain ⟨-, rfl⟩ := Prod.mk.inj (Except.ok.inj done)
        exact settle_rewrites settled
  | reclaimExpired now publish => exact Or.inr expire_rewrites
  | recordHeartbeat agent =>
    rcases kept_cases (s := s) (s.recordHeartbeat agent) with same | ⟨seen, t, done, same⟩
    · exact Or.inr (rewrites_same (by rw [apply, same]))
    · exact Or.inr (rewrites_same (by rw [apply, same, recordHeartbeat_jobs done]))
  | claimOwed => exact Or.inr claimOwed_rewrites
  | restoreStatus jobId status seq =>
    refine Or.inr (rewrites_updateWhere fun r _ hit => ?_)
    simp only [Bool.and_eq_true, decide_eq_true_eq] at hit
    exact RowStep.restored hit.1.1 hit.1.2 hit.2
  | oweStatus jobId status => exact Or.inr (rewrites_updateWhere fun r _ hit => RowStep.owed (of_decide_eq_true hit))
  | clearStatus jobId => exact Or.inr (rewrites_updateWhere fun r _ hit =>
      RowStep.cleared (of_decide_eq_true hit))

/-- A row is never deleted, and what became of it is a row step. -/
theorem apply_row (op : Op) {id : String} (found : s.row? id = some r) :
    ∃ r', (s.apply op).row? id = some r' ∧ RowStep s op r r' := by
  obtain ⟨member, rfl⟩ := row?_some found
  rcases apply_rows s op with ⟨req, jobId, now, -, fresh, rows⟩ | ⟨e, rows, each⟩
  · refine ⟨r, row?_of_mem ?_, RowStep.same⟩
    rw [rows]
    exact List.mem_append_left _ member
  · refine ⟨e r, ?_, each r member⟩
    rw [← e.keeps r]
    refine row?_of_mem ?_
    rw [rows]
    exact List.mem_map_of_mem member

/-- A row that was not there is a fresh one. -/
theorem apply_fresh (op : Op) {id : String} (absent : s.row? id = none)
    (found : (s.apply op).row? id = some r) :
    r.attempts = 0 ∧ r.status = .pending := by
  obtain ⟨member, rfl⟩ := row?_some found
  rcases apply_rows s op with ⟨req, jobId, now, -, fresh, rows⟩ | ⟨e, rows, each⟩
  · rw [rows] at member
    rcases List.mem_append.mp member with old | new
    · rw [row?_of_mem old] at absent
      cases absent
    · obtain rfl := List.mem_singleton.mp new
      exact ⟨rfl, rfl⟩
  · rw [rows] at member
    obtain ⟨x, there, rfl⟩ := List.mem_map.mp member
    rw [e.keeps x, row?_of_mem there] at absent
    cases absent

/-- A fact of fresh rows that every row step keeps holds of every row after the call. -/
theorem apply_forall {P : Row → Prop} {op : Op}
    (fresh : ∀ req jobId now, P (EnqueueRequest.row req jobId now))
    (keep : ∀ r r', r ∈ s.jobs.rows → RowStep s op r r' → P r → P r') (before : ∀ r ∈ s.jobs.rows, P r) :
    ∀ r ∈ (s.apply op).jobs.rows, P r := by
  intro r member
  rcases apply_rows s op with ⟨req, jobId, now, -, -, rows⟩ | ⟨e, rows, each⟩
  · rw [rows] at member
    rcases List.mem_append.mp member with old | new
    · exact before r old
    · obtain rfl := List.mem_singleton.mp new
      exact fresh req jobId now
  · rw [rows] at member
    obtain ⟨x, there, rfl⟩ := List.mem_map.mp member
    exact keep x (e x) there (each x there) (before x there)

end Store
end Cindral.Queue

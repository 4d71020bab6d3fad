import Cindral.Queue.Frame

/-! The owed verdict of a row and its number, and what each transaction does to the pair. -/

namespace Cindral.Queue
open Base

namespace Store
variable {s t : Store} {r : Row} {id jobId device : String} {now : ℚ}

/-- The verdict a row still owes its commit. -/
def slot (s : Store) (id : String) : Option Verdict := (s.row? id).bind (·.pendingStatus)

def SameLedger (s t : Store) (id : String) : Prop :=
  t.slot id = s.slot id ∧ t.currentSeq id = s.currentSeq id

theorem row?_of_rows {e : Edit Row.id} (rows : t.jobs.rows = s.jobs.rows.map e) (id : String) :
    t.row? id = (s.row? id).map e := by
  have same := Table.find?_update s.jobs e id
  simp only [row?, Table.find?, rows]
  exact same

theorem slot_of_row (found : s.row? id = some r) : s.slot id = r.pendingStatus := by rw [slot, found]; rfl

theorem seq_of_row (found : s.row? id = some r) : s.currentSeq id = r.statusSeq := by
  rw [currentSeq, found]; rfl

theorem row_of_seq_pos (h : 0 < s.currentSeq id) : ∃ r, s.row? id = some r := by
  cases found : s.row? id with
  | none => simp [currentSeq, found] at h
  | some r => exact ⟨r, rfl⟩

theorem sameLedger_of_row (same : t.row? id = s.row? id) : SameLedger s t id := by
  simp only [SameLedger, slot, currentSeq, same, and_self]

theorem sameLedger_of_rows {e : Edit Row.id} (rows : t.jobs.rows = s.jobs.rows.map e)
    (same : ∀ r ∈ s.jobs.rows, (e r).pendingStatus = r.pendingStatus ∧ (e r).statusSeq = r.statusSeq) :
    SameLedger s t id := by
  have after := row?_of_rows rows id
  cases found : s.row? id with
  | none => exact sameLedger_of_row (by rw [after, found]; rfl)
  | some r =>
    rw [found] at after
    obtain ⟨pending, seq⟩ := same r (row?_some found).1
    exact ⟨by rw [slot_of_row after, slot_of_row found, pending], by rw [seq_of_row after,
      seq_of_row found, seq]⟩

theorem enqueue_ledger {req : EnqueueRequest} {job : Job} (h : s.enqueue req jobId now = .ok (job, t)) :
    SameLedger s t id := by
  rcases enqueue_rows h with ⟨fresh, -, rows⟩ | ⟨rfl, -⟩
  · have after : t.row? id = (s.row? id).or (if jobId = id then some (req.row jobId now) else none) := by
      simp only [row?, Table.find?, rows, List.find?_append, List.find?_singleton, EnqueueRequest.row]
      simp
    by_cases same : jobId = id
    · subst same
      rw [fresh] at after
      simp [SameLedger, slot, currentSeq, after, fresh, EnqueueRequest.row]
    · exact sameLedger_of_row (by simp [after, same])
  · exact ⟨rfl, rfl⟩

theorem claim_ledger {labels : List String} {leaseSeconds : Int} {limit : Option Int} {job : Option Job}
    (h : s.claim device labels leaseSeconds now limit = .ok (job, t)) : SameLedger s t id := by
  obtain ⟨-, -, ⟨-, -, rfl⟩ | ⟨picked, -, -, rfl⟩⟩ := claim_cases h
  · exact ⟨rfl, rfl⟩
  · refine sameLedger_of_rows rfl fun r _ => ?_
    rw [Edit.only_apply]
    split <;> exact ⟨rfl, rfl⟩

theorem renew_ledger {leaseSeconds : Int} {done : Bool}
    (h : s.renew jobId device leaseSeconds now = .ok (done, t)) :
    SameLedger s t id := by
  unfold renew at h
  split at h
  · cases h
  obtain ⟨rfl, rfl⟩ := Prod.mk.inj (Except.ok.inj h)
  refine sameLedger_of_rows rfl fun r _ => ?_
  rw [Edit.only_apply]
  split <;> exact ⟨rfl, rfl⟩

theorem recordHeartbeat_ledger {agent : Agent} {seen : ℚ} (h : s.recordHeartbeat agent = .ok (seen, t)) :
    SameLedger s t id := by
  have jobs := recordHeartbeat_jobs h
  exact sameLedger_of_row (by simp only [row?, jobs])

/-- A verdict voids what the row owed and takes the next number. -/
theorem settle_ledger {report : Report} (h : s.settle jobId device report now = .ok t) :
    t.slot jobId = none ∧ t.currentSeq jobId = s.currentSeq jobId + 1 ∧ ∀ other, other ≠ jobId →
    SameLedger s t other := by
  obtain ⟨row, found, -, -, -, ⟨-, rfl⟩ | ⟨exitCode, -, -, rfl⟩⟩ := settle_cases h
  · have after : ((s.updateWhere (·.id = jobId) Row.superseded).release jobId row.attempts now
        report.error none).row? jobId =
        some (Row.released row.attempts now report.error none (Row.superseded row)) := by
      simp [release, found, (row?_some found).2, Row.superseded]
    refine ⟨slot_of_row after, (seq_of_row after).trans (by rw [seq_of_row found]; rfl),
      fun other apart => ?_⟩
    refine sameLedger_of_row ?_
    cases there : s.row? other with
    | none => simp [release, there]
    | some x =>
      obtain ⟨-, rfl⟩ := row?_some there
      simp [release, there, apart]
  · have after : (s.updateWhere (·.id = jobId) (Row.settled exitCode report.log report.steps)).row?
        jobId =
        some (Row.settled exitCode report.log report.steps row) := by
      simp [found, (row?_some found).2]
    refine ⟨slot_of_row after, (seq_of_row after).trans (by rw [seq_of_row found]; rfl),
      fun other apart => ?_⟩
    refine sameLedger_of_row ?_
    cases there : s.row? other with
    | none => simp [there]
    | some x =>
      obtain ⟨-, rfl⟩ := row?_some there
      simp [there, apart]

theorem reclaim_row {publish : Option (Job → Verdict)} :
    (s.reclaimExpired now publish).2.row? id = (s.row? id).map
      ((lapse now publish).only fun r => r.status = .running && s.spentLease now r) :=
  row?_of_rows expire_rows id

theorem reclaim_ledger (text : Job → Verdict) (taken : r ∈ s.lapsed now) :
    (s.reclaimExpired now (some text)).2.slot r.id = some (text r.job) ∧
      (s.reclaimExpired now (some text)).2.currentSeq r.id = s.currentSeq r.id + 1 := by
  obtain ⟨member, spent⟩ := List.mem_filter.mp taken
  have found := row?_of_mem member
  have after : (s.reclaimExpired now (some text)).2.row? r.id = some (lapse now (some text) r) := by
    rw [reclaim_row, found, Option.map_some, Edit.only_apply, if_pos spent]
  exact ⟨slot_of_row after, (seq_of_row after).trans (by rw [seq_of_row found]; rfl)⟩

theorem reclaim_ledger_other (publish : Option (Job → Verdict)) (left : ∀ r ∈ s.lapsed now, r.id ≠ id) :
    SameLedger s (s.reclaimExpired now publish).2 id := by
  refine sameLedger_of_row ?_
  rw [reclaim_row]
  cases found : s.row? id with
  | none => rfl
  | some r =>
    obtain ⟨member, same⟩ := row?_some found
    have unspent : ¬(r.status = .running && s.spentLease now r) = true :=
      fun spent => left r (List.mem_filter.mpr ⟨member, spent⟩) same
    rw [Option.map_some, Edit.only_apply, if_neg unspent]

theorem claimOwed_row : s.claimOwed.2.row? id = (s.row? id).map (Row.noted none) :=
  row?_of_rows claimOwed_rows id

theorem claimOwed_ledger (s : Store) (id : String) :
    s.claimOwed.2.slot id = none ∧ s.claimOwed.2.currentSeq id = s.currentSeq id := by
  cases found : s.row? id with
  | none => simp [slot, currentSeq, claimOwed_row, found]
  | some r => simp [slot, currentSeq, claimOwed_row, found, Row.noted]

/-- What a drain takes for a run is what its row owed, under the row's number. -/
theorem claimOwed_find : s.claimOwed.1.find? (fun owed => owed.job.id = id) =
    (s.row? id).bind fun r => r.pendingStatus.map fun status => ⟨r.job, status, r.statusSeq⟩ := by
  have table : s.claimOwed.1.find? (fun owed => owed.job.id = id) = s.owedTable.find? id := rfl
  have absent (none_owed : ∀ r ∈ s.jobs.rows, r.id = id → r.pendingStatus = none) :
      s.owedTable.find? id = none := by
    refine List.find?_eq_none.mpr fun owed inside same => ?_
    obtain ⟨x, there, holds, job, -⟩ := mem_claimOwed.mp inside
    have equal : owed.job.id = id := of_decide_eq_true same
    rw [job] at equal
    rw [none_owed x there equal] at holds
    cases holds
  rw [table]
  cases found : s.row? id with
  | none =>
    refine absent fun r member same => ?_
    rw [← same, row?_of_mem member] at found
    cases found
  | some r =>
    obtain ⟨member, rfl⟩ := row?_some found
    rw [Option.bind_some]
    cases pending : r.pendingStatus with
    | none =>
      refine absent fun x there same => ?_
      obtain rfl := Table.eq_of_key there member same
      exact pending
    | some status =>
      exact Table.find?_of_mem (t := s.owedTable) (r := ⟨r.job, status, r.statusSeq⟩)
        (mem_claimOwed.mpr ⟨r, member, pending, rfl, rfl⟩)

theorem claimOwed_nodup : (s.claimOwed.1.map fun owed => owed.job.id).Nodup := s.owedTable.nodup

/-- A verdict goes back only into an empty row that is still at its number. -/
theorem restoreStatus_slot (status : Verdict) (seq : Nat) (found : s.row? jobId = some r) :
    (s.restoreStatus jobId status seq).slot jobId =
      if s.slot jobId = none ∧ s.currentSeq jobId = seq then some status else s.slot jobId := by
  have same := (row?_some found).2
  by_cases fits : r.pendingStatus = none ∧ r.statusSeq = seq
  · have after : (s.restoreStatus jobId status seq).row? jobId = some (Row.noted (some status) r) := by
      simp [restoreStatus, found, same, fits]
    rw [slot_of_row after, slot_of_row found, seq_of_row found, if_pos fits]
    rfl
  · have after : (s.restoreStatus jobId status seq).row? jobId = some r := by
      have unfit : (r.id = jobId && r.pendingStatus = none && r.statusSeq = seq) = false := by
        simpa [same] using fits
      simp [restoreStatus, found, unfit]
    rw [slot_of_row after, slot_of_row found, seq_of_row found, if_neg fits]

theorem restoreStatus_seq {status : Verdict} {seq : Nat} :
    (s.restoreStatus jobId status seq).currentSeq id = s.currentSeq id := by
  cases found : s.row? id with
  | none => simp [currentSeq, restoreStatus, found]
  | some r =>
    simp only [currentSeq, restoreStatus, row?_updateWhere, found, Option.map_some, Edit.only_apply,
      Option.getD_some]
    split <;> rfl

theorem restoreStatus_other {status : Verdict} {seq : Nat} (apart : id ≠ jobId) :
    SameLedger s (s.restoreStatus jobId status seq) id := by
  refine sameLedger_of_row ?_
  cases found : s.row? id with
  | none => simp [restoreStatus, found]
  | some r =>
    obtain ⟨-, rfl⟩ := row?_some found
    simp [restoreStatus, found, apart]

theorem oweStatus_ledger (status : Verdict) (found : s.row? jobId = some r) :
    (s.oweStatus jobId status).slot jobId = some status ∧
      (s.oweStatus jobId status).currentSeq jobId = s.currentSeq jobId + 1 := by
  have after : (s.oweStatus jobId status).row? jobId = some (Row.owing status r) := by
    simp [oweStatus, found, (row?_some found).2]
  exact ⟨slot_of_row after, (seq_of_row after).trans (by rw [seq_of_row found]; rfl)⟩

theorem oweStatus_other (s : Store) (status : Verdict) (apart : id ≠ jobId) :
    SameLedger s (s.oweStatus jobId status) id := by
  refine sameLedger_of_row ?_
  cases found : s.row? id with
  | none => simp [oweStatus, found]
  | some r =>
    obtain ⟨-, rfl⟩ := row?_some found
    simp [oweStatus, found, apart]

end Store
end Cindral.Queue

import Cindral.Queue.Lease
import Cindral.Status.Broker

/-! Everything a broker step can do, said once, and what the status lock guarantees between two steps. -/

namespace Cindral.Status
open Base Queue

/-- The current list of a drain, the verdict it is on first. -/
def Worker.todo : Worker → List Owed
  | draining todo => todo
  | posting owed todo | failed owed todo _ | closing owed todo | returning owed todo => owed :: todo
  | idle | queued .. | received .. | admitted .. | reporting .. | owing .. => []

/-- What a worker about to post has checked under the lock, and still relies on. -/
def Worker.Current (s : Store) : Worker → Prop
  | posting owed _ => s.currentSeq owed.job.id = owed.seq
  | reporting job _ seq => s.currentSeq job.id = seq
  | _ => True

namespace Broker

/-- Everything one action can do, with the state it needs. -/
inductive Moved (b : Broker) : Action → Broker → Prop where
  | stay {a} : a ≠ .stop → Moved b a b
  | enqueued {i req jobId now job t} : b.workers i = .idle → b.store.enqueue req jobId now = .ok
      (job, t) →
      Moved b (.enqueue i req jobId now)
        ({ b with store := t }.become i (.queued job req.repository (headShaFor req.sha req.statusSha)))
  | postedQueued {i reached job repository commit} : b.workers i = .queued job repository commit →
      Moved b (.postQueued i reached)
        ((b.sent reached ⟨job.id, repository, commit, queuedVerdict, none⟩).become i .idle)
  | claimed {device labels leaseSeconds now limit} : Moved b (.claim device labels leaseSeconds now limit)
      { b with store := b.store.apply (.claim device labels leaseSeconds now limit) }
  | renewed {jobId device leaseSeconds now} : Moved b (.renew jobId device leaseSeconds now)
      { b with store := b.store.apply (.renew jobId device leaseSeconds now) }
  | heard {agent} : Moved b (.heartbeat agent) { b with store := b.store.apply (.recordHeartbeat agent) }
  | reclaimed {now notes} : b.lock = none →
      notes = (b.store.lapsed now).map (fun r =>
        Note.mk r.id (lossText r.job) ((b.store.reclaimExpired now (some lossText)).2.currentSeq r.id)) →
      Moved b (.reclaim now) { b with
        store := (b.store.reclaimExpired now (some lossText)).2
        written := b.written ++ notes, owed := b.owed ++ notes }
  | received {i jobId payload authorized job reported} : b.workers i = .idle →
      b.store.get jobId = some job →
      Moved b (.receive i jobId payload authorized) (b.become i (.received job reported))
  | admitted {i now job reported} : b.workers i = .received job reported →
      Moved b (.checkLease i now) (b.become i (.admitted job reported (reportStatus job reported)))
  | dismissed {a i} : a ≠ .stop → (∃ job reported, b.workers i = .received job reported ∨
      ∃ status, b.workers i = .admitted job reported status) → Moved b a (b.become i .idle)
  | settled {i now job reported status row t} : b.workers i = .admitted job reported status →
      b.lock = none →
      b.store.settle job.id reported.device reported.report now = .ok t → t.row? job.id = some row →
      Moved b (.settle i now) ({ b with
        store := t, lock := some i
        written := b.written ++ [Note.mk job.id status (t.currentSeq job.id)] }.become i
          (.reporting row.job status (t.currentSeq job.id)))
  | reportAccepted {i job status seq} : b.workers i = .reporting job status seq →
      Moved b (.postReport i .accepted)
        ({ b.sent true (reportPost job status seq) with lock := none }.become i .idle)
  | reportRefused {i reached job status seq} : b.workers i = .reporting job status seq →
      Moved b (.postReport i (.refused reached))
        ((b.sent reached (reportPost job status seq)).become i (.owing job status seq reached))
  | reportRaised {i reached job status seq} : b.workers i = .reporting job status seq →
      Moved b (.postReport i (.raised reached)) ({ b.sent reached (reportPost job status seq) with
        lock := none
        lost := fun note => (b.sent reached (reportPost job status seq)).lost note ∨
          (reached = false ∧ note = Note.mk job.id status seq) }.become i .idle)
  | owed {i job status seq sent} : b.workers i = .owing job status seq sent →
      Moved b (.owe i) ({ b with
        store := b.store.oweStatus job.id status, lock := none
        written :=
        b.written ++ [Note.mk job.id status ((b.store.oweStatus job.id status).currentSeq job.id)]
        owed := b.owed ++ [Note.mk job.id status
        ((b.store.oweStatus job.id status).currentSeq job.id)] }.become i .idle)
  | drained {i} : b.workers i = .idle → b.lock = none →
      Moved b (.drain i) ({ b with store := b.store.claimOwed.2 }.become i (proceed b.store.claimOwed.1))
  | checkedCurrent {i owed todo} : b.workers i = .draining (owed :: todo) → b.lock = none →
      b.store.currentSeq owed.job.id = owed.seq →
      Moved b (.check i) ({ b with lock := some i }.become i (.posting owed todo))
  | checkedStale {i owed todo} : b.workers i = .draining (owed :: todo) →
      b.store.currentSeq owed.job.id ≠ owed.seq → Moved b (.check i) (b.become i (proceed todo))
  | postAccepted {i owed todo} : b.workers i = .posting owed todo →
      Moved b (.post i .accepted)
        ({ b.sent true (Owed.post owed) with lock := none }.become i (.closing owed todo))
  | postFailed {i owed todo} (outcome) : b.workers i = .posting owed todo → outcome ≠ .accepted →
      Moved b (.post i outcome)
        ((b.sent outcome.reached (Owed.post owed)).become i (.failed owed todo outcome.reached))
  | restored {i owed todo sent} : b.workers i = .failed owed todo sent →
      Moved b (.restore i) ({ b with
        store := b.store.restoreStatus owed.job.id owed.status owed.seq, lock := none }.become i
        (proceed todo))
  | closed {i owed todo} : b.workers i = .closing owed todo →
      Moved b (.closeCheck i true) (b.become i (proceed todo))
  | unclosed {i owed todo} : b.workers i = .closing owed todo →
      Moved b (.closeCheck i false) (b.become i (.returning owed todo))
  | putBack {i owed todo} : b.workers i = .returning owed todo → b.lock = none →
      Moved b (.putBack i) ({ b with
        store := b.store.restoreStatus owed.job.id owed.status owed.seq }.become i (proceed todo))
  | stopped : Moved b .stop b.stopped

theorem settle_moved {b c : Broker} {i : Nat} {now : ℚ} (h : b.stepSettle i now = some c) :
    Moved b (.settle i now) c := by
  unfold stepSettle at h
  split at h
  · rename_i job reported status at_
    split at h
    · rename_i free
      split at h
      · rename_i settled t done
        obtain rfl := Option.some.inj h
        unfold Store.report at done
        cases landed : b.store.settle job.id reported.device reported.report now with
        | error _ => rw [landed] at done; cases done
        | ok u =>
          rw [landed] at done
          obtain ⟨read, rfl⟩ := Prod.mk.inj (Except.ok.inj done)
          obtain ⟨row, found, rfl⟩ := Option.map_eq_some_iff.mp read
          exact .settled at_ free landed found
      · obtain rfl := Option.some.inj h
        exact .dismissed (by simp) ⟨job, reported, Or.inr ⟨status, at_⟩⟩
    · cases h
  · cases h

theorem step_moved {b c : Broker} {a : Action} (h : b.step a = some c) : Moved b a c := by
  cases a with
  | enqueue i req jobId now =>
    simp only [step, stepEnqueue] at h
    split at h
    · rename_i at_
      split at h
      · rename_i job t done
        obtain rfl := Option.some.inj h
        exact .enqueued at_ done
      · obtain rfl := Option.some.inj h
        exact .stay (by simp)
    · cases h
  | postQueued i reached =>
    simp only [step, stepPostQueued] at h
    split at h
    · rename_i at_
      obtain rfl := Option.some.inj h
      exact .postedQueued at_
    · cases h
  | claim | renew | heartbeat =>
    obtain rfl := Option.some.inj h
    constructor
  | reclaim now =>
    simp only [step, stepReclaim] at h
    split at h
    · rename_i free
      obtain rfl := Option.some.inj h
      rw [Store.reclaimed_eq, List.map_map]
      exact .reclaimed free rfl
    · cases h
  | receive i jobId payload authorized =>
    simp only [step, stepReceive] at h
    split at h
    · rename_i at_
      split at h
      · rename_i read _
        obtain rfl := Option.some.inj h
        split
        · exact .received at_ read
        · exact .stay (by simp)
      · obtain rfl := Option.some.inj h
        exact .stay (by simp)
    · cases h
  | checkLease i now =>
    simp only [step, stepCheckLease] at h
    split at h
    · rename_i job reported at_
      obtain rfl := Option.some.inj h
      split
      · exact .admitted at_
      · exact .dismissed (by simp) ⟨job, reported, Or.inl at_⟩
    · cases h
  | settle i now => exact settle_moved h
  | postReport i outcome =>
    simp only [step, stepPostReport] at h
    split at h
    · rename_i at_
      cases outcome with
      | accepted => obtain rfl := Option.some.inj h; exact .reportAccepted at_
      | refused reached => obtain rfl := Option.some.inj h; exact .reportRefused at_
      | raised reached => obtain rfl := Option.some.inj h; exact .reportRaised at_
    · cases h
  | owe i =>
    simp only [step, stepOwe] at h
    split at h
    · rename_i at_
      obtain rfl := Option.some.inj h
      exact .owed at_
    · cases h
  | drain i =>
    simp only [step, stepDrain] at h
    split at h
    · rename_i at_
      split at h
      · rename_i free
        obtain rfl := Option.some.inj h
        exact .drained at_ free
      · cases h
    · cases h
  | check i =>
    simp only [step, stepCheck] at h
    split at h
    · rename_i at_
      split at h
      · rename_i free
        split at h
        · rename_i current
          obtain rfl := Option.some.inj h
          exact .checkedCurrent at_ free current
        · rename_i stale
          obtain rfl := Option.some.inj h
          exact .checkedStale at_ stale
      · cases h
    · cases h
  | post i outcome =>
    simp only [step, stepPost] at h
    split at h
    · rename_i at_
      cases outcome with
      | accepted => obtain rfl := Option.some.inj h; exact .postAccepted at_
      | refused reached => obtain rfl := Option.some.inj h; exact .postFailed (.refused reached) at_ (by simp)
      | raised reached => obtain rfl := Option.some.inj h; exact .postFailed (.raised reached) at_ (by simp)
    · cases h
  | restore i =>
    simp only [step, stepRestore] at h
    split at h
    · rename_i at_
      obtain rfl := Option.some.inj h
      exact .restored at_
    · cases h
  | closeCheck i closed =>
    simp only [step, stepCloseCheck] at h
    split at h
    · rename_i at_
      obtain rfl := Option.some.inj h
      cases closed with
      | true => exact .closed at_
      | false => exact .unclosed at_
    · cases h
  | putBack i =>
    simp only [step, stepPutBack] at h
    split at h
    · rename_i at_
      split at h
      · rename_i free
        obtain rfl := Option.some.inj h
        exact .putBack at_ free
      · cases h
    · cases h
  | stop =>
    obtain rfl := Option.some.inj h
    exact .stopped

/-- What the lock and the drains' lists guarantee between any two steps. -/
structure Locked (b : Broker) : Prop where
  holder : ∀ i, (b.workers i).critical = true → b.lock = some i
  current : ∀ i, (b.workers i).Current b.store
  distinct : ∀ i, ((b.workers i).todo.map fun owed => owed.job.id).Nodup

variable {b c : Broker} {a : Action} {i j : Nat} {id : String}

@[simp] theorem workers_become (w : Worker) : (b.become i w).workers i = w := Function.update_self ..

theorem workers_become_ne (w : Worker) (apart : j ≠ i) : (b.become i w).workers j = b.workers j :=
  Function.update_of_ne apart ..

@[simp] theorem sent_workers (reached : Bool) (post : Post) :
    (b.sent reached post).workers = b.workers := by
  unfold sent; split <;> rfl

@[simp] theorem sent_lock (reached : Bool) (post : Post) : (b.sent reached post).lock = b.lock := by
  unfold sent; split <;> rfl

@[simp] theorem sent_store (reached : Bool) (post : Post) : (b.sent reached post).store = b.store := by
  unfold sent; split <;> rfl

theorem proceed_todo (todo : List Owed) : (proceed todo).todo = todo := by
  cases todo <;> rfl

theorem proceed_critical (todo : List Owed) : (proceed todo).critical = false := by
  cases todo <;> rfl

theorem current_of_quiet {w : Worker} {s : Store} (quiet : w.critical = false) : w.Current s := by
  cases w <;> trivial

theorem current_of_same {w : Worker} {s t : Store} (same : ∀ id, t.currentSeq id = s.currentSeq id)
    (h : w.Current s) :
    w.Current t := by
  cases w <;> first | trivial | exact (same _).trans h

theorem alone_of_free (h : Locked b) (free : b.lock = none) (j : Nat) :
    (b.workers j).critical = false := by
  cases inside : (b.workers j).critical with
  | false => rfl
  | true => rw [h.holder j inside] at free; cases free

theorem alone_of_holder (h : Locked b) (inside : (b.workers i).critical = true) (apart : j ≠ i) :
    (b.workers j).critical = false := by
  cases other : (b.workers j).critical with
  | false => rfl
  | true => exact absurd (Option.some.inj ((h.holder j other).symm.trans (h.holder i inside))) apart

/-- A step of the one worker that may be inside the lock. The store may change in any way. -/
theorem locked_alone (h : Locked b) (alone : ∀ j, j ≠ i → (b.workers j).critical = false) {w : Worker}
    (workers : c.workers = b.workers) (holder : w.critical = true → c.lock = some i)
    (current : w.Current c.store)
    (distinct : (w.todo.map fun owed => owed.job.id).Nodup) : Locked (c.become i w) := by
  refine ⟨fun j inside => ?_, fun j => ?_, fun j => ?_⟩ <;> by_cases same : j = i
  · subst same
    rw [workers_become] at inside
    exact holder inside
  · rw [workers_become_ne w same, workers, alone j same] at inside
    cases inside
  · subst same
    rw [workers_become]
    exact current
  · rw [workers_become_ne w same, workers]
    exact current_of_quiet (alone j same)
  · subst same
    rw [workers_become]
    exact distinct
  · rw [workers_become_ne w same, workers]
    exact h.distinct j

/-- A step that leaves the lock and every number alone. -/
theorem locked_quiet (h : Locked b) {w : Worker} (workers : c.workers = b.workers)
    (lock : c.lock = b.lock)
    (same : ∀ id, c.store.currentSeq id = b.store.currentSeq id) (quiet : w.critical = false)
    (distinct : (w.todo.map fun owed => owed.job.id).Nodup) : Locked (c.become i w) := by
  refine ⟨fun j inside => ?_, fun j => ?_, fun j => ?_⟩ <;> by_cases own : j = i
  · subst own
    rw [workers_become, quiet] at inside
    cases inside
  · rw [workers_become_ne w own, workers] at inside
    exact lock.trans (h.holder j inside)
  · subst own
    rw [workers_become]
    exact current_of_quiet quiet
  · rw [workers_become_ne w own, workers]
    exact current_of_same same (h.current j)
  · subst own
    rw [workers_become]
    exact distinct
  · rw [workers_become_ne w own, workers]
    exact h.distinct j

theorem locked_store (h : Locked b) {t : Store} (same : ∀ id, t.currentSeq id = b.store.currentSeq id) :
    Locked { b with store := t } :=
  ⟨h.holder, fun j => current_of_same same (h.current j), h.distinct⟩

theorem claim_seq {device : String} {labels : List String} {leaseSeconds : Int} {now : ℚ}
    {limit : Option Int} :
    Store.SameLedger b.store (b.store.apply (.claim device labels leaseSeconds now limit)) id := by
  rcases Store.kept_cases (s := b.store)
    (b.store.claim device labels leaseSeconds now limit) with same | ⟨_, t, done, same⟩
  · rw [Store.apply, same]; exact ⟨rfl, rfl⟩
  · rw [Store.apply, same]; exact Store.claim_ledger done

theorem renew_seq {jobId device : String} {leaseSeconds : Int} {now : ℚ} :
    Store.SameLedger b.store (b.store.apply (.renew jobId device leaseSeconds now)) id := by
  rcases Store.kept_cases (s := b.store) (b.store.renew jobId device leaseSeconds now) with same |
    ⟨_, t, done, same⟩
  · rw [Store.apply, same]; exact ⟨rfl, rfl⟩
  · rw [Store.apply, same]; exact Store.renew_ledger done

theorem heartbeat_seq {agent : Agent} :
    Store.SameLedger b.store (b.store.apply (.recordHeartbeat agent)) id := by
  rcases Store.kept_cases (s := b.store) (b.store.recordHeartbeat agent) with same | ⟨_, t, done, same⟩
  · rw [Store.apply, same]; exact ⟨rfl, rfl⟩
  · rw [Store.apply, same]; exact Store.recordHeartbeat_ledger done

theorem moved_locked (h : Locked b) (moved : Moved b a c) : Locked c := by
  have tail {i : Nat} {owed : Owed} {todo : List Owed} (at_ : (b.workers i).todo = owed :: todo) :
      ((proceed todo).todo.map fun o => o.job.id).Nodup := by
    have all := h.distinct i
    rw [at_] at all
    rw [proceed_todo]
    exact (List.nodup_cons.mp all).2
  have list {i : Nat} {w : Worker} (at_ : b.workers i = w) : (w.todo.map fun o => o.job.id).Nodup :=
    at_ ▸ h.distinct i
  have inside {i : Nat} {w : Worker} (at_ : b.workers i = w) (critical : w.critical = true) :
      ∀ j, j ≠ i → (b.workers j).critical = false :=
    fun j apart => alone_of_holder h (at_.symm ▸ critical) apart
  cases moved with
  | stay _ => exact h
  | enqueued at_ done => exact locked_quiet h rfl rfl (fun id => (Store.enqueue_ledger done).2) rfl List.nodup_nil
  | postedQueued at_ => exact locked_quiet h (sent_workers ..) (sent_lock ..) (fun id => by rw [sent_store]) rfl List.nodup_nil
  | claimed => exact locked_store h fun id => claim_seq.2
  | renewed => exact locked_store h fun id => renew_seq.2
  | heard => exact locked_store h fun id => heartbeat_seq.2
  | reclaimed free _ =>
    exact ⟨h.holder, fun j => current_of_quiet (alone_of_free h free j), h.distinct⟩
  | received _ _ | admitted _ | dismissed _ _ => exact locked_quiet h rfl rfl (fun _ => rfl) rfl List.nodup_nil
  | settled at_ free landed found =>
    exact locked_alone h (fun j _ => alone_of_free h free j) rfl (fun _ => rfl)
      (congrArg _ (Store.row?_some found).2) List.nodup_nil
  | reportAccepted at_ | owed at_ =>
    exact locked_alone h (inside at_ rfl) (by simp) (fun critical => (nomatch critical)) trivial
      List.nodup_nil
  | reportRefused at_ =>
    exact locked_alone h (inside at_ rfl) (sent_workers ..)
      (fun _ => (sent_lock ..).trans (h.holder _ (at_.symm ▸ rfl))) trivial List.nodup_nil
  | reportRaised at_ =>
    exact locked_alone h (inside at_ rfl) (sent_workers ..) (fun critical => (nomatch critical))
      trivial List.nodup_nil
  | drained at_ free =>
    refine locked_quiet h rfl rfl (fun id => (Store.claimOwed_ledger b.store id).2)
      (proceed_critical _) ?_
    rw [proceed_todo]
    exact Store.claimOwed_nodup
  | checkedCurrent at_ free current =>
    exact locked_alone h (fun j _ => alone_of_free h free j) rfl (fun _ => rfl) current (list at_ :)
  | checkedStale at_ _ | closed at_ =>
    exact locked_quiet h rfl rfl (fun _ => rfl) (proceed_critical _) (tail (by rw [at_]; rfl))
  | postAccepted at_ =>
    exact locked_alone h (inside at_ rfl) (sent_workers ..) (fun critical => (nomatch critical))
      trivial (list at_ :)
  | postFailed _ at_ _ =>
    exact locked_alone h (inside at_ rfl) (sent_workers ..)
      (fun _ => (sent_lock ..).trans (h.holder _ (at_.symm ▸ rfl))) trivial (list at_ :)
  | restored at_ =>
    exact locked_alone h (inside at_ rfl) rfl
      (fun critical => by rw [proceed_critical] at critical; cases critical)
      (current_of_quiet (proceed_critical _)) (tail (by rw [at_]; rfl))
  | unclosed at_ => exact locked_quiet h rfl rfl (fun _ => rfl) rfl (list at_ :)
  | putBack at_ free =>
    exact locked_quiet h rfl rfl (fun id => Store.restoreStatus_seq) (proceed_critical _)
      (tail (by rw [at_]; rfl))
  | stopped => exact ⟨fun _ critical => (nomatch critical), fun _ => trivial, fun _ => List.nodup_nil⟩

theorem start_locked : Locked start :=
  ⟨fun _ critical => (nomatch critical), fun _ => trivial, fun _ => List.nodup_nil⟩

end Broker
end Cindral.Status

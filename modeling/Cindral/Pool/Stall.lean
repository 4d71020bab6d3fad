import Cindral.Pool.Snapshot
import Cindral.Queue.Lease

/-! Whether a queue that is named stalled has nothing a device could take. -/

namespace Cindral.Pool
open Base Queue Routing
variable {s t : Store} {runners : List Runner} {now : ℚ} {r : Row}
    {publish : Option (Job → Verdict)} {reason : StallReason}

/-- A connected device with a free slot is given a run when it asks with the labels it advertises. -/
def Served (s : Store) (runners : List Runner) (now : ℚ) : Prop :=
  ∃ d ∈ devices s runners now, d.agentOnline = true ∧ 0 < d.availableSlots.getD 0 ∧
    ∃ a, s.agents.find? d.name = some a ∧
      ∃ leaseSeconds job t, s.claim d.name a.labels leaseSeconds now none = .ok (some job, t)

/-! What a reclaim leaves as it was. -/

theorem agents_release (jobs : List Job) (s : Store) : (jobs.foldl (fun t job =>
    t.release job.id job.attempts now leaseLost (publish.map (· job))) s).agents = s.agents := by
  induction jobs generalizing s with
  | nil => rfl
  | cons job rest ih => exact ih _

theorem agents_reclaim (s : Store) (now : ℚ) (publish : Option (Job → Verdict)) :
    (s.reclaimExpired now publish).2.agents = s.agents := by
  unfold Store.reclaimExpired Store.expire
  by_cases quiet : s.lapsed now = []
  · simp only [quiet, if_true]
  · simp only [quiet, if_false, Store.countReclaims]
    exact agents_release _ s

/-- A row after a reclaim is one from before that was not spent, or one that is waiting out its
back-off or parked. -/
theorem reclaim_row_cases (h : r ∈ (s.reclaimExpired now publish).2.jobs.rows) :
    (r ∈ s.jobs.rows ∧ ¬(r.status = .running ∧ s.spentLease now r = true)) ∨
      (r.status ≠ .running ∧ ∃ from_, r.availableAt = some from_ ∧ now < from_) := by
  rw [Store.reclaimExpired, Store.expire_rows] at h
  obtain ⟨x, there, rfl⟩ := List.mem_map.mp h
  rw [Edit.only_apply]
  by_cases spent : x.status = .running ∧ s.spentLease now x = true
  · have hit : (decide (x.status = .running) && s.spentLease now x) = true := by simp [spent]
    rw [if_pos hit]
    refine Or.inr ⟨released_not_running, now + backoffSeconds x.attempts, rfl, ?_⟩
    have later := backoffSeconds_pos x.attempts
    linarith
  · have miss : ¬(decide (x.status = .running) && s.spentLease now x) = true := by simpa using spent
    rw [if_neg miss]
    exact Or.inl ⟨there, spent⟩

theorem claimable_reclaim (h : r ∈ (s.reclaimExpired now publish).2.claimable now) :
    r ∈ s.jobs.rows ∧ r.status = .pending ∧ r.availableAt.all (· ≤ now) = true := by
  rw [Store.claimable, List.mem_insertionSort, List.mem_filter, Bool.and_eq_true, decide_eq_true_eq] at h
  obtain ⟨there, pending, available⟩ := h
  rcases reclaim_row_cases there with ⟨before, -⟩ | ⟨-, from_, given, later⟩
  · exact ⟨before, pending, available⟩
  · rw [given, Option.all_some, decide_eq_true_eq] at available
    exact absurd available (not_le.mpr later)

/-- A lease that a snapshot lists is not spent, and a reclaim makes no new one. -/
theorem leased_reclaim (s : Store) (now : ℚ) (publish : Option (Job → Verdict)) :
    leased (s.reclaimExpired now publish).2 now = leased s now := by
  have unlisted : ∀ x : Row, s.spentLease now x = true → x.leaseExpires.any (now < ·) = false := by
    intro x spent
    cases lease : x.leaseExpires with
    | none => rfl
    | some expires =>
      simp only [Store.spentLease, lease, Option.any_some, Bool.and_eq_true, decide_eq_true_eq] at spent
      exact decide_eq_false (not_lt.mpr spent.1.le)
  rw [leased, leased, Store.reclaimExpired, Store.expire_rows]
  induction s.jobs.rows with
  | nil => rfl
  | cons x rest ih =>
    rw [List.map_cons, List.filter_cons, List.filter_cons, ih, Edit.only_apply]
    by_cases spent : (decide (x.status = .running) && s.spentLease now x) = true
    · have before := unlisted x (Bool.and_eq_true_iff.mp spent).2
      have after : (Store.lapse now publish x).leaseExpires = none := rfl
      simp only [if_pos spent, before, after, Option.any_none, Bool.and_false, Bool.false_and,
        Bool.false_eq_true, if_false]
    · simp only [if_neg spent]

theorem devices_reclaim (s : Store) (runners : List Runner) (now : ℚ) (publish : Option (Job → Verdict)) :
    devices (s.reclaimExpired now publish).2 runners now = devices s runners now := by
  have leases := leased_reclaim s now publish
  have agents := agents_reclaim s now publish
  simp only [devices, unconfigured, activeLeases, leases, agents]

/-! What each reason says about the rows. -/

theorem stalledReason_cases {devices : List PoolDevice} {pending : Int} {age : ℚ}
    (named : stalledReason s devices pending age now = some reason) :
    (reason = .noAgents ∧ ∀ d ∈ devices, d.agentOnline = false) ∨
      (reason = .idleDevices ∧ ∀ d ∈ devices, ¬0 < d.availableSlots.getD 0) ∨
      (reason = .deferred ∧ deferred s now = true) ∨
      (reason = .noEligibleDevice ∧ unclaimable s now = true) := by
  unfold stalledReason at named
  split at named
  · split at named
    · rename_i none_online
      exact Or.inl ⟨(Option.some.inj named).symm, by simpa using none_online⟩
    split at named
    · rename_i none_free
      exact Or.inr (Or.inl ⟨(Option.some.inj named).symm, by simpa using none_free⟩)
    split at named
    · rename_i waits
      exact Or.inr (Or.inr (Or.inl ⟨(Option.some.inj named).symm, waits⟩))
    split at named
    · rename_i unlabelled
      exact Or.inr (Or.inr (Or.inr ⟨(Option.some.inj named).symm, unlabelled⟩))
    · cases named
  · cases named

/-- In a queue inside a back-off a waiting run without one is due at the epoch. -/
theorem deferred_later (waits : deferred s now = true) (h : r ∈ waitingRows s now) :
    now < r.availableAt.getD 0 := by
  obtain ⟨soonest, least, later⟩ := (Option.any_eq_true _ _).mp waits
  exact (of_decide_eq_true later).trans_le ((List.min?_eq_some_iff.mp least).2 _ (List.mem_map_of_mem h))

theorem pending_waits (there : r ∈ s.jobs.rows) (pending : r.status = .pending) : r ∈ waitingRows s now :=
  List.mem_filter.mpr ⟨there, by simp [pending]⟩

/-- A queue that no connected device can serve holds no due run whose labels one of them advertises. -/
theorem unclaimable_labels {a : Agent} (unlabelled : unclaimable s now = true) (h : r ∈ waitingRows s now)
    (available : r.availableAt.all (· ≤ now) = true) (agent : a ∈ s.agents.rows)
    (isOnline : online a now = true) :
    ¬r.labels.all (· ∈ a.labels) = true := by
  intro labelled
  rw [unclaimable, Bool.not_eq_true', List.any_eq_false] at unlabelled
  refine unlabelled r (List.mem_filter.mpr ⟨h, available⟩) (List.any_eq_true.mpr ⟨a.labels, ?_, labelled⟩)
  exact List.mem_map_of_mem (List.mem_filter.mpr ⟨agent, isOnline⟩)

theorem device_online {d : PoolDevice} {a : Agent} (h : d ∈ devices s runners now)
    (found : s.agents.find? d.name = some a) :
    d.agentOnline = online a now := by
  have own : d.agentOnline = (s.agents.find? d.name).any (online · now) := by
    obtain ⟨runner, read⟩ := devices_read h
    rw [read]
    rfl
  rw [own, found, Option.any_some]

theorem claim_given {labels : List String} {leaseSeconds : Int} (device : String)
    (lease : 0 < leaseSeconds)
    (picked : (s.pickJob (s.claimable now) labels none).isSome = true) :
    ∃ job t, s.claim device labels leaseSeconds now none = .ok (some job, t) := by
  obtain ⟨r, chosen⟩ := Option.isSome_iff_exists.mp picked
  have done : ∃ job t, s.claim device labels leaseSeconds now none = .ok (job, t) := by
    unfold Store.claim
    rw [if_neg (not_le.mpr lease), Option.any_none, if_neg Bool.false_ne_true, chosen]
    exact ⟨_, _, rfl⟩
  obtain ⟨job, t, handed⟩ := done
  obtain ⟨-, -, ⟨absent, -, -⟩ | ⟨taken, -, out, -⟩⟩ := Store.claim_cases handed
  · rw [chosen] at absent
    cases absent
  · exact ⟨(Row.taken device (now + leaseSeconds) taken).job, t, out ▸ handed⟩

/-- Where a stall is named a reclaim leaves no run for a connected device with a free slot. Before
the epoch a queue named deferred must have a back-off in every pending row, since a row without one
counts as due at the epoch. -/
theorem stall_real (s : Store) (runners : List Runner) (now : ℚ) (publish : Option (Job → Verdict))
    (named : (poolSnapshot s runners now).stalledReason = some reason)
    (dated : now < 0 → reason = .deferred → ∀ r ∈ s.jobs.rows, r.status = .pending →
    r.availableAt ≠ none) :
    ¬Served ((s.pruneAgents now).reclaimExpired now publish).2 runners now := by
  rintro ⟨d, listed, isOnline, free, a, found, leaseSeconds, job, u, handed⟩
  rw [devices_reclaim] at listed
  rw [agents_reclaim] at found
  obtain ⟨-, -, ⟨-, nothing, -⟩ | ⟨r, chosen, -, -⟩⟩ := Store.claim_cases handed
  · cases nothing
  obtain ⟨eligible, labelled⟩ := List.mem_filter.mp (List.argmin_mem (Option.mem_def.mpr chosen))
  obtain ⟨there, pending, available⟩ := claimable_reclaim eligible
  have waits : r ∈ waitingRows (s.pruneAgents now) now := pending_waits there pending
  rcases stalledReason_cases named with ⟨-, offline⟩ | ⟨-, busy⟩ | ⟨rfl, deferral⟩ | ⟨-, unlabelled⟩
  · rw [offline d listed] at isOnline
    cases isOnline
  · exact busy d listed free
  · have later := deferred_later deferral waits
    cases given : r.availableAt with
    | none =>
      rw [given, Option.getD_none] at later
      exact dated later rfl r there pending given
    | some from_ =>
      rw [given] at later available
      exact absurd (of_decide_eq_true available) (not_le.mpr later)
  · rw [device_online listed found] at isOnline
    refine unclaimable_labels unlabelled waits available (Table.find?_some found).1 isOnline ?_
    simpa using labelled

/-- A run that needs a label the one connected device does not have. -/
def gpuStore : Store :=
  [.enqueue ⟨"org/app", "sha1", "main", [], ["gpu"], 3600, none, none⟩ "job1" 100,
    .recordHeartbeat ⟨"device-alpha", ["arm64"], 2, 390, []⟩].foldl Store.apply Store.empty

theorem gpuStore_stalled : ¬Served ((gpuStore.pruneAgents 400).reclaimExpired 400 none).2 [] 400 := by
  have named : (poolSnapshot gpuStore [] 400).stalledReason = some .noEligibleDevice := by decide +kernel
  exact stall_real gpuStore [] 400 none named fun early => absurd early (by norm_num)

/-- A run that any device can take, asked about before the epoch. -/
def earlyStore : Store :=
  [.enqueue ⟨"org/app", "sha1", "main", [], [], 3600, none, none⟩ "job1" (-400),
    .recordHeartbeat ⟨"device-alpha", ["arm64"], 2, -10, []⟩].foldl Store.apply Store.empty

theorem early_stall_served : (poolSnapshot earlyStore [] (-1)).stalledReason = some .deferred ∧
    Served ((earlyStore.pruneAgents (-1)).reclaimExpired (-1) none).2 [] (-1) := by
  refine ⟨by decide +kernel, ?_⟩
  let agent : Agent := ⟨"device-alpha", ["arm64"], 2, -10, []⟩
  have listed : device "device-alpha" none [] (some agent) (-1) ∈ devices
      (earlyStore.pruneAgents (-1)) [] (-1) := by
    decide +kernel
  refine ⟨_, devices_reclaim _ _ _ _ ▸
    listed, by decide +kernel, by decide +kernel, agent, by decide +kernel, 1, ?_⟩
  have picked : (((earlyStore.pruneAgents (-1)).reclaimExpired (-1) none).2.pickJob
      (((earlyStore.pruneAgents (-1)).reclaimExpired (-1) none).2.claimable (-1)) ["arm64"]
      none).isSome = true := by
    decide +kernel
  exact claim_given _ (by decide) picked

end Cindral.Pool

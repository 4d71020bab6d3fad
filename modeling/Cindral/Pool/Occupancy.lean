import Cindral.Pool.Snapshot
import Mathlib.Data.List.Perm.Basic

/-! Whether the runs a snapshot counts as running are the leases it lists. -/

namespace Cindral.Pool
open Base Queue Routing
variable {s : Store} {runners : List Runner} {now : ℚ} {r : Row} {name : String}

/-- The running rows that are not counted as pending. -/
def countedRunning (s : Store) (now : ℚ) : List Row :=
  s.jobs.rows.filter fun r => r.status = .running && !s.spentLease now r

theorem depth_running (s : Store) (now : ℚ) :
    (queueDepth s now).1 .running = (countedRunning s now).length := by
  have split := List.countP_eq_countP_filter_add s.jobs.rows (fun r => decide (r.status = .running))
    (s.spentLease now)
  have spent : s.jobs.rows.countP (fun r => r.status = .running && s.spentLease now r) =
      (s.jobs.rows.filter (s.spentLease now)).countP fun r => r.status = .running := by
    rw [List.countP_filter]
  have kept : (countedRunning s now).length =
      (s.jobs.rows.filter fun r => !s.spentLease now r).countP fun r => r.status = .running := by
    rw [countedRunning, ← List.countP_eq_length_filter, List.countP_filter]
  simp only [queueDepth, spent, kept]
  omega

theorem depth_pending (s : Store) (now : ℚ) :
    (queueDepth s now).1 .pending = (waitingRows s now).length := by
  have split := List.countP_eq_countP_filter_add s.jobs.rows
    (fun r => r.status = .pending || r.status = .running && s.spentLease now r) fun r =>
    r.status = .pending
  have queued : (s.jobs.rows.filter fun r => r.status = .pending).countP
      (fun r => r.status = .pending || r.status = .running && s.spentLease now r) =
      s.jobs.rows.countP fun r => r.status = .pending := by
    rw [List.countP_filter]
    exact List.countP_congr fun r _ => by simpa using Or.inl
  have lost : (s.jobs.rows.filter fun r => !decide (r.status = .pending)).countP
      (fun r => r.status = .pending || r.status = .running && s.spentLease now r) =
      s.jobs.rows.countP fun r => r.status = .running && s.spentLease now r := by
    rw [List.countP_filter]
    refine List.countP_congr fun r _ => ?_
    cases r.status <;> simp
  simp only [queueDepth, waitingRows, ← List.countP_eq_length_filter]
  omega

theorem mem_leased : r ∈ leased s now ↔ r ∈ s.jobs.rows ∧ r.status = .running ∧
    (∃ expires, r.leaseExpires = some expires ∧ now < expires) ∧ ∃ device, r.device = some device ∧
    device ≠ "" := by
  simp [leased, Option.any_eq_true, and_assoc]

theorem leased_counted (h : r ∈ leased s now) : r ∈ countedRunning s now := by
  obtain ⟨there, running, ⟨expires, lease, live⟩, -⟩ := mem_leased.mp h
  refine List.mem_filter.mpr ⟨there, ?_⟩
  have held : s.spentLease now r = false := by simp [Store.spentLease, lease, not_lt.mpr live.le]
  simp [running, held]

theorem waiting_not_leased (h : r ∈ waitingRows s now) : r ∉ leased s now := by
  intro listed
  have running := (List.mem_filter.mp (leased_counted listed)).2
  have waiting := (List.mem_filter.mp h).2
  cases status : r.status <;> simp [status] at running waiting
  rw [running] at waiting
  cases waiting

theorem leased_nodup (s : Store) (now : ℚ) (p : Row → Bool) :
    (((leased s now).filter p).map (·.id)).Nodup :=
  s.jobs.nodup.sublist ((List.filter_sublist.trans List.filter_sublist).map _)

theorem countedRunning_nodup (s : Store) (now : ℚ) : ((countedRunning s now).map (·.id)).Nodup :=
  s.jobs.nodup.sublist (List.filter_sublist.map _)

theorem id_mem {rows : List Row} (part : ∀ x ∈ rows, x ∈ s.jobs.rows) (there : r ∈ s.jobs.rows) :
    r.id ∈ rows.map (·.id) ↔ r ∈ rows := by
  constructor
  · intro member
    obtain ⟨x, inside, same⟩ := List.mem_map.mp member
    rw [← Table.eq_of_key (part x inside) there same]
    exact inside
  · exact List.mem_map_of_mem

/-- A row is listed under each device of a list that has the name of its own. -/
theorem count_leases (names : List String) (there : r ∈ s.jobs.rows) :
    (names.flatMap fun name => ((leased s now).filter (·.device = some name)).map (·.id)).count r.id =
      if r ∈ leased s now then names.countP (r.device = some ·) else 0 := by
  induction names with
  | nil => simp
  | cons name rest ih =>
    have one : (((leased s now).filter (·.device = some name)).map (·.id)).count r.id =
        if r ∈ leased s now ∧ r.device = some name then 1 else 0 := by
      have part : ∀ x ∈ (leased s now).filter (·.device = some name), x ∈ s.jobs.rows := fun x inside =>
        (List.mem_filter.mp (List.mem_filter.mp inside).1).1
      rw [(leased_nodup s now _).count]
      simp only [id_mem part there, List.mem_filter, decide_eq_true_eq]
    rw [List.flatMap_cons, List.count_append, ih, one, List.countP_cons]
    by_cases listed : r ∈ leased s now
    · simp [listed, Nat.add_comm]
    · simp [listed]

theorem mem_unconfigured : name ∈ unconfigured s runners now ↔
    ((∃ r ∈ leased s now, r.device = some name) ∨ ∃ a ∈ s.agents.rows, a.device = name) ∧
    name ∉ runners.map (·.name) := by
  rw [unconfigured, List.mem_insertionSort, List.mem_filter, List.mem_dedup, List.mem_append,
    List.mem_filterMap, List.mem_map]
  simp

theorem unconfigured_nodup (s : Store) (runners : List Runner) (now : ℚ) :
    (unconfigured s runners now).Nodup :=
  (List.perm_insertionSort _ _).nodup_iff.mpr ((List.nodup_dedup _).filter _)

def names (s : Store) (runners : List Runner) (now : ℚ) : List String :=
  runners.map (·.name) ++ unconfigured s runners now

/-- A device with a lease is listed, and more than once only if several runners have its name. -/
theorem count_names (h : r ∈ leased s now) (own : r.device = some name) :
    (names s runners now).count name = max 1 ((runners.map (·.name)).count name) := by
  rw [names, List.count_append]
  by_cases configured : name ∈ runners.map (·.name)
  · have absent : name ∉ unconfigured s runners now :=
      fun member => (mem_unconfigured.mp member).2 configured
    rw [List.count_eq_zero.mpr absent]
    have some_ := List.count_pos_iff.mpr configured
    omega
  · have present : name ∈ unconfigured s runners now :=
      mem_unconfigured.mpr ⟨Or.inl ⟨r, h, own⟩, configured⟩
    rw [List.count_eq_zero.mpr configured, List.count_eq_one_of_mem
      (unconfigured_nodup s runners now) present]
    rfl

theorem activeLeases_ids (s : Store) (now : ℚ) (name : String) :
    ((activeLeases s now name).map (·.jobId)).Perm
    (((leased s now).filter (·.device = some name)).map (·.id)) := by
  have sorted := (List.perm_insertionSort (fun a b : Lease => a.leaseExpires ≤ b.leaseExpires)
    (((leased s now).filter (·.device = some name)).map (leaseOf now))).map (·.jobId)
  rwa [List.map_map] at sorted

theorem devices_ids (s : Store) (runners : List Runner) (now : ℚ) :
    (((devices s runners now).flatMap (·.leases)).map (·.jobId)).Perm
      ((names s runners now).flatMap fun name => ((leased s now).filter (·.device = some name)).map
      (·.id)) := by
  have listed : (devices s runners now).flatMap (·.leases) = (names s runners now).flatMap
      (activeLeases s now) := by
    rw [devices, names, List.flatMap_append, List.flatMap_append, List.flatMap_map,
      List.flatMap_map, List.flatMap_map]
    rfl
  rw [listed, List.map_flatMap]
  exact List.Perm.flatMap_left _ fun name _ => activeLeases_ids s now name

/-- The runs counted as running are the leases that are listed, each once and against the slots of
its device, and no job counted as pending is. -/
structure CountedOnce (snapshot : PoolSnapshot) (s : Store) (now : ℚ) : Prop where
  running : snapshot.queueDepth .running = (countedRunning s now).length
  pending : snapshot.queueDepth .pending = (waitingRows s now).length
  listed : ((snapshot.devices.flatMap (·.leases)).map (·.jobId)).Perm ((countedRunning s now).map (·.id))
  slots : ∀ d ∈ snapshot.devices, d.availableSlots = if d.agentOnline then d.maxConcurrency.map
      fun limit =>
    max 0 (limit - ((countedRunning s now).countP (·.device = some d.name) : Int)) else none
  apart : ∀ r ∈ waitingRows s now, r.id ∉ (snapshot.devices.flatMap (·.leases)).map (·.jobId)

/-- A row that a snapshot can list, and lists once. -/
def Listable (runners : List Runner) (now : ℚ) (r : Row) : Prop :=
  (∃ expires, r.leaseExpires = some expires ∧ now < expires) ∧
    ∃ device, r.device = some device ∧ device ≠ "" ∧ (runners.map (·.name)).count device ≤ 1

theorem countP_named (own : r.device = some name) (names : List String) :
    names.countP (r.device = some ·) = names.count name := by
  rw [List.count_eq_countP]
  refine List.countP_congr fun other _ => ?_
  rw [own, decide_eq_true_eq, Option.some.injEq, beq_iff_eq]
  exact eq_comm

theorem counted_leased (h : r ∈ countedRunning s now) (listable : Listable runners now r) :
    r ∈ leased s now := by
  obtain ⟨there, running⟩ := List.mem_filter.mp h
  obtain ⟨live, device, own, named, -⟩ := listable
  rw [Bool.and_eq_true, decide_eq_true_eq] at running
  exact mem_leased.mpr ⟨there, running.1, live, device, own, named⟩

theorem leased_congr {t : Store} (jobs : t.jobs = s.jobs) (now : ℚ) : leased t now = leased s now := by
  rw [leased, leased, jobs]

theorem listed_iff {t : Store} (jobs : t.jobs = s.jobs) (runners : List Runner) (now : ℚ) :
    (((devices t runners now).flatMap (·.leases)).map (·.jobId)).Perm
      ((countedRunning s now).map (·.id)) ↔
      ∀ r ∈ countedRunning s now, Listable runners now r := by
  have part : ∀ x ∈ countedRunning s now, x ∈ s.jobs.rows := fun x inside => (List.mem_filter.mp inside).1
  rw [(devices_ids t runners now).congr_left, leased_congr jobs now, List.perm_iff_count]
  constructor
  · intro same r counted
    have once := same r.id
    rw [count_leases _ (part r counted), (countedRunning_nodup s now).count,
      if_pos (List.mem_map_of_mem counted)] at once
    split at once
    · rename_i listed
      obtain ⟨-, -, live, device, own, named⟩ := mem_leased.mp listed
      rw [countP_named own, count_names (leased_congr jobs now ▸ listed) own] at once
      exact ⟨live, device, own, named, by omega⟩
    · cases once
  · intro listable id
    by_cases known : ∃ r ∈ s.jobs.rows, r.id = id
    · obtain ⟨r, there, rfl⟩ := known
      rw [count_leases _ there, (countedRunning_nodup s now).count]
      by_cases counted : r ∈ countedRunning s now
      · have listed := counted_leased counted (listable r counted)
        obtain ⟨-, device, own, -, few⟩ := listable r counted
        rw [if_pos listed, if_pos (List.mem_map_of_mem counted), countP_named own,
          count_names (leased_congr jobs now ▸ listed) own]
        omega
      · have absent : r.id ∉ (countedRunning s now).map (·.id) :=
          fun member => counted ((id_mem part there).mp member)
        rw [if_neg fun listed => counted (leased_counted listed), if_neg absent]
    · have absent : ∀ rows : List Row, (∀ x ∈ rows, x ∈ s.jobs.rows) → id ∉ rows.map (·.id) := by
        intro rows inside member
        obtain ⟨x, inRows, same⟩ := List.mem_map.mp member
        exact known ⟨x, inside x inRows, same⟩
      rw [List.count_eq_zero.mpr (absent _ part), List.count_eq_zero.mpr]
      intro member
      obtain ⟨name, -, inLeases⟩ := List.mem_flatMap.mp member
      exact absent _ (fun x inside => (mem_leased.mp (List.mem_filter.mp inside).1).1) inLeases

theorem slots_listed {t : Store} (jobs : t.jobs = s.jobs) {d : PoolDevice}
    (listable : ∀ r ∈ countedRunning s now, Listable runners now r) (h : d ∈ devices t runners now) :
    d.leases.length = (countedRunning s now).countP (·.device = some d.name) := by
  have own : d.leases = activeLeases t now d.name := by
    obtain ⟨runner, read⟩ := devices_read h
    rw [read]
    rfl
  have length := (activeLeases_ids t now d.name).length_eq
  rw [List.length_map, List.length_map, leased_congr jobs, ← List.countP_eq_length_filter] at length
  rw [own, length, leased, countedRunning, List.countP_filter, List.countP_filter]
  refine List.countP_congr fun r there => ?_
  refine (Bool.and_eq_true_iff.trans ?_).trans Bool.and_eq_true_iff.symm
  constructor
  · rintro ⟨on, live⟩
    exact ⟨on, (List.mem_filter.mp (leased_counted (List.mem_filter.mpr ⟨there, live⟩))).2⟩
  · rintro ⟨on, counted⟩
    have row : r ∈ countedRunning s now := List.mem_filter.mpr ⟨there, counted⟩
    exact ⟨on, (List.mem_filter.mp (counted_leased row (listable r row))).2⟩

theorem availableSlots_of_mem {d : PoolDevice} (h : d ∈ devices s runners now) : d.availableSlots =
    if d.agentOnline then d.maxConcurrency.map fun limit =>
      max 0 (limit - (d.leases.length : Int)) else none := by
  obtain ⟨runner, read⟩ := devices_read h
  rw [read]
  rfl

/-- A snapshot counts each running run once exactly when it can list every row it counts. -/
theorem counted_once_iff (s : Store) (runners : List Runner) (now : ℚ) :
    CountedOnce (poolSnapshot s runners now) s now ↔ ∀ r ∈ countedRunning s now,
    Listable runners now r := by
  have jobs : (s.pruneAgents now).jobs = s.jobs := rfl
  constructor
  · intro counted
    exact (listed_iff jobs runners now).mp counted.listed
  · intro listable
    refine ⟨depth_running s now, depth_pending s now, (listed_iff jobs runners now).mpr listable,
      fun d member => ?_, ?_⟩
    · rw [availableSlots_of_mem member, slots_listed jobs listable member]
    · intro r waiting member
      have member := (devices_ids (s.pruneAgents now) runners now).mem_iff.mp member
      obtain ⟨name, -, inLeases⟩ := List.mem_flatMap.mp member
      obtain ⟨x, inside, same⟩ := List.mem_map.mp inLeases
      have listed := (List.mem_filter.mp inside).1
      have equal := Table.eq_of_key (mem_leased.mp listed).1 (List.mem_filter.mp waiting).1 same
      exact waiting_not_leased waiting (equal ▸ listed)

/-- A device that announces itself, and whose lease has lapsed but is not spent. -/
def graceStore : Store :=
  [.enqueue ⟨"org/app", "sha1", "main", ["ci"], [], 3600, none, none⟩ "job1" 100,
    .recordHeartbeat ⟨"device-alpha", ["arm64"], 2, 130, []⟩,
    .claim "device-alpha" [] 30 100 none].foldl Store.apply Store.empty

theorem run_in_grace_not_listed :
    (poolSnapshot graceStore [] 140).queueDepth .running = 1 ∧
      ((poolSnapshot graceStore [] 140).devices.map fun d => (d.name, d.activeJobs, d.availableSlots)) =
        [("device-alpha", 0, some 2)] ∧
      ¬CountedOnce (poolSnapshot graceStore [] 140) graceStore 140 := by
  have counted : (countedRunning graceStore 140).length = 1 := by decide +kernel
  have listed : ((poolSnapshot graceStore [] 140).devices.flatMap (·.leases)).length = 0 := by
    decide +kernel
  refine ⟨by decide +kernel, by decide +kernel, fun once => ?_⟩
  have same := once.listed.length_eq
  rw [List.length_map, List.length_map, counted, listed] at same
  cases same

end Cindral.Pool

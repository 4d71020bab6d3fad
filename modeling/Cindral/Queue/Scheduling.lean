import Cindral.Queue.Frame
import Mathlib.Tactic.Linarith

/-! Which run a claim takes, and how many runs one repository can hold at once. -/

namespace Cindral.Queue
open Base

/-- A row a claim may take: waiting, past its back-off, within the labels, its repository under the
limit. -/
structure Eligible (s : Store) (labels : List String) (limit : Int) (now : ℚ) (r : Row) : Prop where
  row : r ∈ s.jobs.rows
  pending : r.status = .pending
  available : ∀ from_ ∈ r.availableAt, from_ ≤ now
  labelled : r.labels ⊆ labels
  below : (s.active r.repository : Int) < limit

/-- A call that hands out work does so under the limit. -/
def Store.Op.ClaimsAt (limit : Int) : Store.Op → Prop
  | .claim _ _ _ _ given => given = some limit
  | _ => True

namespace Store
variable {s t : Store} {r : Row} {now : ℚ} {labels : List String} {limit : Int}

theorem mem_eligible : r ∈ ((s.claimable now).filter fun r =>
      r.labels.all (· ∈ labels) && (some limit).all ((s.active r.repository : Int) < ·)) ↔
    Eligible s labels limit now r := by
  simp only [claimable, List.mem_filter, List.mem_insertionSort, Bool.and_eq_true,
    decide_eq_true_eq, List.all_eq_true,
    Option.all_some]
  constructor
  · rintro ⟨⟨member, pending, available⟩, labelled, below⟩
    refine ⟨member, pending, fun from_ given => ?_, fun label inside => labelled label inside, below⟩
    rw [Option.mem_def.mp given] at available
    exact of_decide_eq_true available
  · rintro ⟨member, pending, available, labelled, below⟩
    refine ⟨⟨member, pending, ?_⟩, fun label inside => labelled inside, below⟩
    cases given : r.availableAt with
    | none => rfl
    | some from_ => exact decide_eq_true (available from_ given)

theorem pickJob_none : s.pickJob (s.claimable now) labels (some limit) = none ↔
    ∀ r, ¬Eligible s labels limit now r := by
  unfold pickJob
  rw [List.argmin_eq_none, List.eq_nil_iff_forall_not_mem]
  exact forall_congr' fun r => mem_eligible.not

/-- The picked row is eligible and every other eligible row ranks strictly above it. -/
theorem pickJob_least (h : s.pickJob (s.claimable now) labels (some limit) = some r) :
    Eligible s labels limit now r ∧ ∀ x, Eligible s labels limit now x → x ≠ r → s.rank r < s.rank x := by
  have chosen := Option.mem_def.mpr h
  have eligible := mem_eligible.mp (List.argmin_mem chosen)
  refine ⟨eligible, fun x other distinct => lt_of_le_of_ne ?_ fun same => distinct ?_⟩
  · exact List.le_of_mem_argmin (mem_eligible.mpr other) chosen
  · have ids : r.id = x.id := congrArg (fun k : ℕ ×ₗ ℚ ×ₗ String => (ofLex (ofLex k).2).2) same
    exact (Table.eq_of_key eligible.row other.row ids).symm

theorem claim_ok (s : Store) (device : String) (labels : List String) (now : ℚ) {leaseSeconds : Int}
    (lease : 0 < leaseSeconds) (positive : 0 < limit) :
    ∃ job t, s.claim device labels leaseSeconds now (some limit) = .ok (job, t) := by
  unfold claim
  rw [if_neg (not_le.mpr lease), if_neg (by simp [positive])]
  cases s.pickJob (s.claimable now) labels (some limit) <;> exact ⟨_, _, rfl⟩

/-- The row of a run a device took at an instant: running there under a fresh lease, one attempt on. -/
def Started (device : String) (leaseSeconds : Int) (now : ℚ) (r r' : Row) : Prop :=
  r' = { r with
    status := .running, device := some device, leaseExpires :=
    some (now + leaseSeconds), attempts := r.attempts + 1 }

/-- What a claim hands out, and what it does to the rows. -/
structure Claimed (s : Store) (device : String) (labels : List String) (leaseSeconds : Int)
    (now : ℚ) (limit : Int)
    (r r' : Row) (job : Job) (t : Store) : Prop where
  eligible : Eligible s labels limit now r
  least : ∀ x, Eligible s labels limit now x → x ≠ r → s.rank r < s.rank x
  started : Started device leaseSeconds now r r'
  handed : job = r'.job
  marked : t.row? r.id = some r'
  others : ∀ id, id ≠ r.id → t.row? id = s.row? id

theorem claim_claimed {device : String} {leaseSeconds : Int} {job : Job}
    (h : s.claim device labels leaseSeconds now (some limit) = .ok (some job, t)) :
    ∃ r r', Claimed s device labels leaseSeconds now limit r r' job t := by
  obtain ⟨-, -, ⟨-, absent, -⟩ | ⟨r, chosen, handed, rfl⟩⟩ := claim_cases h
  · cases absent
  · obtain ⟨eligible, least⟩ := pickJob_least chosen
    refine ⟨r, Row.taken device (now + leaseSeconds) r, eligible, least, rfl, Option.some.inj handed, ?_,
      fun id other => ?_⟩
    · rw [row?_updateWhere, row?_of_mem eligible.row]
      simp [eligible.pending]
    · rw [row?_updateWhere]
      cases found : s.row? id with
      | none => rfl
      | some x =>
        obtain ⟨-, rfl⟩ := row?_some found
        simp [other]

/-! The repository limit over a whole run. -/

/-- A row step other than a claim never turns a row running. -/
theorem step_not_started {op : Op} {r' : Row} (step : RowStep s op r r')
    (running : r'.status = .running) :
    r.status = .running ∨ ∃ device labels leaseSeconds now limit, op = .claim device labels
      leaseSeconds now limit ∧
      s.pickJob (s.claimable now) labels limit = some r := by
  cases step with
  | taken _ chosen _ => exact Or.inr ⟨_, _, _, _, _, rfl, chosen⟩
  | same => exact Or.inl running
  | renewed _ _ was _ _ | failed _ was _ _ _ | settled _ was _ _ _ _ | lapsed was _ => exact Or.inl was
  | drained _ | restored _ _ _ | owed _ | cleared _ => exact Or.inl running

theorem step_repository {op : Op} {r' : Row} (step : RowStep s op r r') :
    r'.repository = r.repository := by
  cases step <;> rfl

/-- The rows running in one repository grow by the picked row at most. -/
theorem active_apply_le {op : Op} (claims : op.ClaimsAt limit) (repository : String)
    (before : (s.active repository : Int) ≤ limit) : ((s.apply op).active repository : Int) ≤ limit := by
  rcases apply_rows s op with ⟨req, jobId, now, -, -, rows⟩ | ⟨e, rows, each⟩
  · have same : (s.apply op).active repository = s.active repository := by
      simp [active, rows, EnqueueRequest.row]
    rw [same]
    exact before
  · have running : ∀ r ∈ s.jobs.rows, ((e r).status = .running && (e r).repository = repository) = true →
        (r.status = .running && r.repository = repository) = true ∨ ∃ device labels leaseSeconds now,
          op = .claim device labels leaseSeconds now (some limit) ∧
            s.pickJob (s.claimable now) labels (some limit) = some r ∧ r.repository = repository := by
      intro r member hit
      simp only [Bool.and_eq_true, decide_eq_true_eq, step_repository (each r member)] at hit ⊢
      rcases step_not_started (each r member) hit.1 with was |
        ⟨device, labels, leaseSeconds, now, given, rfl, chosen⟩
      · exact Or.inl ⟨was, hit.2⟩
      · obtain rfl : given = some limit := claims
        exact Or.inr ⟨device, labels, leaseSeconds, now, rfl, chosen, hit.2⟩
    have counted : (s.apply op).active repository =
        s.jobs.rows.countP fun r => (e r).status = .running && (e r).repository = repository := by
      rw [active, rows, List.countP_map]
      rfl
    by_cases claimed : ∃ device labels leaseSeconds now picked,
        op = .claim device labels leaseSeconds now (some limit) ∧
          s.pickJob (s.claimable now) labels (some limit) = some picked ∧ picked.repository = repository
    · obtain ⟨device, labels, leaseSeconds, now, picked, rfl, chosen, rfl⟩ := claimed
      have one_more : (s.apply (.claim device labels leaseSeconds now (some limit))).active
          picked.repository ≤
          s.active picked.repository + 1 := by
        rw [counted]
        refine (Table.countP_le_succ picked.id fun r member hit => ?_)
        rcases running r member hit with was | ⟨_, _, _, _, same, again, -⟩
        · exact Or.inl was
        · cases same
          exact Or.inr (congrArg Row.id (Option.some.inj (again.symm.trans chosen)))
      have below := (pickJob_least chosen).1.below
      omega
    · have fewer : (s.apply op).active repository ≤ s.active repository := by
        rw [counted]
        refine List.countP_mono_left fun r member hit => ?_
        rcases running r member hit with was | ⟨device, labels, leaseSeconds, now, same, chosen, here⟩
        · exact was
        · exact absurd ⟨device, labels, leaseSeconds, now, r, same, chosen, here⟩ claimed
      omega

theorem runs_active_le (ops : List Op) (claims : ∀ op ∈ ops, op.ClaimsAt limit)
    (start : ∀ repository, (s.active repository : Int) ≤ limit) (repository : String) :
    ((ops.foldl apply s).active repository : Int) ≤ limit := by
  induction ops generalizing s with
  | nil => exact start repository
  | cons op rest ih =>
    exact ih (fun op member => claims op (List.mem_cons_of_mem _ member))
      fun repository => active_apply_le (claims op List.mem_cons_self) repository (start repository)

/-- A claim takes the least eligible row and nothing else, and so no repository ever runs more than
the limit. -/
theorem claim_fair_and_capped (limit : Int) (positive : 0 < limit) :
    (∀ (s : Store) device labels leaseSeconds (now : ℚ), 0 < leaseSeconds →
      ∃ job t, s.claim device labels leaseSeconds now (some limit) = .ok (job, t) ∧
        (job = none ↔ ∀ r, ¬Eligible s labels limit now r) ∧
        (job = none → t = s) ∧
        ∀ j, job = some j → ∃ r r', Claimed s device labels leaseSeconds now limit r r' j t) ∧
      ∀ ops : List Op, (∀ op ∈ ops, op.ClaimsAt limit) →
        ∀ repository, ((ops.foldl apply empty).active repository : Int) ≤ limit := by
  refine ⟨fun s device labels leaseSeconds now lease => ?_, fun ops claims =>
    runs_active_le ops claims fun _ => positive.le⟩
  obtain ⟨job, t, done⟩ := claim_ok s device labels now lease positive
  refine ⟨job, t, done, ?_, ?_, ?_⟩
  · rw [← pickJob_none]
    obtain ⟨-, -, ⟨absent, rfl, -⟩ | ⟨r, chosen, rfl, -⟩⟩ := claim_cases done
    · exact iff_of_true rfl absent
    · exact iff_of_false (by simp) (by simp [chosen])
  · rintro rfl
    obtain ⟨-, -, ⟨-, -, same⟩ | ⟨r, -, handed, -⟩⟩ := claim_cases done
    · exact same
    · cases handed
  · rintro j rfl
    exact claim_claimed done

def twoRuns : List Op :=
  [.enqueue { repository := "acme/app", sha := "c0ffee", ref := "main" } "a" 0,
    .enqueue { repository := "acme/app", sha := "c0ffee", ref := "main" } "b" 1]

def miniClaims : Op := .claim "mini" ["macos"] 300 2 (some 1)

/-- Under a limit of one the first claim starts the older run for five minutes, and the second finds
nothing it may take. -/
theorem twoRuns_capped :
    ∃ (r r' : Row) (job : Job) (t : Store), (twoRuns.foldl apply empty).claim "mini" ["macos"] 300 2
      (some 1) = .ok (some job, t) ∧
      r.id = "a" ∧ t.row? "a" = some r' ∧ r'.status = .running ∧ r'.device = some "mini" ∧
      r'.leaseExpires = some 302 ∧
      r'.attempts = r.attempts + 1 ∧ job = r'.job ∧ t.claim "nano" ["macos"] 300 3 (some 1) = .ok
      (none, t) ∧
      (t.active "acme/app" : Int) ≤ 1 := by
  obtain ⟨fair, capped⟩ := claim_fair_and_capped 1 (by decide)
  have first : ((twoRuns.foldl apply empty).claim "mini" ["macos"] 300 2 (some 1)).toOption.bind
      (fun x => x.1.map Job.id) = some "a" := by decide +kernel
  have second : (((twoRuns ++ [miniClaims]).foldl apply empty).claim "nano" ["macos"] 300 3
      (some 1)).toOption.map (fun x => x.1.isNone) = some true := by decide +kernel
  obtain ⟨job, t, done, -, -, handed⟩ :=
    fair (twoRuns.foldl apply empty) "mini" ["macos"] 300 2 (by decide)
  rw [done] at first
  obtain ⟨job, rfl, named⟩ := Option.map_eq_some_iff.mp first
  obtain ⟨r, r', claimed⟩ := handed job rfl
  have state : (twoRuns ++ [miniClaims]).foldl apply empty = t := by
    rw [List.foldl_append]
    simp only [List.foldl_cons, List.foldl_nil, miniClaims, apply, done, kept]
  obtain ⟨none_left, u, again, -, same, -⟩ := fair t "nano" ["macos"] 300 3 (by decide)
  rw [state, again] at second
  obtain rfl : none_left = none := by simpa [Except.toOption] using second
  have shape := claimed.started
  subst shape
  have here : r.id = "a" := by rw [← named, claimed.handed]; rfl
  refine ⟨r, _, job, t, done, here, here ▸ claimed.marked, rfl,
    rfl, by norm_num, rfl, claimed.handed, ?_, ?_⟩
  · rw [again, same rfl]
  · rw [← state]
    exact capped _ (by simp [twoRuns, miniClaims, Op.ClaimsAt]) "acme/app"

end Store
end Cindral.Queue

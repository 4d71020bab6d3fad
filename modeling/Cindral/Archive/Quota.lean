import Cindral.Archive.Agreement

/-!
# What a put leaves within the quotas

A put that stores an archive evicts, in the repository and then overall, the shortest part of the
rows from the oldest on that brings the rest under the quota. A put that finds its job's archive
standing evicts nothing.
-/

namespace Cindral.Archive
open Base

namespace Artifacts
variable {t : Artifacts} {limits : Limits} {repository : String}

theorem sizes_perm (xs ys : List Artifact) (h : xs.Perm ys) : sizes xs = sizes ys :=
  (h.map Artifact.size).sum_nat

/-- One pass takes the rows of its scope from the oldest on, and no more than brings the rest under
the quota, however long the loop may run. -/
structure Evicted (repository : Option String) (quota : Nat) (t kept : Artifacts)
    (gone : List Artifact) : Prop where
  ends : ∀ fuel ≥ t.rows.length, t.evict (quotaOf repository quota) fuel = (kept, gone)
  left : ∃ rest, rest.Perm (kept.rows.filter fun a => repository.all (a.repository = ·)) ∧
    Table.ShortestFirst (quotaOf repository quota)
    (t.rows.filter fun a => repository.all (a.repository = ·)) gone rest
  others : ∀ a ∈ t.rows, a ∉ gone → a ∈ kept.rows

theorem evictToQuota_evicted (t : Artifacts) (repository : Option String) (quota : Nat) :
    ∃ gone, Evicted repository quota t (t.evictToQuota repository quota).1 gone := by
  obtain ⟨gone, evicts, -⟩ := evictToQuota_evicts t repository quota
  refine ⟨gone, ?_, Table.evicts_shortest sizes_perm (rank_distinct t) evicts, fun a there stays => ?_⟩
  · intro fuel enough
    rw [Table.evict_stable (Nat.zero_le _) enough]
    have same :=
      (Table.evicts_unique evicts
      (Table.evicts_evict (Nat.zero_le _) (Nat.le_refl t.rows.length))).2
    rw [same]
    rfl
  · by_contra dropped
    exact stays ((Table.mem_gone evicts).mpr ⟨there, dropped⟩)

theorem Evicted.within {scope : Option String} {quota : Nat} {kept : Artifacts} {gone : List Artifact}
    (h : Evicted scope quota t kept gone) :
    sizes (kept.rows.filter fun a => scope.all (a.repository = ·)) ≤ quota := by
  obtain ⟨rest, perm, shortest⟩ := h.left
  rw [← sizes_perm _ _ perm]
  exact shortest.fits

def Within (limits : Limits) (repository : String) (rows : List Artifact) : Prop :=
  sizes (rows.filter (·.repository = repository)) ≤ limits.repositoryQuota ∧
  sizes rows ≤ limits.storageQuota

theorem enforceQuota_within (t : Artifacts) :
    Within limits repository (t.enforceQuota limits repository).1.rows := by
  obtain ⟨_, first⟩ := evictToQuota_evicted t (some repository) limits.repositoryQuota
  obtain ⟨_, second⟩ := evictToQuota_evicted
    (t.evictToQuota (some repository) limits.repositoryQuota).1 none limits.storageQuota
  obtain ⟨_, evicts, -⟩ := evictToQuota_evicts
    (t.evictToQuota (some repository) limits.repositoryQuota).1 none limits.storageQuota
  obtain ⟨p, rows⟩ := Table.rows_of_evicts evicts
  have fewer : (t.enforceQuota limits repository).1.rows.Sublist
      (t.evictToQuota (some repository) limits.repositoryQuota).1.rows := by
    rw [show (t.enforceQuota limits repository).1.rows = _ from rows]
    exact List.filter_sublist
  constructor
  · exact (sizes_mono (fewer.filter _)).trans first.within
  · have overall := second.within
    rwa [show (fun a : Artifact => (none : Option String).all (a.repository = ·)) = fun _ =>
      true from rfl, List.filter_true]
      at overall

end Artifacts

namespace ArtifactStore
variable {sha256 : Bytes → String} {limits : Limits}

theorem put_publish {s t : ArtifactStore} {jobId repository : String} {source : List Bytes}
    {contentLength : Int} {now : ℚ}
    {answer : Artifact × Bool} (stored : s.put sha256 limits jobId repository source contentLength
    now = .ok (answer, t)) :
    ∃ body, receive limits jobId source contentLength = .ok body ∧
      s.publish sha256 limits jobId repository body now = (answer, t) := by
  unfold put at stored
  cases received : receive limits jobId source contentLength with
  | error e =>
    rw [received] at stored
    cases stored
  | ok body =>
    rw [received] at stored
    exact ⟨body, rfl, Except.ok.inj stored⟩

/-- A put that stores an archive leaves both quotas held, by the shortest evictions that do. One
that finds its job's archive standing drops no row whose time is not up. -/
theorem put_within_quotas (sha256 : Bytes → String) (limits : Limits) (s t : ArtifactStore)
    (jobId repository : String)
    (source : List Bytes) (contentLength : Int) (now : ℚ) (record : Artifact) (created : Bool)
    (stored : s.put sha256 limits jobId repository source contentLength now = .ok
    ((record, created), t)) :
    (created = true →
      Artifacts.Within limits repository t.rows.rows ∧
      ∃ inserted middle fromRepository overall, inserted.rows = s.rows.rows.filter
        (now < ·.expiresAt) ++ [record] ∧
        Artifacts.Evicted (some repository) limits.repositoryQuota inserted middle fromRepository ∧
        Artifacts.Evicted none limits.storageQuota middle t.rows overall) ∧
    (created = false →
      t.rows.rows = s.rows.rows.filter (now < ·.expiresAt) ∧
      (Artifacts.Within limits repository s.rows.rows → Artifacts.Within limits repository
      t.rows.rows)) := by
  obtain ⟨body, -, published⟩ := put_publish stored
  cases found : (Artifacts.expire s.rows now).1.find? jobId with
  | some existing =>
    rw [publish_standing found] at published
    obtain ⟨answer, rfl⟩ := Prod.mk.inj published
    obtain ⟨rfl, rfl⟩ := Prod.mk.inj answer
    have rows : (s.look jobId now).2.rows.rows = s.rows.rows.filter (now < ·.expiresAt) :=
      Artifacts.rows_expire s.rows now
    refine ⟨fun no => absurd no Bool.false_ne_true, fun _ => ⟨rows, fun held => ?_⟩⟩
    rw [rows]
    exact ⟨(Artifacts.sizes_mono (List.filter_sublist.filter _)).trans held.1,
      (Artifacts.sizes_mono List.filter_sublist).trans held.2⟩
  | none =>
    obtain ⟨inserted, fresh, state⟩ := publish_fresh sha256 limits repository body found
    rw [state] at published
    obtain ⟨answer, rfl⟩ := Prod.mk.inj published
    obtain ⟨rfl, rfl⟩ := Prod.mk.inj answer
    refine ⟨fun _ => ⟨Artifacts.enforceQuota_within inserted, inserted, ?_⟩, fun no =>
      absurd no.symm Bool.false_ne_true⟩
    obtain ⟨fromRepository, first⟩ :=
      Artifacts.evictToQuota_evicted inserted (some repository) limits.repositoryQuota
    obtain ⟨overall, second⟩ :=
      Artifacts.evictToQuota_evicted (Artifacts.evictToQuota inserted (some repository)
      limits.repositoryQuota).1 none limits.storageQuota
    refine ⟨_, fromRepository, overall, ?_, first, second⟩
    rw [Table.rows_insert fresh, Artifacts.rows_expire]

def smallLimits : Limits := { repositoryQuota := 3, storageQuota := 3, positive := by decide }

def someJob : String := "0123456789abcdef0123456789abcdef"

def rowOf (jobId : String) (size : Nat) (createdAt : ℚ) : Artifact :=
  { jobId, repository := "acme/app", name := jobId ++ artifactSuffix, size, digest := "", createdAt,
      expiresAt := createdAt + 1000 }

/-- Four bytes of one job, stored under larger quotas. -/
def heavyStore : ArtifactStore :=
  ⟨⟨[rowOf someJob 4 0], List.nodup_singleton _⟩, Directory.empty.install someJob [1, 2, 3, 4]⟩

/-- Two bytes of a job of the repository, and two of another repository's. -/
def sharedStore : ArtifactStore where
  rows := ⟨[rowOf "a" 2 0, { rowOf "b" 2 1 with repository := "acme/lib" }], by decide⟩
  archives := (Directory.empty.install "a" [1, 2]).install "b" [3, 4]

/-- The repository's quota evicts its older archive, and the quota of the storage the other
repository's. -/
theorem sharedStore_put_within : ∃ record t,
    sharedStore.put (fun _ => "") smallLimits someJob "acme/app" [[5, 6]] 2 2 = .ok ((record, true), t) ∧
      t.rows.rows.map (·.jobId) = [someJob] ∧ Artifacts.Within smallLimits "acme/app" t.rows.rows ∧
      ∃ inserted middle fromRepository overall,
        inserted.rows = sharedStore.rows.rows.filter (2 < ·.expiresAt) ++ [record] ∧
        Artifacts.Evicted (some "acme/app") 3 inserted middle fromRepository ∧
        Artifacts.Evicted none 3 middle t.rows overall := by
  obtain ⟨record, t, stored, kept⟩ : ∃ record t,
      sharedStore.put (fun _ => "") smallLimits someJob "acme/app" [[5, 6]] 2 2 = .ok
        ((record, true), t) ∧
        t.rows.rows.map (·.jobId) = [someJob] := by
    have outcome :
        ((sharedStore.put (fun _ => "") smallLimits someJob "acme/app" [[5, 6]] 2 2).toOption.map
        fun x =>
        (x.1.2, x.2.rows.rows.map (·.jobId))) = some (true, [someJob]) := by decide +kernel
    cases stored : sharedStore.put (fun _ => "") smallLimits someJob "acme/app" [[5, 6]] 2 2 with
    | error e =>
      rw [stored] at outcome
      cases outcome
    | ok answer =>
      obtain ⟨⟨record, created⟩, t⟩ := answer
      rw [stored] at outcome
      obtain ⟨rfl, kept⟩ := Prod.mk.inj (Option.some.inj outcome)
      exact ⟨record, t, rfl, kept⟩
  obtain ⟨within, evicted⟩ :=
    (put_within_quotas _ smallLimits sharedStore t someJob "acme/app" _ 2 2 record true stored).1
    rfl
  exact ⟨record, t, stored, kept, within, evicted⟩

theorem standing_put_over_quota :
    ¬∀ (sha256 : Bytes → String) (limits : Limits) (s t : ArtifactStore) (jobId repository : String)
      (source : List Bytes)
      (contentLength : Int) (now : ℚ) (answer : Artifact × Bool),
      s.put sha256 limits jobId repository source contentLength now = .ok (answer, t) →
      Artifacts.Within limits repository t.rows.rows := by
  intro within
  have standing : ∃ answer t, heavyStore.put (fun _ => "") smallLimits someJob "acme/app" [] 0
      0 = .ok (answer, t) ∧
      Artifacts.sizes t.rows.rows = 4 := ⟨_, _, rfl, by decide +kernel⟩
  obtain ⟨answer, t, stored, sizes⟩ := standing
  have overall := (within _ _ _ _ _ _ _ _ _ _ stored).2
  rw [sizes] at overall
  exact absurd overall (by decide)

end ArtifactStore
end Cindral.Archive

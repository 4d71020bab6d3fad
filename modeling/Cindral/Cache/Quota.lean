import Cindral.Cache.Store
import Mathlib.Algebra.BigOperators.Group.Finset.Basic
import Mathlib.Algebra.Order.BigOperators.Group.Finset
import Mathlib.Data.List.MinMax

/-! What the quotas of the cache count, and what an eviction leaves of them. -/

namespace Cindral.Cache
open Base
namespace Entries
variable {limits : Limits} {t u : Entries} {xs ys rows : List CacheRow} {e x : CacheRow} {now : ℚ}

theorem rows_expire (limits : Limits) (t : Entries) (now : ℚ) :
    (t.expire limits now).1.rows = t.rows.filter fun e => now - limits.ttlSeconds ≤ e.accessedAt :=
  List.filter_congr fun e _ => by simp [← not_lt]

theorem mem_expire : e ∈ (t.expire limits now).1.rows ↔ e ∈ t.rows ∧
    now - limits.ttlSeconds ≤ e.accessedAt := by
  rw [rows_expire, List.mem_filter, decide_eq_true_eq]

theorem rows_unexpired (none_late : (t.expire limits now).2 = false) :
    (t.expire limits now).1.rows = t.rows := by
  refine List.filter_eq_self.mpr fun e there => ?_
  rw [Bool.not_eq_true']
  exact Bool.eq_false_iff.mpr fun late => Bool.eq_false_iff.mp none_late
    (List.any_eq_true.mpr ⟨e, there, late⟩)

def digests (rows : List CacheRow) : Finset Digest := (rows.map (·.digest)).toFinset

theorem mem_digests {d : Digest} : d ∈ digests rows ↔ ∃ e ∈ rows, e.digest = d := by
  rw [digests, List.mem_toFinset, List.mem_map]

theorem storedBytes_eq (rows : List CacheRow) : storedBytes rows = ∑ d ∈ digests rows, sizeOf rows d := by
  have same : ((rows.map (·.digest)).dedup).toFinset = digests rows := by
    ext d
    rw [List.mem_toFinset, List.mem_dedup, digests, List.mem_toFinset]
  rw [storedBytes, ← List.sum_toFinset _ (List.nodup_dedup _), same]

theorem sizeOf_le {d : Digest} {n : Nat} (h : ∀ e ∈ rows, e.digest = d → e.size ≤ n) :
    sizeOf rows d ≤ n := by
  refine List.max_le_of_forall_le _ n fun size member => ?_
  obtain ⟨e, there, rfl⟩ := List.mem_map.mp member
  obtain ⟨there, same⟩ := List.mem_filter.mp there
  exact h e there (of_decide_eq_true same)

theorem le_sizeOf (there : e ∈ rows) : e.size ≤ sizeOf rows e.digest := by
  refine List.le_max_of_le ?_ le_rfl
  exact List.mem_map_of_mem (List.mem_filter.mpr ⟨there, decide_eq_true rfl⟩)

/-- Fewer rows count for no more. -/
theorem storedBytes_mono (h : xs.Sublist ys) : storedBytes xs ≤ storedBytes ys := by
  rw [storedBytes_eq, storedBytes_eq]
  have fewer : digests xs ⊆ digests ys := fun d member => by
    obtain ⟨e, there, same⟩ := mem_digests.mp member
    exact mem_digests.mpr ⟨e, h.subset there, same⟩
  calc ∑ d ∈ digests xs, sizeOf xs d ≤ ∑ d ∈ digests xs, sizeOf ys d := by
        refine Finset.sum_le_sum fun d _ => sizeOf_le fun e there same => ?_
        rw [← same]
        exact le_sizeOf (h.subset there)
    _ ≤ ∑ d ∈ digests ys, sizeOf ys d := Finset.sum_le_sum_of_subset fewer

/-- The bytes of the blobs that the rows name, each digest once. -/
def heldBytes (blobs : Directory Digest Bytes) (rows : List CacheRow) : Nat :=
  ∑ d ∈ digests rows, ((blobs d).map List.length).getD 0

/-- Where a row tells the length of its blob, the quotas count the blobs. -/
theorem storedBytes_held {blobs : Directory Digest Bytes}
    (h : ∀ e ∈ rows, ∃ body, blobs e.digest = some body ∧ body.length = e.size) :
    storedBytes rows = heldBytes blobs rows := by
  rw [storedBytes_eq, heldBytes]
  refine Finset.sum_congr rfl fun d member => ?_
  obtain ⟨e, there, rfl⟩ := mem_digests.mp member
  obtain ⟨body, found, size⟩ := h e there
  rw [found, Option.map_some, Option.getD_some, size]
  refine Nat.le_antisymm (sizeOf_le fun x other same => ?_) (le_sizeOf there)
  obtain ⟨body', found', size'⟩ := h x other
  rw [same, found] at found'
  obtain rfl := Option.some.inj found'
  rw [← size, size']

theorem storedBytes_map {f : CacheRow → CacheRow} (digest : ∀ e, (f e).digest = e.digest)
    (size : ∀ e, (f e).size = e.size) :
    storedBytes (rows.map f) = storedBytes rows := by
  have names : (rows.map f).map (·.digest) = rows.map (·.digest) := by
    rw [List.map_map]
    exact List.map_congr_left fun e _ => digest e
  have sizes : sizeOf (rows.map f) = sizeOf rows := by
    funext d
    rw [sizeOf, sizeOf, List.filter_map, List.map_map]
    congr 2
    · exact funext size
    · exact List.filter_congr fun e _ => by simp [digest e]
  rw [storedBytes, storedBytes, names, sizes]

@[simp] theorem within_some {repository : String} :
    within (some repository) e = true ↔ e.place.repository = repository := by
  simp [within]

@[simp] theorem within_none : within none e = true := rfl

theorem filter_within_none (rows : List CacheRow) : rows.filter (within none) = rows :=
  List.filter_eq_self.mpr fun _ _ => rfl

structure Within (limits : Limits) (rows : List CacheRow) : Prop where
  repositories : ∀ repository, storedBytes (rows.filter (within (some repository))) ≤
    limits.repositoryQuota
  storage : storedBytes rows ≤ limits.storageQuota

theorem Within.mono (h : Within limits ys) (fewer : xs.Sublist ys) : Within limits xs :=
  ⟨fun repository => (storedBytes_mono (fewer.filter _)).trans (h.repositories repository),
    (storedBytes_mono fewer).trans h.storage⟩

theorem Within.map (h : Within limits rows) {f : CacheRow → CacheRow} (place : ∀ e, (f e).place = e.place)
    (digest : ∀ e, (f e).digest = e.digest) (size : ∀ e, (f e).size = e.size) :
    Within limits (rows.map f) := by
  constructor
  · intro repository
    have same : within (some repository) ∘ f = within (some repository) :=
      funext fun e => by simp [within, place e]
    rw [List.filter_map, storedBytes_map digest size, same]
    exact h.repositories repository
  · rw [storedBytes_map digest size]
    exact h.storage

theorem evictToQuota_evicts (t : Entries) (repository : Option String) (quota : Nat) :
    Table.Evicts (quotaOf repository quota) t (t.evictToQuota repository quota)
      (t.evict (quotaOf repository quota) t.rows.length).2 :=
  Table.evicts_evict (Nat.zero_le _) le_rfl

theorem evictToQuota_sublist (t : Entries) (repository : Option String) (quota : Nat) :
    (t.evictToQuota repository quota).rows.Sublist t.rows := by
  obtain ⟨p, rows⟩ := Table.rows_of_evicts (evictToQuota_evicts t repository quota)
  rw [rows]
  exact List.filter_sublist

theorem enforceQuota_sublist (limits : Limits) (t : Entries) (repository : String) :
    (t.enforceQuota limits repository).rows.Sublist t.rows :=
  (evictToQuota_sublist _ _ _).trans (evictToQuota_sublist _ _ _)

/-- A new row is within the quotas, once those of its repository and of the whole are enforced. -/
theorem enforceQuota_within (h : Within limits t.rows) {row : CacheRow}
    (rows : u.rows = t.rows ++ [row]) :
    Within limits (u.enforceQuota limits row.place.repository).rows := by
  have second : storedBytes ((u.enforceQuota limits row.place.repository).rows.filter
      (within none)) ≤ limits.storageQuota :=
    Table.evicts_fits (evictToQuota_evicts _ none limits.storageQuota)
  rw [filter_within_none] at second
  refine ⟨fun repository => ?_, second⟩
  by_cases own : row.place.repository = repository
  · have first := Table.evicts_fits (evictToQuota_evicts u (some repository) limits.repositoryQuota)
    rw [own]
    exact (storedBytes_mono ((evictToQuota_sublist _ none _).filter _)).trans first
  · -- the new row is of another repository
    have before : u.rows.filter (within (some repository)) = t.rows.filter
        (within (some repository)) := by
      rw [rows, List.filter_append, List.filter_singleton]
      simp [within, own]
    refine (storedBytes_mono ((enforceQuota_sublist limits u _).filter _)).trans ?_
    rw [before]
    exact h.repositories repository

/-- A row that had to go: no row of a scope that is kept was used before it, and the rows of the
scope that were not used before it are over the quota. -/
def Outlived (limits : Limits) (repository : String) (rows kept : List CacheRow) (e : CacheRow) : Prop :=
  ∃ scope quota, (scope, quota) ∈ [(some repository, limits.repositoryQuota),
    (none, limits.storageQuota)] ∧
    within scope e = true ∧ (∀ x ∈ kept, within scope x = true → rank e ≤ rank x) ∧
    quota < storedBytes ((rows.filter (within scope)).filter fun x => rank e ≤ rank x)

theorem enforceQuota_outlived {repository : String} (there : e ∈ t.rows)
    (dropped : e ∉ (t.enforceQuota limits repository).rows) :
    Outlived limits repository t.rows (t.enforceQuota limits repository).rows e := by
  have first := evictToQuota_evicts t (some repository) limits.repositoryQuota
  have second := evictToQuota_evicts (t.evictToQuota (some repository) limits.repositoryQuota) none
    limits.storageQuota
  have mono : ∀ xs ys : List CacheRow, xs.Sublist ys → storedBytes xs ≤ storedBytes ys :=
    fun _ _ => storedBytes_mono
  by_cases stayed : e ∈ (t.evictToQuota (some repository) limits.repositoryQuota).rows
  · obtain ⟨inside, oldest⟩ := Table.evicts_oldest_first second stayed dropped
    refine ⟨none, limits.storageQuota, by simp, inside, oldest, ?_⟩
    refine (Table.evicts_needed mono second stayed dropped).trans_le (storedBytes_mono ?_)
    exact ((evictToQuota_sublist _ _ _).filter _).filter _
  · obtain ⟨inside, oldest⟩ := Table.evicts_oldest_first first there stayed
    refine ⟨some repository, limits.repositoryQuota, by simp, inside, fun x kept own => ?_, ?_⟩
    · exact oldest x ((evictToQuota_sublist _ _ _).subset kept) own
    · exact Table.evicts_needed mono first there stayed

end Entries
end Cindral.Cache

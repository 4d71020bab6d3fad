import Cindral.Archive.Store
import Cindral.Base.Run
import Mathlib.Algebra.Order.BigOperators.Group.List

/-! The rows and the archives agree, and the one upload after which they do not. -/

namespace Cindral.Archive
open Base

namespace Artifacts
variable {t u : Artifacts} {a : Artifact} {jobId j : String} {now : ℚ}

theorem named_job {digest : Option String} {createdAt : Option ℚ}
    (h : named jobId digest createdAt a = true) :
    a.jobId = jobId := by
  simp only [named, Bool.and_eq_true, decide_eq_true_eq] at h
  exact h.1

theorem drop_all (t : Artifacts) (jobId : String) :
    (t.drop jobId none none).1 = Table.remove t jobId := by
  simp [drop, named, Table.remove]

theorem mem_drop {digest : Option String} {createdAt : Option ℚ} :
    a ∈ (t.drop jobId digest createdAt).1.rows ↔ a ∈ t.rows ∧ named jobId digest createdAt a = false := by
  simp [drop, Table.filter]

/-- The path a drop gives back is that of the row it took. -/
theorem mem_drop_unlink {digest : Option String} {createdAt : Option ℚ} :
    j ∈ (t.drop jobId digest createdAt).2.toList ↔
      ∃ a ∈ t.rows, a ∉ (t.drop jobId digest createdAt).1.rows ∧ a.jobId = j := by
  constructor
  · intro removed
    simp only [drop] at removed
    split at removed
    · rename_i some_
      obtain ⟨a, member, hit⟩ := List.any_eq_true.mp some_
      obtain rfl := List.mem_singleton.mp removed
      exact ⟨a, member, fun kept => Bool.false_ne_true ((mem_drop.mp kept).2.symm.trans hit),
        named_job hit⟩
    · cases removed
  · rintro ⟨a, member, gone, rfl⟩
    have hit : named jobId digest createdAt a = true := by
      by_contra other
      exact gone (mem_drop.mpr ⟨member, Bool.not_eq_true _ ▸ other⟩)
    have some_ : t.rows.any (named jobId digest createdAt) = true := List.any_eq_true.mpr ⟨a, member, hit⟩
    simp [drop, some_, named_job hit]

/-- A pass of drops by job takes the rows of these jobs, and gives back the paths of those it found. -/
theorem rows_dropped {ids unlink : List String} :
    let pass := ids.foldl (fun (t, unlink) jobId =>
      let (t, removed) := drop t jobId none none
      (t, unlink ++ removed.toList)) (t, unlink)
    pass.1.rows = t.rows.filter (·.jobId ∉ ids) ∧ ∀ j, j ∈ pass.2 ↔ j ∈ unlink ∨ j ∈ ids ∧
    ∃ a ∈ t.rows, a.jobId = j := by
  induction ids generalizing t unlink with
  | nil => simp
  | cons id rest ih =>
    have first : ∀ a, a ∈ (t.drop id none none).1.rows ↔ a ∈ t.rows ∧ a.jobId ≠ id := fun a => by
      simp [mem_drop, named]
    obtain ⟨rows, paths⟩ := @ih (t.drop id none none).1 (unlink ++ (t.drop id none none).2.toList)
    refine ⟨?_, fun j => ?_⟩
    · rw [List.foldl_cons]
      refine rows.trans ?_
      rw [drop_all, Table.remove, Table.filter, List.filter_filter]
      refine List.filter_congr fun a _ => ?_
      by_cases same : a.jobId = id
      · simp [same]
      · simp [same]
    · rw [List.foldl_cons]
      refine (paths j).trans ?_
      rw [List.mem_append, mem_drop_unlink, List.mem_cons, or_assoc]
      refine or_congr_right ?_
      constructor
      · rintro (⟨a, member, gone, rfl⟩ | ⟨later, a, kept, rfl⟩)
        · refine ⟨Or.inl ?_, a, member, rfl⟩
          by_contra other
          exact gone ((first a).mpr ⟨member, other⟩)
        · exact ⟨Or.inr later, a, ((first a).mp kept).1, rfl⟩
      · rintro ⟨now_ | later, a, member, rfl⟩
        · exact Or.inl ⟨a, member, fun kept => ((first a).mp kept).2 now_, rfl⟩
        · by_cases same : a.jobId = id
          · exact Or.inl ⟨a, member, fun kept => ((first a).mp kept).2 same, rfl⟩
          · exact Or.inr ⟨later, a, (first a).mpr ⟨member, same⟩, rfl⟩

theorem rows_expire (t : Artifacts) (now : ℚ) :
    (t.expire now).1.rows = t.rows.filter (now < ·.expiresAt) := by
  rw [expire, rows_dropped.1]
  refine List.filter_congr fun a member => decide_eq_decide.mpr ?_
  constructor
  · intro none_
    by_contra late
    exact none_ (List.mem_map.mpr ⟨a, List.mem_filter.mpr ⟨member, by simpa using late⟩, rfl⟩)
  · intro early named_
    obtain ⟨b, there, same⟩ := List.mem_map.mp named_
    obtain ⟨there, late⟩ := List.mem_filter.mp there
    obtain rfl := Table.eq_of_key member there same.symm
    exact absurd early (not_lt.mpr (by simpa using late))

theorem mem_expire : a ∈ (t.expire now).1.rows ↔ a ∈ t.rows ∧ now < a.expiresAt := by
  rw [rows_expire, List.mem_filter, decide_eq_true_iff]

theorem mem_expire_unlink : j ∈ (t.expire now).2 ↔ ∃ a ∈ t.rows, a ∉ (t.expire now).1.rows ∧
    a.jobId = j := by
  rw [expire, rows_dropped.2]
  simp only [List.not_mem_nil, false_or]
  constructor
  · rintro ⟨named_, -⟩
    obtain ⟨a, member, rfl⟩ := List.mem_map.mp named_
    obtain ⟨there, late⟩ := List.mem_filter.mp member
    refine ⟨a, there, fun kept => ?_, rfl⟩
    exact absurd (mem_expire.mp kept).2 (not_lt.mpr (by simpa using late))
  · rintro ⟨a, there, gone, rfl⟩
    refine ⟨List.mem_map.mpr ⟨a, List.mem_filter.mpr ⟨there, ?_⟩, rfl⟩, a, there, rfl⟩
    by_contra early
    exact gone (mem_expire.mpr ⟨there, by simpa using early⟩)

theorem sizes_mono {xs ys : List Artifact} (h : xs.Sublist ys) : sizes xs ≤ sizes ys :=
  (h.map Artifact.size).sum_le_sum fun _ _ => Nat.zero_le _

theorem evictToQuota_evicts (t : Artifacts) (repository : Option String) (quota : Nat) :
    ∃ gone, Table.Evicts (quotaOf repository quota) t (t.evictToQuota repository quota).1 gone ∧
      (t.evictToQuota repository quota).2 = gone.map Artifact.jobId :=
  ⟨_, Table.evicts_evict (Nat.zero_le _) le_rfl, rfl⟩

theorem mem_evictToQuota_unlink {repository : Option String} {quota : Nat} :
    j ∈ (t.evictToQuota repository quota).2 ↔
      ∃ a ∈ t.rows, a ∉ (t.evictToQuota repository quota).1.rows ∧ a.jobId = j := by
  obtain ⟨gone, evicts, unlink⟩ := evictToQuota_evicts t repository quota
  rw [unlink, List.mem_map]
  simp only [Table.mem_gone evicts, and_assoc]

/-- The rows that are still good and would go after one of the job that is published now. -/
def younger (t : Artifacts) (jobId : String) (now : ℚ) : List Artifact :=
  t.rows.filter fun a => now < a.expiresAt && toLex (now, jobId) ≤ rank a

/-- A new archive of the job fits both quotas together with the younger ones. -/
def Room (limits : Limits) (t : Artifacts) (jobId repository : String) (size : Nat) (now : ℚ) : Prop :=
  sizes ((t.younger jobId now).filter (·.repository = repository)) + size ≤ limits.repositoryQuota ∧
    sizes (t.younger jobId now) + size ≤ limits.storageQuota

variable {limits : Limits} {repository : String}

theorem mem_enforceQuota (h : a ∈ (t.enforceQuota limits repository).1.rows) : a ∈ t.rows := by
  obtain ⟨_, first, -⟩ := evictToQuota_evicts t (some repository) limits.repositoryQuota
  obtain ⟨_, second, -⟩ := evictToQuota_evicts
    (t.evictToQuota (some repository) limits.repositoryQuota).1 none limits.storageQuota
  exact Table.mem_of_evicts first (Table.mem_of_evicts second h)

theorem mem_enforceQuota_unlink :
    j ∈ (t.enforceQuota limits repository).2 ↔ ∃ a ∈ t.rows,
    a ∉ (t.enforceQuota limits repository).1.rows ∧ a.jobId = j := by
  obtain ⟨_, first, -⟩ := evictToQuota_evicts t (some repository) limits.repositoryQuota
  obtain ⟨_, second, -⟩ := evictToQuota_evicts
    (t.evictToQuota (some repository) limits.repositoryQuota).1 none limits.storageQuota
  rw [enforceQuota, List.mem_append, mem_evictToQuota_unlink, mem_evictToQuota_unlink]
  constructor
  · rintro (⟨a, member, gone, rfl⟩ | ⟨a, member, gone, rfl⟩)
    · exact ⟨a, member, fun kept => gone (Table.mem_of_evicts second kept), rfl⟩
    · exact ⟨a, Table.mem_of_evicts first member, gone, rfl⟩
  · rintro ⟨a, member, gone, rfl⟩
    by_cases middle : a ∈ (t.evictToQuota (some repository) limits.repositoryQuota).1.rows
    · exact Or.inr ⟨a, middle, gone, rfl⟩
    · exact Or.inl ⟨a, member, middle, rfl⟩

theorem rank_distinct (t : Artifacts) : ∀ a ∈ t.rows, ∀ b ∈ t.rows, rank a = rank b → a = b := by
  intro a left b right same
  exact Table.eq_of_key left right (congrArg (fun r => (ofLex r).2) same)

theorem sizes_append (xs : List Artifact) (a : Artifact) : sizes (xs ++ [a]) = sizes xs + a.size := by
  simp [sizes]

/-- A new archive stays if it fits with those that are younger. -/
theorem stays_iff {record : Artifact} (rows : u.rows = (t.expire record.createdAt).1.rows ++ [record]) :
    record ∈ (u.enforceQuota limits record.repository).1.rows ↔
      Room limits t record.jobId record.repository record.size record.createdAt := by
  let middle := (u.evictToQuota (some record.repository) limits.repositoryQuota).1
  obtain ⟨_, first, -⟩ := evictToQuota_evicts u (some record.repository) limits.repositoryQuota
  obtain ⟨_, second, -⟩ := evictToQuota_evicts middle none limits.storageQuota
  have member : record ∈ u.rows := by simp [rows]
  have after : u.rows.filter (fun a => rank record ≤ rank a) = t.younger record.jobId
      record.createdAt ++ [record] := by
    rw [rows, rows_expire, List.filter_append, List.filter_filter, younger]
    congr 1
    · exact List.filter_congr fun a _ => Bool.and_comm _ _
    · simp
  have narrow : record ∈ middle.rows ↔
      sizes ((t.younger record.jobId record.createdAt).filter (·.repository = record.repository)) +
        record.size ≤
        limits.repositoryQuota := by
    refine (Table.mem_evicts_iff (fun _ _ => sizes_mono) (rank_distinct u) first member
      (by simp [quotaOf])).trans ?_
    show sizes ((u.rows.filter fun a => decide (a.repository = record.repository)).filter fun a =>
      rank record ≤ rank a) ≤ _ ↔ _
    rw [List.filter_comm, after, List.filter_append, List.filter_singleton, decide_eq_true rfl,
      cond_true, sizes_append]
    exact Iff.rfl
  have wide (kept : record ∈ middle.rows) :
      record ∈ (middle.evictToQuota none limits.storageQuota).1.rows ↔
      sizes (t.younger record.jobId record.createdAt) + record.size ≤ limits.storageQuota := by
    refine (Table.mem_evicts_iff (fun _ _ => sizes_mono) (rank_distinct middle) second kept
      (by simp [quotaOf])).trans ?_
    show sizes ((middle.rows.filter fun _ => true).filter fun a => rank record ≤ rank a) ≤ _ ↔ _
    -- what is younger than a row that stays, stays
    have whole : ∀ a ∈ u.rows, decide (rank record ≤ rank a) = true → a ∈ middle.rows :=
        fun a there later => by
      by_contra gone
      obtain ⟨-, before⟩ := Table.evicts_oldest_first first there gone
      have earlier := before record kept (by simp [quotaOf])
      have same := rank_distinct u _ there _ member (le_antisymm earlier (of_decide_eq_true later))
      exact gone (same ▸ kept)
    rw [List.filter_true, Table.filter_of_evicts first whole, after, sizes_append]
    exact Iff.rfl
  constructor
  · intro kept
    have between : record ∈ middle.rows := Table.mem_of_evicts second kept
    exact ⟨narrow.mp between, (wide between).mp kept⟩
  · rintro ⟨repositoryRoom, storageRoom⟩
    have between := narrow.mpr repositoryRoom
    exact (wide between).mpr storageRoom

end Artifacts

namespace ArtifactStore
variable {sha256 : Bytes → String} {limits : Limits} {s : ArtifactStore} {t u : Artifacts}
    {archives : Directory String Bytes}
  {jobId repository : String} {body : Bytes} {now : ℚ}

/-- Each row has its archive, with its size and digest, and each archive has its row. -/
structure Agree (sha256 : Bytes → String) (s : ArtifactStore) : Prop where
  stored : ∀ a ∈ s.rows.rows, ∃ body, s.archives a.jobId = some body ∧ body.length = a.size ∧
    sha256 body = a.digest
  owned : ∀ jobId body, s.archives jobId = some body → ∃ a ∈ s.rows.rows, a.jobId = jobId

theorem empty_agree : Agree sha256 empty :=
  ⟨fun _ member => absurd member List.not_mem_nil, fun _ _ found => by cases found⟩

/-- Rows go together with their archives. -/
theorem drop_agree (h : Agree sha256 ⟨t, archives⟩) {unlink : List String}
    (fewer : ∀ a ∈ u.rows, a ∈ t.rows)
    (paths : ∀ j, j ∈ unlink ↔ ∃ a ∈ t.rows, a ∉ u.rows ∧ a.jobId = j) :
    Agree sha256 ⟨u, archives.unlinkAll unlink⟩ := by
  refine ⟨fun a kept => ?_, fun jobId body found => ?_⟩
  · obtain ⟨body, found, size, digest⟩ := h.stored a (fewer a kept)
    refine ⟨body, ?_, size, digest⟩
    have spared : a.jobId ∉ unlink := fun gone => by
      obtain ⟨b, there, gone, same⟩ := (paths _).mp gone
      exact gone (Table.eq_of_key there (fewer a kept) same ▸ kept)
    simpa [Directory.unlinkAll_apply, spared] using found
  · simp only [Directory.unlinkAll_apply] at found
    split at found
    · cases found
    · rename_i spared
      obtain ⟨a, there, rfl⟩ := h.owned jobId body found
      refine ⟨a, ?_, rfl⟩
      by_contra gone
      exact spared ((paths _).mpr ⟨a, there, gone, rfl⟩)

theorem insert_agree (h : Agree sha256 ⟨t, archives⟩) {record : Artifact}
    (size : body.length = record.size)
    (digest : sha256 body = record.digest) (inserted : t.insert? record = some u) :
    Agree sha256 ⟨u, archives.install record.jobId body⟩ := by
  have rows := Table.rows_insert inserted
  refine ⟨fun a member => ?_, fun jobId bytes found => ?_⟩
  · rcases List.mem_append.mp (rows ▸ member) with old | new
    · have other : a.jobId ≠ record.jobId := fun same => by
        have there := Table.find?_of_mem old
        rw [same, Table.find?_fresh inserted] at there
        cases there
      simpa [Directory.install_apply, other] using h.stored a old
    · obtain rfl := List.mem_singleton.mp new
      exact ⟨body, by simp [Directory.install_apply], size, digest⟩
  · simp only [Directory.install_apply] at found
    split at found
    · rename_i same
      exact ⟨record, by simp [rows], same.symm⟩
    · obtain ⟨a, there, same⟩ := h.owned jobId bytes found
      exact ⟨a, by simp [rows, there], same⟩

theorem look_agree (h : Agree sha256 s) (jobId : String) (now : ℚ) : Agree sha256 (s.look jobId now).2 :=
  drop_agree h (fun _ kept => (Artifacts.mem_expire.mp kept).1) fun _ => Artifacts.mem_expire_unlink

theorem discard_agree (h : Agree sha256 s) (jobId : String) (digest : Option String)
    (createdAt : Option ℚ) :
    Agree sha256 (s.discard jobId digest createdAt) :=
  drop_agree h (fun _ kept => (Artifacts.mem_drop.mp kept).1) fun _ => Artifacts.mem_drop_unlink

/-- The job has a row, and its time is up. -/
def Overdue (s : ArtifactStore) (jobId : String) (now : ℚ) : Prop :=
  ∃ own, s.row? jobId = some own ∧ own.expiresAt ≤ now

theorem overdue_iff : s.Overdue jobId now ↔ jobId ∈ (Artifacts.expire s.rows now).2 := by
  rw [Artifacts.mem_expire_unlink]
  constructor
  · rintro ⟨own, found, late⟩
    obtain ⟨there, same⟩ := Table.find?_some found
    exact ⟨own, there, fun kept => absurd (Artifacts.mem_expire.mp kept).2 (not_lt.mpr late), same⟩
  · rintro ⟨own, there, gone, rfl⟩
    refine ⟨own, Table.find?_of_mem there, ?_⟩
    by_contra early
    exact gone (Artifacts.mem_expire.mpr ⟨there, lt_of_not_ge early⟩)

theorem publish_standing {existing : Artifact}
    (found : (Artifacts.expire s.rows now).1.find? jobId = some existing) :
    s.publish sha256 limits jobId repository body now = ((existing, false), (s.look jobId now).2) := by
  simp [publish, look, found]

theorem publish_fresh (sha256 : Bytes → String) (limits : Limits) (repository : String) (body : Bytes)
    (free : (Artifacts.expire s.rows now).1.find? jobId = none) :
    ∃ inserted, (Artifacts.expire s.rows now).1.insert?
      (recordOf sha256 limits jobId repository body now) = some inserted ∧
      s.publish sha256 limits jobId repository body now =
        ((recordOf sha256 limits jobId repository body now, true),
          ⟨(Artifacts.enforceQuota limits inserted repository).1,
            (s.archives.install jobId body).unlinkAll
            ((Artifacts.expire s.rows now).2 ++
            (Artifacts.enforceQuota limits inserted repository).2)⟩) := by
  obtain ⟨inserted, fresh⟩ :=
    Table.insert?_of_fresh (r := recordOf sha256 limits jobId repository body now) free
  exact ⟨inserted, fresh, by simp [publish, free, fresh]⟩

theorem record_stays {inserted : Artifacts}
    (fresh : (Artifacts.expire s.rows now).1.insert?
    (recordOf sha256 limits jobId repository body now) = some inserted) :
    recordOf sha256 limits jobId repository body
      now ∈ (Artifacts.enforceQuota limits inserted repository).1.rows ↔
      Artifacts.Room limits s.rows jobId repository body.length now := by
  let record := recordOf sha256 limits jobId repository body now
  have rows : inserted.rows = (Artifacts.expire s.rows record.createdAt).1.rows ++ [record] :=
    Table.rows_insert fresh
  exact Artifacts.stays_iff rows

/-- A new archive takes the path its job's expired one waits to be unlinked from, and goes with it,
if its row stays. -/
theorem publish_agree_iff (h : Agree sha256 s) :
    Agree sha256 (s.publish sha256 limits jobId repository body now).2 ↔
      ¬(s.Overdue jobId now ∧ Artifacts.Room limits s.rows jobId repository body.length now) := by
  cases found : (Artifacts.expire s.rows now).1.find? jobId with
  | some existing =>
    rw [publish_standing found]
    refine ⟨fun _ overdue => ?_, fun _ => look_agree h jobId now⟩
    obtain ⟨own, there, gone, same⟩ := Artifacts.mem_expire_unlink.mp (overdue_iff.mp overdue.1)
    obtain ⟨kept, named⟩ := Table.find?_some found
    exact gone (Table.eq_of_key there (Artifacts.mem_expire.mp kept).1 (same.trans named.symm) ▸ kept)
  | none =>
    obtain ⟨inserted, fresh, state⟩ := publish_fresh sha256 limits repository body found
    let record := recordOf sha256 limits jobId repository body now
    let unlink := (Artifacts.expire s.rows now).2
    let evicted := (Artifacts.enforceQuota limits inserted repository).2
    rw [state, overdue_iff, ← record_stays fresh]
    by_cases lost : jobId ∈ unlink ∧ record ∈ (Artifacts.enforceQuota limits inserted repository).1.rows
    · refine ⟨fun agree => ?_, fun no => absurd lost no⟩
      obtain ⟨_, there, -⟩ := agree.stored record lost.2
      have gone : (s.archives.install jobId body).unlinkAll (unlink ++ evicted) jobId = none := by
        rw [Directory.unlinkAll_apply, if_pos (List.mem_append_left _ lost.1)]
      cases gone.symm.trans there
    · refine ⟨fun _ => lost, fun _ => ?_⟩
      -- what the rename put there goes with the expired row only if its own row goes as well
      have archives : (s.archives.install jobId body).unlinkAll (unlink ++ evicted) =
          ((s.archives.unlinkAll unlink).install jobId body).unlinkAll evicted := by
        funext j
        simp only [Directory.unlinkAll_apply, Directory.install_apply, List.mem_append]
        by_cases own : j = jobId
        · subst own
          by_cases gone : j ∈ evicted
          · simp [gone]
          · have kept : record ∈ (Artifacts.enforceQuota limits inserted repository).1.rows := by
              by_contra dropped
              exact gone (Artifacts.mem_enforceQuota_unlink.mpr
                ⟨record, by simp [Table.rows_insert fresh, record], dropped, rfl⟩)
            have spared : j ∉ unlink := fun first => lost ⟨first, kept⟩
            simp [gone, spared]
        · by_cases gone : j ∈ evicted
          · simp [gone]
          · simp [gone, own]
      rw [archives]
      exact drop_agree (insert_agree (look_agree h jobId now) rfl rfl fresh)
          (fun _ => Artifacts.mem_enforceQuota) fun _ =>
        Artifacts.mem_enforceQuota_unlink

theorem get_agree (h : Agree sha256 s) (jobId : String) (now : ℚ) :
    Agree sha256 (s.kept (s.get jobId now)) := by
  have looked := look_agree h jobId now
  unfold get
  revert looked
  cases archivePath jobId with
  | error e => exact fun _ => h
  | ok name =>
    obtain ⟨row, t⟩ := s.look jobId now
    intro looked
    simp only [Except.map]
    cases row with
    | none => exact looked
    | some row =>
      simp only
      split
      · exact looked
      · exact discard_agree looked jobId (some row.digest) (some row.createdAt)

/-- A put whose body arrives does not find its own job's archive out of time, or finds no room for a
new one. -/
def Sound (limits : Limits) (s : ArtifactStore) : Op → Prop
  | .put jobId repository source contentLength now => ∀ body, receive limits jobId source
      contentLength = .ok body →
      ¬(s.Overdue jobId now ∧ Artifacts.Room limits s.rows jobId repository body.length now)
  | .get .. | .discard .. => True

theorem apply_agree_iff (h : Agree sha256 s) (op : Op) :
    Agree sha256 (s.apply sha256 limits op) ↔ s.Sound limits op := by
  cases op with
  | put jobId repository source contentLength now =>
    simp only [apply, put, Sound]
    cases received : receive limits jobId source contentLength with
    | error e => simpa [kept, Except.map] using h
    | ok body => simpa [kept, Except.map] using publish_agree_iff h
  | get jobId now => exact ⟨fun _ => trivial, fun _ => get_agree h jobId now⟩
  | discard jobId digest createdAt =>
      exact ⟨fun _ => trivial, fun _ => discard_agree h jobId digest createdAt⟩

/-- The rows and the archives agree in every state of a run exactly when each of its puts is sound. -/
theorem rows_and_archives_agree (sha256 : Bytes → String) (limits : Limits) (ops : List Op) :
    Along (step sha256 limits) (Sound limits) empty ops ↔
      ∀ first rest s, first ++ rest = ops → run (step sha256 limits) empty first = some s →
      Agree sha256 s := by
  refine along_iff (fun s op t holds taken => ?_) (fun s op taken => by cases taken) empty_agree
  obtain rfl := Option.some.inj taken
  exact apply_agree_iff holds op

def emptyDigest : String := "e3b0c44298fc1c149afbf4c8996fb92427ae41e4649b934ca495991b7852b855"

/-- An empty archive of one job, and the same once the first one's time is up. -/
def republishedRun : List Op :=
  [.put "0123456789abcdef0123456789abcdef" "acme/app" [] 0 0,
  .put "0123456789abcdef0123456789abcdef" "acme/app" [] 0 604800]

theorem republished_archive_lost :
    ∃ s, run (step (fun _ => emptyDigest) shippedLimits) empty republishedRun = some s ∧
    ¬Agree (fun _ => emptyDigest) s := by
  refine ⟨_, rfl, fun agree => ?_⟩
  obtain ⟨body, there, -⟩ := agree.stored
    ⟨"0123456789abcdef0123456789abcdef", "acme/app", "0123456789abcdef0123456789abcdef.tar", 0,
    emptyDigest, 604800, 1209600⟩
    (by decide +kernel)
  cases there.symm.trans (show _ = none by decide +kernel)

end ArtifactStore
end Cindral.Archive

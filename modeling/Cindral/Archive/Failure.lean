import Cindral.Archive.Agreement

/-!
# An upload that fails

`put` call by call, each of which may raise. What was staged and published is undone before the
error goes on, by calls that may raise themselves.
-/

namespace Cindral.Archive
open Base

/-- The calls of `put` on the database and the files. The last three are those that undo it. -/
inductive Call where
  | create | write | connect | begin | expire | sweep | select | insert | rename | evict | commit
  | claimed | remove | unstage
  deriving DecidableEq

/-- The committed rows, the archives and the staging files. -/
structure Disk where
  rows : Artifacts
  archives : Directory String Bytes
  staged : Directory String Bytes

/-- The archives as a reader finds them. -/
def Disk.store (d : Disk) : ArtifactStore := ⟨d.rows, d.archives⟩

/-- An upload: the calls of it that raise, what a torn write leaves, and the staging files that are
old enough to sweep. -/
structure Attempt where
  jobId : String
  repository : String
  source : List Bytes
  contentLength : Int
  now : ℚ
  name : String
  fails : Call → Bool := fun _ => false
  torn : Bytes := []
  stale : String → Bool := fun _ => false

/-- Before its commit a transaction raises, or it has answered. -/
inductive Ended where
  | raised
  | returned (answer : Artifact × Bool)
  deriving DecidableEq

namespace Attempt

/-- `Staging` on its way out. -/
def unstage (a : Attempt) (d : Disk) : Disk :=
  if a.fails .unstage then d else { d with staged := d.staged.unlink a.name }

/-- The clean-up of a published file. The rows are read afresh. -/
def withdraw (a : Attempt) (d : Disk) : Disk :=
  if a.fails .claimed ∨ (d.rows.find? a.jobId).isSome ∨ a.fails .remove then d
  else { d with archives := d.archives.unlink a.jobId }

variable (sha256 : Bytes → String) (limits : Limits)

/-- The transaction of a run that has no archive, from the rows that are left of the expired ones. -/
def install (a : Attempt) (d : Disk) (rows : Artifacts) (unlink : List String) (body : Bytes) :
    Disk × Except Bool (Artifact × Bool) :=
  if a.fails .insert ∨ a.fails .rename ∨ d.staged a.name = none then (d, .error false)
  else
    let record := ArtifactStore.recordOf sha256 limits a.jobId a.repository body a.now
    let inserted : Artifacts := (rows.insert? record).getD rows
    let d := { d with archives := d.archives.install a.jobId body, staged := d.staged.unlink a.name }
    if a.fails .evict ∨ a.fails .commit then (d, .error true)
    else
      let (rows, evicted) := inserted.enforceQuota limits a.repository
      ({ d with rows, archives := d.archives.unlinkAll (unlink ++ evicted) }, .ok (record, true))

/-- The part under the lock. One that raises says whether it had published, and leaves the rows as
they were. -/
def locked (a : Attempt) (d : Disk) (body : Bytes) : Disk × Except Bool (Artifact × Bool) :=
  if a.fails .connect ∨ a.fails .begin ∨ a.fails .expire then (d, .error false)
  else
    let (rows, unlink) := Artifacts.expire d.rows a.now
    let d := { d with staged := d.staged.sweep a.stale }
    if a.fails .sweep ∨ a.fails .select then (d, .error false)
    else match rows.find? a.jobId with
      | some existing =>
        if a.fails .commit then (d, .error false)
        else ({ d with rows, archives := d.archives.unlinkAll unlink }, .ok (existing, false))
      | none => a.install sha256 limits d rows unlink body

def put (a : Attempt) (d : Disk) : Disk × Ended :=
  match archivePath a.jobId with
  | .error _ => (d, .raised)
  | .ok _ =>
    if a.contentLength < 0 ∨ limits.maxBytes < a.contentLength then (d, .raised)
    else if a.fails .create then (a.unstage d, .raised)
    else match stage a.contentLength.toNat [] a.source with
      | .error _ => (a.unstage { d with staged := d.staged.install a.name a.torn }, .raised)
      | .ok body =>
        if a.fails .write then (a.unstage { d with staged := d.staged.install a.name a.torn }, .raised)
        else match a.locked sha256 limits { d with staged := d.staged.install a.name body } body with
          | (d, .ok answer) => (a.unstage d, .returned answer)
          | (d, .error published) => (a.unstage (if published then a.withdraw d else d), .raised)

end Attempt

/-! ## What a reader finds -/

namespace ArtifactStore
variable {s t : ArtifactStore} {jobId : String} {now : ℚ}

/-- The row of a job, while its time is not up and its archive is there. -/
def readable (s : ArtifactStore) (jobId : String) (now : ℚ) : Option Artifact :=
  (s.row? jobId).filter fun row => now < row.expiresAt ∧ (s.archives jobId).isSome

theorem find?_expire (rows : Artifacts) (jobId : String) (now : ℚ) :
    (Artifacts.expire rows now).1.find? jobId = (rows.find? jobId).filter fun row =>
    now < row.expiresAt := by
  cases found : rows.find? jobId with
  | none =>
    cases again : (Artifacts.expire rows now).1.find? jobId with
    | none => rfl
    | some row =>
      obtain ⟨kept, same⟩ := Table.find?_some again
      have there := Table.find?_of_mem (Artifacts.mem_expire.mp kept).1
      rw [same, found] at there
      cases there
  | some row =>
    obtain ⟨there, same⟩ := Table.find?_some found
    by_cases early : now < row.expiresAt
    · have kept := Table.find?_of_mem (Artifacts.mem_expire.mpr ⟨there, early⟩)
      rw [same] at kept
      rw [kept, eq_comm, Option.filter_eq_some_iff]
      exact ⟨rfl, decide_eq_true early⟩
    · have gone : (some row).filter (fun row => decide (now < row.expiresAt)) = none := by
        rw [Option.filter_eq_none_iff]
        intro other inside
        obtain rfl := Option.some.inj inside
        rwa [decide_eq_true_iff]
      rw [gone]
      cases again : (Artifacts.expire rows now).1.find? jobId with
      | none => rfl
      | some other =>
        obtain ⟨kept, same'⟩ := Table.find?_some again
        obtain ⟨there', early'⟩ := Artifacts.mem_expire.mp kept
        rw [Table.eq_of_key there there' (same.trans same'.symm)] at early
        exact absurd early' early

theorem look_found {row : Artifact} (found : (s.look jobId now).1 = some row) :
    s.row? jobId = some row ∧ now < row.expiresAt ∧ (s.look jobId now).2.archives jobId = s.archives
    jobId := by
  have kept : (Artifacts.expire s.rows now).1.find? jobId = some row := found
  rw [find?_expire, Option.filter_eq_some_iff] at kept
  obtain ⟨there, early⟩ := kept
  refine ⟨there, of_decide_eq_true early, ?_⟩
  have spared : jobId ∉ (Artifacts.expire s.rows now).2 := by
    rw [← overdue_iff]
    rintro ⟨own, again, late⟩
    obtain rfl := Option.some.inj (there.symm.trans again)
    exact absurd (of_decide_eq_true early) (not_lt.mpr late)
  have state : (s.look jobId now).2.archives = s.archives.unlinkAll (Artifacts.expire s.rows now).2 := rfl
  rw [state, Directory.unlinkAll_apply, if_neg spared]

theorem look_none (absent : (s.look jobId now).1 = none) : s.readable jobId now = none := by
  have gone : (Artifacts.expire s.rows now).1.find? jobId = none := absent
  rw [find?_expire, Option.filter_eq_none_iff] at gone
  rw [readable, Option.filter_eq_none_iff]
  intro row found both
  exact gone row found (decide_eq_true (of_decide_eq_true both).1)

/-- `get` tells the readable row, and `open` its archive. -/
theorem read_fst (valid : archivePath jobId = .ok (jobId ++ artifactSuffix)) :
    (s.get jobId now).map Prod.fst = .ok (s.readable jobId now) ∧
    (s.openArchive jobId now).map Prod.fst = .ok
    ((s.readable jobId now).bind fun _ => s.archives jobId) := by
  rw [openArchive, get, valid]
  simp only [Except.map]
  cases looked : (s.look jobId now).1 with
  | none =>
    rw [look_none looked]
    exact ⟨rfl, rfl⟩
  | some row =>
    obtain ⟨there, early, archive⟩ := look_found looked
    simp only [archive]
    by_cases stands : (s.archives jobId).isSome
    · have reads : s.readable jobId now = some row :=
        Option.filter_eq_some_iff.mpr ⟨there, decide_eq_true ⟨early, stands⟩⟩
      simp only [stands, if_true, reads, Option.bind_some, archive]
      exact ⟨trivial, trivial⟩
    · have unread : s.readable jobId now = none := by
        rw [readable, Option.filter_eq_none_iff]
        intro other found both
        exact stands (of_decide_eq_true both).2
      simp only [stands, unread, Option.bind_none]
      exact ⟨rfl, rfl⟩

theorem readable_congr (row : t.row? jobId = s.row? jobId)
    (archive : ∀ own, s.row? jobId = some own → now < own.expiresAt → t.archives jobId = s.archives
    jobId) :
    t.readable jobId now = s.readable jobId now := by
  rw [readable, readable, row]
  cases found : s.row? jobId with
  | none => rfl
  | some own =>
    by_cases early : now < own.expiresAt
    · rw [archive own found early]
    · have late (directory : Directory String Bytes) :
          (some own).filter (fun row => decide (now < row.expiresAt ∧ (directory jobId).isSome)) =
          none := by
        rw [Option.filter_eq_none_iff]
        intro other inside both
        obtain rfl := Option.some.inj inside
        exact early (of_decide_eq_true both).1
      rw [late, late]

theorem archivePath_cases (jobId : String) :
    archivePath jobId = .ok (jobId ++ artifactSuffix) ∨ ∃ e, archivePath jobId = .error e := by
  unfold archivePath
  split
  · exact Or.inl rfl
  · exact Or.inr ⟨_, rfl⟩

/-- A reader finds the same in two stores of the same rows, where the archives of the good ones are
the same. -/
theorem read_congr (rows : t.rows = s.rows)
    (archive : ∀ own, s.row? jobId = some own → now < own.expiresAt → t.archives jobId = s.archives
    jobId) :
    (t.get jobId now).map Prod.fst = (s.get jobId now).map Prod.fst ∧
    (t.openArchive jobId now).map Prod.fst = (s.openArchive jobId now).map Prod.fst := by
  rcases archivePath_cases jobId with valid | ⟨e, invalid⟩
  · have same := readable_congr (t := t) (s := s) (by rw [row?, row?, rows]) archive
    have reads (u : ArtifactStore) : (u.get jobId now).map Prod.fst = .ok (u.readable jobId now) ∧
        (u.openArchive jobId now).map Prod.fst = .ok
        ((u.readable jobId now).bind fun _ => u.archives jobId) := read_fst valid
    rw [(reads s).1, (reads t).1, (reads s).2, (reads t).2, same]
    refine ⟨rfl, ?_⟩
    cases found : s.readable jobId now with
    | none => rfl
    | some own =>
      obtain ⟨there, both⟩ := Option.filter_eq_some_iff.mp found
      rw [Option.bind_some, Option.bind_some, archive own there (of_decide_eq_true both).1]
  · rw [openArchive, openArchive, get, get, invalid]
    exact ⟨rfl, rfl⟩

end ArtifactStore

/-! ## What a failure leaves -/

namespace Attempt
variable {sha256 : Bytes → String} {limits : Limits} {a : Attempt} {d e : Disk}

/-- What undoes a put does not raise. -/
def Undoes (a : Attempt) : Prop := a.fails .claimed = false ∧ a.fails .remove = false ∧
    a.fails .unstage = false

/-- Nothing a reader finds is other than it was, and where the clean-up does not raise, no file is
there that no row owns and that was not there before. -/
structure Undone (a : Attempt) (d e : Disk) : Prop where
  rows : e.rows = d.rows
  archives : ∀ jobId own, d.rows.find? jobId = some own → a.now < own.expiresAt →
    e.archives jobId = d.archives jobId
  unowned : a.Undoes → ∀ jobId, d.rows.find? jobId = none → e.archives jobId = d.archives jobId ∨
    e.archives jobId = none
  staged : a.Undoes → ∀ name, e.staged name = d.staged name ∨ e.staged name = none

theorem undone_refl (a : Attempt) (d : Disk) : Undone a d d :=
  ⟨rfl, fun _ _ _ _ => rfl, fun _ _ _ => Or.inl rfl, fun _ _ => Or.inl rfl⟩

/-- The staging file goes last, and its removal touches nothing else. -/
theorem undone_unstage (rows : e.rows = d.rows)
    (archives : ∀ jobId own, d.rows.find? jobId = some own → a.now < own.expiresAt →
    e.archives jobId = d.archives jobId)
    (unowned : a.Undoes → ∀ jobId, d.rows.find? jobId = none → e.archives jobId = d.archives jobId ∨
    e.archives jobId = none)
    (staged : ∀ name ≠ a.name, e.staged name = d.staged name ∨ e.staged name = none) :
    Undone a d (a.unstage e) := by
  have kept : (a.unstage e).rows = e.rows ∧ (a.unstage e).archives = e.archives := by
    unfold unstage
    split <;> exact ⟨rfl, rfl⟩
  refine ⟨kept.1.trans rows, ?_, ?_, fun undoes name => ?_⟩
  · rw [kept.2]
    exact archives
  · rw [kept.2]
    exact unowned
  · have gone : (a.unstage e).staged = e.staged.unlink a.name := by
      rw [unstage, undoes.2.2, if_neg Bool.false_ne_true]
    rw [gone, Directory.unlink_apply]
    split
    · exact Or.inr rfl
    · rename_i other
      exact staged name other

/-- A published file is over an archive no good row names, and it goes again unless a row names the
job after all. -/
theorem undone_withdraw {body : Bytes}
    (free : (Artifacts.expire d.rows a.now).1.find? a.jobId = none) (rows : e.rows = d.rows)
    (archives : e.archives = d.archives.install a.jobId body)
    (staged : ∀ name ≠ a.name, e.staged name = d.staged name ∨ e.staged name = none) :
    Undone a d (a.unstage (a.withdraw e)) := by
  have other_job {jobId : String} {own : Artifact} (found : d.rows.find? jobId = some own)
      (early : a.now < own.expiresAt) :
      jobId ≠ a.jobId := by
    rintro rfl
    rw [ArtifactStore.find?_expire, Option.filter_eq_none_iff] at free
    exact free own found (decide_eq_true early)
  unfold withdraw
  split
  · rename_i stays
    refine undone_unstage rows (fun jobId own found early => ?_) (fun undoes jobId free => ?_) staged
    · rw [archives, Directory.install_apply, if_neg (other_job found early)]
    · rw [archives, Directory.install_apply]
      rcases stays with failed | named | failed
      · rw [undoes.1] at failed
        cases failed
      · rw [if_neg]
        · exact Or.inl rfl
        · rintro rfl
          rw [rows, free] at named
          cases named
      · rw [undoes.2.1] at failed
        cases failed
  · refine undone_unstage rows (fun jobId own found early => ?_) (fun _ jobId _ => ?_) staged
    · dsimp only
      rw [archives, Directory.unlink_apply, Directory.install_apply, if_neg (other_job found early),
        if_neg (other_job found early)]
    · dsimp only
      rw [archives, Directory.unlink_apply, Directory.install_apply]
      split
      · exact Or.inr rfl
      · exact Or.inl rfl

/-- What the transaction leaves when it raises. -/
theorem locked_raised {body : Bytes} {published : Bool}
    (raised : a.locked sha256 limits d body = (e, .error published)) :
    e.rows = d.rows ∧ (∀ name ≠ a.name, e.staged name = d.staged name ∨ e.staged name = none) ∧
    if published then (Artifacts.expire d.rows a.now).1.find? a.jobId = none ∧
      e.archives = d.archives.install a.jobId body
    else e.archives = d.archives := by
  unfold locked at raised
  split at raised
  · obtain ⟨rfl, result⟩ := Prod.mk.inj raised
    obtain rfl := Except.error.inj result
    exact ⟨rfl, fun _ _ => Or.inl rfl, rfl⟩
  dsimp only at raised
  split at raised
  · obtain ⟨rfl, result⟩ := Prod.mk.inj raised
    obtain rfl := Except.error.inj result
    exact ⟨rfl, fun name _ => Directory.sweep_apply d.staged a.stale name, rfl⟩
  split at raised
  · split at raised
    · obtain ⟨rfl, result⟩ := Prod.mk.inj raised
      obtain rfl := Except.error.inj result
      exact ⟨rfl, fun name _ => Directory.sweep_apply d.staged a.stale name, rfl⟩
    · cases (Prod.mk.inj raised).2
  · rename_i free
    unfold install at raised
    split at raised
    · obtain ⟨rfl, result⟩ := Prod.mk.inj raised
      obtain rfl := Except.error.inj result
      exact ⟨rfl, fun name _ => Directory.sweep_apply d.staged a.stale name, rfl⟩
    · dsimp only at raised
      split at raised
      · obtain ⟨rfl, result⟩ := Prod.mk.inj raised
        obtain rfl := Except.error.inj result
        refine ⟨rfl, fun name other => ?_, free, rfl⟩
        dsimp only
        rw [Directory.unlink_apply, if_neg other]
        exact Directory.sweep_apply d.staged a.stale name
      · cases (Prod.mk.inj raised).2

theorem put_undone (raised : (a.put sha256 limits d).2 = .raised) :
    Undone a d (a.put sha256 limits d).1 := by
  have written (body : Bytes) : ∀ name ≠ a.name, d.staged.install a.name body name = d.staged name ∨
      d.staged.install a.name body name = none := by
    intro name other
    rw [Directory.install_apply, if_neg other]
    exact Or.inl rfl
  have torn : Undone a d (a.unstage { d with staged := d.staged.install a.name a.torn }) :=
    undone_unstage rfl (fun _ _ _ _ => rfl) (fun _ _ _ => Or.inl rfl) (written a.torn)
  revert raised
  unfold put
  split
  · exact fun _ => undone_refl a d
  split
  · exact fun _ => undone_refl a d
  split
  · exact fun _ => undone_unstage rfl (fun _ _ _ _ => rfl) (fun _ _ _ => Or.inl rfl) fun _ _ => Or.inl rfl
  split
  · exact fun _ => torn
  split
  · exact fun _ => torn
  split
  · exact fun returned => by cases returned
  · rename_i e published locked
    obtain ⟨rows, staged, archives⟩ := locked_raised locked
    have untouched : ∀ name ≠ a.name, e.staged name = d.staged name ∨ e.staged name = none := by
      intro name other
      rcases staged name other with same | gone
      · rw [same]
        exact written _ name other
      · exact Or.inr gone
    intro _
    cases published with
    | true => exact undone_withdraw archives.1 rows archives.2 untouched
    | false =>
      have same : e.archives = d.archives := archives
      refine undone_unstage rows (fun _ _ _ _ => ?_) (fun _ _ _ => Or.inl ?_) untouched
      · exact congrFun same _
      · exact congrFun same _

/-- An upload that raises before its commit changes nothing a reader finds, whatever else raises.
Where its clean-up does not raise, no staged or archived file is left of it that no row owns. -/
theorem failed_put_undone (sha256 : Bytes → String) (limits : Limits) (a : Attempt) (d : Disk)
    (raised : (a.put sha256 limits d).2 = .raised) :
    (∀ jobId later, a.now ≤ later →
      ((a.put sha256 limits d).1.store.get jobId later).map Prod.fst = (d.store.get jobId later).map
      Prod.fst ∧
      ((a.put sha256 limits d).1.store.openArchive jobId later).map
      Prod.fst = (d.store.openArchive jobId later).map Prod.fst) ∧
    (a.Undoes →
      (∀ jobId, (a.put sha256 limits d).1.rows.find? jobId = none →
        (a.put sha256 limits d).1.archives jobId = d.archives jobId ∨
        (a.put sha256 limits d).1.archives jobId = none) ∧
      ∀ name, (a.put sha256 limits d).1.staged name = d.staged name ∨
      (a.put sha256 limits d).1.staged name = none) := by
  have undone := put_undone raised
  refine ⟨fun jobId later after => ?_, fun undoes => ⟨fun jobId free => ?_, undone.staged undoes⟩⟩
  · exact ArtifactStore.read_congr undone.rows fun own found early => undone.archives jobId own
      found (after.trans_lt early)
  · rw [undone.rows] at free
    exact undone.unowned undoes jobId free

theorem unstage_store (a : Attempt) (d : Disk) : (a.unstage d).store = d.store := by
  unfold unstage
  split <;> rfl

theorem locked_sound {body : Bytes} (sound : ∀ call, a.fails call = false)
    (written : d.staged a.name = some body)
    (fresh : a.stale a.name = false) :
    ∃ e, a.locked sha256 limits d body =
      (e, .ok (d.store.publish sha256 limits a.jobId a.repository body a.now).1) ∧
      e.store = (d.store.publish sha256 limits a.jobId a.repository body a.now).2 := by
  have staged : (d.staged.sweep a.stale) a.name ≠ none := by
    rw [Directory.sweep, fresh, if_neg Bool.false_ne_true, written]
    exact Option.some_ne_none body
  unfold locked
  simp only [sound, Bool.false_eq_true, or_self, if_false]
  cases found : (Artifacts.expire d.rows a.now).1.find? a.jobId with
  | some existing =>
    have published : d.store.publish sha256 limits a.jobId a.repository body a.now =
        ((existing, false), (d.store.look a.jobId a.now).2) := ArtifactStore.publish_standing found
    rw [published]
    exact ⟨_, rfl, rfl⟩
  | none =>
    obtain ⟨inserted, fits, published⟩ :=
      ArtifactStore.publish_fresh sha256 limits a.repository body (s := d.store) found
    have inserted_rows : (Artifacts.expire d.rows a.now).1.insert?
        (ArtifactStore.recordOf sha256 limits a.jobId a.repository body a.now) = some inserted := fits
    unfold install
    simp only [sound, staged, Bool.false_eq_true, or_self, if_false, inserted_rows, Option.getD_some]
    rw [published]
    exact ⟨_, rfl, rfl⟩

/-- Where no call raises, a put answers and leaves what the store's `put` does. -/
theorem put_sound (sound : ∀ call, a.fails call = false) (fresh : a.stale a.name = false) :
    (∃ e, d.store.put sha256 limits a.jobId a.repository a.source a.contentLength a.now = .error e ∧
      (a.put sha256 limits d).2 = .raised) ∨
    ∃ answer, d.store.put sha256 limits a.jobId a.repository a.source a.contentLength a.now =
      .ok (answer, (a.put sha256 limits d).1.store) ∧ (a.put sha256 limits d).2 = .returned answer := by
  rw [ArtifactStore.put, ArtifactStore.receive, put]
  cases path : archivePath a.jobId with
  | error e => exact Or.inl ⟨e, rfl, rfl⟩
  | ok name =>
    dsimp only
    split
    · exact Or.inl ⟨_, rfl, rfl⟩
    rw [if_neg (by rw [sound]; exact Bool.false_ne_true)]
    cases arrived : stage a.contentLength.toNat [] a.source with
    | error e => exact Or.inl ⟨e, rfl, rfl⟩
    | ok body =>
      right
      dsimp only
      rw [if_neg (by rw [sound]; exact Bool.false_ne_true)]
      have written : (d.staged.install a.name body) a.name = some body := by
        rw [Directory.install_apply, if_pos rfl]
      obtain ⟨e, locked, store⟩ : ∃ e, a.locked sha256 limits
          { d with staged := d.staged.install a.name body } body =
          (e, .ok (d.store.publish sha256 limits a.jobId a.repository body a.now).1) ∧
          e.store = (d.store.publish sha256 limits a.jobId a.repository body a.now).2 :=
          locked_sound sound written fresh
      rw [locked]
      refine ⟨_, ?_, rfl⟩
      rw [unstage_store, store]
      rfl

/-- An upload of two bytes that is told to fail. -/
def failing (source : List Bytes) (fails : Call → Bool) : Attempt :=
  { jobId := "0123456789abcdef0123456789abcdef", repository := "acme/app", source,
      contentLength := 2, now := 0, name := "upload.staged"
    fails }

def bare : Disk := ⟨Table.empty, Directory.empty, Directory.empty⟩

theorem short_body_undone :
    ((failing [[1]] fun _ => false).put (fun _ => "") shippedLimits bare).1.staged "upload.staged" =
    none := by
  have undone := failed_put_undone (fun _ => "") shippedLimits (failing [[1]] fun _ => false) bare
    (by decide +kernel)
  exact (undone.2 ⟨rfl, rfl, rfl⟩).2 "upload.staged" |>.elim id id

theorem unchecked_file_left :
    ¬∀ (sha256 : Bytes → String) (limits : Limits) (a : Attempt) (d : Disk),
      (a.put sha256 limits d).2 = .raised →
      ∀ jobId, (a.put sha256 limits d).1.rows.find? jobId = none →
        (a.put sha256 limits d).1.archives jobId = d.archives jobId ∨
        (a.put sha256 limits d).1.archives jobId = none := by
  intro undone
  -- the database fails in the quota pass, and again when it is asked whether the row survived
  have left := undone (fun _ => "") shippedLimits
    (failing [[1, 2]] fun call => call = .evict || call = .claimed) bare
    (by decide +kernel) "0123456789abcdef0123456789abcdef" (by decide +kernel)
  exact absurd left (by decide +kernel)

end Attempt
end Cindral.Archive

import Cindral.Archive.Agreement
import Cindral.Archive.Upload
import Cindral.Queue.Frame
import Cindral.Queue.Lease

/-! What an upload that was answered as stored may rely on, and the races in which it may not. -/

namespace Cindral.Archive
open Base Queue

/-! ## What a call leaves of one job's archive -/

/-- The job's row is the one that was there or none, and a row that stays keeps its archive. -/
structure Lessens (id : String) (s t : ArtifactStore) : Prop where
  row : ∀ row, t.row? id = some row → s.row? id = some row
  archive : ∀ row, t.row? id = some row → t.archives id = s.archives id

namespace ArtifactStore
variable {sha256 : Bytes → String} {limits : Limits} {s : ArtifactStore} {t u : Artifacts}
    {archives : Directory String Bytes}
  {id jobId repository : String} {body : Bytes} {now : ℚ} {row : Artifact}

theorem row?_job (h : s.row? id = some row) : row.jobId = id := (Table.find?_some h).2

theorem drop_lessens {unlink : List String} (fewer : ∀ a ∈ u.rows, a ∈ t.rows)
    (paths : ∀ j, j ∈ unlink ↔ ∃ a ∈ t.rows, a ∉ u.rows ∧ a.jobId = j) :
    Lessens id ⟨t, archives⟩ ⟨u, archives.unlinkAll unlink⟩ := by
  refine ⟨fun row kept => ?_, fun row kept => ?_⟩
  · obtain ⟨member, rfl⟩ := Table.find?_some kept
    exact Table.find?_of_mem (fewer row member)
  · obtain ⟨member, rfl⟩ := Table.find?_some kept
    have spared : row.jobId ∉ unlink := fun gone => by
      obtain ⟨a, there, gone, same⟩ := (paths _).mp gone
      exact gone (Table.eq_of_key there (fewer row member) same ▸ member)
    simp [Directory.unlinkAll_apply, spared]

theorem look_lessens (s : ArtifactStore) (jobId : String) (now : ℚ) : Lessens id s (s.look jobId now).2 :=
  drop_lessens (fun _ kept => (Artifacts.mem_expire.mp kept).1) fun _ => Artifacts.mem_expire_unlink

theorem discard_lessens (s : ArtifactStore) (jobId : String) (digest : Option String)
    (createdAt : Option ℚ) :
    Lessens id s (s.discard jobId digest createdAt) :=
  drop_lessens (fun _ kept => (Artifacts.mem_drop.mp kept).1) fun _ => Artifacts.mem_drop_unlink

/-- A row of the job goes only with a drop that names it. -/
theorem discard_row? {digest : Option String} {createdAt : Option ℚ} (there : s.row? id = some row)
    (gone : (s.discard jobId digest createdAt).row? id = none) :
    Artifacts.named jobId digest createdAt row = true := by
  by_contra other
  obtain ⟨member, rfl⟩ := Table.find?_some there
  have kept := Artifacts.mem_drop.mpr ⟨member, Bool.not_eq_true _ ▸ other⟩
  have found : (s.discard jobId digest createdAt).row? row.jobId = some row := Table.find?_of_mem kept
  rw [gone] at found
  cases found

theorem publish_job (sha256 : Bytes → String) (limits : Limits) (s : ArtifactStore)
    (jobId repository : String) (body : Bytes)
    (now : ℚ) : (s.publish sha256 limits jobId repository body now).1.1.jobId = jobId := by
  cases found : (Artifacts.expire s.rows now).1.find? jobId with
  | some existing =>
    rw [publish_standing found]
    exact (Table.find?_some found).2
  | none =>
    obtain ⟨inserted, -, state⟩ := publish_fresh sha256 limits repository body found
    rw [state, recordOf_jobId]

theorem publish_lessens (other : id ≠ jobId) :
    Lessens id s (s.publish sha256 limits jobId repository body now).2 := by
  cases found : (Artifacts.expire s.rows now).1.find? jobId with
  | some existing =>
    rw [publish_standing found]
    exact look_lessens s jobId now
  | none =>
    obtain ⟨inserted, fresh, state⟩ := publish_fresh sha256 limits repository body found
    rw [state]
    have place (row : Artifact) (kept : (Artifacts.enforceQuota limits inserted repository).1.find?
        id = some row) :
        (s.look jobId now).2.row? id = some row := by
      have there := Table.find?_of_mem (Artifacts.mem_enforceQuota (Table.find?_some kept).1)
      rw [(Table.find?_some kept).2, Table.find?_insert fresh, if_neg fun same =>
        other same.symm] at there
      exact there
    refine ⟨fun row kept => (look_lessens s jobId now).row row (place row kept), fun row kept => ?_⟩
    have spared : id ∉ (Artifacts.enforceQuota limits inserted repository).2 := fun gone => by
      obtain ⟨a, there, gone, same⟩ := Artifacts.mem_enforceQuota_unlink.mp gone
      obtain ⟨member, named⟩ := Table.find?_some kept
      exact gone (Table.eq_of_key there (Artifacts.mem_enforceQuota member)
        (same.trans named.symm) ▸ member)
    have looked := (look_lessens s jobId now).archive row (place row kept)
    simp only [look, Directory.unlinkAll_apply] at looked
    simp only [Directory.unlinkAll_apply, Directory.install_apply, List.mem_append, spared,
      or_false, other, if_false]
    exact looked

/-- The row of a job after its own publication is the one just made, and has the body just brought. -/
theorem publish_own
    (sound : ¬(s.Overdue jobId now ∧ Artifacts.Room limits s.rows jobId repository body.length now))
    (free : (Artifacts.expire s.rows now).1.find? jobId = none)
    (there : (s.publish sha256 limits jobId repository body now).2.row? jobId = some row) :
    row = recordOf sha256 limits jobId repository body now ∧
      (s.publish sha256 limits jobId repository body now).2.archives jobId = some body := by
  obtain ⟨inserted, fresh, state⟩ := publish_fresh sha256 limits repository body free
  rw [state] at there ⊢
  obtain ⟨member, named⟩ := Table.find?_some there
  have row_eq : row = recordOf sha256 limits jobId repository body now := by
    have found := Table.find?_of_mem (Artifacts.mem_enforceQuota member)
    rw [named, Table.find?_insert fresh, recordOf_jobId, if_pos rfl] at found
    exact (Option.some.inj found).symm
  subst row_eq
  refine ⟨rfl, ?_⟩
  have early : jobId ∉ (Artifacts.expire s.rows now).2 := fun late =>
    sound ⟨overdue_iff.mpr late, (record_stays fresh).mp member⟩
  have spared : jobId ∉ (Artifacts.enforceQuota limits inserted repository).2 := fun gone => by
    obtain ⟨a, there, gone, same⟩ := Artifacts.mem_enforceQuota_unlink.mp gone
    exact gone (Table.eq_of_key there (Artifacts.mem_enforceQuota member) (same.trans named.symm) ▸
      member)
  simp [Directory.unlinkAll_apply, Directory.install_apply, early, spared]

end ArtifactStore

/-! ## What the handlers have in hand -/

namespace Upload

/-- The request of an upload that is not answered yet. -/
def request? : Upload → Option Request
  | receiving q | stored q _ _ | withdrawing q _ | confirming q _ | found q _ _ | dropping q _ => some q
  | idle | answered _ => none

/-- The record an upload may still answer with. -/
def claim? : Upload → Option (Request × Artifact)
  | stored q record _ | confirming q record | found q record _ => some (q, record)
  | idle | receiving _ | withdrawing .. | dropping .. | answered _ => none

/-- The record an upload published and may still withdraw. -/
def publication? : Upload → Option Artifact
  | stored _ record true | withdrawing _ record => some record
  | idle | receiving _ | stored .. | confirming .. | found .. | dropping .. | answered _ => none

def missing? : Upload → Option Artifact
  | dropping _ row => some row
  | idle | receiving _ | stored .. | withdrawing .. | confirming .. | found .. | answered _ => none

def records : Upload → List Artifact
  | stored _ record _ | withdrawing _ record | confirming _ record => [record]
  | found _ record row => [record, row]
  | dropping _ row => [row]
  | idle | receiving _ | answered _ => []

theorem claim_request {u : Upload} {q : Request} {record : Artifact} (h : u.claim? = some (q, record)) :
    u.request? = some q ∧ record ∈ u.records := by
  cases u with
  | stored | confirming | found =>
    obtain ⟨rfl, rfl⟩ := Prod.mk.inj (Option.some.inj h)
    exact ⟨rfl, List.mem_cons_self⟩
  | idle | receiving | withdrawing | dropping | answered => cases h

end Upload

namespace Reader

def missing? : Reader → Option Artifact
  | dropping row => some row
  | idle | found _ => none

def records : Reader → List Artifact
  | found row | dropping row => [row]
  | idle => []

end Reader

namespace Depot
variable {sha256 : Bytes → String} {limits : Limits} {d d' : Depot} {id : String}

def attempts (d : Depot) (id : String) : Nat := ((d.queue.row? id).map Queue.Row.attempts).getD 0

def Running (d : Depot) (id : String) : Prop := ∃ r, d.queue.row? id = some r ∧ r.status = .running

/-- Some handler has the record, or some device relies on it. -/
def Known (d : Depot) (record : Artifact) : Prop :=
  (∃ i, record ∈ (d.uploads i).records) ∨ (∃ r, record ∈ (d.readers r).records) ∨
  ∃ promise ∈ d.promises, promise.record = record

def Missing (d : Depot) (row : Artifact) : Prop :=
  (∃ i, (d.uploads i).missing? = some row) ∨ ∃ r, (d.readers r).missing? = some row

/-- A body reaches the store while its run has not been claimed again, its own archive is not out of
time, no upload that stored the archive may still withdraw it, and the clock has moved on since
every record of the job that is in use. -/
structure OrderlyPut (limits : Limits) (d : Depot) (q : Request) (body : Bytes) (now : ℚ) : Prop where
  current : d.attempts q.jobId = q.attempt
  inTime : ¬(d.archives.Overdue q.jobId now ∧ Artifacts.Room limits d.archives.rows q.jobId
    q.repository body.length now)
  settled : ∀ row, d.archives.row? q.jobId = some row → now < row.expiresAt →
    ∀ j, (d.uploads j).publication? ≠ some row
  later : ∀ record, d.Known record → record.jobId = q.jobId → record.createdAt ≠ now

/-- For one job: a claim of its run finds no archive of it and no discard still to come, its uploads
are put in order, and a device is answered under the attempt it sent the archive for. -/
structure Orderly (limits : Limits) (id : String) (d : Depot) (m : Move) : Prop where
  claimed : ∀ device labels leaseSeconds now limit job queue,
    m = .queue (.claim device labels leaseSeconds now limit) →
    d.queue.claim device labels leaseSeconds now limit = .ok (some job, queue) → job.id = id →
    d.archives.row? id = none ∧ ∀ p, id ∉ d.discards p
  put : ∀ i source now q body, m = .put i source now → d.uploads i = .receiving q → q.jobId = id →
    ArtifactStore.receive limits id source q.contentLength = .ok body → d.OrderlyPut limits q body now
  answered : ∀ i q, (∃ now, m = .recheck i now) ∨ m = .stat i → (d.uploads i).request? = some q →
    q.jobId = id →
    d.leased id q.device = true → d.attempts id = q.attempt

/-- What holds of one job along an orderly run. -/
structure Kept (id : String) (d : Depot) : Prop where
  row : ∀ row, d.archives.row? id = some row → ∃ name r body, archivePath id = .ok name ∧
    d.queue.row? id = some r ∧
    row.repository = r.repository ∧ d.archives.archives id = some body ∧ ⟨id, r.attempts, body⟩ ∈ d.sent
  discards : ∀ p, id ∈ d.discards p → ¬d.Running id ∧ ∀ promise ∈ d.promises, promise.jobId ≠ id
  promises : ∀ promise ∈ d.promises, promise.jobId = id →
    promise.record ∈ d.ended ∨ promise.attempt = d.attempts id ∧ d.archives.row? id = some promise.record
  claims : ∀ i q record, (d.uploads i).claim? = some (q, record) → q.jobId = id →
    q.attempt = d.attempts id → d.Running id →
    record ∈ d.ended ∨ d.archives.row? id = some record
  publications : ∀ i record, (d.uploads i).publication? = some record → record.jobId = id →
    (∀ promise ∈ d.promises, promise.record ≠ record) ∧
      ∀ j q other, (d.uploads j).claim? = some (q, other) → other = record → j = i
  known : ∀ record, d.Known record → record.jobId = id →
    ∀ row, d.archives.row? id = some row → row.createdAt = record.createdAt → row = record
  missing : ∀ record, d.Missing record → record.jobId = id →
    ∀ row, d.archives.row? id = some row → row.createdAt ≠ record.createdAt
  requests : ∀ i q, (d.uploads i).request? = some q → q.jobId = id →
    ∃ r, d.queue.row? id = some r ∧ q.repository = r.repository ∧ q.attempt ≤ r.attempts
  uploaded : ∀ i q, (d.uploads i).request? = some q → ∀ record ∈ (d.uploads i).records,
    record.jobId = q.jobId
  promised : ∀ promise ∈ d.promises, promise.record.jobId = promise.jobId

theorem start_kept (id : String) : Kept id start where
  row := fun _ found => by cases found
  discards := fun _ member => by cases member
  promises := fun _ member => by cases member
  claims := fun _ _ _ claim => by cases claim
  publications := fun _ _ published => by cases published
  known := fun _ _ _ _ found => by cases found
  missing := fun _ _ _ _ found => by cases found
  requests := fun _ _ request => by cases request
  uploaded := fun _ _ request => by cases request
  promised := fun _ member => by cases member

/-- Calls that change the store alone: what goes of the job's row has ended, or nobody relies on it. -/
theorem archives_kept (h : Kept id d) {archives : ArtifactStore} {ended : List Artifact}
    (less : Lessens id d.archives archives)
    (more : ∀ record ∈ d.ended, record ∈ ended)
    (gone : ∀ row, d.archives.row? id = some row → archives.row? id = none → row ∈ ended ∨
      (∀ promise ∈ d.promises, promise.jobId = id → promise.record ≠ row) ∧
        (d.Running id → ∀ i q record, (d.uploads i).claim? = some (q, record) → record ≠ row)) :
    Kept id { d with archives := archives, ended := ended } where
  row := fun row found => by
    obtain ⟨name, r, body, named, queued, repository, there, sent⟩ := h.row row (less.row row found)
    exact ⟨name, r, body, named, queued, repository, (less.archive row found).trans there, sent⟩
  discards := h.discards
  promises := fun promise member same => by
    rcases h.promises promise member same with lapsed | ⟨attempt, there⟩
    · exact Or.inl (more _ lapsed)
    · cases after : archives.row? id with
      | some row =>
        obtain rfl := Option.some.inj ((less.row row after).symm.trans there)
        exact Or.inr ⟨attempt, rfl⟩
      | none =>
        rcases gone _ there after with lapsed | ⟨unpromised, -⟩
        · exact Or.inl lapsed
        · exact absurd rfl (unpromised promise member same)
  claims := fun i q record claim same attempt running => by
    rcases h.claims i q record claim same attempt running with lapsed | there
    · exact Or.inl (more _ lapsed)
    · cases after : archives.row? id with
      | some row =>
        obtain rfl := Option.some.inj ((less.row row after).symm.trans there)
        exact Or.inr rfl
      | none =>
        rcases gone _ there after with lapsed | ⟨-, unclaimed⟩
        · exact Or.inl lapsed
        · exact absurd rfl (unclaimed running i q record claim)
  publications := h.publications
  known := fun record known same row found => h.known record known same row (less.row row found)
  missing := fun record missing same row found => h.missing record missing same row (less.row row found)
  requests := h.requests
  uploaded := h.uploaded
  promised := h.promised

theorem enter_uploads (i j : Nat) (u : Upload) :
    (d.enter i u).uploads j = if j = i then u else d.uploads j :=
  Function.update_apply ..

theorem enterReader_readers (r p : Nat) (u : Reader) :
    (d.enterReader r u).readers p = if p = r then u else d.readers p :=
  Function.update_apply ..

/-- What a new phase of one upload has to meet. -/
structure Fits (id : String) (d : Depot) (i : Nat) (u : Upload) : Prop where
  claim : ∀ q record, u.claim? = some (q, record) → q.jobId = id →
    (q.attempt = d.attempts id → d.Running id → record ∈ d.ended ∨ d.archives.row? id = some record) ∧
      ∀ j, j ≠ i → (d.uploads j).publication? ≠ some record
  publication : ∀ record, u.publication? = some record → record.jobId = id →
    (∀ promise ∈ d.promises, promise.record ≠ record) ∧
    ∀ j q other, j ≠ i → (d.uploads j).claim? = some (q, other) → other ≠ record
  known : ∀ record ∈ u.records, record.jobId = id →
    ∀ row, d.archives.row? id = some row → row.createdAt = record.createdAt → row = record
  missing : ∀ record, u.missing? = some record → record.jobId = id →
    ∀ row, d.archives.row? id = some row → row.createdAt ≠ record.createdAt
  request : ∀ q, u.request? = some q → q.jobId = id →
    ∃ r, d.queue.row? id = some r ∧ q.repository = r.repository ∧ q.attempt ≤ r.attempts
  uploaded : ∀ q, u.request? = some q → ∀ record ∈ u.records, record.jobId = q.jobId

theorem enter_kept (h : Kept id d) {i : Nat} {u : Upload} (fits : Fits id d i u) :
    Kept id (d.enter i u) where
  row := h.row
  discards := h.discards
  promises := h.promises
  claims := fun j q record claim same => by
    rw [enter_uploads] at claim
    split at claim
    · exact (fits.claim q record claim same).1
    · exact h.claims j q record claim same
  publications := fun j record published same => by
    rw [enter_uploads] at published
    split at published
    · rename_i own
      obtain ⟨unpromised, unclaimed⟩ := fits.publication record published same
      refine ⟨unpromised, fun k q other claim equal => ?_⟩
      rw [enter_uploads] at claim
      split at claim
      · rename_i same
        exact same.trans own.symm
      · rename_i apart
        exact absurd equal (unclaimed k q other apart claim)
    · rename_i apart
      obtain ⟨unpromised, unclaimed⟩ := h.publications j record published same
      refine ⟨unpromised, fun k q other claim equal => ?_⟩
      rw [enter_uploads] at claim
      split at claim
      · subst equal
        obtain ⟨request, member⟩ := Upload.claim_request claim
        have own : q.jobId = id := (fits.uploaded q request other member).symm.trans same
        exact absurd published ((fits.claim q other claim own).2 j apart)
      · exact unclaimed k q other claim equal
  known := fun record known same => by
    rcases known with ⟨j, member⟩ | elsewhere
    · rw [enter_uploads] at member
      split at member
      · exact fits.known record member same
      · exact h.known record (Or.inl ⟨j, member⟩) same
    · exact h.known record (Or.inr elsewhere) same
  missing := fun record missing same => by
    rcases missing with ⟨j, missing⟩ | elsewhere
    · rw [enter_uploads] at missing
      split at missing
      · exact fits.missing record missing same
      · exact h.missing record (Or.inl ⟨j, missing⟩) same
    · exact h.missing record (Or.inr elsewhere) same
  requests := fun j q request same => by
    rw [enter_uploads] at request
    split at request
    · exact fits.request q request same
    · exact h.requests j q request same
  uploaded := fun j q request => by
    rw [enter_uploads] at request ⊢
    split
    · rename_i own
      rw [if_pos own] at request
      exact fits.uploaded q request
    · rename_i apart
      rw [if_neg apart] at request
      exact h.uploaded j q request
  promised := h.promised

/-- An upload that goes on with what it has. -/
theorem follow_fits (h : Kept id d) {i : Nat} {u : Upload}
    (claim : u.claim? = none ∨ u.claim? = (d.uploads i).claim?)
    (publication : u.publication? = none ∨ u.publication? = (d.uploads i).publication?)
    (records : ∀ record ∈ u.records, record ∈ (d.uploads i).records ∨
      d.archives.row? record.jobId = some record ∧ ∀ q, u.request? = some q → record.jobId = q.jobId)
    (request : u.request? = none ∨ u.request? = (d.uploads i).request?)
    (missing : ∀ record, u.missing? = some record → record.jobId = id →
      ∀ row, d.archives.row? id = some row → row.createdAt ≠ record.createdAt) : Fits id d i u where
  claim := fun q record found same => by
    rcases claim with none_ | equal
    · rw [none_] at found; cases found
    · rw [equal] at found
      obtain ⟨asked, member⟩ := Upload.claim_request found
      refine ⟨h.claims i q record found same, fun j apart published => apart ?_⟩
      have job := (h.uploaded i q asked record member).trans same
      exact ((h.publications j record published job).2 i q record found rfl).symm
  publication := fun record found same => by
    rcases publication with none_ | equal
    · rw [none_] at found; cases found
    · rw [equal] at found
      obtain ⟨unpromised, unclaimed⟩ := h.publications i record found same
      exact ⟨unpromised, fun j q other apart claim equal => apart (unclaimed j q other claim equal)⟩
  known := fun record member same row found equal => by
    rcases records record member with old | ⟨there, -⟩
    · exact h.known record (Or.inl ⟨i, old⟩) same row found equal
    · exact Option.some.inj (found.symm.trans (same ▸ there))
  missing := missing
  request := fun q found same => by
    rcases request with none_ | equal
    · rw [none_] at found; cases found
    · exact h.requests i q (equal ▸ found) same
  uploaded := fun q found record member => by
    rcases request with none_ | equal
    · rw [none_] at found; cases found
    · rcases records record member with old | ⟨-, own⟩
      · exact h.uploaded i q (equal ▸ found) record old
      · exact own q found

theorem answered_fits (h : Kept id d) (i : Nat) (answer : Answer) : Fits id d i (.answered answer) :=
  follow_fits h (Or.inl rfl) (Or.inl rfl) (fun _ member => by cases member) (Or.inl rfl)
  fun _ missing => by cases missing

theorem enterReader_kept (h : Kept id d) {r : Nat} {u : Reader}
    (known : ∀ record ∈ u.records, record.jobId = id →
      ∀ row, d.archives.row? id = some row → row.createdAt = record.createdAt → row = record)
    (missing : ∀ record, u.missing? = some record → record.jobId = id →
      ∀ row, d.archives.row? id = some row → row.createdAt ≠ record.createdAt) : Kept id
      (d.enterReader r u) where
  row := h.row
  discards := h.discards
  promises := h.promises
  claims := h.claims
  publications := h.publications
  known := fun record seen same => by
    rcases seen with there | ⟨p, member⟩ | promised
    · exact h.known record (Or.inl there) same
    · rw [enterReader_readers] at member
      split at member
      · exact known record member same
      · exact h.known record (Or.inr (Or.inl ⟨p, member⟩)) same
    · exact h.known record (Or.inr (Or.inr promised)) same
  missing := fun record gone same => by
    rcases gone with there | ⟨p, gone⟩
    · exact h.missing record (Or.inl there) same
    · rw [enterReader_readers] at gone
      split at gone
      · exact missing record gone same
      · exact h.missing record (Or.inr ⟨p, gone⟩) same
  requests := h.requests
  uploaded := h.uploaded
  promised := h.promised

/-! ## The steps -/

theorem leased_iff {device : String} :
    d.leased id device = true ↔ ∃ r, d.queue.row? id = some r ∧ r.status = .running ∧
    r.device = some device := by
  simp [leased, Option.any_eq_true]

theorem attempts_of_row {r : Queue.Row} (h : d.queue.row? id = some r) : d.attempts
    id = r.attempts := by simp [attempts, h]

theorem known_of_claim {i : Nat} {q : Request} {record : Artifact}
    (h : (d.uploads i).claim? = some (q, record)) :
    d.Known record := Or.inl ⟨i, (Upload.claim_request h).2⟩

theorem known_of_publication {i : Nat} {record : Artifact}
    (h : (d.uploads i).publication? = some record) : d.Known record := by
  refine Or.inl ⟨i, ?_⟩
  cases u : d.uploads i with
  | stored q other created =>
    cases created with
    | true => obtain rfl := Option.some.inj (u ▸ h); exact List.mem_cons_self
    | false => rw [u] at h; cases h
  | withdrawing q other => obtain rfl := Option.some.inj (u ▸ h); exact List.mem_cons_self
  | idle | receiving | confirming | found | dropping | answered => rw [u] at h; cases h

theorem known_of_missing {record : Artifact} (h : d.Missing record) : d.Known record := by
  rcases h with ⟨i, gone⟩ | ⟨r, gone⟩
  · refine Or.inl ⟨i, ?_⟩
    cases u : d.uploads i with
    | dropping q row => obtain rfl := Option.some.inj (u ▸ gone); exact List.mem_cons_self
    | idle | receiving | stored | withdrawing | confirming | found | answered =>
        rw [u] at gone; cases gone
  · refine Or.inr (Or.inl ⟨r, ?_⟩)
    cases u : d.readers r with
    | dropping row => obtain rfl := Option.some.inj (u ▸ gone); exact List.mem_cons_self
    | idle | found => rw [u] at gone; cases gone

theorem commit_kept (h : Kept id d) {archives : ArtifactStore}
    (less : Lessens id d.archives archives) (published : List Artifact) :
    Kept id (d.commit archives published) := by
  refine archives_kept h less (fun record lapsed => List.mem_append_left _ lapsed)
    fun row there gone => Or.inl ?_
  obtain ⟨member, rfl⟩ := Table.find?_some there
  refine List.mem_append_right _
    (List.mem_filter.mpr ⟨List.mem_append_left _ member, decide_eq_true fun kept => ?_⟩)
  have found : archives.row? row.jobId = some row := Table.find?_of_mem kept
  rw [gone] at found
  cases found

/-- A compare-and-delete of a row nobody else relies on. -/
theorem withdrawn_kept (h : Kept id d) {row : Artifact}
    (free : row.jobId = id → ∀ r, d.archives.row? id = some r → r.createdAt = row.createdAt →
      (∀ promise ∈ d.promises, promise.jobId = id → promise.record ≠ r) ∧
        ∀ i q record, (d.uploads i).claim? = some (q, record) → record ≠ r) : Kept id
        (d.withdrawn row) := by
  refine archives_kept h (ArtifactStore.discard_lessens ..) (fun _ lapsed => lapsed)
    fun r there gone => Or.inr ?_
  have named := ArtifactStore.discard_row? there gone
  simp only [Artifacts.named, Option.all_some, Bool.and_eq_true, decide_eq_true_eq] at named
  obtain ⟨job, -, time⟩ := named
  obtain ⟨unpromised, unclaimed⟩ := free (job.symm.trans (ArtifactStore.row?_job there)) r there time
  exact ⟨unpromised, fun _ => unclaimed⟩

theorem missing_kept (h : Kept id d) {row : Artifact} (missing : d.Missing row) :
    Kept id (d.withdrawn row) :=
  withdrawn_kept h fun same r there time => absurd time (h.missing row missing same r there)

theorem promise_kept (h : Kept id d) {i : Nat} {q : Request} {status : Nat} {record : Artifact}
    (claim : (d.uploads i).claim? = some (q, record))
    (current : q.jobId = id → d.leased id q.device = true → d.attempts id = q.attempt) :
    Kept id (d.promise i q status record) := by
  have entered := enter_kept h (answered_fits h i (.stored status record))
  have job : record.jobId = q.jobId :=
    h.uploaded i q (Upload.claim_request claim).1 record (Upload.claim_request claim).2
  unfold promise
  split
  · rename_i leased
    have held (same : q.jobId = id) : d.Running id := by
      obtain ⟨r, found, running, -⟩ := leased_iff.mp leased
      exact ⟨r, same ▸ found, running⟩
    exact
      { entered with
        discards := fun p member => by
          obtain ⟨quiet, unpromised⟩ := entered.discards p member
          refine ⟨quiet, fun promise there => ?_⟩
          rcases List.mem_cons.mp there with rfl | old
          · exact fun same => quiet (held same)
          · exact unpromised promise old
        promises := fun promise there same => by
          rcases List.mem_cons.mp there with rfl | old
          · have attempt := current same (same ▸ leased)
            rcases h.claims i q record claim same attempt.symm (held same) with lapsed | there
            · exact Or.inl lapsed
            · exact Or.inr ⟨attempt.symm, there⟩
          · exact entered.promises promise old same
        publications := fun j other published same => by
          obtain ⟨unpromised, unclaimed⟩ := entered.publications j other published same
          refine ⟨fun promise there => ?_, unclaimed⟩
          rcases List.mem_cons.mp there with rfl | old
          · rintro rfl
            rw [enter_uploads] at published
            split at published
            · cases published
            · rename_i apart
              exact apart ((h.publications j record published same).2 i q record claim rfl).symm
          · exact unpromised promise old
        known := fun other seen same => by
          rcases seen with there | reader | ⟨promise, member, rfl⟩
          · exact entered.known other (Or.inl there) same
          · exact entered.known other (Or.inr (Or.inl reader)) same
          · rcases List.mem_cons.mp member with rfl | old
            · exact h.known record (known_of_claim claim) same
            · exact entered.known _ (Or.inr (Or.inr ⟨promise, old, rfl⟩)) same
        missing := entered.missing
        promised := fun promise there => by
          rcases List.mem_cons.mp there with rfl | old
          · exact job
          · exact entered.promised promise old }
  · exact entered

/-- A queue in which the job's run is as before, or handed out anew with no archive left, or new. -/
theorem queue_kept (h : Kept id d) {queue : Queue.Store}
    (there : ∀ r, d.queue.row? id = some r → ∃ r', queue.row? id = some r' ∧
      r'.repository = r.repository ∧
      (r'.attempts = r.attempts ∧ (r'.status = .running → r.status = .running) ∨
        r.attempts < r'.attempts ∧ d.archives.row? id = none ∧ ∀ p, id ∉ d.discards p))
    (fresh : d.queue.row? id = none → ∀ r, queue.row? id = some r → r.status = .pending) :
    Kept id { d with queue := queue } := by
  cases before : d.queue.row? id with
  | none =>
    have bare : d.archives.row? id = none := by
      cases found : d.archives.row? id with
      | none => rfl
      | some row =>
        obtain ⟨_, r, _, _, queued, _⟩ := h.row row found
        rw [before] at queued
        cases queued
    have none_ (i : Nat) (q : Request) (request : (d.uploads i).request? = some q) : q.jobId ≠ id :=
        fun same => by
      obtain ⟨r, queued, -⟩ := h.requests i q request same
      rw [before] at queued
      cases queued
    exact
      { h with
        row := fun row found => by rw [bare] at found; cases found
        discards := fun p member => by
          refine ⟨?_, (h.discards p member).2⟩
          rintro ⟨r, found, running⟩
          rw [fresh before r found] at running
          cases running
        promises := fun promise member same => by
          rcases h.promises promise member same with lapsed | ⟨-, standing⟩
          · exact Or.inl lapsed
          · rw [bare] at standing; cases standing
        claims := fun i q record claim same => absurd same (none_ i q (Upload.claim_request claim).1)
        requests := fun i q request same => absurd same (none_ i q request) }
  | some r =>
    obtain ⟨r', after, repository, change⟩ := there r before
    have now_ : ({ d with queue := queue } : Depot).attempts id = r'.attempts := attempts_of_row after
    have was := attempts_of_row before
    have grows : r.attempts ≤ r'.attempts := by
      rcases change with ⟨same, -⟩ | ⟨more, -⟩
      · exact le_of_eq same.symm
      · exact le_of_lt more
    have running_ (running : ({ d with queue := queue } : Depot).Running id) : r'.status = .running := by
      obtain ⟨x, found, running⟩ := running
      obtain rfl := Option.some.inj (found.symm.trans after)
      exact running
    exact
      { h with
        row := fun row found => by
          rcases change with ⟨same, -⟩ | ⟨-, bare, -⟩
          · obtain ⟨name, x, body, named, queued, place, rest, sent⟩ := h.row row found
            obtain rfl := Option.some.inj (queued.symm.trans before)
            exact ⟨name, r', body, named, after, place.trans repository.symm, rest, same ▸ sent⟩
          · rw [bare] at found; cases found
        discards := fun p member => by
          obtain ⟨quiet, unpromised⟩ := h.discards p member
          refine ⟨fun running => ?_, unpromised⟩
          rcases change with ⟨-, back⟩ | ⟨-, -, clear⟩
          · exact quiet ⟨r, before, back (running_ running)⟩
          · exact clear p member
        promises := fun promise member same => by
          rcases h.promises promise member same with lapsed | ⟨attempt, standing⟩
          · exact Or.inl lapsed
          · rcases change with ⟨equal, -⟩ | ⟨-, bare, -⟩
            · exact Or.inr ⟨by rw [now_, equal, ← was]; exact attempt, standing⟩
            · rw [bare] at standing; cases standing
        claims := fun i q record claim same attempt running => by
          rw [now_] at attempt
          rcases change with ⟨equal, back⟩ | ⟨more, -⟩
          · exact h.claims i q record claim same (by rw [was, attempt, equal])
              ⟨r, before, back (running_ running)⟩
          · -- no upload of the new attempt is on its way yet
            obtain ⟨x, found, -, reached⟩ := h.requests i q (Upload.claim_request claim).1 same
            obtain rfl := Option.some.inj (found.symm.trans before)
            omega
        requests := fun i q request same => by
          obtain ⟨x, found, place, reached⟩ := h.requests i q request same
          obtain rfl := Option.some.inj (found.symm.trans before)
          exact ⟨r', after, place.trans repository.symm, reached.trans grows⟩ }

theorem step_quiet {s : Queue.Store} {op : Queue.Store.Op} {r r' : Queue.Row} (step : RowStep s op r r') :
    r'.repository = r.repository ∧
      (r'.attempts = r.attempts ∧ (r'.status = .running → r.status = .running) ∨
      r.attempts < r'.attempts ∧ ∃ device labels leaseSeconds now limit queue,
        op = .claim device labels leaseSeconds now limit ∧
          s.claim device labels leaseSeconds now limit = .ok (some r'.job, queue)) := by
  cases step with
  | same => exact ⟨rfl, Or.inl ⟨rfl, fun running => running⟩⟩
  | taken claimed _ _ => exact ⟨rfl, Or.inr ⟨Nat.lt_succ_self _, _, _, _, _, _, _, rfl, claimed⟩⟩
  | renewed _ _ running _ _ => exact ⟨rfl, Or.inl ⟨rfl, fun _ => running⟩⟩
  | failed _ running _ _ _ | settled _ running _ _ _ _ | lapsed running _ =>
      exact ⟨rfl, Or.inl ⟨rfl, fun _ => running⟩⟩
  | drained _ | restored _ _ _ | owed _ | cleared _ => exact ⟨rfl, Or.inl ⟨rfl, fun running => running⟩⟩

theorem op_kept (h : Kept id d) {op : Queue.Store.Op} (orderly : Orderly limits id d (.queue op)) :
    Kept id { d with queue := d.queue.apply op } := by
  refine queue_kept h (fun r found => ?_) fun absent r found =>
    (Queue.Store.apply_fresh op absent found).2
  obtain ⟨r', after, step⟩ := Queue.Store.apply_row op found
  refine ⟨r', after, (step_quiet step).1, ?_⟩
  rcases (step_quiet step).2 with same |
    ⟨more, device, labels, leaseSeconds, now, limit, queue, rfl, claimed⟩
  · exact Or.inl same
  · exact Or.inr ⟨more, orderly.claimed device labels leaseSeconds now limit _ queue rfl claimed
      (Queue.Store.row?_some after).2⟩

theorem reclaim_kept (h : Kept id d) {p : Nat} {now : ℚ} {publish : Option (Job → Verdict)}
    (taken : d.stepReclaim p now publish = some d') : Kept id d' := by
  unfold stepReclaim at taken
  split at taken
  · cases taken
  · obtain rfl := Option.some.inj taken
    have queued : Kept id { d with queue := (d.queue.reclaimExpired now publish).2 } := by
      refine queue_kept h (fun r found => ?_) fun absent r found =>
        (Queue.Store.apply_fresh (.reclaimExpired now publish) absent found).2
      obtain ⟨r', after, step⟩ := Queue.Store.apply_row (.reclaimExpired now publish) found
      refine ⟨r', after, (step_quiet step).1, ?_⟩
      rcases (step_quiet step).2 with same | ⟨-, _, _, _, _, _, _, claim, -⟩
      · exact Or.inl same
      · cases claim
    exact
      { queued with
        discards := fun p' member => by
          by_cases own : p' = p
          · subst own
            simp only [Function.update_self] at member
            refine ⟨?_, fun promise kept same => ?_⟩
            · rintro ⟨r, found, running⟩
              obtain ⟨job, released, named⟩ := List.mem_map.mp member
              have inside := released
              rw [Queue.Store.reclaimed_eq] at inside
              obtain ⟨x, lapsed, rfl⟩ := List.mem_map.mp inside
              obtain ⟨r', after, given, -⟩ :=
                Queue.Store.reclaimed_row now publish (List.mem_filter.mp lapsed).1
              rw [show x.id = id from named] at after
              obtain rfl := Option.some.inj (found.symm.trans after)
              exact (given released).stopped running
            · have spared := of_decide_eq_true (List.mem_filter.mp kept).2
              exact spared (same ▸ member)
          · simp only [Function.update_of_ne own] at member
            obtain ⟨quiet, unpromised⟩ := queued.discards p' member
            exact ⟨quiet, fun promise kept => unpromised promise (List.mem_filter.mp kept).1⟩
        promises := fun promise kept same => queued.promises promise (List.mem_filter.mp kept).1 same
        publications := fun i record published same => by
          obtain ⟨unpromised, unclaimed⟩ := queued.publications i record published same
          exact ⟨fun promise kept => unpromised promise (List.mem_filter.mp kept).1, unclaimed⟩
        known := fun record seen same => by
          rcases seen with there | reader | ⟨promise, kept, rfl⟩
          · exact queued.known record (Or.inl there) same
          · exact queued.known record (Or.inr (Or.inl reader)) same
          · exact queued.known _ (Or.inr (Or.inr ⟨promise, (List.mem_filter.mp kept).1, rfl⟩)) same
        missing := queued.missing
        promised := fun promise kept => queued.promised promise (List.mem_filter.mp kept).1 }

theorem discard_kept (h : Kept id d) {p : Nat} (taken : d.stepDiscard p = some d') : Kept id d' := by
  unfold stepDiscard at taken
  split at taken
  · cases taken
  · rename_i jobId rest todo
    obtain rfl := Option.some.inj taken
    have dropped : Kept id { d with archives := d.archives.discard jobId none none } := by
      refine archives_kept h (ArtifactStore.discard_lessens ..) (fun _ lapsed => lapsed)
        fun row there gone => Or.inr ?_
      have own : jobId = id :=
        (Artifacts.named_job (ArtifactStore.discard_row? there gone)).symm.trans
        (ArtifactStore.row?_job there)
      obtain ⟨quiet, unpromised⟩ := h.discards p (by rw [todo, own]; exact List.mem_cons_self)
      exact ⟨fun promise member same => absurd same (unpromised promise member), fun running =>
        absurd running quiet⟩
    exact
      { dropped with
        discards := fun p' member => by
          by_cases own : p' = p
          · subst own
            simp only [Function.update_self] at member
            exact dropped.discards p' (by rw [todo]; exact List.mem_cons_of_mem _ member)
          · simp only [Function.update_of_ne own] at member
            exact dropped.discards p' member
        known := dropped.known
        missing := dropped.missing }

theorem receive_kept (h : Kept id d) {i : Nat} {jobId device : String} {contentLength : Option Int}
    {authorized : Bool} {now : ℚ}
    (taken : d.stepReceive limits i jobId device contentLength authorized now = some d') :
    Kept id d' := by
  unfold stepReceive at taken
  split at taken
  · obtain rfl := Option.some.inj taken
    refine enter_kept h ?_
    cases found : d.queue.get jobId with
    | none => exact answered_fits h i _
    | some job =>
      simp only
      split
      · exact answered_fits h i _
      split
      · exact answered_fits h i _
      split
      · exact answered_fits h i _
      split
      · exact answered_fits h i _
      obtain ⟨r, queued, rfl⟩ := Option.map_eq_some_iff.mp found
      exact
        { claim := fun _ _ claim => by cases claim
          publication := fun _ published => by cases published
          known := fun _ member => by cases member
          missing := fun _ missing => by cases missing
          request := fun q request same => by
            obtain rfl := Option.some.inj request
            exact ⟨r, same ▸ queued, rfl, le_refl _⟩
          uploaded := fun _ _ _ member => by cases member }
  · cases taken

theorem bring_other_kept (h : Kept id d) {archives : ArtifactStore}
    (less : Lessens id d.archives archives) (sent : Sent)
    (record : Artifact) : Kept id (d.bring sent archives record) :=
  { commit_kept h less [record] with
    row := fun row found => by
      obtain ⟨name, r, body, named, queued, repository, there, old⟩ := h.row row (less.row row found)
      exact ⟨name, r, body, named, queued, repository, (less.archive row found).trans there,
        List.mem_cons_of_mem _ old⟩
    known := (commit_kept h less [record]).known
    missing := (commit_kept h less [record]).missing }

theorem stored_other_fits {i : Nat} {q : Request} {record : Artifact} {created : Bool}
    (other : q.jobId ≠ id)
    (own : record.jobId = q.jobId) : Fits id d i (.stored q record created) where
  claim := fun q' _ claim same => by
    obtain ⟨rfl, -⟩ := Prod.mk.inj (Option.some.inj claim)
    exact absurd same other
  publication := fun record' published same => by
    cases created with
    | false => cases published
    | true =>
      obtain rfl := Option.some.inj published
      exact absurd (own.symm.trans same) other
  known := fun record' member same => by
    obtain rfl := List.mem_singleton.mp member
    exact absurd (own.symm.trans same) other
  missing := fun _ missing => by cases missing
  request := fun q' request same => by
    obtain rfl := Option.some.inj request
    exact absurd same other
  uploaded := fun q' request record' member => by
    obtain rfl := Option.some.inj request
    obtain rfl := List.mem_singleton.mp member
    exact own

/-- A body brought for the job itself, whose archive stands already. -/
theorem put_standing_kept (h : Kept id d) {i : Nat} {q : Request} {body : Bytes} {now : ℚ}
    {existing : Artifact} {sent : Sent}
    (at_ : d.uploads i = .receiving q) (own : q.jobId = id) (orderly : OrderlyPut limits d q body now)
    (found : (Artifacts.expire d.archives.rows now).1.find? q.jobId = some existing) :
    Kept id ((d.bring sent (d.archives.look q.jobId now).2 existing).enter i
    (.stored q existing false)) := by
  have standing : (d.archives.look q.jobId now).2.row? id = some existing := own ▸ found
  have brought := bring_other_kept h (ArtifactStore.look_lessens d.archives q.jobId now) sent existing
  have job : existing.jobId = id := ArtifactStore.row?_job standing
  refine enter_kept brought
    { claim := fun q' record claim same => ?_
      publication := fun _ published => by cases published
      known := fun record member same row there _ => ?_
      missing := fun _ missing => by cases missing
      request := fun q' request same => ?_
      uploaded := fun q' request record member => ?_ }
  · obtain ⟨rfl, rfl⟩ := Prod.mk.inj (Option.some.inj claim)
    refine ⟨fun _ _ => Or.inr standing, fun j _ => orderly.settled existing ?_ ?_ j⟩
    · exact own ▸ (ArtifactStore.look_lessens d.archives q.jobId now).row existing standing
    · exact (Artifacts.mem_expire.mp (Table.find?_some found).1).2
  · obtain rfl := List.mem_singleton.mp member
    exact Option.some.inj (there.symm.trans standing)
  · obtain rfl := Option.some.inj request
    exact h.requests i q (by rw [at_]; rfl) same
  · obtain rfl := Option.some.inj request
    obtain rfl := List.mem_singleton.mp member
    exact job.trans own.symm

/-- A body brought for the job itself, which has no archive or one whose time is up. -/
theorem put_fresh_kept (sha256 : Bytes → String) (h : Kept id d) {i : Nat} {q : Request}
    {source : List Bytes} {body : Bytes} {now : ℚ}
    (at_ : d.uploads i = .receiving q) (own : q.jobId = id)
    (received : ArtifactStore.receive limits id source q.contentLength = .ok body)
    (orderly : OrderlyPut limits d q body now)
    (free : (Artifacts.expire d.archives.rows now).1.find? q.jobId = none) :
    let record := ArtifactStore.recordOf sha256 limits q.jobId q.repository body now
    let archives := (d.archives.publish sha256 limits q.jobId q.repository body now).2
    Kept id ((d.bring ⟨q.jobId, q.attempt, body⟩ archives record).enter i (.stored q record true)) := by
  intro record archives
  subst own
  have request : (d.uploads i).request? = some q := by rw [at_]; rfl
  obtain ⟨r, queued, repository, -⟩ := h.requests i q request rfl
  have attempt : q.attempt = r.attempts := orderly.current.symm.trans (attempts_of_row queued)
  have made (row : Artifact) (there : archives.row? q.jobId = some row) :
      row = record ∧ archives.archives q.jobId = some body :=
      ArtifactStore.publish_own orderly.inTime free there
  have newer {other : Artifact} (known : d.Known other) : other ≠ record := by
    rintro rfl
    exact orderly.later _ known rfl rfl
  -- whatever the job had before is out of time, and nothing of it is left
  have lapsed {old : Artifact} (known : d.Known old) (there : d.archives.row? q.jobId = some old) :
      old ∈ (d.bring ⟨q.jobId, q.attempt, body⟩ archives record).ended := by
    obtain ⟨member, named⟩ := Table.find?_some there
    refine List.mem_append_right _
      (List.mem_filter.mpr ⟨List.mem_append_left _ member, decide_eq_true fun kept => ?_⟩)
    have found : archives.row? old.jobId = some old := Table.find?_of_mem kept
    exact newer known (made old (named ▸ found)).1
  have brought : Kept q.jobId (d.bring ⟨q.jobId, q.attempt, body⟩ archives record) :=
    { h with
      row := fun row found => by
        obtain ⟨rfl, there⟩ := made row found
        have named : ∃ name, archivePath q.jobId = .ok name := by
          unfold ArtifactStore.receive at received
          cases path : archivePath q.jobId with
          | error e => rw [path] at received; cases received
          | ok name => exact ⟨name, rfl⟩
        obtain ⟨name, path⟩ := named
        exact ⟨name, r, body, path, queued, repository,
          there, by rw [← attempt]; exact List.mem_cons_self⟩
      promises := fun promise member same => by
        rcases h.promises promise member same with old | ⟨-, there⟩
        · exact Or.inl (List.mem_append_left _ old)
        · exact Or.inl (lapsed (Or.inr (Or.inr ⟨promise, member, rfl⟩)) there)
      claims := fun j q' other claim same attempt running => by
        rcases h.claims j q' other claim same attempt running with old | there
        · exact Or.inl (List.mem_append_left _ old)
        · exact Or.inl (lapsed (known_of_claim claim) there)
      known := fun other known same row found equal => by
        obtain ⟨rfl, -⟩ := made row found
        exact absurd equal.symm (orderly.later other known same)
      missing := fun other missing same row found => by
        obtain ⟨rfl, -⟩ := made row found
        exact fun equal => orderly.later other (known_of_missing missing) same equal.symm }
  refine enter_kept brought
    { claim := fun q' other claim same => ?_
      publication := fun other published same => ?_
      known := fun other member same row there _ => ?_
      missing := fun _ missing => by cases missing
      request := fun q' asked same => ?_
      uploaded := fun q' asked other member => ?_ }
  · obtain ⟨rfl, rfl⟩ := Prod.mk.inj (Option.some.inj claim)
    refine ⟨fun _ _ => ?_, fun j _ published => newer (known_of_publication published) rfl⟩
    by_cases kept : record ∈ archives.rows.rows
    · exact Or.inr (Table.find?_of_mem kept)
    · exact Or.inl (List.mem_append_right _ (List.mem_filter.mpr
        ⟨List.mem_append_right _ List.mem_cons_self, decide_eq_true kept⟩))
  · obtain rfl := Option.some.inj published
    exact ⟨fun promise member => newer (Or.inr (Or.inr ⟨promise, member, rfl⟩)),
      fun j q' other apart claim => newer (known_of_claim claim)⟩
  · obtain rfl := List.mem_singleton.mp member
    exact (made row there).1
  · obtain rfl := Option.some.inj asked
    exact h.requests i q request same
  · obtain rfl := Option.some.inj asked
    obtain rfl := List.mem_singleton.mp member
    rfl

theorem put_kept (h : Kept id d) {i : Nat} {source : List Bytes} {now : ℚ}
    (orderly : Orderly limits id d (.put i source now))
    (taken : d.stepPut sha256 limits i source now = some d') : Kept id d' := by
  unfold stepPut at taken
  cases at_ : d.uploads i with
  | receiving q =>
    simp only [at_] at taken
    cases received : ArtifactStore.receive limits q.jobId source q.contentLength with
    | error e =>
      rw [received] at taken
      obtain rfl := Option.some.inj taken
      exact enter_kept h (answered_fits h i _)
    | ok body =>
      rw [received] at taken
      obtain rfl := Option.some.inj taken
      by_cases own : q.jobId = id
      · have inOrder := orderly.put i source now q body rfl at_ own (own ▸ received)
        cases found : (Artifacts.expire d.archives.rows now).1.find? q.jobId with
        | some existing =>
          rw [ArtifactStore.publish_standing found]
          exact put_standing_kept h at_ own inOrder found
        | none =>
          obtain ⟨inserted, -, state⟩ := ArtifactStore.publish_fresh sha256 limits q.repository body found
          have kept := put_fresh_kept sha256 h at_ own (own ▸ received) inOrder found
          rw [state] at kept ⊢
          exact kept
      · have less : Lessens id d.archives
          (d.archives.publish sha256 limits q.jobId q.repository body now).2 :=
          ArtifactStore.publish_lessens (Ne.symm own)
        exact enter_kept (bring_other_kept h less _ _)
          (stored_other_fits own (ArtifactStore.publish_job sha256 limits d.archives q.jobId
          q.repository body now))
  | idle | stored | withdrawing | confirming | found | dropping | answered =>
      rw [at_] at taken; cases taken

theorem recheck_kept (h : Kept id d) {i : Nat} {now : ℚ} (orderly : Orderly limits id d (.recheck i now))
    (taken : d.stepRecheck i now = some d') : Kept id d' := by
  unfold stepRecheck at taken
  cases at_ : d.uploads i with
  | stored q record created =>
    simp only [at_] at taken
    obtain rfl := Option.some.inj taken
    cases held : d.queue.holdsLease q.jobId q.device now with
    | true =>
      cases created with
      | true =>
        exact enter_kept h (follow_fits h (Or.inr (by rw [at_]; rfl)) (Or.inl rfl)
          (fun other member => Or.inl (by rw [at_]; exact member))
          (Or.inr (by rw [at_]; rfl)) fun _ missing => by cases missing)
      | false =>
        exact promise_kept h (by rw [at_]; rfl) fun same leased =>
          orderly.answered i q (Or.inl ⟨now, rfl⟩) (by rw [at_]; rfl) same leased
    | false =>
      cases created with
      | true =>
        exact enter_kept h (follow_fits h (Or.inl rfl) (Or.inr (by rw [at_]; rfl))
          (fun other member => Or.inl (by rw [at_]; exact member))
          (Or.inr (by rw [at_]; rfl)) fun _ missing => by cases missing)
      | false => exact enter_kept h (answered_fits h i _)
  | idle | receiving | withdrawing | confirming | found | dropping | answered =>
      rw [at_] at taken; cases taken

theorem withdraw_kept (h : Kept id d) {i : Nat} (taken : d.stepWithdraw i = some d') : Kept id d' := by
  unfold stepWithdraw at taken
  cases at_ : d.uploads i with
  | withdrawing q record =>
    simp only [at_] at taken
    obtain rfl := Option.some.inj taken
    have published : (d.uploads i).publication? = some record := by rw [at_]; rfl
    have gone : Kept id (d.withdrawn record) := by
      refine withdrawn_kept h fun same r there time => ?_
      obtain rfl := h.known record (known_of_publication published) same r there time
      obtain ⟨unpromised, unclaimed⟩ := h.publications i r published same
      refine ⟨fun promise member _ => unpromised promise member, fun j q' other claim equal => ?_⟩
      obtain rfl := unclaimed j q' other claim equal
      rw [at_] at claim
      cases claim
    exact enter_kept gone (answered_fits gone i _)
  | idle | receiving | stored | confirming | found | dropping | answered => rw [at_] at taken; cases taken

theorem confirm_kept (h : Kept id d) {i : Nat} {now : ℚ} (taken : d.stepConfirm i now = some d') :
    Kept id d' := by
  unfold stepConfirm at taken
  cases at_ : d.uploads i with
  | confirming q record =>
    simp only [at_] at taken
    obtain rfl := Option.some.inj taken
    have looked := commit_kept h (ArtifactStore.look_lessens d.archives q.jobId now) []
    refine enter_kept looked ?_
    cases seen : (d.archives.look q.jobId now).1 with
    | none => exact answered_fits looked i _
    | some row =>
      have standing : (d.archives.look q.jobId now).2.row? q.jobId = some row := seen
      have job : row.jobId = q.jobId := ArtifactStore.row?_job standing
      refine follow_fits looked (Or.inr (?_ : _ = (d.uploads i).claim?)) (Or.inl rfl)
        (fun other member => ?_)
        (Or.inr (?_ : _ = (d.uploads i).request?)) fun _ missing => by cases missing
      · rw [at_]; rfl
      · rcases List.mem_cons.mp member with rfl | later
        · refine Or.inl (?_ : other ∈ (d.uploads i).records)
          rw [at_]
          exact List.mem_cons_self
        · obtain rfl := List.mem_singleton.mp later
          refine Or.inr ⟨job ▸ standing, fun q' asked => ?_⟩
          obtain rfl := Option.some.inj asked
          exact job
      · rw [at_]; rfl
  | idle | receiving | stored | withdrawing | found | dropping | answered =>
      rw [at_] at taken; cases taken

theorem absent_row (h : Kept id d) (gone : d.archives.archives id = none) (row : Artifact) :
    d.archives.row? id ≠ some row := by
  intro found
  obtain ⟨_, _, _, _, _, _, there, _⟩ := h.row row found
  rw [gone] at there
  cases there

theorem stat_kept (h : Kept id d) {i : Nat} (orderly : Orderly limits id d (.stat i))
    (taken : d.stepStat i = some d') :
    Kept id d' := by
  unfold stepStat at taken
  cases at_ : d.uploads i with
  | found q record row =>
    simp only [at_] at taken
    obtain rfl := Option.some.inj taken
    have request : (d.uploads i).request? = some q := by rw [at_]; rfl
    have job : row.jobId = q.jobId :=
      h.uploaded i q request row (by rw [at_]; exact List.mem_cons_of_mem _ List.mem_cons_self)
    split
    · exact promise_kept h (by rw [at_]; rfl) fun same leased => orderly.answered i q (Or.inr rfl)
        request same leased
    · rename_i absent
      refine enter_kept h (follow_fits h (Or.inl rfl) (Or.inl rfl) (fun other member => Or.inl ?_)
        (Or.inr request.symm) ?_)
      · obtain rfl := List.mem_singleton.mp member
        rw [at_]
        exact List.mem_cons_of_mem _ List.mem_cons_self
      · intro other missing same r found
        obtain rfl := Option.some.inj missing
        rw [← job, same, Option.not_isSome_iff_eq_none] at absent
        exact absurd found (absent_row h absent r)
  | idle | receiving | stored | withdrawing | confirming | dropping | answered =>
      rw [at_] at taken; cases taken

theorem drop_kept (h : Kept id d) {i : Nat} (taken : d.stepDrop i = some d') : Kept id d' := by
  unfold stepDrop at taken
  cases at_ : d.uploads i with
  | dropping q row =>
    simp only [at_] at taken
    obtain rfl := Option.some.inj taken
    have gone : Kept id (d.withdrawn row) := missing_kept h (Or.inl ⟨i, by rw [at_]; rfl⟩)
    exact enter_kept gone (answered_fits gone i _)
  | idle | receiving | stored | withdrawing | confirming | found | answered =>
      rw [at_] at taken; cases taken

theorem idle_kept (h : Kept id d) (r : Nat) : Kept id (d.enterReader r .idle) :=
  enterReader_kept h (fun _ member => by cases member) fun _ missing => by cases missing

theorem read_kept (h : Kept id d) {r : Nat} {jobId : String} {now : ℚ}
    (taken : d.stepRead r jobId now = some d') : Kept id d' := by
  unfold stepRead at taken
  split at taken
  · obtain rfl := Option.some.inj taken
    have looked := commit_kept h (ArtifactStore.look_lessens d.archives jobId now) []
    cases seen : (d.archives.look jobId now).1 with
    | none => exact idle_kept looked r
    | some row =>
      have standing : (d.archives.look jobId now).2.row? jobId = some row := seen
      refine enterReader_kept looked (fun other member same x found _ => ?_) fun _ missing => by
        cases missing
      obtain rfl := List.mem_singleton.mp member
      obtain rfl := (ArtifactStore.row?_job standing).symm.trans same
      exact Option.some.inj (found.symm.trans standing)
  · cases taken

theorem readStat_kept (h : Kept id d) {r : Nat} (taken : d.stepReadStat r = some d') : Kept id d' := by
  unfold stepReadStat at taken
  cases at_ : d.readers r with
  | found row =>
    simp only [at_] at taken
    obtain rfl := Option.some.inj taken
    have known : d.Known row := Or.inr (Or.inl ⟨r, by rw [at_]; exact List.mem_cons_self⟩)
    split
    · exact idle_kept h r
    · rename_i absent
      refine enterReader_kept h (fun other member same => ?_) fun other missing same x found => ?_
      · obtain rfl := List.mem_singleton.mp member
        exact h.known other known same
      · obtain rfl := Option.some.inj missing
        rw [same, Option.not_isSome_iff_eq_none] at absent
        exact absurd found (absent_row h absent x)
  | idle | dropping => rw [at_] at taken; cases taken

theorem readDrop_kept (h : Kept id d) {r : Nat} (taken : d.stepReadDrop r = some d') : Kept id d' := by
  unfold stepReadDrop at taken
  cases at_ : d.readers r with
  | dropping row =>
    simp only [at_] at taken
    obtain rfl := Option.some.inj taken
    exact idle_kept (missing_kept h (Or.inr ⟨r, by rw [at_]; rfl⟩)) r
  | idle | found => rw [at_] at taken; cases taken

theorem step_kept (h : Kept id d) {m : Move} (orderly : Orderly limits id d m)
    (taken : d.step sha256 limits m = some d') :
    Kept id d' := by
  cases m with
  | queue op =>
    have applied : d' = { d with queue := d.queue.apply op } := by
      cases op with
      | reclaimExpired => cases taken
      | _ => exact (Option.some.inj taken).symm
    rw [applied]
    exact op_kept h orderly
  | reclaim p now publish => exact reclaim_kept h taken
  | discard p => exact discard_kept h taken
  | receive i jobId device contentLength authorized now => exact receive_kept h taken
  | put i source now => exact put_kept h orderly taken
  | recheck i now => exact recheck_kept h orderly taken
  | withdraw i => exact withdraw_kept h taken
  | confirm i now => exact confirm_kept h taken
  | stat i => exact stat_kept h orderly taken
  | drop i => exact drop_kept h taken
  | read r jobId now => exact read_kept h taken
  | readStat r => exact readStat_kept h taken
  | readDrop r => exact readDrop_kept h taken

theorem run_kept {moves : List Move} (orderly : Along (step sha256 limits) (Orderly limits id)
    start moves)
    (h : run (step sha256 limits) start moves = some d) : Kept id d :=
  along_invariant (fun _ _ _ kept orderly taken => step_kept kept orderly taken) orderly (start_kept id) h

end Depot
end Cindral.Archive

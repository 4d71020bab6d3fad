import Cindral.Archive.Keeping
import Mathlib.Tactic.Linarith

/-! An archive that was answered as stored is there for its readers. -/

namespace Cindral.Archive
open Base Queue

namespace ArtifactStore
variable {s : ArtifactStore} {id name : String} {now : ℚ} {row : Artifact} {body : Bytes}

/-- A row that is still good is found with its archive, and stays. -/
theorem get_standing (path : archivePath id = .ok name) (found : s.row? id = some row)
    (early : now < row.expiresAt)
    (there : s.archives id = some body) :
    ∃ t, s.get id now = .ok (some row, t) ∧ t.row? id = some row ∧ t.archives id = some body := by
  obtain ⟨member, rfl⟩ := Table.find?_some found
  have standing : (s.look row.jobId now).2.row? row.jobId = some row :=
    Table.find?_of_mem (Artifacts.mem_expire.mpr ⟨member, early⟩)
  have kept := ((look_lessens s row.jobId now).archive row standing).trans there
  refine ⟨(s.look row.jobId now).2, ?_, standing, kept⟩
  have looked : s.look row.jobId now = (some row, (s.look row.jobId now).2) := Prod.ext standing rfl
  simp only [get, path, Except.map]
  rw [looked]
  simp [kept]

end ArtifactStore

namespace Depot
variable {sha256 : Bytes → String} {limits : Limits} {d d' : Depot} {id : String}

/-- Until its record has ended, the archive of the attempt that was answered is what a download of
the job gets. -/
def Keeps (d : Depot) (id : String) : Prop :=
  ∀ promise ∈ d.promises, promise.jobId = id → promise.record ∉ d.ended →
    ∀ now later, now < promise.record.expiresAt → later < promise.record.expiresAt →
      ∃ body, d.download id now later = .ok body ∧ ⟨id, promise.attempt, body⟩ ∈ d.sent

theorem kept_keeps (h : Kept id d) : d.Keeps id := by
  intro promise member same ongoing now later early earlier
  rcases h.promises promise member same with lapsed | ⟨attempt, standing⟩
  · exact absurd lapsed ongoing
  obtain ⟨name, r, body, path, queued, repository, there, sent⟩ := h.row _ standing
  obtain ⟨s, got, standing', there'⟩ := ArtifactStore.get_standing path standing early there
  obtain ⟨t, got', -, there''⟩ := ArtifactStore.get_standing path standing' earlier there'
  refine ⟨body, ?_, by rw [attempt, attempts_of_row queued]; exact sent⟩
  have job : d.queue.get id = some r.job := by simp [Queue.Store.get, queued]
  have place : promise.record.repository = r.job.repository := repository
  simp [download, got, job, place, ArtifactStore.openArchive, got', Except.map, there'']

/-! Orderliness can be checked where all handlers are below a bound. -/

def Beyond (d : Depot) (bound : Nat) : Prop :=
  ∀ i, bound ≤ i → d.uploads i = .idle ∧ d.readers i = .idle ∧ d.discards i = []

def knownBelow (d : Depot) (bound : Nat) : List Artifact :=
  (List.range bound).flatMap (fun i => (d.uploads i).records ++ (d.readers i).records) ++
  d.promises.map Promise.record

def putBelow (bound : Nat) (d : Depot) (q : Request) (now : ℚ) : Bool :=
  d.attempts q.jobId = q.attempt && !(d.archives.row? q.jobId).any (·.expiresAt ≤ now) &&
    (d.archives.row? q.jobId).all
      (fun row => (List.range bound).all fun j => (d.uploads j).publication? ≠ some row) &&
      (d.knownBelow bound).all fun record => record.jobId ≠ q.jobId || record.createdAt ≠ now

/-- `Orderly` for a move of a handler below the bound. -/
def orderlyBelow (id : String) (bound : Nat) (d : Depot) : Move → Bool
  | .queue (.claim device labels leaseSeconds now limit) =>
    match d.queue.claim device labels leaseSeconds now limit with
    | .ok (some job, _) => job.id ≠ id ||
        ((d.archives.row? id).isNone && (List.range bound).all (id ∉ d.discards ·))
    | _ => true
  | .queue _ => true
  | .put i _ now => i < bound && (d.uploads i).request?.all fun q => q.jobId ≠ id || d.putBelow
      bound q now
  | .recheck i _ | .stat i =>
    i < bound && (d.uploads i).request?.all fun q => q.jobId ≠ id || !d.leased id q.device ||
      d.attempts id = q.attempt
  | .reclaim i .. | .discard i | .receive i .. | .withdraw i | .confirm i _ | .drop i | .read i .. |
      .readStat i | .readDrop i =>
    i < bound

def alongOrderly (sha256 : Bytes → String) (limits : Limits) (id : String) (bound : Nat) :
    Depot → List Move → Bool
  | _, [] => true
  | d, m :: rest => d.orderlyBelow id bound m && (d.step sha256 limits m).all fun d' =>
      alongOrderly sha256 limits id bound d' rest

theorem known_below {bound : Nat} (beyond : d.Beyond bound) {record : Artifact} (known : d.Known record) :
    record ∈ d.knownBelow bound := by
  have inside {i : Nat} (busy : record ∈ (d.uploads i).records ++ (d.readers i).records) : i < bound := by
    by_contra past
    obtain ⟨upload, reader, -⟩ := beyond i (Nat.not_lt.mp past)
    rw [upload, reader] at busy
    cases busy
  rcases known with ⟨i, member⟩ | ⟨i, member⟩ | ⟨promise, member, rfl⟩
  · have busy := List.mem_append_left (d.readers i).records member
    exact List.mem_append_left _ (List.mem_flatMap.mpr ⟨i, List.mem_range.mpr (inside busy), busy⟩)
  · have busy := List.mem_append_right (d.uploads i).records member
    exact List.mem_append_left _ (List.mem_flatMap.mpr ⟨i, List.mem_range.mpr (inside busy), busy⟩)
  · exact List.mem_append_right _ (List.mem_map_of_mem member)

theorem orderlyPut_of_below {bound : Nat} (beyond : d.Beyond bound) {q : Request} {body : Bytes} {now : ℚ}
    (check : d.putBelow bound q now = true) : OrderlyPut limits d q body now := by
  simp only [putBelow, Bool.and_eq_true, decide_eq_true_eq, Bool.not_eq_true', List.all_eq_true,
    Bool.or_eq_true] at check
  obtain ⟨⟨⟨current, early⟩, settled⟩, later⟩ := check
  refine ⟨current, ?_, fun row found _ j published => ?_, fun record known same => ?_⟩
  · rintro ⟨⟨own, found, late⟩, -⟩
    simp [found, late] at early
  · have below : j < bound := by
      by_contra past
      rw [(beyond j (Nat.not_lt.mp past)).1] at published
      cases published
    have apart := (Option.all_eq_true ..).mp settled row found
    exact of_decide_eq_true (List.all_eq_true.mp apart j (List.mem_range.mpr below)) published
  · exact (later record (known_below beyond known)).resolve_left fun other => other same

theorem orderly_of_below {bound : Nat} (beyond : d.Beyond bound) {m : Move}
    (check : d.orderlyBelow id bound m = true) :
    Orderly limits id d m := by
  refine ⟨fun device labels leaseSeconds now limit job queue same claimed own => ?_,
    fun i source now q body same at_ own _ => ?_, fun i q same request own leased => ?_⟩
  · subst same
    simp only [orderlyBelow, claimed, own, ne_eq, not_true_eq_false, decide_false, Bool.false_or,
      Bool.and_eq_true,
      Option.isNone_iff_eq_none, List.all_eq_true, decide_eq_true_eq] at check
    refine ⟨check.1, fun p member => ?_⟩
    have below : p < bound := by
      by_contra past
      rw [(beyond p (Nat.not_lt.mp past)).2.2] at member
      cases member
    exact check.2 p (List.mem_range.mpr below) member
  · subst same
    simp only [orderlyBelow, at_, Upload.request?, Option.all_some, own, ne_eq, not_true_eq_false,
      decide_false,
      Bool.false_or, Bool.and_eq_true] at check
    exact orderlyPut_of_below beyond check.2
  · have decided : (d.uploads i).request?.all
        (fun q => q.jobId ≠ id || !d.leased id q.device || d.attempts id = q.attempt) =
        true := by
      rcases same with ⟨now, rfl⟩ | rfl
      · exact ((Bool.and_eq_true ..).mp check).2
      · exact ((Bool.and_eq_true ..).mp check).2
    simpa [request, own, leased] using decided

theorem enter_beyond {bound i : Nat} (beyond : d.Beyond bound) (below : i < bound) (u : Upload) :
    (d.enter i u).Beyond bound :=
  fun j past => ⟨by rw [enter_uploads, if_neg (by omega)]; exact (beyond j past).1, (beyond j past).2⟩

theorem enterReader_beyond {bound i : Nat} (beyond : d.Beyond bound) (below : i < bound) (u : Reader) :
    (d.enterReader i u).Beyond bound :=
  fun j past => ⟨(beyond j past).1, by rw [enterReader_readers, if_neg (by omega)]; exact (beyond j
  past).2.1, (beyond j past).2.2⟩

theorem promise_beyond {bound i : Nat} (beyond : d.Beyond bound) (below : i < bound) (q : Request)
    (status : Nat)
    (record : Artifact) : (d.promise i q status record).Beyond bound :=
    enter_beyond beyond below (.answered (.stored status record))

theorem discards_beyond {bound p : Nat} {jobs : List String} (beyond : d.Beyond bound) (below : p < bound)
    (uploads : d'.uploads = d.uploads) (readers : d'.readers = d.readers)
    (discards : d'.discards = Function.update d.discards p jobs) : d'.Beyond bound := by
  intro i past
  have other : i ≠ p := by omega
  rw [uploads, readers, discards, Function.update_of_ne other]
  exact beyond i past

theorem step_beyond {bound : Nat} (beyond : d.Beyond bound) {m : Move}
    (check : d.orderlyBelow id bound m = true)
    (taken : d.step sha256 limits m = some d') : d'.Beyond bound := by
  cases m with
  | queue op =>
    cases op with
    | reclaimExpired => cases taken
    | _ => obtain rfl := Option.some.inj taken; exact beyond
  | reclaim p now publish =>
    simp only [step, stepReclaim] at taken
    split at taken
    · cases taken
    · obtain rfl := Option.some.inj taken
      exact discards_beyond beyond (of_decide_eq_true check) rfl rfl rfl
  | discard p =>
    simp only [step, stepDiscard] at taken
    split at taken
    · cases taken
    · obtain rfl := Option.some.inj taken
      exact discards_beyond beyond (of_decide_eq_true check) rfl rfl rfl
  | receive i jobId device contentLength authorized now =>
    simp only [step, stepReceive] at taken
    split at taken
    · obtain rfl := Option.some.inj taken
      exact enter_beyond beyond (of_decide_eq_true check) _
    · cases taken
  | put i source now =>
    have below : i < bound := of_decide_eq_true ((Bool.and_eq_true ..).mp check).1
    simp only [step, stepPut] at taken
    split at taken
    · split at taken
      · obtain rfl := Option.some.inj taken
        exact enter_beyond beyond below _
      · obtain rfl := Option.some.inj taken
        exact enter_beyond (d := d.bring _ _ _) beyond below _
    · cases taken
  | recheck i now =>
    have below : i < bound := of_decide_eq_true ((Bool.and_eq_true ..).mp check).1
    simp only [step, stepRecheck] at taken
    split at taken
    · obtain rfl := Option.some.inj taken
      split
      · exact enter_beyond beyond below _
      · exact promise_beyond beyond below _ _ _
      · exact enter_beyond beyond below _
      · exact enter_beyond beyond below _
    · cases taken
  | withdraw i =>
    simp only [step, stepWithdraw] at taken
    split at taken
    · obtain rfl := Option.some.inj taken
      exact enter_beyond (d := d.withdrawn _) beyond (of_decide_eq_true check) _
    · cases taken
  | confirm i now =>
    simp only [step, stepConfirm] at taken
    split at taken
    · obtain rfl := Option.some.inj taken
      exact enter_beyond (d := d.commit _ _) beyond (of_decide_eq_true check) _
    · cases taken
  | stat i =>
    have below : i < bound := of_decide_eq_true ((Bool.and_eq_true ..).mp check).1
    simp only [step, stepStat] at taken
    split at taken
    · obtain rfl := Option.some.inj taken
      split
      · exact promise_beyond beyond below _ _ _
      · exact enter_beyond beyond below _
    · cases taken
  | drop i =>
    simp only [step, stepDrop] at taken
    split at taken
    · obtain rfl := Option.some.inj taken
      exact enter_beyond (d := d.withdrawn _) beyond (of_decide_eq_true check) _
    · cases taken
  | read r jobId now =>
    simp only [step, stepRead] at taken
    split at taken
    · obtain rfl := Option.some.inj taken
      exact enterReader_beyond (d := d.commit _ _) beyond (of_decide_eq_true check) _
    · cases taken
  | readStat r =>
    simp only [step, stepReadStat] at taken
    split at taken
    · obtain rfl := Option.some.inj taken
      exact enterReader_beyond beyond (of_decide_eq_true check) _
    · cases taken
  | readDrop r =>
    simp only [step, stepReadDrop] at taken
    split at taken
    · obtain rfl := Option.some.inj taken
      exact enterReader_beyond (d := d.withdrawn _) beyond (of_decide_eq_true check) _
    · cases taken

theorem along_orderly {bound : Nat} {moves : List Move} (beyond : d.Beyond bound)
    (check : alongOrderly sha256 limits id bound d moves = true) :
    Along (step sha256 limits) (Orderly limits id) d moves := by
  induction moves generalizing d with
  | nil => trivial
  | cons m rest ih =>
    obtain ⟨first, later⟩ := (Bool.and_eq_true ..).mp check
    refine ⟨orderly_of_below beyond first, fun d' taken => ih (step_beyond beyond first taken) ?_⟩
    rw [taken] at later
    exact later

/-- In an orderly run an archive that was answered as stored, to the device whose run it still is,
is there for its readers. -/
theorem acknowledged_archive_kept {moves : List Move}
    (orderly : Along (step sha256 limits) (Orderly limits id) start moves)
    (h : run (step sha256 limits) start moves = some d) : d.Keeps id :=
  kept_keeps (run_kept orderly h)

/-- A run is claimed, its archive is stored and sent again, and the run is lost, claimed by another
device and stored anew. -/
def storedTwice : List Move :=
  [.queue (.enqueue { repository := "acme/app", sha := "c0ffee", ref := "main" }
    "0123456789abcdef0123456789abcdef" 0),
    .queue (.claim "mini" [] 300 0 none), .receive 0 "0123456789abcdef0123456789abcdef" "mini"
    (some 0) true 10, .put 0 [] 11,
    .recheck 0 12, .confirm 0 13, .stat 0, .receive 1 "0123456789abcdef0123456789abcdef" "mini"
    (some 0) true 14, .put 1 [] 15,
    .recheck 1 16, .reclaim 0 400 none, .discard 0, .queue (.claim "maxi" [] 300 500 none),
    .receive 2 "0123456789abcdef0123456789abcdef" "maxi" (some 0) true 510, .put 2 [] 511,
    .recheck 2 512, .confirm 2 513, .stat 2]

theorem storedTwice_kept : ∃ d, run (step (fun _ => ArtifactStore.emptyDigest) shippedLimits) start
    storedTwice = some d ∧
    d.promises ≠ [] ∧ d.Keeps "0123456789abcdef0123456789abcdef" := by
  have after : (run (step (fun _ => ArtifactStore.emptyDigest) shippedLimits) start storedTwice).any
      (fun d =>
      decide (d.promises ≠ [])) = true := by decide +kernel
  obtain ⟨d, ran, promised⟩ := (Option.any_eq_true ..).mp after
  have idle : start.Beyond 3 := fun i _ => ⟨rfl, rfl, rfl⟩
  exact ⟨d, ran, of_decide_eq_true promised, acknowledged_archive_kept
    (along_orderly idle (by decide +kernel)) ran⟩

/-- One job's run is claimed, its lease lapses while its device still sends the archive, the run is
claimed again, and the late archive is found by the second device's upload and withdrawn after that
is answered. -/
def lateUpload : List Move :=
  [.queue (.enqueue { repository := "acme/app", sha := "c0ffee", ref := "main" }
    "0123456789abcdef0123456789abcdef" 0),
    .queue (.claim "mini" [] 300 0 none), .receive 0 "0123456789abcdef0123456789abcdef" "mini"
    (some 0) true 10,
    .reclaim 0 400 none, .discard 0, .queue (.claim "maxi" [] 300 500 none), .put 0 [] 501,
    .receive 1 "0123456789abcdef0123456789abcdef" "maxi" (some 0) true 502, .put 1 [] 503,
    .recheck 1 504, .recheck 0 505,
    .withdraw 0]

theorem late_upload_loses_archive :
    ∃ d, run (step (fun _ => ArtifactStore.emptyDigest) shippedLimits) start lateUpload = some d ∧
      ¬d.Keeps "0123456789abcdef0123456789abcdef" := by
  have after : (run (step (fun _ => ArtifactStore.emptyDigest) shippedLimits) start lateUpload).any
      (fun d =>
      (d.promises.any fun p => p.jobId = "0123456789abcdef0123456789abcdef" && p.record ∉ d.ended &&
        507 < p.record.expiresAt) &&
        (d.download "0123456789abcdef0123456789abcdef" 506 507).toOption.isNone) = true := by
          decide +kernel
  obtain ⟨d, ran, facts⟩ := (Option.any_eq_true ..).mp after
  refine ⟨d, ran, fun keeps => ?_⟩
  obtain ⟨promised, nothing⟩ := (Bool.and_eq_true ..).mp facts
  obtain ⟨promise, member, ongoing⟩ := List.any_eq_true.mp promised
  simp only [Bool.and_eq_true, decide_eq_true_eq] at ongoing
  obtain ⟨⟨same, ongoing⟩, early⟩ := ongoing
  obtain ⟨body, served, -⟩ := keeps promise member same ongoing 506 507 (by linarith) early
  rw [served] at nothing
  cases nothing

end Depot
end Cindral.Archive

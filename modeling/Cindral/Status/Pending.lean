import Cindral.Queue.Lifecycle
import Cindral.Status.Order

/-! The pending status of an enqueue against the verdicts of the run it was made for. -/

namespace Cindral.Status
open Base Queue

/-- A verdict a run ends on: it passed, it failed, or it was parked. -/
def final (status : Verdict) : Bool := status.state ≠ .pending

def TerminalRow (s : Store) (id : String) : Prop := ∃ r, s.row? id = some r ∧ r.status.terminal = true

/-- A verdict is not the text of an enqueue, and a final one is made for a run that has ended. -/
structure Fits (s : Store) (note : Note) : Prop where
  text : note.status ≠ queuedVerdict
  ended : final note.status = true → TerminalRow s note.job

/-- A copy of a job read earlier: the row is still there and has had at least its attempts. -/
def Read (s : Store) (job : Job) : Prop := ∃ r, s.row? job.id = some r ∧ job.attempts ≤ r.attempts

theorem head_sliceTo {s : String} {c : Char} {n : Nat} (h : s.toList.head? = some c) :
    (sliceTo s (n + 1)).toList.head? = some c := by
  rw [sliceTo, String.toList_ofList]
  cases chars : s.toList with
  | nil => rw [chars] at h; cases h
  | cons d rest => rw [chars] at h; simpa using h

theorem lostDescription_text {job : Job} {error : String} :
    lostDescription job error ≠ queuedVerdict := by
  have opens : (lostDescription job error).description.toList.head? = some 'd' := by
    unfold lostDescription
    split
    · exact head_sliceTo (n := 139) (by simp only [String.toList_append, List.head?_append]; rfl)
    · exact head_sliceTo (n := 139) (by simp only [String.toList_append, List.head?_append]; rfl)
  intro same
  rw [same] at opens
  exact absurd opens (by decide)

theorem lost_final {job : Job} {error : String} :
    final (lostDescription job error) = true ↔ maxAttempts ≤ job.attempts := by
  rw [← lostDescription_error_iff job error]
  rcases lostDescription_state job error with stands | waits
  · simp [final, stands]
  · simp [final, waits]

theorem reportStatus_text {job : Job} {reported : Reported} :
    reportStatus job reported ≠ queuedVerdict := by
  unfold reportStatus
  split
  · exact lostDescription_text
  · split <;> exact fun same => (nomatch congrArg Verdict.state same)

namespace Broker
variable {b c : Broker} {a : Action} {i : Nat} {id : String}

/-- A step leaves the store alone or is one of its transactions. -/
theorem moved_store (moved : Moved b a c) : c.store = b.store ∨ ∃ op, c.store = b.store.apply op := by
  cases moved with
  | enqueued _ done => exact Or.inr ⟨.enqueue _ _ _, by rw [Store.apply, done]; rfl⟩
  | claimed => exact Or.inr ⟨.claim _ _ _ _ _, rfl⟩
  | renewed => exact Or.inr ⟨.renew _ _ _ _, rfl⟩
  | heard => exact Or.inr ⟨.recordHeartbeat _, rfl⟩
  | reclaimed _ _ => exact Or.inr ⟨.reclaimExpired _ _, rfl⟩
  | settled _ _ landed _ =>
    exact Or.inr ⟨.report _ _ _ _, by rw [Store.apply, Store.report, landed]; rfl⟩
  | owed _ => exact Or.inr ⟨.oweStatus _ _, rfl⟩
  | drained _ _ => exact Or.inr ⟨.claimOwed, rfl⟩
  | restored _ | putBack _ _ => exact Or.inr ⟨.restoreStatus _ _ _, rfl⟩
  | postedQueued _ | reportAccepted _ | reportRefused _ | reportRaised _ | postAccepted _ | postFailed _ _ _ =>
    exact Or.inl (sent_store ..)
  | _ => exact Or.inl rfl

theorem moved_terminal (moved : Moved b a c) (h : TerminalRow b.store id) : TerminalRow c.store id := by
  rcases moved_store moved with same | ⟨op, same⟩ <;> rw [same]
  · exact h
  · obtain ⟨r, found, last⟩ := h
    obtain ⟨r', there, step⟩ := Store.apply_row op found
    exact ⟨r', there, (step_frozen step last).status ▸ last⟩

theorem moved_read {job : Job} (moved : Moved b a c) (h : Read b.store job) : Read c.store job := by
  rcases moved_store moved with same | ⟨op, same⟩ <;> rw [same]
  · exact h
  · obtain ⟨r, found, reached⟩ := h
    obtain ⟨r', there, step⟩ := Store.apply_row op found
    exact ⟨r', there, reached.trans (step_attempts step)⟩

/-- What a worker with a report still to settle read of its job. -/
def Informed (s : Store) : Worker → Prop
  | .received job _ => Read s job
  | .admitted job reported status => Read s job ∧ status = reportStatus job reported
  | _ => True

structure Ended (b : Broker) : Prop where
  steady : Steady b
  fits : ∀ note ∈ b.written, Fits b.store note
  informed : ∀ i, Informed b.store (b.workers i)
  queued : ∀ post ∈ b.posts, post.seq = none → post.status = queuedVerdict
  ordered : b.posts.Pairwise fun p q => final p.status = true → q.job = p.job → q.status ≠ queuedVerdict

theorem settle_ends {s t : Store} {job : Job} {reported : Reported} {now : ℚ} (read : Read s job)
    (landed : s.settle job.id reported.device reported.report now = .ok t)
    (last : final (reportStatus job reported) = true) : TerminalRow t job.id := by
  obtain ⟨row, found, -, -, -, ⟨failed, rfl⟩ | ⟨exitCode, -, -, rfl⟩⟩ := Store.settle_cases landed
  · obtain ⟨r, there, reached⟩ := read
    obtain rfl := Option.some.inj (found.symm.trans there)
    have spent : maxAttempts ≤ job.attempts := by
      unfold reportStatus at last
      unfold Reported.report at failed
      split at last
      · exact lost_final.mp last
      · rename_i exit
        simp [exit] at failed
    refine ⟨_, by simp [Store.release, found, (Store.row?_some found).2, Row.superseded]; rfl, ?_⟩
    simp [Row.released, parked_iff.mpr (spent.trans reached), JobStatus.terminal]
  · refine ⟨Row.settled exitCode reported.report.log reported.report.steps row, ?_, ?_⟩
    · simp [found, (Store.row?_some found).2]
    · by_cases zero : exitCode = 0 <;> simp [Row.settled, zero, JobStatus.terminal]

theorem reclaim_ends {s : Store} {r : Row} {now : ℚ} (taken : r ∈ s.lapsed now)
    (last : final (lossText r.job) = true) :
    TerminalRow (s.reclaimExpired now (some lossText)).2 r.id := by
  obtain ⟨member, spent⟩ := List.mem_filter.mp taken
  refine ⟨Store.lapse now (some lossText) r, ?_, ?_⟩
  · rw [Store.reclaim_row, Store.row?_of_mem member, Option.map_some, Edit.only_apply, if_pos spent]
  · have out : parked r.attempts = true := parked_iff.mpr (lost_final.mp last)
    simp [Store.lapse, Row.released, out, JobStatus.terminal]

theorem fits_moved (moved : Moved b a c) {note : Note} (h : Fits b.store note) : Fits c.store note :=
  ⟨h.text, fun last => moved_terminal moved (h.ended last)⟩

/-- Every verdict made is fit for its run when it is made, and stays so. -/
theorem moved_fits (h : Ended b) (moved : Moved b a c) : ∀ note ∈ c.written, Fits c.store note := by
  have old : ∀ note ∈ b.written, Fits c.store note :=
    fun note member => fits_moved moved (h.fits note member)
  have quiet {reached : Bool} {post : Post} : (b.sent reached post).written = b.written := by
    unfold sent; split <;> rfl
  cases moved with
  | @reclaimed now notes free made =>
    intro note member
    rcases List.mem_append.mp member with before | new
    · exact old note before
    · rw [made] at new
      obtain ⟨r, taken, rfl⟩ := List.mem_map.mp new
      exact ⟨lostDescription_text, reclaim_ends taken⟩
  | @settled i now job reported status row t at_ free landed found =>
    intro note member
    have informed := h.informed i
    rw [at_] at informed
    obtain ⟨read, rfl⟩ := informed
    rcases List.mem_append.mp member with before | new
    · exact old note before
    · rw [List.mem_singleton.mp new]
      exact ⟨reportStatus_text, settle_ends read landed⟩
  | @owed i job status seq sent at_ =>
    intro note member
    rcases List.mem_append.mp member with before | new
    · exact old note before
    · have held : (b.view job.id).hand i = some ⟨status, seq, sent, false⟩ := by
        simp only [view, at_, Worker.inHand, if_true]
      have made := old _ (mem_notesOf.mp ((h.steady.sound job.id).hand_written i _ held))
      rw [List.mem_singleton.mp new]
      exact ⟨made.text, made.ended⟩
  | postedQueued | reportAccepted | reportRefused | reportRaised | postAccepted | postFailed =>
    simp only [become, quiet]
    exact old
  | _ => exact old

theorem informed_of_same {w : Worker} {s t : Store} (keep : ∀ job, Read s job → Read t job)
    (h : Informed s w) :
    Informed t w := by
  cases w with
  | received => exact keep _ h
  | admitted => exact ⟨keep _ h.1, h.2⟩
  | _ => trivial

theorem moved_informed (h : ∀ i, Informed b.store (b.workers i)) (moved : Moved b a c) (j : Nat) :
    Informed c.store (c.workers j) := by
  have keep : ∀ job, Read b.store job → Read c.store job := fun job => moved_read moved
  have stay {t : Store} (keep : ∀ job, Read b.store job → Read t job) : Informed t (b.workers j) :=
    informed_of_same keep (h j)
  have shift {x : Broker} {i : Nat} {w : Worker} (workers : x.workers = b.workers)
      (keep : ∀ job, Read b.store job → Read x.store job) (own : Informed x.store w) :
      Informed (x.become i w).store ((x.become i w).workers j) := by
    by_cases same : j = i
    · subst same
      rw [workers_become]
      exact own
    · rw [workers_become_ne w same, workers]
      exact stay keep
  have list (s : Store) (todo : List Owed) : Informed s (proceed todo) := by cases todo <;> trivial
  cases moved with
  | stay | claimed | renewed | heard | reclaimed => exact stay keep
  | received _ read =>
    obtain ⟨r, found, rfl⟩ := Option.map_eq_some_iff.mp read
    have same := (Store.row?_some found).2
    exact shift rfl keep ⟨r, by rw [Row.job_id, same]; exact found, le_refl _⟩
  | @admitted i now job reported at_ =>
    have read := h i
    rw [at_] at read
    exact shift rfl keep ⟨read, rfl⟩
  | stopped => trivial
  | drained | checkedStale | restored | closed | putBack => exact shift rfl keep (list _ _)
  | enqueued | dismissed | settled | owed | checkedCurrent | unclosed => exact shift rfl keep trivial
  | postedQueued | reportAccepted | reportRefused | reportRaised | postAccepted | postFailed =>
    exact shift (sent_workers ..) keep trivial

/-- A step posts nothing, one numbered verdict, or the pending status of an enqueue. -/
theorem moved_posts (moved : Moved b a c) : c.posts = b.posts ∨
    (∃ post, c.posts = b.posts ++ [post] ∧ post.seq.isSome) ∨
    ∃ i reached job repository commit, a = .postQueued i reached ∧ b.workers i = .queued job
      repository commit ∧
      c.posts = b.posts ++ [⟨job.id, repository, commit, queuedVerdict, none⟩] := by
  have went (reached : Bool) (post : Post) :
      (b.sent reached post).posts = b.posts ∨ (b.sent reached post).posts = b.posts ++ [post] := by
    unfold sent
    split
    · exact Or.inr rfl
    · exact Or.inl rfl
  cases moved with
  | @postedQueued i reached job repository commit at_ =>
    rcases went reached ⟨job.id, repository, commit, queuedVerdict, none⟩ with none_sent | one
    · exact Or.inl none_sent
    · exact Or.inr (Or.inr ⟨i, reached, job, repository, commit, rfl, at_, one⟩)
  | reportAccepted | reportRefused | reportRaised =>
    exact (went _ (reportPost ..)).imp id fun one => Or.inl ⟨_, one, rfl⟩
  | postAccepted | postFailed => exact (went _ (Owed.post _)).imp id fun one => Or.inl ⟨_, one, rfl⟩
  | _ => exact Or.inl rfl

/-- The post of an enqueue is made while its run is open. -/
def QueuedWhileOpen (b : Broker) (a : Action) : Prop :=
  ∀ i reached job repository commit, a = .postQueued i reached → b.workers i = .queued job
    repository commit →
    ∀ r, b.store.row? job.id = some r → r.status.terminal = false

theorem posted_fits (steady : Steady b) (fits : ∀ note ∈ b.written, Fits b.store note) {post : Post}
    (member : post ∈ b.posts) (numbered : post.seq.isSome) : Fits b.store ⟨post.job, post.status, 0⟩ := by
  obtain ⟨seq, given⟩ := Option.isSome_iff_exists.mp numbered
  have there : (post.status, seq) ∈ (b.view post.job).posted :=
    mem_postsOf.mpr ⟨post, member, rfl, rfl, given⟩
  have made := fits _ (mem_notesOf.mp ((steady.sound post.job).posted_written _ there))
  exact ⟨made.text, made.ended⟩

theorem step_ended (h : Ended b) (guarded : QueuedWhileOpen b a) (taken : b.step a = some c) :
    Ended c := by
  have moved := step_moved taken
  have steady := step_steady h.steady taken
  have fits := moved_fits h moved
  have informed := moved_informed h.informed moved
  rcases moved_posts moved with same | ⟨post, one, numbered⟩ |
    ⟨i, reached, job, repository, commit, rfl, at_, one⟩
  · exact ⟨steady, fits, informed, same ▸ h.queued, same ▸ h.ordered⟩
  · have fit := posted_fits steady fits
      (one ▸ List.mem_append_right _ (List.mem_singleton_self post)) numbered
    refine ⟨steady, fits, informed, fun p member unnumbered => ?_, ?_⟩
    · rw [one] at member
      rcases List.mem_append.mp member with old | new
      · exact h.queued p old unnumbered
      · rw [List.mem_singleton.mp new] at unnumbered
        rw [unnumbered] at numbered
        cases numbered
    · rw [one]
      refine List.pairwise_append.mpr ⟨h.ordered, List.pairwise_singleton _ _, fun p _ q new _ _ => ?_⟩
      rw [List.mem_singleton.mp new]
      exact fit.text
  · refine ⟨steady, fits, informed, fun p member unnumbered => ?_, ?_⟩
    · rw [one] at member
      rcases List.mem_append.mp member with old | new
      · exact h.queued p old unnumbered
      · rw [List.mem_singleton.mp new]
    · rw [one]
      refine List.pairwise_append.mpr ⟨h.ordered, List.pairwise_singleton _ _,
        fun p member q new last here => ?_⟩
      rw [List.mem_singleton.mp new] at here
      -- a final status is a numbered verdict, so its run has ended
      have numbered : p.seq.isSome := by
        cases given : p.seq with
        | some seq => rfl
        | none => rw [h.queued p member given] at last; cases last
      obtain ⟨r, found, ended⟩ := (posted_fits h.steady h.fits member numbered).ended last
      have same : job.id = p.job := here
      have still := guarded i reached job repository commit rfl at_ r (same ▸ found)
      rw [still] at ended
      cases ended

theorem start_ended : Ended start :=
  ⟨start_steady, fun _ member => (nomatch member), fun _ => trivial, fun _ member =>
  (nomatch member), List.Pairwise.nil⟩

/-- As long as every enqueue posts its pending status while its run is open, no run that has shown
its final verdict shows as queued again. -/
theorem finished_never_queued {actions : List Action} (guarded : Along step QueuedWhileOpen start actions)
    (h : run step start actions = some b) :
    b.posts.Pairwise fun p q => final p.status = true → q.job = p.job → q.status ≠ queuedVerdict :=
  (along_invariant (fun _ _ _ ended guarded taken => step_ended ended guarded taken) guarded
  start_ended h).ordered

def passedRun : List Action :=
  [.enqueue 0 { repository := "acme/app", sha := "c0ffee", ref := "main", delivery := some "d1" } "job" 0,
    .postQueued 0 true, .claim "mini" [] 300 0 none,
    .receive 1 "job" { device := "mini", exitCode := some 0 } true, .checkLease 1 60, .settle 1 60,
    .postReport 1 .accepted]

/-- The status of the row that an enqueue of this worker is about to speak for. -/
def queuedStatus (b : Broker) (i : Nat) : Option JobStatus :=
  match b.workers i with
  | .queued job _ _ => (b.store.row? job.id).map Row.status
  | _ => none

theorem passedRun_open : Along step QueuedWhileOpen start passedRun := by
  have first : (step start (.enqueue 0
      { repository := "acme/app", sha := "c0ffee", ref := "main", delivery := some "d1" } "job" 0)).map
        (queuedStatus · 0) = some (some .pending) := by
    decide +kernel
  have closed {s : Broker} {a : Action} (other : ∀ j reached, a ≠ .postQueued j reached) :
      QueuedWhileOpen s a :=
    fun j reached _ _ _ same => absurd same (other j reached)
  refine ⟨closed (by simp), fun t taken => ⟨?_, fun u _ => ?_⟩⟩
  · rintro i reached job repository commit same at_ r found
    obtain ⟨rfl, rfl⟩ := Action.postQueued.inj same
    rw [taken, Option.map_some, queuedStatus, at_] at first
    simp only [found, Option.map_some, Option.some.injEq] at first
    rw [first]
    rfl
  · refine along_mono (fun s a other => closed other)
      (along_of_forall (fun a => ∀ j reached, a ≠ Action.postQueued j reached) ?_)
    simp

theorem passedRun_never_queued : ∃ b, run step start passedRun = some b ∧
    b.posts.Pairwise fun p q => final p.status = true → q.job = p.job → q.status ≠ queuedVerdict := by
  obtain ⟨b, h⟩ := Option.isSome_iff_exists.mp (show (run step start passedRun).isSome by decide +kernel)
  exact ⟨b, h, finished_never_queued passedRun_open h⟩

/-- The same webhook delivered again after the run passed. -/
def redelivered : List Action :=
  passedRun ++
    [.enqueue 0 { repository := "acme/app", sha := "c0ffee", ref := "main", delivery := some "d1" }
      "job2" 120,
      .postQueued 0 true]

theorem redelivered_posts :
    (run step start redelivered).map (fun b => b.posts.map fun post => (post.job, post.status)) =
    some [("job", queuedVerdict), ("job", ⟨.success, "device pool run passed"⟩),
    ("job", queuedVerdict)] := by
  decide +kernel

theorem redelivery_queues_finished_run :
    ¬∀ actions b, run step start actions = some b →
      b.posts.Pairwise fun p q => final p.status = true → q.job = p.job → q.status ≠ queuedVerdict := by
  intro never
  obtain ⟨b, h, posts⟩ := Option.map_eq_some_iff.mp redelivered_posts
  have ordered := (List.pairwise_map (f := fun post : Post => (post.job, post.status))
    (R := fun p q => final p.2 = true → q.1 = p.1 → q.2 ≠ queuedVerdict)).mpr (never _ b h)
  rw [posts] at ordered
  revert ordered
  decide

end Broker
end Cindral.Status

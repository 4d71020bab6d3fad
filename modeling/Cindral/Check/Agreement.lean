import Cindral.Check.Summary
import Cindral.Device.Storage
import Cindral.Status.Pending

/-! The commit status of a run against the check of the record it settled as. -/

namespace Cindral.Check
open Base Queue Status

/-- One settling of a run: what the status was made from, the row it found, the record it left and
the status the commit is given. -/
structure Settlement where
  read : Job
  row : Row
  record : Job
  status : Verdict
  ending : Ending
  log : String

/-- The status says what the check of the record says. -/
structure Settlement.Agrees (s : Settlement) : Prop where
  status : s.status = told s.record
  open_ : conclusionFor s.record = none ↔ s.status.state = .pending
  passed : conclusionFor s.record = some .success ↔ s.status.state = .success

/-- The status counts the attempts of the row, if it counts any. -/
def Settlement.Current (s : Settlement) : Prop :=
  (∃ code, s.ending = .exit code) ∨ s.read.attempts = s.row.attempts

def settlementsAt (b c : Broker) : Action → List Settlement
  | .settle i _ =>
    match b.workers i, c.workers i with
    | .admitted job reported _, .reporting record status _ =>
      (b.store.row? job.id).toList.map fun row =>
        ⟨job, row, record, status, reported.ending, reported.log⟩
    | _, _ => []
  | .reclaim now =>
    (b.store.lapsed now).filterMap fun row => (c.store.row? row.id).bind fun released =>
      released.pendingStatus.map fun status => ⟨row.job, row, released.job, status, .error leaseLost, ""⟩
  | _ => []

def settlements (b : Broker) : List Action → List Settlement
  | [] => []
  | a :: rest =>
    match b.step a with
    | some c => settlementsAt b c a ++ settlements c rest
    | none => []

/-! ## The two texts -/

/-- Where the text of a waiting run counts its attempts. -/
theorem lostDescription_retry {job : Job} (error : String) (waits : job.attempts < maxAttempts) :
    (lostDescription job error).description.toList[28]? = some (Nat.digitChar (job.attempts + 1)) := by
  have left : ¬parked job.attempts = true := fun out => absurd (parked_iff.mp out) (not_le.mpr waits)
  rw [lostDescription, if_neg left]
  simp only [toList_sliceTo]
  rw [List.getElem?_take_of_lt (by decide)]
  simp only [String.toList_append]
  obtain first | second | third : job.attempts = 0 ∨ job.attempts = 1 ∨ job.attempts = 2 := by
    rw [maxAttempts] at waits
    omega
  · rw [first]; rfl
  · rw [second]; rfl
  · rw [third]; rfl

theorem lostDescription_attempts {job other : Job} {error error' : String}
    (low : job.attempts ≤ other.attempts)
    (high : other.attempts ≤ maxAttempts)
    (same : lostDescription job error = lostDescription other error') :
    job.attempts = other.attempts := by
  have states : maxAttempts ≤ job.attempts ↔ maxAttempts ≤ other.attempts := by
    rw [← lostDescription_error_iff job error, same, lostDescription_error_iff]
  by_cases out : maxAttempts ≤ other.attempts
  · exact le_antisymm low (high.trans (states.mpr out))
  · have less : other.attempts < maxAttempts := not_le.mp out
    have digit : some (Nat.digitChar (job.attempts + 1)) = some (Nat.digitChar (other.attempts + 1)) := by
      rw [← lostDescription_retry error (low.trans_lt less), same, lostDescription_retry error' less]
    have digits : ∀ m < maxAttempts, ∀ n < maxAttempts, Nat.digitChar (m + 1) = Nat.digitChar
      (n + 1) → m = n := by decide
    exact digits _ (low.trans_lt less) _ less (Option.some.inj digit)

/-! ## One settling -/

variable {b c : Broker} {a : Action}

theorem agrees_iff {s : Settlement} : s.Agrees ↔ s.status = told s.record := by
  refine ⟨Settlement.Agrees.status, fun same => ⟨same, ?_, ?_⟩⟩
  · rw [same]
    exact conclusionFor_none_iff
  · rw [same]
    exact conclusionFor_success_iff

/-- What a report is once its body was read. -/
structure Genuine (reported : Reported) : Prop where
  named : ∀ text, reported.ending = .error text → text ≠ ""
  steps : Device.Storable reported.steps

theorem reported_genuine {payload : Payload} {reported : Reported}
    (read : payload.reported? = some reported) :
    Genuine reported := by
  have steps := (Device.reported_read read).1
  refine ⟨fun text lost => ?_, steps ▸ Device.encodeSteps_storable _⟩
  simp only [Payload.reported?] at read
  split at read
  · rename_i named
    obtain rfl := Option.some.inj read
    obtain rfl := Ending.error.inj lost
    exact named
  · obtain ⟨code, -, rfl⟩ := Option.map_eq_some_iff.mp read
    cases lost

def Worker.reported? : Worker → Option Reported
  | .received _ reported | .admitted _ reported _ => some reported
  | _ => none

/-- What a settling rests on. -/
structure Faithful (b : Broker) : Prop where
  steady : b.Steady
  informed : ∀ i, Broker.Informed b.store (b.workers i)
  genuine : ∀ i reported, Worker.reported? (b.workers i) = some reported → Genuine reported
  rows : ∀ r ∈ b.store.jobs.rows, Lifecycle r

theorem start_faithful : Faithful Broker.start :=
  ⟨Broker.start_steady, fun _ => trivial, fun _ _ none_ => (by cases none_), fun _ member =>
  (by cases member)⟩

theorem proceed_reported? (todo : List Owed) : Worker.reported? (Broker.proceed todo) = none := by
  cases todo <;> rfl

theorem step_genuine (h : ∀ i reported, Worker.reported? (b.workers i) = some reported → Genuine reported)
    (taken : b.step a = some c) {j : Nat} {reported : Reported}
    (at_ : Worker.reported? (c.workers j) = some reported) :
    Genuine reported := by
  -- a step gives its worker a report it had before, none, or the one it has just read
  have shift {x : Broker} {i : Nat} {w : Worker} (workers : x.workers = b.workers)
      (own : Worker.reported? w = some reported → Genuine reported)
      (here : Worker.reported? ((x.become i w).workers j) = some reported) : Genuine reported := by
    by_cases same : j = i
    · subst same
      rw [Broker.workers_become] at here
      exact own here
    · rw [Broker.workers_become_ne w same, workers] at here
      exact h j reported here
  have list (todo : List Owed) : Worker.reported? (Broker.proceed todo) = some reported →
      Genuine reported := by
    rw [proceed_reported?]
    intro none_
    cases none_
  cases Broker.step_moved taken with
  | stay | claimed | renewed | heard | reclaimed => exact h j reported at_
  | @received i jobId payload authorized job own idle read =>
    refine shift rfl (fun same => ?_) at_
    obtain rfl := Option.some.inj same
    simp only [Broker.step, Broker.stepReceive, idle, read] at taken
    split at taken
    · rename_i job' own' _ made
      have moved := congrArg (fun x : Broker => Worker.reported? (x.workers i)) (Option.some.inj taken)
      split at moved
      · simp only [Broker.workers_become, Worker.reported?, Option.some.injEq] at moved
        exact moved ▸ reported_genuine made
      · simp [Broker.workers_become, Worker.reported?, idle] at moved
    · have moved := congrArg (fun x : Broker => Worker.reported? (x.workers i)) (Option.some.inj taken)
      simp [Broker.workers_become, Worker.reported?, idle] at moved
  | @admitted i now job own before =>
    refine shift rfl (fun same => h i reported ?_) at_
    rw [before]
    exact same
  | stopped => cases at_
  | drained | checkedStale | restored | closed | putBack => exact shift rfl (list _) at_
  | enqueued | dismissed | settled | owed | checkedCurrent | unclosed => exact shift rfl (fun none_ => by cases none_) at_
  | postedQueued | reportAccepted | reportRefused | reportRaised | postAccepted | postFailed =>
    exact shift (Broker.sent_workers ..) (fun none_ => by cases none_) at_

theorem step_faithful (h : Faithful b) (taken : b.step a = some c) : Faithful c := by
  have moved := Broker.step_moved taken
  refine ⟨Broker.step_steady h.steady taken, Broker.moved_informed h.informed moved,
    fun j reported at_ => step_genuine h.genuine taken at_, ?_⟩
  rcases Broker.moved_store moved with same | ⟨op, same⟩ <;> rw [same]
  · exact h.rows
  · exact Store.apply_forall fresh_lifecycle
      (fun _ _ _ step lifecycle => step_lifecycle step lifecycle) h.rows

/-- A report settles the row under the status the handler made of the job it read. -/
theorem settle_agrees (h : Faithful b) {i : Nat} {now : ℚ} {job : Job} {reported : Reported}
    {status : Verdict} {row row' : Row}
    {t : Store} (at_ : b.workers i = .admitted job reported status)
    (found : b.store.row? job.id = some row)
    (landed : b.store.settle job.id reported.device reported.report now = .ok t)
    (after : t.row? job.id = some row')
    (fits : reported.log.length ≤ maxLogChars) :
    status = told row'.job ↔ (∃ code, reported.ending = .exit code) ∨ job.attempts = row.attempts := by
  have informed := h.informed i
  rw [at_] at informed
  obtain ⟨⟨r, there, low⟩, rfl⟩ := informed
  obtain rfl := Option.some.inj (found.symm.trans there)
  have genuine := h.genuine i reported (by rw [at_]; rfl)
  have accepted : b.store.report job.id reported.device reported.report now = .ok (some row'.job, t) := by
    rw [Store.report, landed, Except.map, Store.get, after, Option.map_some]
  obtain ⟨x, same, running, -, ⟨failed, settled⟩ | ⟨exitCode, -, given, settled⟩⟩ :=
    Store.report_job accepted
  · obtain rfl := Option.some.inj (found.symm.trans same)
    obtain ⟨text, ending⟩ : ∃ text, reported.ending = .error text := by
      cases ending : reported.ending with
      | error text => exact ⟨text, rfl⟩
      | exit code =>
        rw [Reported.report, ending] at failed
        exact absurd rfl failed
    have error : reported.report.error = text := by rw [Reported.report, ending]
    have tells : told row'.job = lostDescription row.job text := by
      rw [settled, error, told_lost rfl rfl (genuine.named text ending)]
      exact lostDescription_congr text rfl
    have made : reportStatus job reported = lostDescription job text := by rw [reportStatus, ending]
    rw [made, tells]
    have high : row.job.attempts ≤ maxAttempts :=
      ((h.rows row (Store.row?_some found).1).running running).2.2
    constructor
    · exact fun agree => Or.inr (lostDescription_attempts low high agree)
    · rintro (⟨code, exit⟩ | still)
      · rw [ending] at exit
        cases exit
      · exact lostDescription_congr text still
  · obtain rfl := Option.some.inj (found.symm.trans same)
    have ending : reported.ending = .exit exitCode := by
      cases ending : reported.ending with
      | error text =>
        rw [Reported.report, ending] at given
        cases given
      | exit code =>
        rw [Reported.report, ending] at given
        rw [Option.some.inj given]
    refine ⟨fun _ => Or.inl ⟨exitCode, ending⟩, fun _ => ?_⟩
    have log : row'.job.log = reported.log := by
      rw [Device.report_log ending accepted]
      exact sliceTo_of_length_le fits
    have steps : row'.job.steps = reported.steps := Device.report_steps ending genuine.steps accepted
    have tells : told row'.job = if exitCode = 0 then ⟨.success, passedDescription⟩
        else ⟨.failure, failureDescription exitCode row'.job.log row'.job.steps⟩ := by
      refine told_exit ?_ ?_
      · rw [settled]
        rfl
      · rw [settled]
        rfl
    rw [tells, log, steps, reportStatus, ending]
    rfl

/-- A reclaim owes the commit what the check of the released run says. -/
theorem reclaim_agrees {s : Store} {now : ℚ} {row released : Row} (taken : row ∈ s.lapsed now)
    (after : (s.reclaimExpired now (some Broker.lossText)).2.row? row.id = some released) :
    released.pendingStatus = some (told released.job) ∧ released.id = row.id := by
  obtain ⟨member, spent⟩ := List.mem_filter.mp taken
  rw [Store.reclaim_row, Store.row?_of_mem member, Option.map_some, Edit.only_apply,
    if_pos spent] at after
  obtain rfl := Option.some.inj after
  refine ⟨?_, rfl⟩
  have named : leaseLost ≠ "" := by decide
  rw [told_lost rfl rfl named]
  exact congrArg some (lostDescription_congr leaseLost rfl)

/-- The settlings of a step: a report that was accepted, or a run a reclaim released. -/
inductive Settles (b c : Broker) (s : Settlement) : Prop where
  | report {i : Nat} {now : ℚ} {job : Job} {reported : Reported} {status : Verdict} {row row' : Row}
      {t : Store} :
      b.workers i = .admitted job reported status → b.store.row? job.id = some row →
      b.store.settle job.id reported.device reported.report now = .ok t → t.row? job.id = some row' →
      s = ⟨job, row, row'.job, status, reported.ending, reported.log⟩ → Settles b c s
  | reclaim {now : ℚ} {row released : Row} {status : Verdict} : row ∈ b.store.lapsed now →
      (b.store.reclaimExpired now (some Broker.lossText)).2.row? row.id = some released →
      released.pendingStatus = some status →
      s = ⟨row.job, row, released.job, status, .error leaseLost, ""⟩ → Settles b c s

theorem settlementsAt_settles (taken : b.step a = some c) {s : Settlement}
    (made : s ∈ settlementsAt b c a) :
    Settles b c s := by
  cases a with
  | settle i now =>
    simp only [settlementsAt] at made
    split at made
    · rename_i job reported status record status' seq at_ reporting
      obtain ⟨row, found, rfl⟩ := List.mem_map.mp made
      have moved : Broker.Moved b (.settle i now) c := Broker.step_moved taken
      cases moved with
      | stay =>
        rw [at_] at reporting
        cases reporting
      | @dismissed _ j _ before =>
        by_cases same : i = j
        · subst same
          rw [Broker.workers_become] at reporting
          cases reporting
        · rw [Broker.workers_become_ne _ same, at_] at reporting
          cases reporting
      | @settled _ _ job' reported' status'' row' t before free landed after =>
        rw [Broker.workers_become] at reporting
        obtain ⟨rfl, rfl, rfl⟩ := Worker.reporting.inj reporting
        obtain ⟨rfl, rfl, rfl⟩ := Worker.admitted.inj (before.symm.trans at_)
        exact .report before (Option.mem_toList.mp found) landed after rfl
    · cases made
  | reclaim now =>
    obtain ⟨row, lapsed, made⟩ := List.mem_filterMap.mp made
    obtain ⟨released, found, made⟩ := Option.bind_eq_some_iff.mp made
    obtain ⟨status, owed, rfl⟩ := Option.map_eq_some_iff.mp made
    simp only [Broker.step, Broker.stepReclaim] at taken
    split at taken
    · obtain rfl := Option.some.inj taken
      exact .reclaim lapsed found owed rfl
    · cases taken
  | _ => cases made

theorem settlement_agrees (h : Faithful b) {s : Settlement} (made : Settles b c s)
    (fits : s.log.length ≤ maxLogChars) : s.Agrees ↔ s.Current := by
  rw [agrees_iff]
  cases made with
  | report at_ found landed after same =>
    subst same
    exact settle_agrees h at_ found landed after fits
  | reclaim taken after owed same =>
    obtain ⟨pending, -⟩ := reclaim_agrees taken after
    subst same
    exact ⟨fun _ => Or.inr rfl, fun _ => Option.some.inj (owed.symm.trans pending)⟩

/-! ## Over a run -/

def Says (job : String) (status : Verdict) (s : Settlement) : Prop :=
  s.record.id = job ∧ s.status = status

/-- A step makes only verdicts that were made before or that a settling of it makes. -/
theorem written_settled (h : Faithful b) (taken : b.step a = some c) {note : Note}
    (member : note ∈ c.written) :
    (∃ old ∈ b.written, old.job = note.job ∧ old.status = note.status) ∨
      ∃ s ∈ settlementsAt b c a, Says note.job note.status s := by
  have quiet {reached : Bool} {post : Post} : (b.sent reached post).written = b.written := by
    unfold Broker.sent
    split <;> rfl
  have before (inside : note ∈ b.written) :
      ∃ old ∈ b.written, old.job = note.job ∧ old.status = note.status :=
    ⟨note, inside, rfl, rfl⟩
  cases Broker.step_moved taken with
  | @reclaimed now notes free made =>
    rcases List.mem_append.mp member with old | new
    · exact Or.inl (before old)
    · rw [made] at new
      obtain ⟨row, lapsed, rfl⟩ := List.mem_map.mp new
      obtain ⟨inside, spent⟩ := List.mem_filter.mp lapsed
      have after : (b.store.reclaimExpired now (some Broker.lossText)).2.row? row.id =
          some (Store.lapse now (some Broker.lossText) row) := by
        rw [Store.reclaim_row, Store.row?_of_mem inside, Option.map_some, Edit.only_apply, if_pos spent]
      refine Or.inr ⟨⟨row.job, row, (Store.lapse now (some Broker.lossText) row).job,
        Broker.lossText row.job, .error leaseLost,
        ""⟩, List.mem_filterMap.mpr ⟨row, lapsed, ?_⟩, rfl, rfl⟩
      rw [after]
      rfl
  | @settled i now job reported status row' t at_ free landed after =>
    rcases List.mem_append.mp member with old | new
    · exact Or.inl (before old)
    · obtain rfl := List.mem_singleton.mp new
      obtain ⟨row, found, -⟩ := Store.settle_cases landed
      refine Or.inr ⟨⟨job, row, row'.job, status, reported.ending, reported.log⟩, ?_,
        (Store.row?_some after).2, rfl⟩
      simp [settlementsAt, at_, Broker.workers_become, found]
  | @owed i job status seq sent at_ =>
    rcases List.mem_append.mp member with old | new
    · exact Or.inl (before old)
    · have held : (b.view job.id).hand i = some ⟨status, seq, sent, false⟩ := by
        simp only [Broker.view, at_, Worker.inHand, if_true]
      have made := Broker.mem_notesOf.mp ((h.steady.sound job.id).hand_written i _ held)
      obtain rfl := List.mem_singleton.mp new
      exact Or.inl ⟨_, made, rfl, rfl⟩
  | postedQueued | reportAccepted | reportRefused | reportRaised | postAccepted | postFailed =>
    simp only [Broker.become, quiet] at member
    exact Or.inl (before member)
  | _ => exact Or.inl (before member)

/-- Every settling of a run agrees with its check exactly when it is current, and every verdict of
the run is one of them. -/
theorem settlements_run {actions : List Action} (h : Faithful b)
    (ran : run Broker.step b actions = some c) :
    Faithful c ∧ (∀ s ∈ settlements b actions, s.log.length ≤ maxLogChars → (s.Agrees ↔ s.Current)) ∧
      ∀ note ∈ c.written, (∃ old ∈ b.written, old.job = note.job ∧ old.status = note.status) ∨
        ∃ s ∈ settlements b actions, Says note.job note.status s := by
  induction actions generalizing b with
  | nil =>
    obtain rfl := Option.some.inj ran
    exact ⟨h, fun s made => (by cases made), fun note member => Or.inl ⟨note, member, rfl, rfl⟩⟩
  | cons a rest ih =>
    obtain ⟨x, taken, tail⟩ := run_cons ran
    obtain ⟨faithful, agree, made⟩ := ih (step_faithful h taken) tail
    have unfolded : settlements b (a :: rest) = settlementsAt b x a ++ settlements x rest := by
      rw [settlements, taken]
    rw [unfolded]
    refine ⟨faithful, fun s member fits => ?_, fun note member => ?_⟩
    · rcases List.mem_append.mp member with now | later
      · exact settlement_agrees h (settlementsAt_settles taken now) fits
      · exact agree s later fits
    · rcases made note member with ⟨old, inside, job, status⟩ | ⟨s, later, same⟩
      · rcases written_settled h taken inside with ⟨older, earlier, job', status'⟩ | ⟨s, now, same⟩
        · exact Or.inl ⟨older, earlier, job'.trans job, status'.trans status⟩
        · exact Or.inr ⟨s, List.mem_append_left _ now, same.1.trans job, same.2.trans status⟩
      · exact Or.inr ⟨s, List.mem_append_right _ later, same⟩

/-- Every verdict a run posts or owes is the status of one of its settlings, and it says what the
check of the settled record says exactly when it counts no attempts or those of the row. -/
theorem status_agrees_with_check {actions : List Action}
    (ran : run Broker.step Broker.start actions = some b) :
    (∀ s ∈ settlements Broker.start actions, s.log.length ≤ maxLogChars → (s.Agrees ↔ s.Current)) ∧
      (∀ post ∈ b.posts, post.seq.isSome → ∃ s ∈ settlements Broker.start actions,
      Says post.job post.status s) ∧
      ∀ note ∈ b.owed, ∃ s ∈ settlements Broker.start actions, Says note.job note.status s := by
  obtain ⟨faithful, agree, made⟩ := settlements_run start_faithful ran
  have settled (note : Note) (member : note ∈ b.written) :
      ∃ s ∈ settlements Broker.start actions, Says note.job note.status s := by
    rcases made note member with ⟨_, absent, -⟩ | found
    · cases absent
    · exact found
  refine ⟨agree, fun post member numbered => ?_, fun note member => ?_⟩
  · obtain ⟨seq, given⟩ := Option.isSome_iff_exists.mp numbered
    have there : (post.status, seq) ∈ (b.view post.job).posted :=
      Broker.mem_postsOf.mpr ⟨post, member, rfl, rfl, given⟩
    exact settled _ (Broker.mem_notesOf.mp ((faithful.steady.sound post.job).posted_written _ there))
  · have there : (note.status, note.seq) ∈ (b.view note.job).owed := Broker.mem_notesOf.mpr member
    exact settled _ (Broker.mem_notesOf.mp ((faithful.steady.sound note.job).owed_written _ there))

/-- A run whose report is read while its first attempt runs and settles on its third. -/
def lateReport : List Action :=
  [.enqueue 0 { repository := "acme/app", sha := "c0ffee", ref := "main" } "job" 0,
    .claim "mini" [] 300 0 none,
    .receive 1 "job" { device := "mini", error := "out of disk" } true, .reclaim 400,
    .claim "mini" [] 300 500 none,
    .reclaim 900, .claim "mini" [] 300 1000 none, .checkLease 1 1010, .settle 1 1010]

theorem lateReport_agrees : ∃ b, run Broker.step Broker.start lateReport = some b ∧
    (∀ s ∈ settlements Broker.start lateReport, s.log.length ≤ maxLogChars → (s.Agrees ↔ s.Current)) ∧
      (∀ post ∈ b.posts, post.seq.isSome → ∃ s ∈ settlements Broker.start lateReport,
      Says post.job post.status s) ∧
      ∀ note ∈ b.owed, ∃ s ∈ settlements Broker.start lateReport, Says note.job note.status s := by
  obtain ⟨b, ran⟩ := Option.isSome_iff_exists.mp
    (show (run Broker.step Broker.start lateReport).isSome by decide +kernel)
  exact ⟨b, ran, status_agrees_with_check ran⟩

theorem lateReport_states :
    (settlements Broker.start lateReport).map
      (fun s => (s.log.length, s.status.state, stateFor s.record)) =
      [(0, .pending, .pending), (0, .pending, .pending), (0, .pending, .error)] := by
  decide +kernel

/-- The commit of a parked run is told that the run waits for a retry. -/
theorem lateReport_disagrees :
    ¬∀ actions b, run Broker.step Broker.start actions = some b →
      ∀ s ∈ settlements Broker.start actions, s.log.length ≤ maxLogChars → s.Agrees := by
  intro always
  obtain ⟨b, ran⟩ := Option.isSome_iff_exists.mp
    (show (run Broker.step Broker.start lateReport).isSome by decide +kernel)
  have last : (0, CommitState.pending, CommitState.error) ∈
      (settlements Broker.start lateReport).map
      (fun s => (s.log.length, s.status.state, stateFor s.record)) := by
    rw [lateReport_states]
    decide
  obtain ⟨s, member, same⟩ := List.mem_map.mp last
  obtain ⟨log, state, record⟩ := (Prod.mk.injEq ..).mp same |>.imp_right fun rest =>
    (Prod.mk.injEq ..).mp rest
  have agrees := always lateReport b ran s member (log ▸ Nat.zero_le _)
  have states : s.status.state = stateFor s.record := congrArg Verdict.state agrees.status
  rw [state, record] at states
  cases states

end Cindral.Check

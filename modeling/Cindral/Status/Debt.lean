import Cindral.Status.Order

/-!
# What a report leaves behind

`_report` settles the row, posts the verdict and records it as owed where the post failed, all under
the status lock. It records the debt for `GitHubAPIError` alone.
-/

namespace Cindral.Status
open Base Queue

/-- The handler has settled the report's verdict, and has not let go of it. -/
def Worker.Reports (job : Job) (status : Verdict) (seq : Nat) : Worker → Prop
  | reporting job' status' seq' | owing job' status' seq' _ => job' = job ∧ status' = status ∧ seq' = seq
  | _ => False

namespace Broker
variable {b c : Broker} {a : Action} {i : Nat} {job : Job} {status : Verdict} {seq : Nat}
    {actions : List Action}

/-- The verdict is on the commit, or owed to it by the row. -/
def Recorded (b : Broker) (job : Job) (status : Verdict) (seq : Nat) : Prop :=
  reportPost job status seq ∈ b.posts ∨ b.store.slot job.id = some status

/-- A handler that has yet to post has a number no post has. -/
def Unposted (b : Broker) : Prop :=
  ∀ i job status seq, b.workers i = .reporting job status seq → ∀ post ∈ b.posts,
  post.job = job.id → post.seq ≠ some seq

theorem posted_le (steady : Steady b) {post : Post} (member : post ∈ b.posts)
    (numbered : post.seq = some seq) :
    seq ≤ b.store.currentSeq post.job :=
  (steady.sound post.job).posted_le (post.status, seq)
  (mem_postsOf.mpr ⟨post, member, rfl, rfl, numbered⟩)

/-- A worker moves to where it has nothing to post, and no numbered post goes out. -/
theorem unposted_quiet (h : Unposted b) {w : Worker}
    (quiet : ∀ job status seq, w ≠ .reporting job status seq)
    (workers : c.workers = Function.update b.workers i w)
    (posts : ∀ post ∈ c.posts, post ∈ b.posts ∨ post.seq = none) :
    Unposted c := by
  intro j job status seq at_ post member here
  rw [workers] at at_
  by_cases acting : j = i
  · subst acting
    rw [Function.update_self] at at_
    exact absurd at_ (quiet _ _ _)
  · rw [Function.update_of_ne acting] at at_
    rcases posts post member with old | unnumbered
    · exact h j job status seq at_ post old here
    · rw [unnumbered]
      rintro ⟨⟩

/-- The only worker inside the lock moves to where it has nothing to post. -/
theorem unposted_alone (locked : Locked b) {w : Worker} (w' : Worker) (at_ : b.workers i = w)
    (inside : w.critical = true)
    (quiet : ∀ job status seq, w' ≠ .reporting job status seq)
    (workers : c.workers = Function.update b.workers i w') :
    Unposted c := by
  intro j job status seq reporting
  rw [workers] at reporting
  by_cases acting : j = i
  · subst acting
    rw [Function.update_self] at reporting
    exact absurd reporting (quiet _ _ _)
  · rw [Function.update_of_ne acting] at reporting
    have alone := alone_of_holder locked (at_.symm ▸ inside) acting
    rw [reporting] at alone
    cases alone

theorem sent_posts {reached : Bool} {post other : Post} (member : other ∈ (b.sent reached post).posts) :
    other ∈ b.posts ∨ other = post := by
  unfold sent at member
  split at member
  · exact (List.mem_append.mp member).imp_right List.mem_singleton.mp
  · exact Or.inl member

theorem proceed_quiet (todo : List Owed) (job : Job) (status : Verdict) (seq : Nat) :
    proceed todo ≠ .reporting job status seq := by
  cases todo <;> rintro ⟨⟩

theorem step_unposted (steady : Steady b) (h : Unposted b) (taken : b.step a = some c) : Unposted c := by
  have locked := steady.locked
  cases step_moved taken with
  | stay _ => exact h
  | claimed | renewed | heard | reclaimed => exact h
  | postedQueued at_ =>
    refine unposted_quiet h (w := .idle)
      (by rintro _ _ _ ⟨⟩) (by rw [become, sent_workers]) fun post member => ?_
    rcases sent_posts member with old | rfl
    · exact Or.inl old
    · exact Or.inr rfl
  | enqueued | received | admitted | dismissed | checkedCurrent | unclosed =>
    refine unposted_quiet h ?_ rfl fun post member => Or.inl member
    rintro _ _ _ ⟨⟩
  | drained | checkedStale | closed | putBack =>
    exact unposted_quiet h (proceed_quiet _) rfl fun post member => Or.inl member
  | @settled i now job reported status row t at_ free landed found =>
    -- the number is a new one, above every post
    intro j job' status' seq' reporting post member here numbered
    by_cases acting : j = i
    · subst acting
      rw [workers_become] at reporting
      obtain ⟨rfl, rfl, rfl⟩ := Worker.reporting.inj reporting
      have below := posted_le steady member numbered
      have named : row.job.id = job.id := (Store.row?_some found).2
      rw [here, named, (Store.settle_ledger landed).2.1] at below
      omega
    · rw [workers_become_ne _ acting] at reporting
      exact h j job' status' seq' reporting post member here numbered
  | reportAccepted at_ | reportRaised at_ | owed at_ =>
    exact unposted_alone locked .idle at_ rfl (by rintro _ _ _ ⟨⟩) (by simp only [become, sent_workers])
  | reportRefused at_ | postFailed _ at_ _ | postAccepted at_ =>
    refine unposted_alone locked _ at_ rfl ?_ (by rw [become, sent_workers])
    rintro _ _ _ ⟨⟩
  | restored at_ => exact unposted_alone locked _ at_ rfl (proceed_quiet _) rfl
  | stopped =>
    intro j job status seq reporting
    cases reporting

theorem run_unposted (ran : run step start actions = some b) : Steady b ∧ Unposted b :=
  run_invariant (P := fun b => Steady b ∧ Unposted b)
    (fun _ _ _ holds taken => ⟨step_steady holds.1 taken, step_unposted holds.1 holds.2 taken⟩)
    ⟨start_steady, by rintro _ _ _ _ ⟨⟩⟩ ran

/-- A worker inside the lock is moved by its own post, or by what follows a post that failed. -/
theorem moved_critical (moved : Moved b a c) (live : a ≠ .stop) (inside : (b.workers i).critical = true)
    (gone : c.workers i ≠ b.workers i) :
    (∃ outcome, a = .postReport i outcome ∨ a = .post i outcome) ∨ a = .owe i ∨ a = .restore i := by
  have apart {j : Nat} {w : Worker} (at_ : b.workers j = w) (outside : w.critical = false) : i ≠ j := by
    rintro rfl
    rw [at_, outside] at inside
    cases inside
  have acting (j : Nat) (frame : ∀ k, k ≠ j → c.workers k = b.workers k) : j = i := by
    by_contra other
    exact gone (frame i (Ne.symm other))
  have sent_frame {d : Broker} {reached : Bool} {post : Post}
      (same : d.workers = (b.sent reached post).workers) {j : Nat}
      {w : Worker} (k : Nat) (other : k ≠ j) : (d.become j w).workers k = b.workers k := by
    rw [workers_become_ne w other, same, sent_workers]
  cases moved with
  | stay _ => exact absurd rfl gone
  | claimed | renewed | heard | reclaimed => exact absurd rfl gone
  | enqueued at_ | received at_ | admitted at_ | drained at_ | checkedCurrent at_ | checkedStale at_ | closed at_
  | unclosed at_ | putBack at_ | settled at_ => exact absurd (workers_become_ne _ (apart at_ rfl)) gone
  | postedQueued at_ =>
    refine absurd ?_ gone
    rw [workers_become_ne _ (apart at_ rfl), sent_workers]
  | dismissed _ at_ =>
    obtain ⟨job, reported, at_ | ⟨status, at_⟩⟩ := at_
    · exact absurd (workers_become_ne _ (apart at_ rfl)) gone
    · exact absurd (workers_become_ne _ (apart at_ rfl)) gone
  | @reportAccepted j _ _ _ at_ | @reportRefused j _ _ _ _ at_ | @reportRaised j _ _ _ _ at_ =>
    obtain rfl := acting j (sent_frame rfl)
    exact Or.inl ⟨_, Or.inl rfl⟩
  | @postAccepted j _ _ at_ | @postFailed j _ _ _ at_ _ =>
    obtain rfl := acting j (sent_frame rfl)
    exact Or.inl ⟨_, Or.inr rfl⟩
  | @owed j _ _ _ _ at_ =>
    obtain rfl := acting j fun k other => workers_become_ne _ other
    exact Or.inr (Or.inl rfl)
  | @restored j _ _ _ at_ =>
    obtain rfl := acting j fun k other => workers_become_ne _ other
    exact Or.inr (Or.inr rfl)
  | stopped => exact absurd rfl live

theorem sent_self (post : Post) : post ∈ (b.sent true post).posts :=
  List.mem_append_right _ (List.mem_singleton_self post)

/-- The post of a report, and what its handler ends with. -/
theorem postReport_recorded (steady : Steady b) (unposted : Unposted b)
    (at_ : b.workers i = .reporting job status seq)
    {outcome : Outcome} (taken : b.step (.postReport i outcome) = some c) (ended : c.workers i = .idle) :
    c.Recorded job status seq ↔ outcome ≠ .raised false := by
  simp only [step, stepPostReport, at_] at taken
  cases outcome with
  | accepted =>
    obtain rfl := Option.some.inj taken
    exact iff_of_true (Or.inl (sent_self _)) (by rintro ⟨⟩)
  | refused reached =>
    obtain rfl := Option.some.inj taken
    rw [workers_become] at ended
    cases ended
  | raised reached =>
    obtain rfl := Option.some.inj taken
    cases reached with
    | true => exact iff_of_true (Or.inl (sent_self _)) (by rintro ⟨⟩)
    | false =>
      refine iff_of_false ?_ (absurd rfl)
      rintro (posted | owed)
      · exact unposted i job status seq at_ _ posted rfl rfl
      · -- settling emptied the slot, and the lock has kept it empty
        have held : (b.view job.id).hand i = some ⟨status, seq, false, false⟩ := by
          simp only [view, at_, Worker.inHand, if_true]
        have current : b.store.currentSeq job.id = seq := by
          have relied := steady.locked.current i
          rwa [at_] at relied
        have empty : b.store.slot job.id = none := (steady.sound job.id).slot_free i _ held current.symm
        cases empty.symm.trans owed

theorem owe_recorded (steady : Steady b) {sent : Bool} (at_ : b.workers i = .owing job status seq sent)
    (taken : b.step (.owe i) = some c) : c.Recorded job status seq := by
  simp only [step, stepOwe, at_] at taken
  obtain rfl := Option.some.inj taken
  have held : (b.view job.id).hand i = some ⟨status, seq, sent, false⟩ := by
    simp only [view, at_, Worker.inHand, if_true]
  have sound := steady.sound job.id
  obtain ⟨row, found⟩ := Store.row_of_seq_pos
    ((sound.hand_pos i _ held).trans_le (sound.hand_le i _ held))
  exact Or.inr (Store.oweStatus_ledger status found).1

/-- A handler ends with its verdict recorded, unless its post raised an error it does not catch and
did not get through. -/
theorem step_recorded (steady : Steady b) (unposted : Unposted b)
    (reports : (b.workers i).Reports job status seq)
    (taken : b.step a = some c) (live : a ≠ .stop) (ended : c.workers i = .idle) :
    c.Recorded job status seq ↔ a ≠ .postReport i (.raised false) := by
  cases at_ : b.workers i with
  | reporting job' status' seq' =>
    rw [at_] at reports
    obtain ⟨rfl, rfl, rfl⟩ := reports
    rcases moved_critical (step_moved taken) live (by rw [at_]; rfl) (by rw [at_, ended]; rintro ⟨⟩) with
      ⟨outcome, rfl | rfl⟩ | rfl | rfl
    · rw [postReport_recorded steady unposted at_ taken ended]
      simp only [ne_eq, Action.postReport.injEq, true_and]
    · simp only [step, stepPost, at_] at taken
      cases taken
    · simp only [step, stepOwe, at_] at taken
      cases taken
    · simp only [step, stepRestore, at_] at taken
      cases taken
  | owing job' status' seq' sent =>
    rw [at_] at reports
    obtain ⟨rfl, rfl, rfl⟩ := reports
    rcases moved_critical (step_moved taken) live (by rw [at_]; rfl) (by rw [at_, ended]; rintro ⟨⟩) with
      ⟨outcome, rfl | rfl⟩ | rfl | rfl
    · simp only [step, stepPostReport, at_] at taken
      cases taken
    · simp only [step, stepPost, at_] at taken
      cases taken
    · exact iff_of_true (owe_recorded steady at_ taken) (by rintro ⟨⟩)
    · simp only [step, stepRestore, at_] at taken
      cases taken
  | _ =>
    rw [at_] at reports
    exact reports.elim

/-- Whenever a report handler of the run ends, its verdict is recorded. A stop does not end a
handler, it ends the process. -/
def EveryReportRecorded (actions : List Action) : Prop :=
  ∀ first a rest b c, actions = first ++ a :: rest → run step start first = some b →
    b.step a = some c → a ≠ .stop →
    ∀ i job status seq, (b.workers i).Reports job status seq → c.workers i = .idle →
    c.Recorded job status seq

theorem raised_unrecorded {first rest : List Action}
    (ran : run step start (first ++ .postReport i (.raised false) :: rest) = some b) :
    ¬EveryReportRecorded (first ++ .postReport i (.raised false) :: rest) := by
  intro recorded
  obtain ⟨s, before, after⟩ := run_split ran
  obtain ⟨t, taken, -⟩ := run_cons after
  obtain ⟨steady, unposted⟩ := run_unposted before
  cases at_ : s.workers i with
  | reporting job status seq =>
    have reports : (s.workers i).Reports job status seq := by
      rw [at_]
      exact ⟨rfl, rfl, rfl⟩
    have ended : t.workers i = .idle := by
      simp only [step, stepPostReport, at_] at taken
      obtain rfl := Option.some.inj taken
      exact workers_become _
    have live : Action.postReport i (.raised false) ≠ .stop := by rintro ⟨⟩
    have done := recorded first _ rest s t rfl before taken live i job status seq reports ended
    exact (step_recorded steady unposted reports taken live ended).mp done rfl
  | _ =>
    simp only [step, stepPostReport, at_] at taken
    cases taken

/-- A run records every report it accepts exactly when no report's post raises an error other than
GitHub's own and fails to get through. -/
theorem reports_recorded (ran : run step start actions = some b) :
    EveryReportRecorded actions ↔ ∀ i, Action.postReport i (.raised false) ∉ actions := by
  constructor
  · intro recorded i member
    obtain ⟨first, rest, rfl⟩ := List.append_of_mem member
    exact raised_unrecorded ran recorded
  · rintro clean first a rest s t rfl before taken live i job status seq reports ended
    obtain ⟨steady, unposted⟩ := run_unposted before
    refine (step_recorded steady unposted reports taken live ended).mpr ?_
    rintro rfl
    exact clean i (List.mem_append_right _ List.mem_cons_self)

/-- A run passes on its device, up to its post. -/
def settledRun : List Action :=
  [.enqueue 0 { repository := "acme/app", sha := "c0ffee", ref := "main" } "job" 0, .postQueued 0 true,
    .claim "mini" [] 300 0 none, .receive 1 "job" { device := "mini", exitCode := some 0 } true,
    .checkLease 1 60, .settle 1 60]

theorem refused_post_recorded :
    ∃ b, run step start (settledRun ++ [.postReport 1 (.refused false), .owe 1]) = some b ∧
    EveryReportRecorded (settledRun ++ [.postReport 1 (.refused false), .owe 1]) := by
  obtain ⟨b, ran⟩ := Option.isSome_iff_exists.mp
    (show (run step start
    (settledRun ++ [.postReport 1 (.refused false), .owe 1])).isSome by decide +kernel)
  exact ⟨b, ran, (reports_recorded ran).mpr (by simp [settledRun])⟩

/-- The post times out while GitHub's answer is read. -/
theorem timed_out_post_unrecorded :
    ¬ ∀ actions b, run step start actions = some b → EveryReportRecorded actions := by
  intro claim
  obtain ⟨b, ran⟩ := Option.isSome_iff_exists.mp
    (show (run step start (settledRun ++ [.postReport 1 (.raised false)])).isSome by decide +kernel)
  exact raised_unrecorded ran (claim _ b ran)

end Broker
end Cindral.Status

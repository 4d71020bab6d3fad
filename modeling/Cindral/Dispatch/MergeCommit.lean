import Cindral.Dispatch.Containment
import Cindral.Dispatch.Site

/-!
# Which commit a queued pull request builds

A job is queued on the device pool for the event's own head, or for the merge GitHub names. Asked at
dispatch, GitHub says what that merge joins; the payload of the event does not.
-/

namespace Cindral.Dispatch
open Base Routing Script
variable {parents : String → List String} {server : Server} {event : PullRequestEvent} {w w' : World}

/-- A merge commit that GitHub names is told with its own parents. -/
def Truthful (parents : String → List String) (k : Choice) : Prop :=
  ∀ sha joined, k.merge = some (sha, joined) → joined = parents sha

/-- The calls of a handler, answered by a GitHub that is truthful about merges. -/
abbrev performTruly (parents : String → List String) (k : { k : Choice // Truthful parents k })
    (w : World) (c : Call) :
    Option (Except Raised (Ans c) × World) := perform k.1 w c

/-- A job for an event that may run on the device pool, and for its head or a merge that has this
head as a parent. -/
structure Pins (parents : String → List String) (server : Server) (event : PullRequestEvent)
    (row : Queue.Row) : Prop where
  sameRepo : event.sameRepo = true
  trusted : event.trusted = true
  ready : event.draft = false
  device : server.policy.permitsDevice event.repository = true
  repository : row.repository = event.repository
  commit : row.sha = event.headSha ∨ event.headSha ∈ parents row.sha

/-- The broker takes the event for the device pool. -/
def takesDirect (server : Server) (event : PullRequestEvent) : Bool :=
  isRepositorySlug event.repository && event.directEligible && server.policy.permitsDevice
    event.repository &&
    server.jobsDb && server.agentToken && Queue.Store.integer server.jobTimeout

/-- A merge is built only where its parents include the head. -/
theorem runShaForPullRequest_pins (headSha : String) (resolved : Option (String × List String)) :
    runShaForPullRequest headSha resolved = headSha ∨
      ∃ joined, resolved = some (runShaForPullRequest headSha resolved, joined) ∧ headSha ∈ joined := by
  unfold runShaForPullRequest
  split
  · exact Or.inl rfl
  · rename_i sha joined
    split
    · exact Or.inl rfl
    · rename_i current
      simp only [Bool.or_eq_true, decide_eq_true_eq, not_or, not_not] at current
      exact Or.inr ⟨joined, rfl, current.2⟩

/-- With a client, the commit to build is the head or a merge of it. -/
theorem resolveRunSha_pins (github : server.github = true) {sha : String}
    (ran : Ran (performTruly parents) (resolveRunSha server event) w (.ok sha) w') :
    sha = event.headSha ∨ event.headSha ∈ parents sha := by
  unfold resolveRunSha at ran
  simp only [github, Bool.not_true, Bool.false_eq_true, if_false, bind_eq] at ran
  obtain ⟨outcome, v, asked, rest⟩ := ran_try ran
  cases outcome with
  | ok resolved =>
    obtain ⟨same, -⟩ := ran_done rest
    obtain rfl := Except.ok.inj same
    refine (runShaForPullRequest_pins event.headSha resolved).imp_right fun ⟨joined, told, current⟩ => ?_
    obtain ⟨⟨k, truthful⟩, answered⟩ := ran_call asked
    rcases perform_cases answered with ⟨e, -, -, failed, -⟩ | ⟨-, merge⟩
    · cases failed
    · obtain ⟨same, -⟩ := Prod.mk.inj (Option.some.inj merge)
      have named : k.merge = resolved := Except.ok.inj same
      rw [← truthful _ joined (named.trans told)]
      exact current
  | error e =>
    cases e with
    | githubApiError _ =>
      obtain ⟨same, -⟩ := ran_done rest
      exact Or.inl (Except.ok.inj same)
    | _ =>
      obtain ⟨same, -⟩ := ran_fail rest
      cases same

/-- The one job that `_enqueue_direct` queues is for the repository and the commit it is given. -/
theorem enqueueDirect_adds {delivery : Option String} {repository sha ref : String}
    {statusSha : Option String}
    {extra : List (String × Json)} {x : Except Raised Unit} {row : Queue.Row}
    (ran : Ran (performTruly parents) (enqueueDirect server delivery repository sha ref statusSha
    extra) w x w')
    (added : Added w w' row) : (server.agentToken = true ∧ Queue.Store.integer server.jobTimeout = true) ∧
      row.repository = repository ∧ row.sha = sha := by
  have agent : server.agentToken = true := by
    by_contra none
    rw [Bool.not_eq_true] at none
    simp only [enqueueDirect, none, Bool.not_false, if_true] at ran
    exact added_unqueued (aside_unqueued (only_sendError _ _)) ran added
  have direct : (enqueueDirect server delivery repository sha ref statusSha extra).Only
      (Call.queuing (directJob server delivery repository sha ref statusSha)) :=
    only_enqueueDirect (fun c h => unqueued_queuing (sideline_unqueued (telling_aside c h).1)) rfl extra
  obtain ⟨timeout, jobId, now, rfl⟩ := added_queued _ direct ran added
  exact ⟨⟨agent, timeout⟩, rfl, rfl⟩

/-- Only an event that the device pool takes adds a job, and it is for the commit that was resolved. -/
theorem pullRequest_adds {delivery : Option String} {x : Except Raised Unit} {row : Queue.Row}
    (ran : Ran (performTruly parents) (handlePullRequest server delivery event) w x w')
    (added : Added w w' row) :
    takesDirect server event = true ∧ row.repository = event.repository ∧
      ∃ v, Ran (performTruly parents) (resolveRunSha server event) w (.ok row.sha) v := by
  unfold handlePullRequest at ran
  split at ran
  · exact absurd added (added_unqueued (aside_unqueued (only_sendError _ _)) ran)
  rename_i slug
  rw [Bool.not_eq_true', Bool.not_eq_false] at slug
  split at ran
  · exact absurd added (added_unqueued (aside_unqueued (only_send _ _)) ran)
  split at ran
  · rename_i direct
    simp only [Bool.and_eq_true] at direct
    simp only [bind_eq] at ran
    rcases ran_bind ran with ⟨sha, v, resolved, rest⟩ | ⟨e, resolved, -⟩
    · have same := ran_unqueued (only_resolveRunSha trivial) resolved
      rw [Added, ← same] at added
      obtain ⟨⟨agent, timeout⟩, repository, rfl⟩ := enqueueDirect_adds rest added
      refine ⟨?_, repository, v, resolved⟩
      simp only [takesDirect, slug, direct.1.1, direct.1.2, direct.2, agent, timeout, Bool.and_self]
    · exact absurd added (added_unqueued (only_resolveRunSha trivial) resolved)
  split at ran
  · exact absurd added (added_unqueued (aside_unqueued (only_sendError _ _)) ran)
  · exact absurd added (added_unqueued (only_dispatchPullRequest server delivery event) ran)

/-- An empty queue takes any job that names a commit. -/
theorem enqueue_empty (request : Queue.EnqueueRequest) (jobId : String) (now : ℚ)
    (named : request.sha ≠ "")
    (timeout : Queue.Store.integer request.timeout = true) :
    ∃ job jobs, Queue.Store.empty.enqueue request jobId now = .ok (job, jobs) ∧
    jobs.jobs.rows = [request.row jobId now] := by
  obtain ⟨jobs, inserted⟩ :=
    Table.insert?_of_fresh (t := Queue.Store.empty.jobs) (r := request.row jobId now) rfl
  have free : Queue.Store.empty.insertJob? (request.row jobId now) =
      some { Queue.Store.empty with jobs := jobs } := by
    have unknown : ((request.row jobId now).delivery.bind Queue.Store.empty.byDelivery?).isSome =
        false := by
      cases (request.row jobId now).delivery <;> rfl
    simp only [Queue.Store.insertJob?, unknown, Bool.false_eq_true, if_false, inserted, Option.map_some]
  refine ⟨(request.row jobId now).job, { Queue.Store.empty with jobs := jobs }, ?_,
    Table.rows_insert inserted⟩
  simp only [Queue.Store.enqueue, if_neg named, timeout, Bool.not_true, Bool.false_eq_true,
    if_false, free]

/-- A broker without a client queues the commit that the payload names. -/
theorem takesDirect_queues (parents : String → List String) (delivery : Option String)
    (takes : takesDirect server event = true)
    (client : server.github = false) :
    ∃ x w' row, Ran (performTruly parents) (handlePullRequest server delivery event) World.empty x w' ∧
      Added World.empty w' row ∧ row.sha = event.runSha := by
  simp only [takesDirect, Bool.and_eq_true] at takes
  obtain ⟨⟨⟨⟨⟨slug, eligible⟩, device⟩, jobs⟩, agent⟩, timeout⟩ := takes
  have eligible' := eligible
  simp only [PullRequestEvent.directEligible, Bool.and_eq_true, decide_eq_true_eq] at eligible'
  obtain ⟨⟨⟨⟨routed, -⟩, -⟩, -⟩, named⟩ := eligible'
  let choice : { k : Choice // Truthful parents k } := ⟨{ fresh := "job" }, fun _ _ told => by cases told⟩
  let request : Queue.EnqueueRequest :=
    { repository := event.repository, sha := event.runSha, ref := event.ref, timeout := server.jobTimeout
      delivery := delivery.bind fun id => if id = "" then none else some id, statusSha :=
      some event.statusSha }
  obtain ⟨job, queue, queued, rows⟩ := enqueue_empty request "job" 0 named timeout
  have answered : performTruly parents choice World.empty (.enqueue request) =
      some (.ok job, { World.empty with jobs := queue }) := by
    simp only [performTruly, perform, choice, answer, World.empty, queued]
  have played : ∃ x, (handlePullRequest server delivery event).play
      (fun w c => performTruly parents choice w c) World.empty =
      some x ∧ x.2.jobs = queue := by
    simp only [handlePullRequest, slug, routed, jobs, eligible, device, resolveRunSha, client,
      enqueueDirect, agent,
      Bool.not_true, Bool.not_false, Bool.and_true, Bool.false_eq_true, if_true, if_false, pure_eq,
      bind_eq, done_bind,
      play_bind, play_call]
    rw [show performTruly parents choice World.empty (.enqueue request) = _ from answered]
    simp only [Option.bind_some, andThen, publishQuietly, postIf, client, Bool.false_eq_true,
      if_false, pure_eq, done_bind, send,
      play_call]
    exact ⟨_, rfl, rfl⟩
  obtain ⟨x, played, same⟩ := played
  refine ⟨x.1, x.2, request.row "job" 0, ran_of_play (fun _ => choice) played,
    ⟨?_, List.not_mem_nil⟩, rfl⟩
  rw [same, rows]
  exact List.mem_singleton_self _

/-- The jobs of pull requests pin the head under test exactly when GitHub can be asked, or the
payload names a commit that does. -/
theorem pull_request_jobs_pinned (parents : String → List String) (server : Server)
    (delivery : Option String)
    (payload : Option Json) (event : PullRequestEvent)
    (parsed : parsePullRequestEvent payload = .ok event) :
    (∀ w x w' row, Ran (performTruly parents) (pullRequestWebhook server delivery payload) w x w' →
      Added w w' row →
      Pins parents server event row) ↔
      (takesDirect server event = true → server.github = true ∨ event.runSha = event.headSha ∨
        event.headSha ∈ parents event.runSha) := by
  simp only [pullRequestWebhook, parsed]
  constructor
  · intro pinned takes
    cases client : server.github with
    | true => exact Or.inl rfl
    | false =>
      obtain ⟨x, w', row, ran, added, built⟩ := takesDirect_queues parents delivery takes client
      have commit := (pinned _ x w' row ran added).commit
      rw [built] at commit
      exact Or.inr commit
  · intro current w x w' row ran added
    obtain ⟨takes, repository, v, resolved⟩ := pullRequest_adds ran added
    have eligible := takes
    simp only [takesDirect, PullRequestEvent.directEligible, Bool.and_eq_true,
      Bool.not_eq_true'] at eligible
    obtain ⟨⟨⟨⟨⟨-, ⟨⟨⟨-, sameRepo⟩, trusted⟩, ready⟩, -⟩, device⟩, -⟩, -⟩, -⟩ := eligible
    refine ⟨sameRepo, trusted, ready, device, repository, ?_⟩
    cases client : server.github with
    | true => exact resolveRunSha_pins client resolved
    | false =>
      have built : row.sha = event.runSha := by
        unfold resolveRunSha at resolved
        simp only [client, Bool.not_false, if_true] at resolved
        exact Except.ok.inj (ran_done resolved).1
      rw [built]
      exact (current takes).resolve_left (by rw [client]; exact Bool.false_ne_true)

def pushedHead : String := "1f0c4d2b6a7e88f9c3d5e1a2b4f6a8091c2d3e4f"

def firstHead : String := "9a8b7c6d5e4f30211f0e1d2c3b4a59687f6e5d4c"

/-- The merge of the head before the last push. -/
def staleMerge : String := "00aa11bb22cc33dd44ee55ff66778899aabbccdd"

def currentMerge : String := "7e57ab1e0ff1ce0ddba11cafef00dfeedfacade5"

def joins (sha : String) : List String :=
  if sha = staleMerge then ["main", firstHead] else if sha =
    currentMerge then ["main", pushedHead] else []

def synchronized : PullRequestEvent :=
  { repository := "example-org/example-app", isPrivate := true, defaultBranch := "main", number := 42
    action := "synchronize", authorAssociation := "MEMBER", headRepo :=
    "example-org/example-app", headSha := pushedHead
    mergeSha := staleMerge, author := "octocat", authorType := "User" }

def synchronizedPayload : Json :=
  .obj [("action", .str "synchronize"), ("number", .int 42),
    ("repository", .obj [("full_name", .str "example-org/example-app"), ("private", .bool true),
      ("default_branch", .str "main")]),
    ("pull_request", .obj [("author_association", .str "MEMBER"), ("draft", .bool false),
      ("head", .obj [("sha", .str pushedHead),
      ("repo", .obj [("full_name", .str "example-org/example-app")])]),
      ("merge_commit_sha", .str staleMerge),
      ("user", .obj [("login", .str "octocat"), ("type", .str "User")])])]

def poolServer (github : Bool) : Server :=
  { policy := Policy.shipped, runners := [], github := github, jobsDb := true, agentToken := true,
      webhookSecret := true }

theorem resolved_merge_pinned :
    ∃ x w' row, Ran (performTruly joins)
      (pullRequestWebhook (poolServer true) none (some synchronizedPayload)) World.empty x w' ∧
      Added World.empty w' row ∧ row.sha = currentMerge ∧ Pins joins (poolServer true) synchronized
      row := by
  let choice : { k : Choice // Truthful joins k } :=
    ⟨{ fresh := "job", merge := some (currentMerge, joins currentMerge) }, fun sha joined told => by
      obtain ⟨rfl, rfl⟩ := Prod.mk.inj (Option.some.inj told)
      rfl⟩
  have built : ((pullRequestWebhook (poolServer true) none (some synchronizedPayload)).play
      (fun w c => performTruly joins choice w c) World.empty).map
      (fun x => x.2.jobs.jobs.rows.map (·.sha)) =
      some [currentMerge] := by decide +kernel
  obtain ⟨x, played, shas⟩ := Option.map_eq_some_iff.mp built
  obtain ⟨row, rows, sha⟩ := List.map_eq_singleton_iff.mp shas
  have ran := ran_of_play (fun _ => choice) played
  have added : Added World.empty x.2 row :=
    ⟨by rw [rows]; exact List.mem_singleton_self _, List.not_mem_nil⟩
  refine ⟨x.1, x.2, row, ran, added, sha, ?_⟩
  exact (pull_request_jobs_pinned joins (poolServer true) none (some synchronizedPayload)
    synchronized (by decide +kernel)).mpr
    (fun _ => Or.inl rfl) _ _ _ row ran added

theorem stale_merge_queued :
    ∃ x w' row, Ran (performTruly joins)
      (pullRequestWebhook (poolServer false) none (some synchronizedPayload)) World.empty x w' ∧
      Added World.empty w' row ∧ row.sha = staleMerge ∧ ¬Pins joins (poolServer false) synchronized
      row := by
  have parsed : parsePullRequestEvent (some synchronizedPayload) = .ok synchronized := by decide +kernel
  obtain ⟨x, w', row, ran, added, built⟩ := takesDirect_queues joins none
    (show takesDirect (poolServer false) synchronized = true by decide +kernel) rfl
  have stale : row.sha = staleMerge := built.trans (by decide +kernel)
  refine ⟨x, w', row, ?_, added, stale, fun pins => ?_⟩
  · simpa only [pullRequestWebhook, parsed] using ran
  · have commit := pins.commit
    rw [stale] at commit
    exact absurd commit (by decide +kernel)

end Cindral.Dispatch

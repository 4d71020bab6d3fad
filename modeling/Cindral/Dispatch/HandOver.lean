import Cindral.Dispatch.Ledger
import Cindral.Dispatch.Once

/-!
# The run a replay hands over

A push that runs on a device is queued from the event when it arrives, and from its ledger row when
a replay hands it over. The row has the name of the repository lowered, and the replay's enqueue
names neither a timeout nor a delivery.
-/

namespace Cindral.Dispatch
open Base Routing Script

/-- Two jobs that differ at most in when they are queued. -/
structure SameRun (row row' : Queue.Row) : Prop where
  repository : row.repository = row'.repository
  sha : row.sha = row'.sha
  ref : row.ref = row'.ref
  timeout : row.timeout = row'.timeout
  delivery : row.delivery = row'.delivery

/-- A later state of a row that the live path registered for the event. -/
def Recorded (server : Server) (header : Option String) (fingerprint : String) (event : PushEvent)
    (d : Delivery) : Prop :=
  ∃ w x w' born, Ran perform (handlePush server header fingerprint event) w x w' ∧
    w.deliveries.find? born.key = none ∧ w'.deliveries.find? born.key = some born ∧
    d.key = born.key ∧ d.registered = born.registered

/-- A call that registers no row but the event's. -/
def Call.registering (event : PushEvent) : Call → Prop
  | .register repository _ _ _ ref _ sha => repository = event.repository ∧ ref = event.branch ∧
      sha = event.after
  | _ => True

theorem plain_registering {event : PushEvent} {c : Call} (h : c.plain) : c.registering event := by
  cases c with
  | register _ _ _ _ _ _ _ => exact h.elim
  | _ => trivial

theorem plain_queuing {job : Queue.EnqueueRequest} {c : Call} (h : c.plain) : c.queuing job := by
  cases c with
  | enqueue _ => exact h.elim
  | _ => trivial

variable {server : Server} {header : Option String} {fingerprint : String} {event : PushEvent}
    {d : Delivery}
  {w w' v v' : World} {x y : Except Raised Unit} {row row' : Queue.Row}

theorem registered_names {d d' : Delivery} (same : d'.registered = d.registered) :
    d'.ref = d.ref ∧ d'.sha = d.sha := by
  simp only [Delivery.registered, Prod.mk.injEq] at same
  exact ⟨same.2.2.1, same.2.2.2.2⟩

/-- Every row that a push adds is the event's. -/
theorem handlePush_registers (ran : Ran perform (handlePush server header fingerprint event) w x w')
    {key : String × String}
    (absent : w.deliveries.find? key = none) (found : w'.deliveries.find? key = some d) :
    key.1 = lower event.repository ∧ d.ref = event.branch ∧ d.sha = event.after := by
  have only : (handlePush server header fingerprint event).Only (Call.registering event) :=
    only_handlePush (fun _ => plain_registering) (fun _ => trivial) (fun _ => ⟨rfl, rfl, rfl⟩) trivial
  have every : ∀ key d, w.deliveries.find? key = none → w'.deliveries.find? key = some d →
      key.1 = lower event.repository ∧ d.ref = event.branch ∧ d.sha = event.after := by
    refine ran_only (I := fun v => ∀ key d, w.deliveries.find? key = none →
      v.deliveries.find? key = some d →
      key.1 = lower event.repository ∧ d.ref = event.branch ∧ d.sha = event.after)
      (fun k v c r v' free before taken key d absent found => ?_) only (fun key d absent found => ?_) ran
    · cases known : v.deliveries.find? key with
      | some d₀ =>
        obtain ⟨d', found', evolved⟩ := (perform_evolves taken).kept key d₀ known
        obtain rfl := Option.some.inj (found.symm.trans found')
        obtain ⟨ref, sha⟩ := registered_names evolved.registered
        rw [ref, sha]
        exact before key d₀ absent known
      | none =>
        obtain ⟨repository, delivery, _, _, ref, _, sha, rfl, rfl, registered⟩ :=
          perform_born taken known found
        obtain ⟨rfl, rfl, rfl⟩ := free
        simp only [Delivery.registered, Prod.mk.injEq] at registered
        exact ⟨rfl, registered.2.2.1, registered.2.2.2.2⟩
    · rw [absent] at found
      cases found
  exact every key d absent found

theorem recorded_row (recorded : Recorded server header fingerprint event d) :
    d.repository = lower event.repository ∧ d.ref = event.branch ∧ d.sha = event.after := by
  obtain ⟨w, x, w', born, ran, absent, found, key, registered⟩ := recorded
  obtain ⟨repository, ref, sha⟩ := handlePush_registers ran absent found
  obtain ⟨ref', sha'⟩ := registered_names registered
  exact ⟨(congrArg Prod.fst key).trans repository, ref'.trans ref, sha'.trans sha⟩

theorem handlePush_adds (ran : Ran perform (handlePush server header fingerprint event) w x w')
    (added : Added w w' row) :
    ∃ jobId now, row = (pushJob server header event).row jobId now :=
  have only : (handlePush server header fingerprint event).Only
      (Call.queuing (pushJob server header event)) :=
    only_handlePush (fun _ => plain_queuing) (fun _ => trivial) (fun _ => trivial) rfl
  (added_queued id only ran added).2

theorem replayRecord_adds (ran : Ran perform (replayRecord server d) v y v') (added : Added v v' row) :
    ∃ jobId now, row = (replayJob d).row jobId now :=
  have only : (replayRecord server d).Only (Call.queuing (replayJob d)) :=
    only_replayRecord (fun _ => plain_queuing) trivial rfl
  (added_queued id only ran added).2

/-- A replay hands over the live path's job only where nothing is lost on the way: the name is
spelled in lower case, the timeout is the queue's own, and the push came without a delivery id. -/
theorem replay_hands_over_same (recorded : Recorded server header fingerprint event d)
    (live : Ran perform (handlePush server header fingerprint event) w x w') (queued : Added w w' row)
    (replay : Ran perform (replayRecord server d) v y v') (handed : Added v v' row') :
    SameRun row row' ↔
      lower event.repository = event.repository ∧ server.jobTimeout = 3600 ∧ header.getD "" = "" := by
  obtain ⟨repository, ref, sha⟩ := recorded_row recorded
  obtain ⟨jobId, now, rfl⟩ := handlePush_adds live queued
  obtain ⟨jobId', now', rfl⟩ := replayRecord_adds replay handed
  have unnamed : (header.bind fun id => if id = "" then none else some id) = none ↔
      header.getD "" = "" := by
    cases header with
    | none => exact iff_of_true rfl rfl
    | some id => simp
  constructor
  · intro same
    exact ⟨repository.symm.trans same.repository.symm, same.timeout, unnamed.mp same.delivery⟩
  · rintro ⟨spelled, timeout, nameless⟩
    exact ⟨(repository.trans spelled).symm, sha.symm, ref.symm, timeout, unnamed.mpr nameless⟩

/-! ## A push that is recorded and handed over -/

/-- The ledger fails before the push can be claimed. -/
def unclaimed : Call → Choice
  | .claimDelivery _ _ => { raised := some (.sqliteError "database is locked") }
  | _ => {}

def adapterless : Call → Choice := fun _ => { present := false, fresh := "job" }

def ledgerOf (d : Delivery) : World := { World.empty with deliveries := Deliveries.empty.replace d }

/-- The row an unclaimed push leaves, the job it gets on the live path, and the one its replay hands
over. -/
theorem both_queued (server : Server) (header : Option String) (fingerprint : String)
    (event : PushEvent) (d : Delivery)
    (stored : ((handlePush server header fingerprint event).play
      (fun w c => perform (unclaimed c) w c) World.empty).map
      (fun x => x.2.deliveries.find? d.key) = some (some d))
    (queued : ((handlePush server header fingerprint event).play
      (fun w c => perform (adapterless c) w c) World.empty).map
      (fun x => x.2.jobs.jobs.rows.length) = some 1)
    (handed : ((replayRecord server d).play (fun w c => perform (adapterless c) w c) (ledgerOf d)).map
      (fun x => x.2.jobs.jobs.rows.length) = some 1) :
    Recorded server header fingerprint event d ∧
      (∃ x w' row, Ran perform (handlePush server header fingerprint event) World.empty x w' ∧
      Added World.empty w' row) ∧
      ∃ y v' row', Ran perform (replayRecord server d) (ledgerOf d) y v' ∧
      Added (ledgerOf d) v' row' := by
  obtain ⟨x, ran, found⟩ := Option.map_eq_some_iff.mp stored
  obtain ⟨y, live, one⟩ := Option.map_eq_some_iff.mp queued
  obtain ⟨z, replay, one'⟩ := Option.map_eq_some_iff.mp handed
  obtain ⟨row, rows⟩ := List.length_eq_one_iff.mp one
  obtain ⟨row', rows'⟩ := List.length_eq_one_iff.mp one'
  refine ⟨⟨World.empty, x.1, x.2, d, ran_of_play unclaimed ran, rfl, found, rfl, rfl⟩,
    ⟨y.1, y.2, row, ran_of_play adapterless live, ?_, List.not_mem_nil⟩,
    ⟨z.1, z.2, row', ran_of_play adapterless replay, ?_, List.not_mem_nil⟩⟩
  · rw [rows]
    exact List.mem_singleton_self row
  · rw [rows']
    exact List.mem_singleton_self row'

def pushed (repository : String) : PushEvent :=
  { repository := repository, isPrivate := false, ref := "refs/heads/main", after := "abc123",
      defaultBranch := "main" }

/-- The row of a push to the example repository. -/
def pushedRow (delivery : String) : Delivery :=
  { repository := "example-org/example-app", delivery := delivery, fingerprint := "digest",
      workflow := "cindral-dispatch.yml"
    ref := "main", state := .ready, createdAt := 0, updatedAt := 0, sha := "abc123"
    inputs := [("cindral_lane", "hosted"), ("cindral_target", ""),
    ("cindral_reason", "public repository uses hosted runners")] }

/-- A push by hand, without a delivery id, to a repository spelled in lower case. -/
theorem nameless_handed_over_same :
    ∃ w x w' v y v' row row', Ran perform
      (handlePush shippedServer none "digest" (pushed "example-org/example-app")) w x w' ∧
      Added w w' row ∧ Ran perform (replayRecord shippedServer (pushedRow "digest")) v y v' ∧
      Added v v' row' ∧
      SameRun row row' := by
  obtain ⟨recorded, ⟨x, w', row, live, queued⟩, y, v', row', replay, handed⟩ :=
    both_queued shippedServer none "digest" (pushed "example-org/example-app") (pushedRow "digest")
      (by decide +kernel) (by decide +kernel) (by decide +kernel)
  exact ⟨_, x, w', _, y, v', row, row', live, queued, replay, handed,
    (replay_hands_over_same recorded live queued replay handed).mpr ⟨by decide +kernel, rfl, rfl⟩⟩

/-- A push as GitHub delivers it, to a broker that gives its jobs a timeout of its own. -/
theorem delivered_handed_over_otherwise :
    ¬ ∀ (server : Server) (header : Option String) (fingerprint : String) (event : PushEvent)
      (d : Delivery)
      (w w' v v' : World) (x y : Except Raised Unit) (row row' : Queue.Row), Recorded server header
      fingerprint event d →
      Ran perform (handlePush server header fingerprint event) w x w' → Added w w' row →
      Ran perform (replayRecord server d) v y v' → Added v v' row' → SameRun row row' := by
  intro claim
  obtain ⟨recorded, ⟨x, w', row, live, queued⟩, y, v', row', replay, handed⟩ :=
    both_queued { shippedServer with jobTimeout := 900 } (some "72d3162e") "digest"
      (pushed "Example-Org/Example-App")
      (pushedRow "72d3162e") (by decide +kernel) (by decide +kernel) (by decide +kernel)
  have same := claim _ _ _ _ _ _ _ _ _ _ _ _ _ recorded live queued replay handed
  obtain ⟨jobId, now, rfl⟩ := handlePush_adds live queued
  obtain ⟨jobId', now', rfl⟩ := replayRecord_adds replay handed
  have timeouts : (900 : Int) = 3600 := same.timeout
  omega

end Cindral.Dispatch

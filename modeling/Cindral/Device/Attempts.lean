import Cindral.Device.Fleet

/-!
# How often a job is executed

A claim that is answered costs the job an attempt, and a slot executes at most once for a claim that
is answered. So over all devices, and whatever becomes of messages and leases, a job is executed at
most `maxAttempts` times.
-/

namespace Cindral.Device
open Base Script
open Agent (Raised Reply)
open Archive (ArtifactStore)
open Queue (Job Row RowStep)
open Workflow (JobSpec)

/-- Whether the queue gave a thread this job. -/
def Told.hands (id : String) : Told → Bool
  | .handed job => job.id = id
  | _ => false

def handOuts (told : Nat → Told) (sent : Nat) (id : String) : Nat :=
  (List.range sent).countP fun t => (told t).hands id

/-- The slot has a claim out that it has not used. -/
def Round.Pending (g : Round) (t : Nat) : Prop := g.ticket = some t ∧ g.ran = none

section Counting
variable {told : Nat → Told} {id : String} {t n : Nat} {x : Told}

theorem countP_update {items : List Nat} (nodup : items.Nodup) :
    (items.countP fun t' => (Function.update told t x t').hands id) ≤ items.countP
    (fun t' => (told t').hands id) + 1 := by
  induction items with
  | nil => exact Nat.zero_le _
  | cons first rest ih =>
    obtain ⟨apart, nodup⟩ := List.nodup_cons.mp nodup
    by_cases same : first = t
    · subst same
      have others : (rest.countP fun t' => (Function.update told first x t').hands id) = rest.countP
          fun t' => (told t').hands id := by
        refine List.countP_congr fun t' member => ?_
        rw [Function.update_of_ne (fun equal : t' = first => apart (equal ▸ member))]
      rw [List.countP_cons, List.countP_cons, others]
      split <;> omega
    · have here : (Function.update told t x first).hands id = (told first).hands id := by
        rw [Function.update_of_ne same]
      have later := ih nodup
      rw [List.countP_cons, List.countP_cons, here]
      omega

theorem handOuts_update : handOuts (Function.update told t x) n id ≤ handOuts told n id + 1 :=
  countP_update List.nodup_range

theorem handOuts_same (same : x.hands id = (told t).hands id) :
    handOuts (Function.update told t x) n id = handOuts told n id := by
  refine List.countP_congr fun t' _ => ?_
  by_cases acting : t' = t
  · subst acting
    rw [Function.update_self, same]
  · rw [Function.update_of_ne acting]

theorem handOuts_succ (idle : told n = .nothing) : handOuts told (n + 1) id = handOuts told n id := by
  rw [handOuts, handOuts, List.range_succ, List.countP_append, List.countP_singleton, idle]
  rfl

end Counting

/-- No row has given out more than its attempts. -/
structure Given {Pid : Type} (told : Nat → Told) (f : Fleet Pid) : Prop where
  idle : ∀ t, f.state.broker.task t = none → told t = .nothing
  mute : ∀ t job, told t = .handed job → ∃ m, f.state.sent[t]? = some m ∧ m.verdict? = none
  answered : ∀ t job, Agent.Call.send (.claimed job) ∈ f.state.broker.made t → told t = .handed job
  handed : ∀ row ∈ f.state.jobs.jobs.rows, handOuts told f.state.sent.length row.id ≤ row.attempts
  bounded : ∀ row ∈ f.state.jobs.jobs.rows, row.attempts ≤ Queue.maxAttempts

/-- Every run was for an answer of its own that gave its job out, and a slot's claim is its own
until it is used. -/
structure Spent {Pid : Type} (told : Nat → Told) (known : Pid → Round) (s : Shared)
    (tickets : List Nat) : Prop where
  runs : ∀ run ∈ s.ran, Knows s.jobs run.spec
  matched : List.Forall₂ (fun run t => t < s.sent.length ∧ (told t).hands run.spec.id = true)
    s.ran tickets
  distinct : tickets.Nodup
  pending : ∀ p t, (known p).Pending t →
    t < s.sent.length ∧ t ∉ tickets ∧ ∀ spec, (known p).spec = some spec → (told t).hands spec.id = true
  alone : ∀ p q t, (known p).Pending t → (known q).Pending t → p = q
  claims : ∀ p spec, (known p).spec = some spec → (known p).ran = none → ∃ t, (known p).Pending t

section Steps
variable {δ Pid : Type} {setup : Setup δ} {told : Nat → Told} {known : Pid → Round}
    {device : Pid → String}
  {f f' : Fleet Pid} {tickets : List Nat}

theorem matched_inside {ran : List Run} {n : Nat}
    (matched : List.Forall₂ (fun run t => t < n ∧ (told t).hands run.spec.id = true) ran tickets) :
    ∀ t ∈ tickets, t < n := by
  intro t member
  induction matched with
  | nil => cases member
  | cons head rest ih =>
    rcases List.mem_cons.mp member with rfl | later
    · exact head.1
    · exact ih later

/-- The attempts bound the runs. -/
theorem runs_bounded {ran : List Run} {n : Nat} {id : String} (nodup : tickets.Nodup)
    (matched : List.Forall₂ (fun run t => t < n ∧ (told t).hands run.spec.id = true) ran tickets) :
    ran.countP (fun run => run.spec.id = id) ≤ handOuts told n id := by
  have hands_unique {t : Nat} {a b : String} (first : (told t).hands a = true) :
      (told t).hands b = decide (a = b) := by
    cases given : told t with
    | handed job =>
      rw [given] at first
      rw [← of_decide_eq_true first]
      rfl
    | _ =>
      rw [given] at first
      cases first
  have paired : ran.countP (fun run => run.spec.id = id) = tickets.countP fun t => (told t).hands id := by
    induction matched with
    | nil => rfl
    | cons head rest ih =>
      rw [List.countP_cons, List.countP_cons, ih (List.nodup_cons.mp nodup).2, hands_unique head.2]
  rw [paired, handOuts, List.countP_eq_length_filter, List.countP_eq_length_filter]
  refine (List.subperm_of_subset (nodup.filter _) fun t member => ?_).length_le
  obtain ⟨there, hands⟩ := List.mem_filter.mp member
  exact List.mem_filter.mpr ⟨List.mem_range.mpr (matched_inside matched t there), hands⟩

/-- Only a claim costs an attempt, and a pending row has one left. -/
theorem step_bounded {jobs : Queue.Store} {op : Queue.Store.Op} {r r' : Row} (step : RowStep jobs op r r')
    (lifecycle : Queue.Lifecycle r) (bounded : r.attempts ≤ Queue.maxAttempts) :
    r'.attempts ≤ Queue.maxAttempts := by
  cases step with
  | taken claimed picked waiting => exact (lifecycle.pending waiting).2
  | _ => exact bounded

theorem bounded_apply {op : Queue.Store.Op} (sound : Sound setup told known device f)
    (given : Given told f) :
    ∀ row ∈ (f.state.jobs.apply op).jobs.rows, row.attempts ≤ Queue.maxAttempts := by
  have both : ∀ row ∈ (f.state.jobs.apply op).jobs.rows, Queue.Lifecycle row ∧
      row.attempts ≤ Queue.maxAttempts := by
    refine Queue.Store.apply_forall
      (fun req jobId now => ⟨Queue.fresh_lifecycle req jobId now, Nat.zero_le _⟩) ?_
      fun row member => ⟨(sound.rows row member).lifecycle, given.bounded row member⟩
    intro r r' member step kept
    exact ⟨Queue.step_lifecycle step kept.1, step_bounded step kept.1 kept.2⟩
  exact fun row member => (both row member).2

/-- A job nobody has enqueued has been given to nobody. -/
theorem handOuts_absent {id : String} (sound : Sound setup told known device f)
    (absent : f.state.jobs.row? id = none) (n : Nat) :
    handOuts told n id = 0 := by
  refine List.countP_eq_zero.mpr fun t _ hands => ?_
  have holds := sound.told t
  cases given : told t with
  | handed job =>
    rw [given] at hands holds
    obtain ⟨row, found, -⟩ := holds
    obtain rfl := of_decide_eq_true hands
    exact nomatch absent.symm.trans found
  | _ =>
    rw [given] at hands
    cases hands

theorem handed_apply {op : Queue.Store.Op} (sound : Sound setup told known device f)
    (given : Given told f) :
    ∀ row ∈ (f.state.jobs.apply op).jobs.rows, handOuts told f.state.sent.length
    row.id ≤ row.attempts := by
  intro row member
  rcases Queue.Store.apply_rows f.state.jobs op with ⟨req, jobId, now, rfl, fresh, rows⟩ | ⟨e, rows, each⟩
  · rw [rows] at member
    rcases List.mem_append.mp member with old | new
    · exact given.handed row old
    · obtain rfl := List.mem_singleton.mp new
      rw [show (req.row jobId now).id = jobId from rfl, handOuts_absent sound fresh]
      exact Nat.zero_le _
  · rw [rows] at member
    obtain ⟨x, there, rfl⟩ := List.mem_map.mp member
    rw [e.keeps x]
    exact le_trans (given.handed x there) (Queue.step_attempts (each x there))

/-- A claim that is answered costs the job an attempt. -/
theorem handed_claim {w w' : Agent.World} {depot : Agent.Depot} {k : Agent.Choice} {name : String}
    {labels : List String}
    {leaseSeconds limit : Int} {job : Job} {n t : Nat} (idle : told t = .nothing)
    (performed : Agent.perform depot k w (.claim name labels leaseSeconds limit) =
    some (.ok (some job), w'))
    (handed : ∀ row ∈ w.jobs.jobs.rows, handOuts told n row.id ≤ row.attempts) :
    ∀ row ∈ w'.jobs.jobs.rows, handOuts (Function.update told t (.handed job)) n
    row.id ≤ row.attempts := by
  have claimed := transact_ok (perform_ok performed)
  obtain ⟨-, -, ⟨-, absent, -⟩ | ⟨picked, chosen, given, rows⟩⟩ := Queue.Store.claim_cases claimed
  · cases absent
  obtain ⟨there, waiting⟩ := Queue.Store.pickJob_mem chosen
  obtain rfl := Option.some.inj given
  intro row member
  rw [rows, Queue.Store.rows_updateWhere] at member
  obtain ⟨x, inside, rfl⟩ := List.mem_map.mp member
  have before := handed x inside
  rw [((Queue.Row.taken name (k.now + leaseSeconds)).only _).keeps x, Edit.only_apply]
  by_cases same : x.id = picked.id
  · obtain rfl := Table.eq_of_key inside there same
    rw [if_pos (by simp [waiting])]
    exact le_trans handOuts_update (Nat.succ_le_succ before)
  · rw [if_neg (by simp [same]), handOuts_same]
    · exact before
    · rw [idle]
      exact decide_eq_false (Ne.symm same)

/-- What the queue gave a thread stays what it gave it. -/
theorem heard_handed {m : Message} {c : Agent.Call} {r : Except Raised (Agent.Ans c)} {job : Job}
    (mute : m.verdict? = none)
    (may : (meant m).may (.handed job) c) : heard (.handed job) c r = .handed job := by
  cases c with
  | claim name labels leaseSeconds limit => exact nomatch may.2
  | settle jobId name report =>
    have verdict : m.verdict? = some (jobId, name, settles report) := may
    rw [mute] at verdict
    cases verdict
  | _ => rfl

/-- A thread is given a job by its claim, or keeps what it has. -/
theorem heard_cases {m : Message} {c : Agent.Call} {r : Except Raised (Agent.Ans c)} {before : Told}
    (mute : ∀ job, before = .handed job → m.verdict? = none) (may : (meant m).may before c) :
    (∃ name labels leaseSeconds limit, ∃ job, before = .nothing ∧ m.verdict? = none ∧
      (⟨c, r⟩ : (c : Agent.Call) × Except Raised (Agent.Ans c)) =
      ⟨.claim name labels leaseSeconds limit, .ok (some job)⟩) ∨
      ∀ id, (heard before c r).hands id = before.hands id := by
  cases c with
  | claim name labels leaseSeconds limit =>
    cases r with
    | error e => exact Or.inr fun _ => rfl
    | ok job =>
      cases job with
      | none => exact Or.inr fun _ => rfl
      | some job => exact Or.inl ⟨_, _, _, _, job, may.2, may.1, rfl⟩
  | settle jobId name report =>
    refine Or.inr fun id => ?_
    have verdict : m.verdict? = some (jobId, name, settles report) := may
    cases r with
    | error e => rfl
    | ok _ =>
      cases before with
      | handed job =>
        rw [mute job rfl] at verdict
        cases verdict
      | _ => rfl
  | _ => exact Or.inr fun _ => rfl

/-- A call of a thread of the broker. -/
theorem given_broker {t : Nat} {m : Message} {c : Agent.Call} {r : Except Raised (Agent.Ans c)}
    (sound : Sound setup told known device f)
    (given : Given told f) (handled : Handled setup told t f f' m c r) :
    Given (Function.update told t (heard (told t) c r)) f' ∧
      ∀ t' id, (told t').hands id = true → (Function.update told t (heard (told t) c r) t').hands
      id = true := by
  have mute (job : Job) (held : told t = .handed job) : m.verdict? = none := by
    obtain ⟨m', sent, mute⟩ := given.mute t job held
    obtain rfl := Option.some.inj (handled.asked.symm.trans sent)
    exact mute
  have stable (t' : Nat) (job : Job) (held : told t' = .handed job) :
      Function.update told t (heard (told t) c r) t' = .handed job := by
    by_cases acting : t' = t
    · subst acting
      have may := handled.may
      rw [held] at may
      rw [Function.update_self, held, heard_handed (mute job held) may]
    · rw [Function.update_of_ne acting, held]
  obtain ⟨k, performed⟩ := handled.performed
  have written : f'.state.jobs = f.state.jobs ∨ ∃ op, f'.state.jobs = f.state.jobs.apply op := by
    rcases Agent.perform_jobs performed with jobs | ⟨op, -, jobs⟩
    · exact Or.inl jobs
    · exact Or.inr ⟨op, jobs⟩
  refine ⟨⟨?_, ?_, ?_, ?_, ?_⟩, ?_⟩
  · intro t' left
    obtain ⟨apart, before⟩ := handled.idle t' left
    rw [Function.update_of_ne apart]
    exact given.idle t' before
  · intro t' job held
    rw [handled.sent]
    by_cases acting : t' = t
    · subst acting
      rw [Function.update_self] at held
      rcases heard_cases mute handled.may (r := r) with ⟨-, -, -, -, -, -, silent, -⟩ | same
      · exact ⟨m, handled.asked, silent⟩
      · have before := same job.id
        rw [held, Told.hands, decide_eq_true rfl] at before
        cases was : told t' with
        | handed job' => exact ⟨m, handled.asked, mute job' was⟩
        | _ =>
          rw [was] at before
          cases before
    · rw [Function.update_of_ne acting] at held
      exact given.mute t' job held
  · intro t' job member
    rw [handled.made] at member
    by_cases acting : t' = t
    · subst acting
      rw [Function.update_self] at member
      rcases List.mem_append.mp member with old | new
      · exact stable t' job (given.answered t' job old)
      · obtain rfl := List.mem_singleton.mp new
        have fits : m.fits (told t') (.claimed job) := handled.may
        exact stable t' job fits.2
    · rw [Function.update_of_ne acting] at member
      exact stable t' job (given.answered t' job member)
  · rw [handled.sent]
    rcases heard_cases mute handled.may (r := r) with ⟨name, labels, leaseSeconds, limit, job, idle,
      -, same⟩ | same
    · cases same
      exact handed_claim idle performed given.handed
    · intro row member
      rw [handOuts_same (same row.id)]
      rcases written with jobs | ⟨op, jobs⟩
      · rw [jobs] at member
        exact given.handed row member
      · rw [jobs] at member
        exact handed_apply sound given row member
  · intro row member
    rcases written with jobs | ⟨op, jobs⟩
    · rw [jobs] at member
      exact given.bounded row member
    · rw [jobs] at member
      exact bounded_apply sound given row member
  · intro t' id held
    cases was : told t' with
    | handed job =>
      rw [stable t' job was]
      rwa [was] at held
    | _ =>
      rw [was] at held
      cases held

/-- A step that leaves the broker's threads and the messages as they are. -/
theorem given_queue (sound : Sound setup told known device f) (given : Given told f)
    (sent : f'.state.sent = f.state.sent)
    (task : f'.state.broker.task = f.state.broker.task)
    (made : f'.state.broker.made = f.state.broker.made)
    (jobs : f'.state.jobs = f.state.jobs ∨ ∃ op, f'.state.jobs = f.state.jobs.apply op) :
    Given told f' where
  idle := by rw [task]; exact given.idle
  mute := by rw [sent]; exact given.mute
  answered := by rw [made]; exact given.answered
  handed := by
    intro row member
    rw [sent]
    rcases jobs with jobs | ⟨op, jobs⟩
    · rw [jobs] at member
      exact given.handed row member
    · rw [jobs] at member
      exact handed_apply sound given row member
  bounded := by
    intro row member
    rcases jobs with jobs | ⟨op, jobs⟩
    · rw [jobs] at member
      exact given.bounded row member
    · rw [jobs] at member
      exact bounded_apply sound given row member

/-- A step of the devices that may have sent one more message. -/
theorem given_device (sound : Sound setup told known device f) (given : Given told f)
    (broker : f'.state.broker = f.state.broker)
    (sent : f'.state.sent = f.state.sent ∨ ∃ m, f'.state.sent = f.state.sent ++ [m]) : Given told f' := by
  have jobs : f'.state.jobs = f.state.jobs := by rw [Shared.jobs, Shared.jobs, broker]
  have beyond : told f.state.sent.length = .nothing := by
    apply given.idle
    by_contra started
    obtain ⟨s, task⟩ := Option.ne_none_iff_exists'.mp started
    obtain ⟨m, there, -⟩ := sound.threads _ s task
    exact lt_irrefl _ (List.getElem?_eq_some_iff.mp there).1
  refine ⟨?_, ?_, ?_, ?_, ?_⟩
  · rw [broker]
    exact given.idle
  · intro t job held
    obtain ⟨m, there, mute⟩ := given.mute t job held
    rcases sent with same | ⟨more, same⟩
    · exact ⟨m, by rw [same]; exact there, mute⟩
    · refine ⟨m, ?_, mute⟩
      rw [same, List.getElem?_append_left (List.getElem?_eq_some_iff.mp there).1]
      exact there
  · rw [broker]
    exact given.answered
  · intro row member
    rw [jobs] at member
    rcases sent with same | ⟨more, same⟩
    · rw [same]
      exact given.handed row member
    · rw [same, List.length_append, List.length_singleton, handOuts_succ beyond]
      exact given.handed row member
  · rw [jobs]
    exact given.bounded

theorem given_deliver [DecidableEq δ] [DecidableEq Pid] {ticket : Nat} {token : String}
    (given : Given told f)
    (stepped : step setup f (.deliver ticket token) = some f') :
    Function.update told ticket .nothing = told ∧ Given told f' := by
  obtain ⟨m, sent, stepped⟩ := Option.bind_eq_some_iff.mp stepped
  obtain ⟨broker, spawned, rfl⟩ := Option.map_eq_some_iff.mp stepped
  obtain ⟨idle, rfl⟩ := Crew.spawn_eq spawned
  refine ⟨Function.update_eq_self_iff.mpr (given.idle ticket idle).symm, ?_, given.mute,
    given.answered, given.handed, given.bounded⟩
  intro t left
  by_cases acting : t = ticket
  · subst acting
    simp only [Function.update_self] at left
    cases left
  · simp only [Function.update_of_ne acting] at left
    exact given.idle t left

/-- What the rest of the system does leaves the claims and the runs as they are. -/
theorem spent_later {told' : Nat → Told} {s s' : Shared} (spent : Spent told known s tickets)
    (later : Later s s') (ran : s'.ran = s.ran)
    (grown : s.sent.length ≤ s'.sent.length)
    (hands : ∀ t id, (told t).hands id = true → (told' t).hands id = true) :
    Spent told' known s' tickets where
  runs := by
    intro run there
    rw [ran] at there
    exact later.knows (spent.runs run there)
  matched := by
    rw [ran]
    exact spent.matched.imp fun _ _ both => ⟨lt_of_lt_of_le both.1 grown, hands _ _ both.2⟩
  distinct := spent.distinct
  pending := by
    intro p t fresh
    obtain ⟨inside, unused, held⟩ := spent.pending p t fresh
    exact ⟨lt_of_lt_of_le inside grown, unused, fun spec same => hands _ _ (held spec same)⟩
  alone := spent.alone
  claims := spent.claims

/-- A slot that has learnt nothing of its claim, or has forgotten it. -/
theorem spent_update {s : Shared} {p : Pid} {g : Round} [DecidableEq Pid]
    (spent : Spent told known s tickets)
    (same : ∀ t, g.Pending t → (known p).Pending t)
    (held : ∀ t spec, g.Pending t → g.spec = some spec → (told t).hands spec.id = true)
    (claims : ∀ spec, g.spec = some spec → g.ran = none → ∃ t, g.Pending t) :
    Spent told (Function.update known p g) s tickets := by
  have kept (q : Pid) (t : Nat) (fresh : (Function.update known p g q).Pending t) :
      (known q).Pending t := by
    by_cases acting : q = p
    · subst acting
      rw [Function.update_self] at fresh
      exact same t fresh
    · rw [Function.update_of_ne acting] at fresh
      exact fresh
  refine ⟨spent.runs, spent.matched, spent.distinct, ?_, ?_, ?_⟩
  · intro q t fresh
    obtain ⟨inside, unused, before⟩ := spent.pending q t (kept q t fresh)
    refine ⟨inside, unused, fun spec there => ?_⟩
    by_cases acting : q = p
    · subst acting
      rw [Function.update_self] at fresh there
      exact held t spec fresh there
    · rw [Function.update_of_ne acting] at there
      exact before spec there
  · exact fun q q' t first second => spent.alone q q' t (kept q t first) (kept q' t second)
  · exact update_forall (P := fun g : Round => ∀ spec, g.spec = some spec → g.ran = none →
      ∃ t, g.Pending t) spent.claims claims

theorem spent_sent {s : Shared} {m : Message} (spent : Spent told known s tickets) :
    Spent told known { s with sent := s.sent ++ [m] } tickets :=
  spent_later spent (later_sent m) rfl (by simp) fun _ _ held => held

/-- A claim that is sent is the slot's own. -/
theorem spent_claim {s : Shared} {p : Pid} {g : Round} {m : Message} [DecidableEq Pid]
    (spent : Spent told known s tickets)
    (ticket : g.ticket = some s.sent.length) (spec : g.spec = none) (ran : g.ran = none) :
    Spent told (Function.update known p g) { s with sent := s.sent ++ [m] } tickets := by
  have later := spent_sent (m := m) spent
  have own {q : Pid} {t : Nat} (fresh : (Function.update known p g q).Pending t) :
      q = p ∧ t = s.sent.length ∨ q ≠ p ∧ (known q).Pending t := by
    by_cases acting : q = p
    · subst acting
      rw [Function.update_self] at fresh
      exact Or.inl ⟨rfl, Option.some.inj (fresh.1.symm.trans ticket)⟩
    · rw [Function.update_of_ne acting] at fresh
      exact Or.inr ⟨acting, fresh⟩
  refine ⟨later.runs, later.matched, later.distinct, ?_, ?_, ?_⟩
  · intro q t fresh
    rcases own fresh with ⟨rfl, rfl⟩ | ⟨apart, before⟩
    · refine ⟨by simp, fun member => lt_irrefl _ (matched_inside spent.matched _ member),
        fun x there => ?_⟩
      rw [Function.update_self, spec] at there
      cases there
    · rw [Function.update_of_ne apart]
      exact later.pending q t before
  · intro q q' t first second
    rcases own first with ⟨rfl, rfl⟩ | ⟨-, before⟩
    · rcases own second with ⟨rfl, -⟩ | ⟨-, before⟩
      · rfl
      · exact absurd (spent.pending _ _ before).1 (lt_irrefl _)
    · rcases own second with ⟨rfl, rfl⟩ | ⟨-, before'⟩
      · exact absurd (spent.pending _ _ before).1 (lt_irrefl _)
      · exact spent.alone q q' t before before'
  · refine update_forall (P := fun g : Round => ∀ spec, g.spec = some spec → g.ran = none →
      ∃ t, g.Pending t) spent.claims ?_
    exact fun x _ _ => ⟨_, ticket, ran⟩

/-- A run uses the slot's claim up. -/
theorem spent_run {s : Shared} {p : Pid} {g : Round} {run : Run} [DecidableEq Pid]
    (spent : Spent told known s tickets)
    (spec : (known p).spec = some run.spec) (fresh : (known p).ran = none)
    (knows : Knows s.jobs run.spec) (ran : g.ran ≠ none) :
    ∃ t, Spent told (Function.update known p g) { s with ran := s.ran ++ [run] } (tickets ++ [t]) := by
  obtain ⟨t, mine⟩ := spent.claims p run.spec spec fresh
  obtain ⟨inside, unused, held⟩ := spent.pending p t mine
  have other {q : Pid} {t' : Nat} (pending : (Function.update known p g q).Pending t') :
      q ≠ p ∧ (known q).Pending t' := by
    by_cases acting : q = p
    · subst acting
      rw [Function.update_self] at pending
      exact absurd pending.2 ran
    · rw [Function.update_of_ne acting] at pending
      exact ⟨acting, pending⟩
  refine ⟨t, ?_, ?_, ?_, ?_, ?_, ?_⟩
  · intro run' member
    rcases List.mem_append.mp member with old | new
    · exact spent.runs run' old
    · obtain rfl := List.mem_singleton.mp new
      exact knows
  · exact List.rel_append spent.matched (.cons ⟨inside, held run.spec spec⟩ .nil)
  · exact spent.distinct.append (List.nodup_singleton t) (by simpa using unused)
  · intro q t' pending
    obtain ⟨apart, before⟩ := other pending
    obtain ⟨inside', unused', held'⟩ := spent.pending q t' before
    refine ⟨inside', ?_, by rw [Function.update_of_ne apart]; exact held'⟩
    intro member
    rcases List.mem_append.mp member with old | new
    · exact unused' old
    · obtain rfl := List.mem_singleton.mp new
      exact apart (spent.alone q p t' before mine)
  · exact fun q q' t' first second => spent.alone q q' t' (other first).2 (other second).2
  · refine update_forall (P := fun g : Round => ∀ spec, g.spec = some spec → g.ran = none →
      ∃ t, g.Pending t) spent.claims ?_
    exact fun x _ none => absurd none ran

/-- The device's own calls leave the claim as it is, or forget it. -/
theorem record_claim {py : Agent.Conversions} {c : Call} {r : Except Failure (Reads c)} {g : Round}
    (plain : c.plain = true) :
    ((g.record py c r).ticket = g.ticket ∧ (g.record py c r).spec = g.spec ∧
      (g.record py c r).ran = g.ran) ∨
      (g.record py c r).ticket = none ∧ (g.record py c r).spec = none := by
  cases c with
  | post | await | execute => cases plain
  | stopping =>
    cases r with
    | error e => exact Or.inl ⟨rfl, rfl, rfl⟩
    | ok _ => exact Or.inr ⟨rfl, rfl⟩
  | unlink archive =>
    rw [record_unlink]
    split <;> exact Or.inl ⟨rfl, rfl, rfl⟩
  | lost jobId =>
    cases r with
    | error e => exact Or.inl ⟨rfl, rfl, rfl⟩
    | ok value => cases value <;> exact Or.inl ⟨rfl, rfl, rfl⟩
  | _ => cases r <;> exact Or.inl ⟨rfl, rfl, rfl⟩

theorem perform_sent {k : Chance} {c : Call} {r : Except Failure (Reads c)} {s s' : Shared}
    (performed : perform setup k s c = some (r, s')) :
    s'.sent = s.sent ∨ ∃ m, s'.sent = s.sent ++ [m] := by
  cases c with
  | post m =>
    obtain ⟨-, rfl⟩ := Prod.mk.inj (Option.some.inj performed)
    exact Or.inr ⟨m, rfl⟩
  | await ticket =>
    simp only [perform] at performed
    split at performed
    · obtain ⟨-, rfl⟩ := Prod.mk.inj (Option.some.inj performed)
      exact Or.inl rfl
    · obtain ⟨reply, -, same⟩ := Option.map_eq_some_iff.mp performed
      obtain ⟨-, rfl⟩ := Prod.mk.inj same
      exact Or.inl rfl
  | execute name spec =>
    obtain ⟨-, rfl⟩ := Prod.mk.inj (Option.some.inj performed)
    exact Or.inl rfl
  | _ =>
    obtain ⟨rfl, -⟩ := perform_plain rfl performed
    exact Or.inl rfl

theorem spent_slot [DecidableEq Pid] {p : Pid} {agent : PullAgent} {c : Call}
    {r : Except Failure (Reads c)}
    (sound : Sound setup told known device f) (given : Given told f)
    (spent : Spent told known f.state tickets)
    (turned : Turned setup known p agent f f' c r) :
    ∃ tickets', Spent told (Function.update known p ((known p).record setup.server.py c r)) f'.state
    tickets' := by
  obtain ⟨⟨k, performed⟩, may, -, -⟩ := turned
  have may := may.resolve_left (by rw [(sound.known p).sound]; exact Bool.false_ne_true)
  cases c with
  | post m =>
    obtain ⟨rfl, same⟩ := Prod.mk.inj (Option.some.inj performed)
    rw [← same]
    change ∃ tickets', Spent told (Function.update known p ((known p).sent m f.state.sent.length)) _
      tickets'
    cases m with
    | claim => exact ⟨tickets, spent_claim spent rfl rfl may.2.2.2.2.2⟩
    | _ =>
      exact ⟨tickets, spent_update (spent_sent spent) (fun t pending => pending)
        (fun t spec pending => (spent.pending p t pending).2.2 spec) (spent.claims p)⟩
  | await ticket =>
    simp only [perform] at performed
    have unchanged (t : Nat) (spec : JobSpec) (pending : (known p).Pending t) :=
      (spent.pending p t pending).2.2 spec
    split at performed
    · obtain ⟨rfl, same⟩ := Prod.mk.inj (Option.some.inj performed)
      rw [← same]
      exact ⟨tickets, spent_update spent (fun t pending => pending) unchanged (spent.claims p)⟩
    · obtain ⟨reply, arrived, same⟩ := Option.map_eq_some_iff.mp performed
      obtain ⟨rfl, unmoved⟩ := Prod.mk.inj same
      rw [← unmoved]
      refine ⟨tickets, ?_⟩
      cases told' : received setup.build reply with
      | error e => exact spent_update spent (fun t pending => pending) unchanged (spent.claims p)
      | ok answer =>
        simp only [Round.record]
        split
        · rename_i spec read
          split
          · rename_i fresh
            rw [Option.isNone_iff_eq_none] at fresh
            obtain ⟨job, rfl, rfl⟩ := claimed_answer
              (show received setup.build reply = .ok (answer.1, answer.2) from told') read
            have held := given.answered ticket job (mem_replies (List.mem_of_getElem? arrived))
            refine spent_update spent (fun t pending => pending) (fun t spec pending same => ?_)
              fun _ _ _ => ⟨ticket, may fresh, fresh⟩
            obtain rfl := Option.some.inj same
            obtain rfl : ticket = t := Option.some.inj ((may fresh).symm.trans pending.1)
            rw [held]
            exact decide_eq_true rfl
          · exact spent_update spent (fun t pending => pending) unchanged (spent.claims p)
        · exact spent_update spent (fun t pending => pending) unchanged (spent.claims p)
  | execute name spec =>
    obtain ⟨rfl, same⟩ := Prod.mk.inj (Option.some.inj performed)
    rw [← same]
    obtain ⟨-, told', -, fresh⟩ := may
    obtain ⟨t, after⟩ := @spent_run _ _ _ _ _ p
      ((known p).record setup.server.py (.execute name spec) (k.answers (.execute name spec)))
      ⟨name, spec, exitCode? (k.answers (.execute name spec))⟩ _ spent told' fresh
      ((sound.known p).knows spec told')
      (Option.some_ne_none _)
    exact ⟨_, after⟩
  | _ =>
    obtain ⟨same, -⟩ := perform_plain rfl performed
    rw [same]
    refine ⟨tickets, ?_⟩
    rcases @record_claim setup.server.py _ r (known p) rfl with ⟨ticket, spec, ran⟩ | ⟨ticket, spec⟩
    · refine spent_update spent ?_ ?_ ?_
      · exact fun t pending => ⟨ticket ▸ pending.1, ran ▸ pending.2⟩
      · exact fun t x pending there => (spent.pending p t ⟨ticket ▸ pending.1, ran ▸ pending.2⟩).2.2
          x (spec ▸ there)
      · intro x there none
        obtain ⟨t, pending⟩ := spent.claims p x (spec ▸ there) (ran ▸ none)
        exact ⟨t, ticket.trans pending.1, none⟩
    · refine spent_update spent ?_ ?_ ?_
      · exact fun t pending => absurd (ticket.symm.trans pending.1) (Option.some_ne_none t).symm
      · exact fun t x pending => absurd (ticket.symm.trans pending.1) (Option.some_ne_none t).symm
      · exact fun x there => absurd (spec.symm.trans there) (Option.some_ne_none x).symm

variable [DecidableEq δ] [DecidableEq Pid]

/-- What holds of the devices and the broker, and of the attempts they cost. -/
def Counted (setup : Setup δ) (f : Fleet Pid) : Prop :=
  ∃ told known device tickets, Sound setup told known device f ∧ Given told f ∧
  Spent told known f.state tickets

theorem step_counted {a : Action Pid} (counted : Counted setup f)
    (stepped : step setup f a = some f') : Counted setup f' := by
  obtain ⟨told, known, device, tickets, sound, given, spent⟩ := counted
  cases a with
  | start p agent rounds fuel =>
    have state : f'.state = f.state := by rw [(Crew.spawn_eq stepped).2]
    refine ⟨_, _, _, tickets, start_sound sound stepped, given_device sound given (by rw [state])
      (Or.inl (by rw [state])), ?_⟩
    rw [state]
    exact spent_update spent (fun t pending => nomatch pending.1)
      (fun t spec pending => nomatch pending.1) nofun
  | slot p k =>
    obtain ⟨agent, c, r, turned, after⟩ := slot_sound sound stepped
    obtain ⟨tickets', spent'⟩ := spent_slot sound given spent turned
    obtain ⟨k, performed⟩ := turned.performed
    exact ⟨_, _, _, tickets', after, given_device sound given turned.broker
      (perform_sent performed), spent'⟩
  | beat m =>
    have after := beat_sound sound stepped
    simp only [step] at stepped
    split at stepped
    · obtain rfl := Option.some.inj stepped
      exact ⟨_, _, _, tickets, after, given_device sound given rfl (Or.inr ⟨m, rfl⟩), spent_sent spent⟩
    · cases stepped
  | deliver ticket token =>
    have after := deliver_sound sound stepped
    obtain ⟨same, given'⟩ := given_deliver given stepped
    rw [same] at after
    obtain ⟨m, sent, stepped⟩ := Option.bind_eq_some_iff.mp stepped
    obtain ⟨broker, spawned, rfl⟩ := Option.map_eq_some_iff.mp stepped
    have state : broker.state = f.state.broker.state := by rw [(Crew.spawn_eq spawned).2]
    have moved : Spent told known { f.state with broker := broker } tickets :=
      spent_later spent (later_same (by rw [Shared.jobs, Shared.jobs, state])
        (fun _ _ there => there) fun _ there => there) rfl
        (le_refl _) fun _ _ held => held
    exact ⟨_, _, _, tickets, after, given', moved⟩
  | broker t k =>
    obtain ⟨m, c, r, handled, after⟩ := broker_sound sound stepped
    obtain ⟨given', hands⟩ := given_broker sound given handled
    exact ⟨_, _, _, tickets, after, given', spent_later spent handled.later handled.ran
      (by rw [handled.sent]) hands⟩
  | other op =>
    have after := other_sound sound stepped
    simp only [step] at stepped
    split at stepped
    · obtain rfl := Option.some.inj stepped
      have later : Later f.state (f.state.withJobs (f.state.jobs.apply op)) :=
        later_apply sound.rows (show _ = f.state.jobs.apply op from rfl) rfl rfl
      have given' : Given told { f with state := f.state.withJobs (f.state.jobs.apply op) } :=
        given_queue sound given rfl rfl rfl (Or.inr ⟨op, rfl⟩)
      exact ⟨_, _, _, tickets, after, given', spent_later spent later rfl (le_refl _)
        fun _ _ held => held⟩
    · cases stepped
  | archives archives =>
    have after := archives_sound sound stepped
    obtain rfl := Option.some.inj stepped
    have later : Later f.state { f.state with broker := { f.state.broker with
        state := { f.state.broker.state with archives := archives } } } := later_same rfl
        (fun _ _ there => there) fun _ there => there
    have given' : Given told { f with state := { f.state with broker := { f.state.broker with
        state := { f.state.broker.state with archives := archives } } } } := given_queue sound given
        rfl rfl rfl (Or.inl rfl)
    exact ⟨_, _, _, tickets, after, given', spent_later spent later rfl (le_refl _) fun _ _ held => held⟩

omit [DecidableEq δ] [DecidableEq Pid] in
theorem atRest_counted (archives : ArtifactStore) (setup : Setup δ) :
    Counted setup (atRest archives : Fleet Pid) := by
  refine ⟨_, _, _, [], atRest_sound archives setup, ⟨fun _ _ => rfl, ?_, ?_, ?_, ?_⟩, ?_, .nil,
    List.nodup_nil, ?_, ?_, ?_⟩
  · exact fun t job held => nomatch held
  · exact fun t job member => nomatch member
  · exact fun row member => nomatch member
  · exact fun row member => nomatch member
  · exact fun run member => nomatch member
  · exact fun p t pending => nomatch pending.1
  · exact fun p q t pending => nomatch pending.1
  · exact fun p spec held => nomatch held

/-- In every run a job is executed at most once for each attempt it has been charged, and so at most
`maxAttempts` times, and only jobs of the queue are executed. -/
theorem executions_bounded {actions : List (Action Pid)} {archives : ArtifactStore}
    (ran : run (step setup) (atRest archives) actions = some f) :
    (∀ row ∈ f.state.jobs.jobs.rows,
      f.state.ran.countP (fun run => run.spec.id = row.id) ≤ row.attempts ∧
      row.attempts ≤ Queue.maxAttempts) ∧
    ∀ run ∈ f.state.ran, Knows f.state.jobs run.spec := by
  obtain ⟨told, known, device, tickets, sound, given, spent⟩ := run_invariant (P := Counted setup)
    (fun _ _ _ counted stepped => step_counted counted stepped) (atRest_counted archives setup) ran
  refine ⟨fun row member => ⟨?_, given.bounded row member⟩, spent.runs⟩
  exact le_trans (runs_bounded spent.distinct spent.matched) (given.handed row member)

end Steps

theorem piRun_bounded : ∃ f, run (step piSetup) (atRest Archive.ArtifactStore.empty) piRun = some f ∧
    f.state.ran.length = 1 ∧ ∀ row ∈ f.state.jobs.jobs.rows, f.state.ran.countP
    (fun run => run.spec.id = row.id) ≤ row.attempts := by
  have runs : (run (step piSetup) (atRest Archive.ArtifactStore.empty) piRun).map
      (fun f => f.state.ran.length) = some 1 := by
    decide +kernel
  obtain ⟨f, ran, once⟩ := Option.map_eq_some_iff.mp runs
  exact ⟨f, ran, once, fun row member => ((executions_bounded ran).1 row member).1⟩

end Cindral.Device

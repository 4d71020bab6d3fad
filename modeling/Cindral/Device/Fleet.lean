import Cindral.Agent.Ownership
import Cindral.Base.Crew
import Cindral.Base.Run
import Cindral.Device.Round
import Cindral.Queue.Lifecycle

/-!
# The devices and the broker together

The slots of any number of devices, and a thread of the broker for each message that reaches it. A
message may arrive late or never, and so may its answer. A thread or a slot that has died is one
that takes no more turns.
-/

namespace Cindral.Device
open Base Script
open Agent (Conversions Depot Program Raised Reply Server World)
open Archive (ArtifactStore)
open Queue (Job Row RowStep)
open Workflow (JobSpec)

/-- One run of an executor, with the exit code it returned, if it returned. -/
structure Run where
  device : String
  spec : JobSpec
  exitCode : Option Int

def exitCode? : Except Failure Executed → Option Int
  | .ok executed => some executed.run.exitCode
  | .error _ => none

/-- What the slots share: the broker, the messages sent to it, and as history the runs. -/
structure Shared where
  broker : Crew Nat Agent.Call Agent.Ans Raised World
  sent : List Message := []
  ran : List Run := []

/-- What the environment decides about one call of a slot: what the device itself answers, and which
answer of the broker arrives, if one does. -/
structure Chance where
  answers : (c : Call) → Except Failure (Reads c)
  arrives : Option Nat := none

def replies (made : List Agent.Call) : List Reply :=
  made.filterMap fun c => match c with
    | .send reply => some reply
    | _ => none

structure Setup (δ : Type) where
  server : Server δ
  depot : Depot
  build : List (String × String)
  float : ℚ → List Char

section Steps
variable {δ Pid : Type} [DecidableEq δ] [DecidableEq Pid] (setup : Setup δ)

def perform (k : Chance) (s : Shared) : (c : Call) → Option (Except Failure (Reads c) × Shared)
  | .post m => some (.ok s.sent.length, { s with sent := s.sent ++ [m] })
  | .await ticket =>
    match k.arrives with
    | none => some (.error (.cindralError "relay request failed" none), s)
    | some i => (replies (s.broker.made ticket))[i]?.map fun reply => (received setup.build reply, s)
  | .execute device spec =>
    let result := k.answers (.execute device spec)
    some (result, { s with ran := s.ran ++ [⟨device, spec, exitCode? result⟩] })
  | c => if c.infallible && !(k.answers c).isOk then none else some (k.answers c, s)

abbrev Fleet (Pid : Type) := Crew Pid Call Reads Failure Shared

inductive Action (Pid : Type) where
  | start (p : Pid) (agent : PullAgent) (rounds fuel : Nat)
  | slot (p : Pid) (k : Chance)
  /-- One of the two heartbeat threads of a device sends a message. -/
  | beat (m : Message)
  | deliver (ticket : Nat) (token : String)
  | broker (thread : Nat) (k : Agent.Choice)
  /-- The rest of the broker writes to the queue or to the archives. -/
  | other (op : Queue.Store.Op)
  | archives (archives : ArtifactStore)

def Message.beats : Message → Bool
  | m@(.renew ..) | m@(.heartbeat ..) => m.named
  | _ => false

/-- Only devices claim and report, and a job is enqueued under a fresh `uuid4().hex`. -/
def outside : Queue.Store.Op → Bool
  | .claim .. | .report .. => false
  | .enqueue _ jobId _ => isUuid jobId
  | _ => true

def Shared.withJobs (s : Shared) (jobs : Queue.Store) : Shared :=
  { s with broker := { s.broker with state := { s.broker.state with jobs := jobs } } }

def Shared.jobs (s : Shared) : Queue.Store := s.broker.state.jobs

def step (f : Fleet Pid) : Action Pid → Option (Fleet Pid)
  | .start p agent rounds fuel => f.spawn p (runSlot setup.server.py agent rounds fuel)
  | .slot p k => f.turn (perform setup) p k
  | .beat m => if m.beats then some { f with state := { f.state with sent := f.state.sent ++ [m] }
      } else none
  | .deliver ticket token => f.state.sent[ticket]?.bind fun m =>
    (f.state.broker.spawn ticket (Agent.handle setup.server (m.request setup.float token))).map
        fun broker =>
      { f with state := { f.state with broker := broker } }
  | .broker thread k => (f.state.broker.turn (Agent.perform setup.depot) thread k).map fun broker =>
    { f with state := { f.state with broker := broker } }
  | .other op => if outside op then some { f with state := f.state.withJobs (f.state.jobs.apply op)
      } else none
  | .archives archives => some { f with state := { f.state with broker := { f.state.broker with
      state := { f.state.broker.state with archives := archives } } } }

/-- No device has started, and the queue is empty. -/
def atRest (archives : ArtifactStore) : Fleet Pid :=
  Crew.fresh { broker := Crew.fresh ⟨Queue.Store.empty, archives⟩ }

end Steps

/-! ## What is on record -/

/-- The queue holds the work. -/
def Knows (jobs : Queue.Store) (spec : JobSpec) : Prop :=
  ∃ row, jobs.row? spec.id = some row ∧ work row = spec

def Recorded (jobs : Queue.Store) (jobId device : String) (exitCode : Int) : Prop :=
  ∃ row, jobs.row? jobId = some row ∧ row.exitCode = some exitCode ∧ row.device = some device ∧
    row.status = if exitCode = 0 then .success else .failure

/-- A verdict has a run of its device behind it, of the work the row holds. -/
structure Backed (s : Shared) (row : Row) : Prop where
  lifecycle : Queue.Lifecycle row
  uuid : isUuid row.id = true
  ran : ∀ exitCode, row.exitCode = some exitCode →
    ∃ device, row.device = some device ∧ Run.mk device (work row) (some exitCode) ∈ s.ran

/-- A report has a run of its device behind it. -/
def Message.Backed (s : Shared) (m : Message) : Prop :=
  m.named = true ∧ ∀ jobId device exitCode, m.verdict? = some (jobId, device, exitCode) →
    ∃ spec, spec.id = jobId ∧ Knows s.jobs spec ∧ Run.mk device spec exitCode ∈ s.ran

def Told.Holds (s : Shared) : Told → Prop
  | .nothing | .settled (_, _, none) => True
  | .handed job => Knows s.jobs (handedWork job)
  | .settled (jobId, device, some exitCode) => Recorded s.jobs jobId device exitCode

/-- What a slot has learnt and done is on record. -/
structure Round.OnRecord (s : Shared) (device : String) (g : Round) : Prop where
  sound : g.broken = false
  knows : ∀ spec, g.spec = some spec → Knows s.jobs spec
  ran : ∀ spec result, g.spec = some spec → g.ran = some result →
    Run.mk device spec (exitCode? result) ∈ s.ran

/-- What one state keeps of an earlier one. -/
structure Later (s s' : Shared) : Prop where
  rows : ∀ id row, s.jobs.row? id = some row → ∃ row', s'.jobs.row? id = some row' ∧
    work row' = work row ∧
    (row.exitCode.isSome → Queue.Frozen row row' )
  sent : ∀ (ticket : Nat) m, s.sent[ticket]? = some m → s'.sent[ticket]? = some m
  ran : ∀ run ∈ s.ran, run ∈ s'.ran

section Kept
variable {s s' : Shared}

theorem Later.knows (later : Later s s') {spec : JobSpec} (knows : Knows s.jobs spec) :
    Knows s'.jobs spec := by
  obtain ⟨row, found, rfl⟩ := knows
  obtain ⟨row', found', same, -⟩ := later.rows _ row found
  exact ⟨row', found', same⟩

theorem Later.recorded (later : Later s s') {jobId device : String} {exitCode : Int}
    (recorded : Recorded s.jobs jobId device exitCode) : Recorded s'.jobs jobId device exitCode := by
  obtain ⟨row, found, coded, held, settled⟩ := recorded
  obtain ⟨row', found', -, frozen⟩ := later.rows _ row found
  have kept := frozen (by rw [coded]; rfl)
  exact ⟨row', found', kept.exitCode.trans coded, kept.device.trans held, kept.status.trans settled⟩

theorem Later.backed (later : Later s s') {m : Message} (backed : m.Backed s) : m.Backed s' := by
  refine ⟨backed.1, fun jobId device exitCode verdict => ?_⟩
  obtain ⟨spec, named, knows, ran⟩ := backed.2 jobId device exitCode verdict
  exact ⟨spec, named, later.knows knows, later.ran _ ran⟩

theorem Later.told (later : Later s s') {told : Told} (holds : told.Holds s) : told.Holds s' := by
  cases told with
  | nothing => trivial
  | handed job => exact later.knows holds
  | settled verdict =>
    obtain ⟨jobId, device, exitCode⟩ := verdict
    cases exitCode with
    | none => trivial
    | some exitCode => exact later.recorded holds

theorem Later.onRecord (later : Later s s') {device : String} {g : Round}
    (kept : g.OnRecord s device) : g.OnRecord s' device :=
  ⟨kept.sound, fun spec told => later.knows (kept.knows spec told), fun spec result told ran =>
    later.ran _ (kept.ran spec result told ran)⟩

/-- An exit code comes into a row from a report, and with the device that sent it. -/
theorem step_exit {jobs : Queue.Store} {op : Queue.Store.Op} {r r' : Row} (step : RowStep jobs op r r') :
    r'.exitCode = r.exitCode ∨ ∃ jobId device report now exitCode, op = .report jobId device report
      now ∧ r.id = jobId ∧
      r.device = some device ∧ settles report = some exitCode ∧ r'.exitCode = some exitCode ∧
      r'.device = some device := by
  cases step with
  | settled named running held unspent sound given => 
    exact Or.inr ⟨_, _, _, _, _, rfl, named, held, by rw [settles, if_pos sound, given], rfl, held⟩
  | _ => exact Or.inl rfl

end Kept

/-! ## What every step keeps -/

/-- What holds of the devices and the broker, with what each thread and each slot has been told. -/
structure Sound {Pid : Type} {δ : Type} (setup : Setup δ) (told : Nat → Told) (known : Pid → Round)
    (device : Pid → String)
    (f : Fleet Pid) : Prop where
  threads : ∀ t s, f.state.broker.task t = some s →
    ∃ m, f.state.sent[t]? = some m ∧ s.Follows (meant m) (fun _ _ => True) (told t)
  unused : f.state.broker.Unused
  slots : ∀ p s, f.task p = some s → ∃ agent : PullAgent, agent.device = device p ∧
    s.Follows (careful setup.server.py agent) (fun g _ => g.Idle) (known p)
  rows : ∀ row ∈ f.state.jobs.jobs.rows, Backed f.state row
  messages : ∀ m ∈ f.state.sent, m.Backed f.state
  told : ∀ t, (told t).Holds f.state
  known : ∀ p, (known p).OnRecord f.state (device p)
  answered : ∀ t reply, Agent.Call.send reply ∈ f.state.broker.made t →
    ∃ m told, f.state.sent[t]? = some m ∧ m.fits told reply ∧ told.Holds f.state

section Writes
variable {s s' : Shared} {op : Queue.Store.Op}

theorem Backed.grown {row : Row} (backed : Backed s row) (ran : ∀ run ∈ s.ran, run ∈ s'.ran) :
    Backed s' row := by
  refine ⟨backed.lifecycle, backed.uuid, fun exitCode coded => ?_⟩
  obtain ⟨device, held, there⟩ := backed.ran exitCode coded
  exact ⟨device, held, ran _ there⟩

theorem later_same (jobs : s'.jobs = s.jobs) (sent : ∀ (ticket : Nat) m, s.sent[ticket]? = some m →
    s'.sent[ticket]? = some m)
    (ran : ∀ run ∈ s.ran, run ∈ s'.ran) : Later s s' :=
  ⟨fun id row found => ⟨row, by rw [jobs]; exact found, rfl, fun _ => Queue.Frozen.refl row⟩, sent, ran⟩

theorem later_apply (backed : ∀ row ∈ s.jobs.jobs.rows, Backed s row)
    (jobs : s'.jobs = s.jobs.apply op) (sent : s'.sent = s.sent)
    (ran : s'.ran = s.ran) : Later s s' := by
  refine ⟨fun id row found => ?_,
    fun ticket m there => by rw [sent]; exact there, fun run there => by rw [ran]; exact there⟩
  obtain ⟨row', found', step⟩ := Queue.Store.apply_row op found
  refine ⟨row', by rw [jobs]; exact found', step_work step, fun coded => Queue.step_frozen step ?_⟩
  have lifecycle := (backed row (Queue.Store.row?_some found).1).lifecycle
  rcases lifecycle.exited.mp coded with passed | failed
  · rw [passed]
    rfl
  · rw [failed]
    rfl

/-- A write that enqueues under a uuid and settles as a backed report says keeps every verdict backed. -/
theorem backed_apply (backed : ∀ row ∈ s.jobs.jobs.rows, Backed s row)
    (fresh : ∀ req jobId now, op = .enqueue req jobId now → isUuid jobId = true)
    (reported : ∀ jobId device report now exitCode, op = .report jobId device report now →
      settles report = some exitCode →
      ∃ spec, spec.id = jobId ∧ Knows s.jobs spec ∧ Run.mk device spec (some exitCode) ∈ s.ran) :
    ∀ row ∈ (s.jobs.apply op).jobs.rows, Backed s row := by
  intro row member
  rcases Queue.Store.apply_rows s.jobs op with ⟨req, jobId, now, rfl, -, rows⟩ | ⟨e, rows, each⟩
  · rw [rows] at member
    rcases List.mem_append.mp member with old | new
    · exact backed row old
    · obtain rfl := List.mem_singleton.mp new
      exact ⟨Queue.fresh_lifecycle req jobId now, fresh req jobId now rfl, fun exitCode coded =>
        nomatch coded⟩
  · rw [rows] at member
    obtain ⟨x, there, rfl⟩ := List.mem_map.mp member
    have step := each x there
    have before := backed x there
    refine ⟨Queue.step_lifecycle step
      before.lifecycle, by rw [e.keeps x]; exact before.uuid, fun exitCode coded => ?_⟩
    rw [step_work step]
    rcases step_exit step with same | ⟨jobId, device, report, now, code, sends, named, held, given,
      coded', held'⟩
    · rw [same] at coded
      have final : x.status.terminal = true := by
        rcases before.lifecycle.exited.mp (by rw [coded]; rfl) with passed | failed
        · rw [passed]
          rfl
        · rw [failed]
          rfl
      obtain ⟨device, held, ran⟩ := before.ran exitCode coded
      exact ⟨device, (Queue.step_frozen step final).device.trans held, ran⟩
    · obtain rfl : code = exitCode := Option.some.inj (coded'.symm.trans coded)
      obtain ⟨spec, same, ⟨row, found, rfl⟩, ran⟩ := reported jobId device report now code sends given
      have equal : row = x := by
        rw [same, ← named, Queue.Store.row?_of_mem there] at found
        exact (Option.some.inj found).symm
      exact ⟨device, held', equal ▸ ran⟩

end Writes

section Answers
variable {depot : Depot} {k : Agent.Choice} {w w' : World}

theorem perform_ok {c : Agent.Call} {value : Agent.Ans c}
    (performed : Agent.perform depot k w c = some (.ok value, w')) :
    Agent.answer depot k w c = (.ok value, w') := by
  unfold Agent.perform at performed
  split at performed
  · exact Option.some.inj performed
  · split at performed
    · obtain ⟨failed, -⟩ := Prod.mk.inj (Option.some.inj performed)
      cases failed
    · cases performed

theorem transact_ok {α : Type} {value : α} {result : Except Queue.QueueError (α × Queue.Store)}
    (done : w.transact result = (.ok value, w')) : result = .ok (value, w'.jobs) := by
  cases result with
  | error e => cases done
  | ok x =>
    obtain ⟨rfl, rfl⟩ : x.1 = value ∧ _ := ⟨Except.ok.inj (Prod.mk.inj done).1, (Prod.mk.inj done).2⟩
    rfl

/-- The work of a job the queue hands over is the work its row holds. -/
theorem claim_knows {name : String} {labels : List String} {leaseSeconds limit : Int} {job : Job}
    (performed : Agent.perform depot k w (.claim name labels leaseSeconds limit) =
    some (.ok (some job), w')) :
    Knows w'.jobs (handedWork job) := by
  have claimed := transact_ok (perform_ok performed)
  obtain ⟨-, -, ⟨-, absent, -⟩ | ⟨picked, chosen, handed, rows⟩⟩ := Queue.Store.claim_cases claimed
  · cases absent
  · obtain ⟨member, waiting⟩ := Queue.Store.pickJob_mem chosen
    obtain rfl := Option.some.inj handed
    refine ⟨Queue.Row.taken name (k.now + leaseSeconds) picked, ?_, rfl⟩
    change w'.jobs.row? picked.id = _
    rw [rows]
    simp [Queue.Store.row?_of_mem member, waiting]

/-- A verdict the queue took is in its row. -/
theorem settle_recorded {jobId name : String} {report : Queue.Report} {exitCode : Int}
    (given : settles report = some exitCode)
    (performed : Agent.perform depot k w (.settle jobId name report) = some (.ok (), w')) :
    Recorded w'.jobs jobId name exitCode := by
  have settled : w.jobs.settle jobId name report k.now = .ok w'.jobs := by
    have done := transact_ok (perform_ok performed)
    cases result : w.jobs.settle jobId name report k.now with
    | error e =>
      rw [result] at done
      cases done
    | ok t =>
      rw [result] at done
      exact congrArg Except.ok (Prod.mk.inj (Except.ok.inj done)).2
  obtain ⟨row, found, running, held, -, ⟨failed, -⟩ | ⟨code, spoken, coded, rows⟩⟩ :=
    Queue.Store.settle_cases settled
  · rw [settles, if_neg failed] at given
    cases given
  · rw [settles, if_pos spoken] at given
    obtain rfl : code = exitCode := Option.some.inj (coded.symm.trans given)
    have same := (Queue.Store.row?_some found).2
    refine ⟨Queue.Row.settled code report.log report.steps row, ?_, rfl, held, rfl⟩
    rw [rows]
    simp [found, same]

end Answers

section Run
variable {δ Pid : Type} {setup : Setup δ} {told : Nat → Told} {known : Pid → Round}
  {device : Pid → String} {f f' : Fleet Pid}

/-- A step of the broker's threads or of the rest of the broker. -/
theorem sound_broker (sound : Sound setup told known device f) (later : Later f.state f'.state)
    (tasks : f'.task = f.task)
    (sent : f'.state.sent = f.state.sent) (told' : Nat → Told)
    (threads : ∀ t s, f'.state.broker.task t = some s →
      ∃ m, f.state.sent[t]? = some m ∧ s.Follows (meant m) (fun _ _ => True) (told' t))
    (unused : f'.state.broker.Unused) (rows : ∀ row ∈ f'.state.jobs.jobs.rows, Backed f'.state row)
    (holds : ∀ t, (told' t).Holds f'.state)
    (answered : ∀ t reply, Agent.Call.send reply ∈ f'.state.broker.made t →
      ∃ m told, f.state.sent[t]? = some m ∧ m.fits told reply ∧ told.Holds f'.state) :
    Sound setup told' known device f' where
  threads := by rw [sent]; exact threads
  unused := unused
  slots := by rw [tasks]; exact sound.slots
  rows := rows
  messages := by
    intro m member
    rw [sent] at member
    exact later.backed (sound.messages m member)
  told := holds
  known := fun p => later.onRecord (sound.known p)
  answered := by rw [sent]; exact answered

theorem heard_holds {c : Agent.Call} {r : Except Raised (Agent.Ans c)} {s s' : Shared}
    {before : Told} {k : Agent.Choice}
    (performed : Agent.perform setup.depot k s.broker.state c = some (r, s'.broker.state))
    (later : Later s s')
    (holds : before.Holds s) : (heard before c r).Holds s' := by
  have kept := later.told holds
  cases c with
  | claim name labels leaseSeconds limit =>
    cases r with
    | error e => exact kept
    | ok job =>
      cases job with
      | none => exact kept
      | some job => exact claim_knows performed
  | settle jobId name report =>
    cases r with
    | error e => exact kept
    | ok _ =>
      change Told.Holds s' (.settled (jobId, name, settles report))
      cases given : settles report with
      | none => trivial
      | some exitCode => exact settle_recorded given performed
  | _ => exact kept

/-- A call of a handler writes at most once to the queue, and what it may write is backed by the
message. -/
theorem call_writes {c : Agent.Call} {r : Except Raised (Agent.Ans c)} {s s' : Shared}
    {k : Agent.Choice} {m : Message} {before : Told}
    (performed : Agent.perform setup.depot k s.broker.state c = some (r, s'.broker.state))
    (may : (meant m).may before c)
    (sent : s'.sent = s.sent) (ran : s'.ran = s.ran)
    (backed : ∀ row ∈ s.jobs.jobs.rows, Backed s row) (from_ : m.Backed s) :
    Later s s' ∧ ∀ row ∈ s'.jobs.jobs.rows, Backed s' row := by
  have same (run : Run) (there : run ∈ s.ran) : run ∈ s'.ran := by rw [ran]; exact there
  rcases Agent.perform_jobs performed with jobs | ⟨op, runs, jobs⟩
  · have kept : s'.jobs = s.jobs := jobs
    refine ⟨later_same kept (fun ticket m there => by rw [sent]; exact there) same, fun row member => ?_⟩
    rw [kept] at member
    exact (backed row member).grown same
  · have kept : s'.jobs = s.jobs.apply op := jobs
    refine ⟨later_apply backed kept sent ran, fun row member => ?_⟩
    rw [kept] at member
    refine (backed_apply backed ?_ ?_ row member).grown same
    · intro req jobId now rfl_
      subst rfl_
      cases c <;> cases runs
    · intro jobId name report now exitCode same_op given
      subst same_op
      cases c with
      | settle id device settled =>
        obtain ⟨rfl, rfl, rfl, -⟩ := Queue.Store.Op.report.inj (Option.some.inj runs)
        have verdict : m.verdict? = some (id, device, settles settled) := may
        rw [given] at verdict
        exact from_.2 id device (some exitCode) verdict
      | _ => cases runs

/-- One call of a thread of the broker that has a message. -/
structure Handled (setup : Setup δ) (told : Nat → Told) (t : Nat) (f f' : Fleet Pid) (m : Message)
    (c : Agent.Call)
    (r : Except Raised (Agent.Ans c)) : Prop where
  asked : f.state.sent[t]? = some m
  performed : ∃ k, Agent.perform setup.depot k f.state.broker.state c = some (r, f'.state.broker.state)
  may : (meant m).may (told t) c
  idle : ∀ t', f'.state.broker.task t' = none → t' ≠ t ∧ f.state.broker.task t' = none
  made : f'.state.broker.made = Function.update f.state.broker.made t (f.state.broker.made t ++ [c])
  sent : f'.state.sent = f.state.sent
  ran : f'.state.ran = f.state.ran
  later : Later f.state f'.state

variable [DecidableEq δ] [DecidableEq Pid]

theorem broker_sound {t : Nat} {k : Agent.Choice} (sound : Sound setup told known device f)
    (stepped : step setup f (.broker t k) = some f') :
    ∃ m c r, Handled setup told t f f' m c r ∧
    Sound setup (Function.update told t (heard (told t) c r)) known device f' := by
  obtain ⟨broker, turned, rfl⟩ := Option.map_eq_some_iff.mp stepped
  obtain ⟨c, next, r, task, performed, tasks, made⟩ := Crew.turn_eq turned
  obtain ⟨m, sent, follows⟩ := sound.threads t _ task
  have written : Later f.state { f.state with broker := broker } ∧
      ∀ row ∈ broker.state.jobs.jobs.rows, Backed { f.state with broker := broker } row :=
    call_writes performed follows.1 rfl rfl sound.rows (sound.messages m (List.mem_of_getElem? sent))
  obtain ⟨later, rows⟩ := written
  have idle (t' : Nat) (left : broker.task t' = none) : t' ≠ t ∧ f.state.broker.task t' = none := by
    rw [tasks] at left
    by_cases acting : t' = t
    · rw [acting, Function.update_self] at left
      cases left
    · rw [Function.update_of_ne acting] at left
      exact ⟨acting, left⟩
  refine ⟨m, c, r, ⟨sent, ⟨k, performed⟩, follows.1, idle, made, rfl, rfl, later⟩, ?_⟩
  refine sound_broker sound ?_ ?_ ?_ _ ?_ ?_ ?_ ?_ ?_
  · exact later
  · rfl
  · rfl
  · intro t' s' left
    change broker.task t' = some s' at left
    rw [tasks] at left
    by_cases acting : t' = t
    · subst acting
      rw [Function.update_self] at left ⊢
      obtain rfl := Option.some.inj left
      exact ⟨m, sent, follows.2 r⟩
    · rw [Function.update_of_ne acting] at left ⊢
      exact sound.threads t' s' left
  · exact Crew.unused_turn sound.unused turned
  · exact rows
  · exact fun t' => update_forall (P := fun told : Told => told.Holds { f.state with broker := broker })
      (fun q => later.told (sound.told q)) (heard_holds performed later (sound.told t)) t'
  · intro t' reply member
    change Agent.Call.send reply ∈ broker.made t' at member
    rw [made] at member
    by_cases acting : t' = t
    · subst acting
      rw [Function.update_self] at member
      rcases List.mem_append.mp member with old | new
      · obtain ⟨m', told', sent', fits, holds⟩ := sound.answered t' reply old
        exact ⟨m', told', sent', fits, later.told holds⟩
      · obtain rfl := List.mem_singleton.mp new
        exact ⟨m, told t', sent, follows.1, later.told (sound.told t')⟩
    · rw [Function.update_of_ne acting] at member
      obtain ⟨m', told', sent', fits, holds⟩ := sound.answered t' reply member
      exact ⟨m', told', sent', fits, later.told holds⟩

theorem other_sound {op : Queue.Store.Op} (sound : Sound setup told known device f)
    (stepped : step setup f (.other op) = some f') : Sound setup told known device f' := by
  simp only [step] at stepped
  split at stepped
  · rename_i allowed
    obtain rfl := Option.some.inj stepped
    have later : Later f.state (f.state.withJobs (f.state.jobs.apply op)) :=
        later_apply sound.rows (show _ = f.state.jobs.apply op from rfl) rfl rfl
    refine sound_broker sound ?_ ?_ ?_ _ ?_ ?_ ?_ ?_ ?_
    · exact later
    · rfl
    · rfl
    · exact sound.threads
    · exact sound.unused
    · intro row member
      refine (backed_apply sound.rows ?_ ?_ row member).grown fun run there => there
      · intro req jobId now same
        rw [same] at allowed
        exact allowed
      · intro jobId name report now exitCode same
        rw [same] at allowed
        cases allowed
    · exact fun t => later.told (sound.told t)
    · intro t reply member
      obtain ⟨m, told, sent, fits, holds⟩ := sound.answered t reply member
      exact ⟨m, told, sent, fits, later.told holds⟩
  · cases stepped

theorem archives_sound {archives : ArtifactStore} (sound : Sound setup told known device f)
    (stepped : step setup f (.archives archives) = some f') : Sound setup told known device f' := by
  obtain rfl := Option.some.inj stepped
  have later : Later f.state { f.state with broker := { f.state.broker with
      state := { f.state.broker.state with archives := archives } } } := later_same rfl
      (fun _ _ there => there) fun _ there => there
  refine sound_broker sound ?_ ?_ ?_ _ ?_ ?_ ?_ ?_ ?_
  · exact later
  · rfl
  · rfl
  · exact sound.threads
  · exact sound.unused
  · exact fun row member => (sound.rows row member).grown fun run there => there
  · exact fun t => later.told (sound.told t)
  · intro t reply member
    obtain ⟨m, told, sent, fits, holds⟩ := sound.answered t reply member
    exact ⟨m, told, sent, fits, later.told holds⟩

theorem deliver_sound {ticket : Nat} {token : String} (sound : Sound setup told known device f)
    (stepped : step setup f (.deliver ticket token) = some f') :
    Sound setup (Function.update told ticket .nothing) known device f' := by
  obtain ⟨m, sent, stepped⟩ := Option.bind_eq_some_iff.mp stepped
  obtain ⟨broker, spawned, rfl⟩ := Option.map_eq_some_iff.mp stepped
  obtain ⟨idle, rfl⟩ := Crew.spawn_eq spawned
  have backed := sound.messages m (List.mem_of_getElem? sent)
  refine sound_broker sound ?_ ?_ ?_ _ ?_ ?_ ?_ ?_ ?_
  · exact later_same rfl (fun _ _ there => there) fun _ there => there
  · rfl
  · rfl
  · intro t s left
    by_cases acting : t = ticket
    · subst acting
      simp only [Function.update_self] at left ⊢
      obtain rfl := Option.some.inj left
      exact ⟨m, sent, handle_follows backed.1⟩
    · simp only [Function.update_of_ne acting] at left ⊢
      exact sound.threads t s left
  · exact Crew.unused_spawn sound.unused spawned
  · exact fun row member => (sound.rows row member).grown fun run there => there
  · intro t
    by_cases acting : t = ticket
    · subst acting
      rw [Function.update_self]
      trivial
    · rw [Function.update_of_ne acting]
      exact sound.told t
  · exact sound.answered

omit [DecidableEq δ] [DecidableEq Pid] in
/-- A step of the devices, which leaves the queue as it is. -/
theorem sound_device {known' : Pid → Round} {device' : Pid → String}
    (sound : Sound setup told known device f)
    (broker : f'.state.broker = f.state.broker) (later : Later f.state f'.state)
    (slots : ∀ p s, f'.task p = some s → ∃ agent : PullAgent, agent.device = device' p ∧
      s.Follows (careful setup.server.py agent) (fun g _ => g.Idle) (known' p))
    (messages : ∀ m ∈ f'.state.sent, m.Backed f'.state)
    (onRecord : ∀ p, (known' p).OnRecord f'.state (device' p)) :
    Sound setup told known' device' f' where
  threads := by
    intro t s task
    rw [broker] at task
    obtain ⟨m, sent, follows⟩ := sound.threads t s task
    exact ⟨m, later.sent t m sent, follows⟩
  unused := by rw [broker]; exact sound.unused
  slots := slots
  rows := by
    intro row member
    have same : f'.state.jobs = f.state.jobs := by rw [Shared.jobs, Shared.jobs, broker]
    rw [same] at member
    exact (sound.rows row member).grown later.ran
  messages := messages
  told := fun t => later.told (sound.told t)
  known := onRecord
  answered := by
    intro t reply member
    rw [broker] at member
    obtain ⟨m, told, sent, fits, holds⟩ := sound.answered t reply member
    exact ⟨m, told, later.sent t m sent, fits, later.told holds⟩

theorem start_sound {p : Pid} {agent : PullAgent} {rounds fuel : Nat}
    (sound : Sound setup told known device f)
    (stepped : step setup f (.start p agent rounds fuel) = some f') :
    Sound setup told (Function.update known p {}) (Function.update device p agent.device) f' := by
  obtain ⟨idle, rfl⟩ := Crew.spawn_eq stepped
  refine sound_device sound rfl ?_ ?_ ?_ ?_
  · exact later_same rfl (fun _ _ there => there) fun _ there => there
  · intro q s left
    by_cases acting : q = p
    · subst acting
      simp only [Function.update_self] at left ⊢
      obtain rfl := Option.some.inj left
      exact ⟨agent, rfl, runSlot_follows rounds fuel (Or.inr ⟨rfl, rfl⟩)⟩
    · simp only [Function.update_of_ne acting] at left ⊢
      exact sound.slots q s left
  · exact sound.messages
  · intro q
    by_cases acting : q = p
    · subst acting
      rw [Function.update_self, Function.update_self]
      exact ⟨rfl, nofun, nofun⟩
    · rw [Function.update_of_ne acting, Function.update_of_ne acting]
      exact sound.known q

theorem later_sent {s : Shared} (m : Message) : Later s { s with sent := s.sent ++ [m] } := by
  refine later_same rfl (fun ticket other there => ?_) fun run there => there
  have inside := (List.getElem?_eq_some_iff.mp there).1
  rw [List.getElem?_append_left inside]
  exact there

theorem beat_sound {m : Message} (sound : Sound setup told known device f)
    (stepped : step setup f (.beat m) = some f') : Sound setup told known device f' := by
  simp only [step] at stepped
  split at stepped
  · rename_i beats
    obtain rfl := Option.some.inj stepped
    have later := later_sent (s := f.state) m
    have mute : m.verdict? = none ∧ m.named = true := by
      cases m with
      | renew | heartbeat => exact ⟨rfl, beats⟩
      | _ => cases beats
    refine sound_device sound rfl later sound.slots ?_ fun p => later.onRecord (sound.known p)
    intro m' member
    rcases List.mem_append.mp member with old | new
    · exact later.backed (sound.messages m' old)
    · obtain rfl := List.mem_singleton.mp new
      refine ⟨mute.2, fun jobId name exitCode verdict => ?_⟩
      rw [mute.1] at verdict
      cases verdict
  · cases stepped

omit [DecidableEq δ] [DecidableEq Pid] in
theorem knows_uuid {spec : JobSpec} (sound : Sound setup told known device f)
    (knows : Knows f.state.jobs spec) :
    isUuid spec.id = true := by
  obtain ⟨row, found, rfl⟩ := knows
  exact (sound.rows row (Queue.Store.row?_some found).1).uuid

omit [DecidableEq δ] [DecidableEq Pid] in
/-- What a slot may send has a run behind it. -/
theorem sends_backed {m : Message} {agent : PullAgent} {g : Round}
    (sound : Sound setup told known device f)
    (kept : g.OnRecord f.state agent.device) (may : g.sends agent m) : m.Backed f.state := by
  cases m with
  | claim => exact ⟨rfl, nofun⟩
  | renew | heartbeat => exact may.elim
  | upload jobId name archive =>
    obtain ⟨spec, executed, holds, rfl, -⟩ := may
    exact ⟨knows_uuid sound (kept.knows spec holds.spec), nofun⟩
  | report jobId name exitCode log steps =>
    obtain ⟨spec, executed, holds, -, rfl, rfl, rfl, -, -⟩ := may
    have knows := kept.knows spec holds.spec
    refine ⟨knows_uuid sound knows, fun jobId name code verdict => ?_⟩
    obtain ⟨rfl, rfl, rfl⟩ : spec.id = jobId ∧ agent.device = name ∧
        some executed.run.exitCode = code := by
      simpa [Message.verdict?] using verdict
    exact ⟨spec, rfl, knows, kept.ran spec _ holds.spec holds.ran⟩
  | reportLost jobId name error log steps =>
    obtain ⟨spec, e, holds, -, rfl, rfl, -, -, -⟩ := may
    have knows := kept.knows spec holds.spec
    refine ⟨knows_uuid sound knows, fun jobId name code verdict => ?_⟩
    obtain ⟨rfl, rfl, rfl⟩ : spec.id = jobId ∧ agent.device = name ∧ none = code := by
      simpa [Message.verdict?] using verdict
    exact ⟨spec, rfl, knows, kept.ran spec _ holds.spec holds.ran⟩

theorem mem_replies {made : List Agent.Call} {reply : Reply} (member : reply ∈ replies made) :
    Agent.Call.send reply ∈ made := by
  obtain ⟨c, inside, sent⟩ := List.mem_filterMap.mp member
  cases c with
  | send other =>
    obtain rfl := Option.some.inj sent
    exact inside
  | _ => cases sent

omit [DecidableEq δ] [DecidableEq Pid] in
/-- A job the broker hands over is one the queue holds. -/
theorem await_knows {ticket i : Nat} {reply : Reply} {answer : Nat × List (String × Json)}
    {spec : JobSpec}
    (sound : Sound setup told known device f)
    (arrived : (replies (f.state.broker.made ticket))[i]? = some reply)
    (told' : received setup.build reply = .ok answer)
    (read : claimed setup.server.py answer.2 = .ok (some spec)) :
    Knows f.state.jobs spec := by
  obtain ⟨m, before, -, fits, holds⟩ :=
    sound.answered ticket reply (mem_replies (List.mem_of_getElem? arrived))
  obtain ⟨job, rfl, rfl⟩ :=
    claimed_answer (show received setup.build reply = .ok (answer.1, answer.2) from told') read
  rw [fits.2] at holds
  exact holds

omit [DecidableEq δ] [DecidableEq Pid] in
theorem onRecord_same {s : Shared} {name : String} {g g' : Round} (kept : g.OnRecord s name)
    (sound : g'.broken = g.broken)
    (spec : g'.spec = g.spec) (ran : g'.ran = g.ran) : g'.OnRecord s name :=
  ⟨sound.trans kept.sound, fun x told => kept.knows x (spec ▸ told), fun x result told done =>
  kept.ran x result (spec ▸ told) (ran ▸ done)⟩

/-- The calls that the device itself answers, without a run. -/
def Call.plain : Call → Bool
  | .post _ | .await _ | .execute _ _ => false
  | _ => true

omit [DecidableEq δ] [DecidableEq Pid] in
theorem perform_plain {c : Call} {r : Except Failure (Reads c)} {k : Chance} {s s' : Shared}
    (plain : c.plain = true)
    (performed : perform setup k s c = some (r, s')) :
    s' = s ∧ (c.infallible = true → ∃ value, r = .ok value) := by
  have answered : (if c.infallible && !(k.answers c).isOk then none else some (k.answers c, s)) =
      some (r, s') := by
    cases c with
    | post | await | execute => cases plain
    | _ => exact performed
  split at answered
  · cases answered
  · rename_i fine
    obtain ⟨rfl, rfl⟩ := Prod.mk.inj (Option.some.inj answered)
    refine ⟨rfl, fun infallible => ok_of_isOk ?_⟩
    rw [infallible] at fine
    simpa using fine

theorem record_plain {py : Conversions} {c : Call} {r : Except Failure (Reads c)} {g : Round}
    {s : Shared} {name : String}
    (plain : c.plain = true) (fine : c.infallible = true → ∃ value, r = .ok value)
    (kept : g.OnRecord s name) :
    (g.record py c r).OnRecord s name := by
  cases c with
  | post | await | execute => cases plain
  | stopping =>
    obtain ⟨value, rfl⟩ := fine rfl
    exact ⟨kept.sound, nofun, nofun⟩
  | stopHeartbeat jobId =>
    obtain ⟨value, rfl⟩ := fine rfl
    exact onRecord_same kept rfl rfl rfl
  | lost jobId =>
    obtain ⟨value, rfl⟩ := fine rfl
    cases value with
    | true => exact onRecord_same kept rfl rfl rfl
    | false => exact kept
  | unlink archive =>
    rw [record_unlink]
    split
    · exact onRecord_same kept rfl rfl rfl
    · exact kept
  | startHeartbeat jobId =>
    cases r with
    | error e => exact kept
    | ok _ => exact onRecord_same kept rfl rfl rfl
  | behindNote | setBehindNote | wait =>
    obtain ⟨value, rfl⟩ := fine rfl
    exact kept
  | preflight | behindBroker | note | getsize | read => cases r <;> exact kept

omit [DecidableEq δ] [DecidableEq Pid] in
/-- What a slot learns from a call is on record. -/
theorem record_onRecord {c : Call} {r : Except Failure (Reads c)} {agent : PullAgent} {g : Round}
    {k : Chance} {s' : Shared}
    (sound : Sound setup told known device f) (kept : g.OnRecord f.state agent.device)
    (may : (careful setup.server.py agent).may g c)
    (performed : perform setup k f.state c = some (r, s')) :
    (g.record setup.server.py c r).OnRecord s' agent.device ∧ Later f.state s' ∧
      s'.broker = f.state.broker ∧
      ∀ m ∈ s'.sent, m.Backed s' := by
  have may := may.resolve_left (by rw [kept.sound]; exact Bool.false_ne_true)
  have idle : Later f.state f.state := later_same rfl (fun _ _ there => there) fun _ there => there
  cases c with
  | post m =>
    obtain ⟨rfl, rfl⟩ := Prod.mk.inj (Option.some.inj performed)
    have later := later_sent (s := f.state) m
    refine ⟨?_, later, rfl, fun m' member => ?_⟩
    · change (g.sent m _).OnRecord _ _
      cases m with
      | claim => exact ⟨kept.sound, nofun, nofun⟩
      | _ => exact later.onRecord (onRecord_same kept rfl rfl rfl)
    · rcases List.mem_append.mp member with old | new
      · exact later.backed (sound.messages m' old)
      · obtain rfl := List.mem_singleton.mp new
        exact later.backed (sends_backed sound kept may)
  | await ticket =>
    simp only [perform] at performed
    split at performed
    · obtain ⟨rfl, rfl⟩ := Prod.mk.inj (Option.some.inj performed)
      exact ⟨kept, idle, rfl, sound.messages⟩
    · obtain ⟨reply, arrived, same⟩ := Option.map_eq_some_iff.mp performed
      obtain ⟨rfl, rfl⟩ := Prod.mk.inj same
      refine ⟨?_, idle, rfl, sound.messages⟩
      cases told' : received setup.build reply with
      | error e => exact kept
      | ok answer =>
        simp only [Round.record]
        split
        · rename_i spec read
          split
          · rename_i fresh
            refine ⟨kept.sound, fun spec' same => ?_, fun spec' result same ran => ?_⟩
            · obtain rfl := Option.some.inj same
              exact await_knows sound arrived told' read
            · rw [Option.isNone_iff_eq_none] at fresh
              rw [fresh] at ran
              cases ran
          · exact kept
        · exact kept
  | execute name spec =>
    obtain ⟨rfl, rfl⟩ := Prod.mk.inj (Option.some.inj performed)
    obtain ⟨rfl, told', -, -⟩ := may
    have later : Later f.state { f.state with
        ran := f.state.ran ++
        [⟨agent.device, spec, exitCode? (k.answers (.execute agent.device spec))⟩] } :=
      later_same rfl (fun _ _ there => there) fun run there => List.mem_append_left _ there
    refine ⟨⟨kept.sound, fun spec' same => later.knows (kept.knows spec' same),
      fun spec' result same ran => ?_⟩, later, rfl,
      fun m member => later.backed (sound.messages m member)⟩
    obtain rfl : spec = spec' := Option.some.inj (told'.symm.trans same)
    obtain rfl := Option.some.inj ran
    exact List.mem_append_right _ (List.mem_singleton_self _)
  | _ =>
    obtain ⟨rfl, fine⟩ := perform_plain rfl performed
    exact ⟨record_plain rfl fine kept, idle, rfl, sound.messages⟩

/-- One call of a slot. -/
structure Turned (setup : Setup δ) (known : Pid → Round) (p : Pid) (agent : PullAgent)
    (f f' : Fleet Pid) (c : Call)
    (r : Except Failure (Reads c)) : Prop where
  performed : ∃ k, perform setup k f.state c = some (r, f'.state)
  may : (careful setup.server.py agent).may (known p) c
  broker : f'.state.broker = f.state.broker
  later : Later f.state f'.state

theorem slot_sound {p : Pid} {k : Chance} (sound : Sound setup told known device f)
    (stepped : step setup f (.slot p k) = some f') : ∃ agent c r, Turned setup known p agent f f' c r ∧
      Sound setup told (Function.update known p ((known p).record setup.server.py c r)) device f' := by
  obtain ⟨c, next, r, task, performed, tasks, -⟩ := Crew.turn_eq stepped
  obtain ⟨agent, named, follows⟩ := sound.slots p _ task
  have kept : (known p).OnRecord f.state agent.device := named ▸ sound.known p
  obtain ⟨learnt, later, broker, messages⟩ := record_onRecord sound kept follows.1 performed
  refine ⟨agent, c, r, ⟨⟨k, performed⟩, follows.1, broker, later⟩, sound_device sound broker later
    ?_ messages ?_⟩
  · intro q s left
    rw [tasks] at left
    by_cases acting : q = p
    · subst acting
      rw [Function.update_self] at left ⊢
      obtain rfl := Option.some.inj left
      exact ⟨agent, named, follows.2 r⟩
    · rw [Function.update_of_ne acting] at left ⊢
      exact sound.slots q s left
  · intro q
    by_cases acting : q = p
    · subst acting
      rw [Function.update_self]
      exact named ▸ learnt
    · rw [Function.update_of_ne acting]
      exact later.onRecord (sound.known q)

/-- What every step keeps, with what is known after it. -/
theorem step_sound {a : Action Pid} (sound : Sound setup told known device f)
    (stepped : step setup f a = some f') :
    ∃ told' known' device', Sound setup told' known' device' f' := by
  cases a with
  | start p agent rounds fuel => exact ⟨_, _, _, start_sound sound stepped⟩
  | slot p k =>
    obtain ⟨agent, c, r, -, sound'⟩ := slot_sound sound stepped
    exact ⟨_, _, _, sound'⟩
  | beat m => exact ⟨_, _, _, beat_sound sound stepped⟩
  | deliver ticket token => exact ⟨_, _, _, deliver_sound sound stepped⟩
  | broker t k =>
    obtain ⟨m, c, r, -, sound'⟩ := broker_sound sound stepped
    exact ⟨_, _, _, sound'⟩
  | other op => exact ⟨_, _, _, other_sound sound stepped⟩
  | archives archives => exact ⟨_, _, _, archives_sound sound stepped⟩

omit [DecidableEq δ] [DecidableEq Pid] in
theorem atRest_sound (archives : ArtifactStore) (setup : Setup δ) :
    Sound setup (fun _ => .nothing) (fun _ => {}) (fun _ => "") (atRest archives : Fleet Pid) where
  threads := fun _ _ task => nomatch task
  unused := Crew.unused_fresh _
  slots := fun _ _ task => nomatch task
  rows := fun _ member => nomatch member
  messages := fun _ member => nomatch member
  told := fun _ => trivial
  known := fun _ => ⟨rfl, nofun, nofun⟩
  answered := fun _ _ member => nomatch member

theorem run_sound {actions : List (Action Pid)} {archives : ArtifactStore}
    (ran : run (step setup) (atRest archives) actions = some f) :
    ∃ told known device, Sound setup told known device f :=
  run_invariant (P := fun f => ∃ told known device, Sound setup told known device f)
    (fun _ _ _ ⟨_, _, _, sound⟩ stepped => step_sound sound stepped)
    ⟨_, _, _, atRest_sound archives setup⟩ ran

/-- In every run, a verdict in the queue is the exit code that the executor of its device returned
for the work the row holds, and a device that was told its report was taken finds it there. -/
theorem verdicts_agree {actions : List (Action Pid)} {archives : ArtifactStore}
    (ran : run (step setup) (atRest archives) actions = some f) :
    (∀ row ∈ f.state.jobs.jobs.rows, ∀ exitCode, row.exitCode = some exitCode →
      ∃ device, row.device = some device ∧ Run.mk device (work row) (some exitCode) ∈ f.state.ran) ∧
    ∀ (ticket : Nat) jobId device exitCode log steps reply answer,
      f.state.sent[ticket]? = some (.report jobId device exitCode log steps) →
      reply ∈ replies (f.state.broker.made ticket) →
      received setup.build reply = .ok answer → ∃ row, f.state.jobs.row? jobId = some row ∧
        row.exitCode = some exitCode ∧
        row.device = some device ∧ row.status = (if exitCode = 0 then .success else .failure) ∧
        Run.mk device (work row) (some exitCode) ∈ f.state.ran := by
  obtain ⟨told, known, device, sound⟩ := run_sound ran
  refine ⟨fun row member => (sound.rows row member).ran, ?_⟩
  intro ticket jobId name exitCode log steps reply answer sent told' heard'
  obtain ⟨m, before, sent', fits, holds⟩ := sound.answered ticket reply (mem_replies told')
  obtain rfl := Option.some.inj (sent.symm.trans sent')
  cases reply with
  | refused status text =>
    have failed : 400 ≤ status := fits
    simp only [received, Device.answer, if_pos failed] at heard'
    cases heard'
  | reported job artifact posted =>
    obtain ⟨verdict, said, rfl⟩ := fits
    obtain rfl := Option.some.inj said
    obtain ⟨row, found, coded, held, settled⟩ := holds
    obtain ⟨other, held', ran'⟩ := (sound.rows row (Queue.Store.row?_some found).1).ran exitCode coded
    obtain rfl := Option.some.inj (held.symm.trans held')
    exact ⟨row, found, coded, held, settled, ran'⟩
  | claimed job => exact absurd fits.1 (by simp [Message.verdict?])
  | recorded | idle | renewed | job | log | stored | archive => cases fits

end Run
/-! ## One job, run and reported -/

def piSetup : Setup String :=
  { server := { Agent.piServer with py := Agent.countConversions }, depot := Agent.plainDepot,
      build := [], float := fun _ => [] }

def piAgent : PullAgent := ⟨"pi", ["fallback"], 300, by decide⟩

def piJob : Queue.EnqueueRequest :=
  { repository := "acme/app", sha := "c0ffee", ref := "main", labels := ["fallback"] }

/-- A device on which everything works, and whose runs pass. -/
def works : (c : Call) → Except Failure (Reads c)
  | .preflight => .ok true
  | .behindBroker | .behindNote => .ok none
  | .setBehindNote _ | .note _ | .startHeartbeat _ | .stopHeartbeat _ | .unlink _ | .wait => .ok ()
  | .post _ | .getsize _ => .ok (0 : Nat)
  | .await _ => .ok (200, [])
  | .lost _ | .stopping => .ok false
  | .execute _ _ => .ok (.code 0)
  | .read _ => .ok []

def turns (n : Nat) : List (Action Unit) := List.replicate n (.slot () { answers := works })

def brokerTurns (thread n : Nat) : List (Action Unit) := List.replicate n (.broker thread {})

def hears : Action Unit := .slot () { answers := works, arrives := some 0 }

/-- A job is enqueued, claimed, executed and reported, and the slot hears that the report was taken. -/
def piRun : List (Action Unit) :=
  [.other (.enqueue piJob "0123456789abcdef0123456789abcdef" 0), .start () piAgent 1 1] ++ turns
    6 ++ [.deliver 0 "pi-secret"] ++
    brokerTurns 0 4 ++ [hears] ++ turns 4 ++ [.deliver 1 "pi-secret"] ++ brokerTurns 1
    8 ++ [hears] ++ turns 1

theorem piRun_agrees : ∃ f, run (step piSetup) (atRest Archive.ArtifactStore.empty) piRun = some f ∧
    ∃ row ∈ f.state.jobs.jobs.rows, row.exitCode = some 0 ∧
      ∃ device, row.device = some device ∧ Run.mk device (work row) (some 0) ∈ f.state.ran := by
  have codes : (run (step piSetup) (atRest Archive.ArtifactStore.empty) piRun).map
      (fun f => f.state.jobs.jobs.rows.map (·.exitCode)) = some [some 0] := by decide +kernel
  obtain ⟨f, ran, rows⟩ := Option.map_eq_some_iff.mp codes
  have coded : some (0 : Int) ∈ f.state.jobs.jobs.rows.map (·.exitCode) := by
    rw [rows]
    exact List.mem_singleton_self _
  obtain ⟨row, member, passed⟩ := List.mem_map.mp coded
  exact ⟨f, ran, row, member, passed, (verdicts_agree ran).1 row member 0 passed⟩

end Cindral.Device

import Cindral.Base.Crew
import Cindral.Base.Run
import Cindral.Check.Summary
import Cindral.Queue.Store
import Cindral.Routing.Policy

/-!
# The check run client

Open one run's check, then keep updating it as the run moves. What GitHub does with a request is a
choice of the environment, and GitHub itself is a store of checks. Of a check's output only whether it
carries annotations is kept.
-/

namespace Cindral.Check
open Base Queue

def defaultCheckName : String := "cindral/ci"
def perPage : Nat := 100
def maxFindPages : Nat := 5

inductive CheckStatus where
  | queued | inProgress | completed
  deriving DecidableEq, Repr

/-- A check as GitHub keeps it, with how many of its requests brought annotations. -/
structure CheckRun where
  number : Nat
  repository : String
  sha : String
  name : String
  externalId : String
  status : CheckStatus
  conclusion : Option Conclusion
  annotations : Nat
  deriving DecidableEq, Repr

structure CheckVerdict where
  state : CommitState
  conclusion : Option Conclusion
  annotated : Bool

/-- `verdict_for`: a run has an annotation once it has a conclusion other than success. -/
def verdictFor (job : Job) : CheckVerdict :=
  let conclusion := conclusionFor job
  ⟨stateFor job, conclusion, conclusion.any (· ≠ .success)⟩

/-- One check run body. -/
structure CheckPayload where
  name : String
  externalId : String
  status : CheckStatus
  conclusion : Option Conclusion
  annotated : Bool
  deriving DecidableEq, Repr

/-- `_payload` of the source. -/
def payloadFor (job : Job) (verdict : CheckVerdict) (name : String) (annotated : Bool) : CheckPayload :=
  match verdict.conclusion with
  | none => ⟨name, job.id, if job.status = .running then .inProgress else .queued, none, annotated⟩
  | some conclusion => ⟨name, job.id, .completed, some conclusion, annotated⟩

@[simp] theorem payloadFor_annotated (job : Job) (verdict : CheckVerdict) (name : String)
    (annotated : Bool) :
    (payloadFor job verdict name annotated).annotated = annotated := by
  unfold payloadFor
  split <;> rfl

/-! ## GitHub -/

structure GitHub where
  checks : List CheckRun
  next : Nat

namespace GitHub

def empty : GitHub := ⟨[], 0⟩

/-- The checks of a commit under one name, the newest first. -/
def listing (g : GitHub) (repository sha name : String) : List CheckRun :=
  g.checks.filter fun c => c.repository = repository && c.sha = sha && c.name = name

def page (g : GitHub) (repository sha name : String) (page : Nat) : List CheckRun :=
  ((g.listing repository sha name).drop (perPage * (page - 1))).take perPage

def create (g : GitHub) (repository sha : String) (payload : CheckPayload) : GitHub :=
  ⟨⟨g.next, repository, sha, payload.name, payload.externalId, payload.status, payload.conclusion,
    if payload.annotated then 1 else 0⟩ :: g.checks, g.next + 1⟩

def has (g : GitHub) (repository : String) (number : Nat) : Bool :=
  g.checks.any fun c => c.repository = repository && c.number = number

/-- The annotations of an update are appended. -/
def edited (payload : CheckPayload) (c : CheckRun) : CheckRun :=
  { c with
    name := payload.name, externalId := payload.externalId, status := payload.status, conclusion :=
    payload.conclusion
    annotations := c.annotations + if payload.annotated then 1 else 0 }

def update (g : GitHub) (repository : String) (number : Nat) (payload : CheckPayload) : GitHub :=
  { g with checks := g.checks.map fun c => if c.repository = repository ∧
      c.number = number then edited payload c else c }

def lose (g : GitHub) (number : Nat) : GitHub :=
  { g with checks := g.checks.filter fun c => c.number ≠ number }

end GitHub

/-! ## The publisher -/

/-- `(repository, job id, check name)`. -/
structure Key where
  repository : String
  job : String
  name : String
  deriving DecidableEq, Repr

/-- The check a job owns and whether it is finished. -/
structure Held where
  number : Nat
  finished : Bool
  deriving DecidableEq, Repr

structure Desk where
  opened : Key → Option Held
  github : GitHub

inductive Call where
  | opened (key : Key)
  | remember (key : Key) (held : Held)
  | forget (key : Key)
  | page (repository sha name : String) (page : Nat)
  | create (repository sha : String) (payload : CheckPayload)
  | update (repository : String) (number : Nat) (payload : CheckPayload)
  deriving DecidableEq, Repr

abbrev Ans : Call → Type
  | .opened _ => Option Held
  | .remember .. | .forget _ => Unit
  | .page .. => List CheckRun
  | .create .. => Nat
  | .update .. => Unit

inductive Raised where
  | valueError (text : String)
  | gitHubAPIError (text : String)
  | checkRunAPIError (statusCode : Option Nat)
  deriving DecidableEq, Repr

abbrev Program := Script Call Ans Raised

def ask (c : Call) : Program (Ans c) := Script.call c

/-- What GitHub does with a request: it answers, refuses, or acts on it without its answer arriving. -/
inductive Answer where
  | accepted
  | refused (statusCode : Option Nat)
  | lost
  deriving DecidableEq, Repr

def Desk.recording (d : Desk) (key : Key) (held : Option Held) : Desk :=
  { d with opened := Function.update d.opened key held }

@[simp] theorem Desk.recording_self (d : Desk) (key : Key) (held : Option Held) :
    (d.recording key held).opened key = held :=
  Function.update_self ..

@[simp] theorem Desk.recording_ne (d : Desk) {key other : Key} (held : Option Held)
    (apart : other ≠ key) :
    (d.recording key held).opened other = d.opened other := Function.update_of_ne apart ..

/-- A request GitHub acts on, whether or not its answer arrives. -/
def Answer.give {α : Type} (answer : Answer) (value : α) (before after : Desk) : Except Raised α × Desk :=
  match answer with
  | .accepted => (.ok value, after)
  | .refused code => (.error (.checkRunAPIError code), before)
  | .lost => (.error (.checkRunAPIError none), after)

def perform (answer : Answer) (d : Desk) : (c : Call) → Option (Except Raised (Ans c) × Desk)
  | .opened key => some (.ok (d.opened key), d)
  | .remember key held => some (.ok (), d.recording key (some held))
  | .forget key => some (.ok (), d.recording key none)
  | .page repository sha name page => some (answer.give (d.github.page repository sha name page) d d)
  | .create repository sha payload =>
    some (answer.give d.github.next d { d with github := d.github.create repository sha payload })
  | .update repository number payload =>
    if d.github.has repository number then
      some (answer.give () d { d with github := d.github.update repository number payload })
    else some ((Answer.refused (some 404)).give () d d)

/-- `find` from one page on. A full page at the cap raises rather than answering with a prefix. -/
def find (repository sha name externalId : String) : (page left : Nat) → Program (Option Held)
  | _, 0 => .fail (.gitHubAPIError
      s!"GitHub returned more than {maxFindPages * perPage} check runs named {name} on {sliceTo sha 7}")
  | page, left + 1 => do
    let runs : List CheckRun ← ask (.page repository sha name page)
    match runs.find? (·.externalId = externalId) with
    | some run => pure (some ⟨run.number, run.status = .completed⟩)
    | none => if runs.length < perPage then pure none else find repository sha name externalId (page + 1) left

def keyOf (job : Job) (name : String) : Key := ⟨job.repository, job.id, name⟩

def held (job : Job) (sha name : String) : Program (Option Held) := do
  let known : Option Held ← ask (.opened (keyOf job name))
  match known with
  | some held => pure (some held)
  | none =>
    match ← find job.repository sha name job.id 1 maxFindPages with
    | some found =>
      ask (.remember (keyOf job name) found)
      pure (some found)
    | none => pure none

structure PublishedCheck where
  checkRunId : Nat
  created : Bool

def write (job : Job) (sha name : String) (held : Option Held) (verdict : CheckVerdict) :
    Program PublishedCheck := do
  let payload := payloadFor job verdict name (verdict.annotated && !held.any (·.finished))
  let published ← match held with
    | none => do
      let number : Nat ← ask (.create job.repository sha payload)
      pure ⟨number, true⟩
    | some held => do
      ask (.update job.repository held.number payload)
      pure ⟨held.number, false⟩
  ask (.remember (keyOf job name) ⟨published.checkRunId, verdict.conclusion.isSome⟩)
  pure published

def publish (job : Job) (name : String) : Program PublishedCheck := do
  if !Routing.isRepositorySlug job.repository then .fail (.valueError "repository must use the owner/name format")
  else
    let sha := headShaFor job.sha job.statusSha
    if sha = "" then .fail (.valueError "a check run requires a commit sha")
    else
      let verdict := verdictFor job
      let opened ← held job sha name
      match opened, verdict.conclusion with
      -- a completed check is the later truth
      | some ⟨number, true⟩, none => pure ⟨number, false⟩
      | _, _ => recover job sha name verdict (write job sha name opened verdict)
where
  /-- A check GitHub no longer has is looked up again, and the write made once more. -/
  recover (job : Job) (sha name : String) (verdict : CheckVerdict) (first : Program PublishedCheck) :
      Program PublishedCheck := do
    match ← first.attempt with
    | .ok published => pure published
    | .error (.checkRunAPIError (some 404)) =>
      ask (.forget (keyOf job name))
      write job sha name (← held job sha name) verdict
    | .error e => .fail e

def publishCheckRunQuietly (job : Job) (name : String) : Program Bool := do
  match ← (publish job name).attempt with
  | .ok _ => pure true
  | .error _ => pure false

/-! ## The broker -/

/-- The publishes of one broker: the queue, whose records they read, and what each thread is
publishing. -/
structure Board where
  queue : Store
  crew : Crew Nat Call Ans Raised Desk
  subject : Nat → Option (Job × String)

inductive Move where
  | queue (op : Store.Op)
  /-- A handler or a drain reads a record to publish it, now or later. -/
  | publish (thread : Nat) (jobId name : String)
  | turn (thread : Nat) (answer : Answer)
  /-- A check that somebody else opens. -/
  | foreign (repository sha : String) (payload : CheckPayload)
  | lose (number : Nat)
  | restart

namespace Board

def start : Board := ⟨Store.empty, Crew.fresh ⟨fun _ => none, GitHub.empty⟩, fun _ => none⟩

def desk (b : Board) : Desk := b.crew.state
def checks (b : Board) : List CheckRun := b.desk.github.checks

def elsewhere (b : Board) (github : GitHub) : Board :=
  { b with crew := { b.crew with state := { b.crew.state with github := github } } }

def step (b : Board) : Move → Option Board
  | .queue op => some { b with queue := b.queue.apply op }
  | .publish thread jobId name =>
    match b.queue.get jobId with
    | none => none
    | some job => (b.crew.spawn thread ((publishCheckRunQuietly job name).bind fun _ =>
        .done ())).map fun crew =>
      { b with crew := crew, subject := Function.update b.subject thread (some (job, name)) }
  | .turn thread answer => (b.crew.turn perform thread answer).map fun crew => { b with crew := crew }
  | .foreign repository sha payload => some (b.elsewhere (b.desk.github.create repository sha payload))
  | .lose number => some (b.elsewhere (b.desk.github.lose number))
  | .restart => some { b with crew := b.crew.stop { b.desk with opened := fun _ => none } }

end Board
end Cindral.Check

import Cindral.Workflow.Calls
import Mathlib.Data.Finset.Card

/-!
# Calls that call one another

A call is followed only to a file that is not yet on its path, so each call has fewer files left to
go to than the one it is in, and no file is expanded inside itself. An expansion returns or refuses
unless it first runs into one of three things: a chain of calls that the interpreter's stack has no
room for, a file whose reading raises what the source does not expect, or a called job with an `env`
that cannot be merged.
-/

namespace Cindral.Workflow
open Base

/-- What comes of a computation, or of one thing it does: it goes on, it refuses, or it raises what
no caller of the expansion takes for a refusal. -/
inductive Fate where
  | goes | refuses | breaks
  deriving DecidableEq, Repr

/-- What comes of doing one thing and then another. -/
def Fate.andThen : Fate → Fate → Fate
  | .goes, next => next
  | fate, _ => fate

def WorkflowError.fate : WorkflowError → Fate
  | .unsupported _ => .refuses
  | .notMapping | .recursion | .raised _ => .breaks

def fateOf {α : Type} : Except WorkflowError α → Fate
  | .ok _ => .goes
  | .error e => e.fate

/-- A computation returns or refuses. -/
def Settled {α : Type} (result : Except WorkflowError α) : Prop := fateOf result ≠ .breaks

section Settled
variable {α β : Type}

theorem settled_ok (a : α) : Settled (.ok a : Except WorkflowError α) := by rintro ⟨⟩

theorem settled_unsupported (message : String) :
    Settled (.error (.unsupported message) : Except WorkflowError α) := by rintro ⟨⟩

theorem Settled.bind {x : Except WorkflowError α} {f : α → Except WorkflowError β} (first : Settled x)
    (next : ∀ a, x = .ok a → Settled (f a)) : Settled (x >>= f) := by
  cases x with
  | error e => exact first
  | ok a => exact next a rfl

theorem Settled.map {x : Except WorkflowError α} {f : α → β} (first : Settled x) : Settled (x.map f) := by
  cases x with
  | error e => exact first
  | ok a => exact settled_ok (f a)

theorem Settled.refuses {x : Except WorkflowError α} (settled : Settled x) {e : WorkflowError}
    (raised : x = .error e) :
    e.fate = .refuses := by
  subst raised
  cases e with
  | unsupported message => rfl
  | notMapping | recursion | raised _ => exact absurd rfl settled

end Settled

/-! ## Reading and inlining end -/

section Reading
variable {inputs : Inputs} {context : String}

theorem settled_substituteText (room : Nat) (cs : List Char) :
    Settled (substituteText inputs context room cs) := by
  induction room generalizing cs with
  | zero => exact settled_ok _
  | succ room ih =>
    cases cs with
    | nil => exact settled_ok _
    | cons c rest =>
      unfold substituteText
      split
      · split
        · exact (ih _).map
        · exact settled_unsupported _
      · exact (ih _).map

theorem settled_substituteString (text : String) : Settled (substituteString inputs context text) :=
  (settled_substituteText _ _).map

mutual

theorem settled_substituteInputs (value : Json) : Settled (substituteInputs inputs context value) := by
  cases value with
  | str text => exact (settled_substituteString text).map
  | arr items => exact (settled_substituteItems items).map
  | obj fields => exact (settled_substituteFields fields).map
  | _ => exact settled_ok _

theorem settled_substituteItems (items : List Json) : Settled (substituteItems inputs context items) := by
  cases items with
  | nil => exact settled_ok _
  | cons item rest => exact (settled_substituteInputs item).bind fun _ _ =>
      (settled_substituteItems rest).bind fun _ _ => settled_ok _

theorem settled_substituteFields (fields : List (String × Json)) :
    Settled (substituteFields inputs context fields) := by
  cases fields with
  | nil => exact settled_ok _
  | cons field rest =>
    obtain ⟨key, value⟩ := field
    exact (settled_substituteInputs value).bind fun _ _ => (settled_substituteFields rest).bind
      fun _ _ => settled_ok _

end

variable {Path : Type} {tree : Tree Path}

variable [DecidableEq Path]

/-- Reading the file raises what the source does not expect. -/
def Tree.spoiled (tree : Tree Path) (path : Path) : Bool :=
  match tree.files.lookup path with
  | some (.error (.other _)) => true
  | _ => false

end Reading

section Inlining
variable {Path : Type} [DecidableEq Path] {tree : Tree Path} {callerInputs : Option Inputs}

end Inlining

/-! ## The recursion -/

section Recursion
variable {Path : Type} [DecidableEq Path] {repository : Repository Path Inputs} {seen : List Path}

variable {tree : Tree Path} {callerInputs : Option Inputs}
    {deeper deeper' : Fields → List Path → Except WorkflowError Fields}

/-- The files of the tree that are not on the path. -/
def left (tree : Tree Path) (seen : List Path) : Finset Path :=
  (tree.files.map Prod.fst).toFinset \ seen.toFinset

end Recursion

/-! ## No file inside itself -/

section Watched
variable {Path : Type} [DecidableEq Path]

end Watched

/-! ## What an expansion runs into -/

section Fates
variable {Path : Type} [DecidableEq Path] (tree : Tree Path)

def mergeable (env : Json) : Bool := !env.truthy || env.isObj

/-- What a caller sees of a job: nothing where it is no mapping, and else whether its `env` can be
merged. -/
def shapeOf : Json → Option Bool
  | .obj fields => some (mergeable ((Json.obj fields).get "env"))
  | _ => none

abbrev Shapes := List (String × Option Bool)

inductive Lead (Path : Type) where
  | refused
  | spoiled
  | to (path : Path) (jobs : Fields)

def lead (seen : List Path) (jobId called : String) (rawJob : Json) : Lead Path :=
  match calledPath tree.repository jobId called seen, refuseUnmapped jobId rawJob with
  | .ok path, .ok () =>
    if tree.spoiled path then .spoiled
    else match readCall tree path called jobId (rawJob.get "with") with
      | .ok (jobs, _) => .to path jobs
      | .error _ => .refused
  | _, _ => .refused

/-- The mappings of a called workflow, under the calling job's id. Each has had its `env` merged. -/
def inlineShapes (jobId : String) (shapes inner : Shapes) : Shapes :=
  inner.foldl (fun shapes job =>
    if job.2.isSome then setField s!"{jobId}/{job.1}" (some true) shapes else shapes) shapes

def leadShapes (inner : Path → Fields → Shapes) (jobId : String) (shapes : Shapes) : Lead Path → Shapes
  | .to path jobs => inlineShapes jobId shapes (inner path jobs)
  | _ => shapes

/-- The jobs that an expansion leaves when nothing stops it. -/
def shapes : Nat → Fields → List Path → Shapes
  | 0, _, _ => []
  | room + 1, rawJobs, seen => rawJobs.foldl (fun found job =>
      match uses job.2 with
      | some called => leadShapes (fun path jobs => shapes room jobs (path :: seen)) job.1 found
          (lead tree seen job.1 called job.2)
      | none => setField job.1 (shapeOf job.2) found) []

/-- What merging the jobs of a called workflow into its caller runs into, one after another. -/
def inlineFates (jobId : String) (rawJob : Json) (callerInputs : Option Inputs) (inner : Shapes) :
    List Fate :=
  inner.flatMap fun job => match job.2 with
    | some merges =>
      [if merges then .goes else .breaks,
        if (callerGuard tree.repository jobId rawJob callerInputs).isOk then .goes else .refuses]
    | none => []

def leadFates (inner : Path → Fields → List Fate) : Lead Path → List Fate
  | .refused => [.refuses]
  | .spoiled => [.breaks]
  | .to path jobs => inner path jobs

/-- What the expansion runs into, one after another: what a call leads to, then what the workflow
that it leads to runs into, then the merging of that workflow's jobs. -/
def fates : Nat → Fields → List Path → Option Inputs → List Fate
  | 0, _, _, _ => [.breaks]
  | room + 1, rawJobs, seen, callerInputs => rawJobs.flatMap fun job =>
    match uses job.2 with
    | some called =>
      leadFates (fun path jobs => fates room jobs (path :: seen) none ++
        inlineFates tree job.1 job.2 callerInputs (shapes tree room jobs (path :: seen)))
        (lead tree seen job.1 called job.2)
    | none => []

/-- The first of them that stops it. -/
def firstFate (fates : List Fate) : Fate := fates.foldr Fate.andThen .goes

end Fates

section Runs
variable {α : Type} {a b : List Fate}

@[simp] theorem firstFate_nil : firstFate [] = .goes := rfl
end Runs

section Foretelling
variable {Path : Type} [DecidableEq Path] {tree : Tree Path} {seen : List Path}
    {callerInputs : Option Inputs}

/-- A call as the source follows it, for whatever comes next. -/
def following (tree : Tree Path) (seen : List Path) (jobId called : String) (rawJob : Json)
    (next : Path → Fields × List (String × String) → Except WorkflowError Fields) :
    Except WorkflowError Fields := do
  let path ← calledPath tree.repository jobId called seen
  refuseUnmapped jobId rawJob
  let read ← readCall tree path called jobId (rawJob.get "with")
  next path read

end Foretelling

end Cindral.Workflow

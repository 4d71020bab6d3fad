import Cindral.Base.Double
import Cindral.Base.Outcome
import Cindral.Workflow.Condition
import Cindral.Workflow.Triggers

/-!
# The context of a run

A queued job is read as the event GitHub would have run it for, and what its workflow reads of that
event comes from the queue's record. A refusal is a `ContextError`, by its text.
-/

namespace Cindral.Workflow
open Base

structure JobSpec where
  id : String
  repository : String
  sha : String
  ref : String
  command : List String := []
  timeout : Int := 3600

def containerRepo : String := "/workspace/repo"

def eventNameFor (job : JobSpec) : String := if isPullRef job.ref then "pull_request" else "push"

def qualifiedRef (ref : String) : String :=
  if hasPrefix ref "refs/" then ref
  else if hasPrefix ref "pull/" then "refs/pull/" ++ removePrefix ref "pull/"
  else "refs/heads/" ++ ref

/-- The digits before the first slash of a pull request's ref. -/
def pullNumber (ref : String) : Except String Int :=
  let number := (removePrefix (qualifiedRef ref) "refs/pull/").toList
  let digits := number.takeWhile isDecimal
  if digits ≠ [] ∧ (number.drop digits.length).head? = some '/' then
    .ok (Nat.ofDigitChars 10 (digits.map Double.toAscii) 0)
  else .error s!"ref '{ref}' carries no pull request number to read"

/-- The text before the first separator and the text after it. -/
def partition (text : String) (separator : Char) : String × String :=
  (.ofList (text.toList.takeWhile (· ≠ separator)),
  .ofList ((text.toList.dropWhile (· ≠ separator)).drop 1))

def createEventPayload (job : JobSpec) : Except String (List (String × Json)) :=
  let (owner, name) := partition job.repository '/'
  let payload : List (String × Json) :=
    [("repository", .obj [("full_name", .str job.repository),
        ("name", .str (if name = "" then job.repository else name)),
        ("owner", .obj [("login", .str owner)])]),
      ("ref", .str (qualifiedRef job.ref)), ("sha", .str job.sha)]
  if isPullRef job.ref then
    (pullNumber job.ref).map fun number => payload ++
      [("number", .int number),
      ("pull_request", .obj [("number", .int number), ("head", .obj [("sha", .str job.sha)])])]
  else .ok (payload ++ [("after", .str job.sha)])

/-- The short name of a ref, and its kind. -/
def refParts (ref : String) : String × String :=
  if hasPrefix ref "refs/tags/" then (removePrefix ref "refs/tags/", "tag")
  else if hasPrefix ref "refs/pull/" then (removePrefix ref "refs/pull/", "branch")
  else if hasPrefix ref "refs/heads/" then (removePrefix ref "refs/heads/", "branch")
  else (removePrefix ref "refs/", "branch")

/-- What one queued run resolves. -/
structure Event where
  name : String
  fields : List (String × Json)
  env : List (String × String) := []
  workflow : String := ""
  jobId : String := ""

def lookup (event : Json) (path : String) : Json :=
  (path.toList.splitOn '.').foldl (fun value part => value.get (.ofList part)) event

/-- The payload holds no other scalar. -/
def scalar : Json → Option String
  | .bool value => some (if value then "true" else "false")
  | .int value => some (toString value)
  | .str value => some value
  | _ => none

def nonempty (text : String) : Option String := if text = "" then none else some text

def textOf (value : Json) : String := value.asStr?.getD ""

/-- `_github`, in which an empty field is one the run does not carry. -/
def Event.github (event : Event) (path : String) : Option String :=
  let payload := Json.obj event.fields
  let ref := textOf (payload.get "ref")
  let fields : List (String × String) :=
    [("github.event_name", event.name), ("github.job", event.jobId), ("github.ref", ref),
      ("github.ref_name", (refParts ref).1), ("github.ref_type", (refParts ref).2),
      ("github.workspace", containerRepo),
      ("github.repository", textOf ((payload.get "repository").get "full_name")),
      ("github.repository_owner", textOf (((payload.get "repository").get "owner").get "login")),
      ("github.sha", textOf (payload.get "sha")), ("github.workflow", event.workflow)]
  (fields.lookup path).bind nonempty

def Event.value (event : Event) (path : String) : Option String :=
  if hasPrefix path "github.event." then scalar
    (lookup (.obj event.fields) (removePrefix path "github.event."))
  else if hasPrefix path "github." then event.github path
  else if hasPrefix path "env." then (event.env.lookup (removePrefix path "env.")).bind nonempty
  else none

/-- `PATH.fullmatch`, of ASCII words between dots, the first of which starts with no digit. -/
def isContextPath (path : String) : Bool :=
  match path.toList.splitOn '.' with
  | (c :: word) :: rest =>
    (isWord c && !c.isDigit) && word.all isWord && rest.all fun word => word ≠ [] && word.all isWord
  | _ => false

/-- The text up to the next `}}`, and the text after that. -/
def untilClose : List Char → Option (List Char × List Char)
  | '}' :: '}' :: rest => some ([], rest)
  | c :: rest => (untilClose rest).map fun (inside, after) => (c :: inside, after)
  | [] => none

section Expansion
variable (event : Event) (label : String)

def expression (inside : List Char) : Except String (List Char) :=
  let path := String.ofList (stripChars inside)
  if !isContextPath path then .error s!"{label} reads expression '{path}', which this run cannot evaluate"
  else match event.value path with
    | some value => .ok value.toList
    | none => .error s!"{label} reads context '{path}' that this run does not carry"

/-- A turn reads one character or one expression. -/
def expandFrom : Nat → List Char → Except String (List Char)
  | turns + 1, c :: rest =>
    if ['$', '{', '{'].isPrefixOf (c :: rest) then
      match untilClose (rest.drop 2) with
      | some (inside, after) => do
        let value ← expression event label inside
        let expanded ← expandFrom turns after
        .ok (value ++ expanded)
      | none => (expandFrom turns rest).map (c :: ·)
    else (expandFrom turns rest).map (c :: ·)
  | _, _ => .ok []

def Event.expand (text : String) : Except String String :=
  (expandFrom event label text.length text.toList).map String.ofList

end Expansion

def Event.expandEnv (event : Event) (env : List (String × String)) (label : String) :
    Except String (List (String × String)) :=
  env.mapM fun (name, value) => (event.expand s!"{label} env '{name}'" value).map (name, ·)

/-- `run_context`, which resolves the environment of a job before it has one. -/
def runContext (job : JobSpec) (workflow jobId : String) (env : List (String × String)) :
    Except String Event := do
  let fields ← createEventPayload job
  let declared : Event := { name := eventNameFor job, fields, workflow, jobId }
  let env ← declared.expandEnv env s!"job '{jobId}'"
  .ok { declared with env }

end Cindral.Workflow

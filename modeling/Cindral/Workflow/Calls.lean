import Cindral.Base.Outcome
import Cindral.Workflow.Expansion
import Cindral.Workflow.Inputs

/-!
# Reading a called workflow

The jobs of a called workflow, with the values of the call where they read its inputs: the text of a
value in general, and the expression it stands for in a guard.
-/

namespace Cindral.Workflow
open Base

/-- A workflow file as YAML reads it. A bare `on:` key is the boolean `True` there, which is no text. -/
structure Document where
  data : Json
  onTrue : Json := .null

/-- What reading a file raises: an `OSError`, a `UnicodeError` or a `YAMLError`, which the source
names in its refusal, or anything else. -/
inductive Unread where
  | expected (reason : String)
  | other (text : String)
  deriving DecidableEq, Repr

/-- The files of a repository, and what the code asks of the file system and of Python: the file
that a name stands for, whether it is inside, `str` of what is no text, `repr` of a text, and how
many expansions the interpreter's stack has room for inside one another. -/
structure Tree (Path : Type) where
  files : List (Path × Except Unread Document)
  resolve : String → Except String Path
  inside : Path → Bool
  str : Json → String
  repr : String → String
  room : Nat

/-- The value of each input, the one that was set last first. -/
abbrev Inputs := List (String × String)

/-! ## Inputs in a text -/

def inputName : List Char → Option (List Char × List Char)
  | c :: rest =>
    if isWord c && !c.isDigit then some (c :: rest.takeWhile isField, rest.dropWhile isField) else none
  | [] => none

def afterQuote : List Char → Option (List Char)
  | c :: rest => if c = '\'' ∨ c = '"' then some rest else none
  | [] => none

def inputReference : List Char → Option (List Char × List Char)
  | '.' :: cs => inputName cs
  | '[' :: cs => do
    let (name, cs) ← inputName (← afterQuote (cs.dropWhile isSpace))
    let cs ← afterPrefix? "]" ((← afterQuote cs).dropWhile isSpace)
    some (name, cs)
  | _ => none

/-- A match of `_INPUT` at the start of a text: the input it names, and the text after it. -/
def inputAt (cs : List Char) : Option (String × List Char) := do
  let cs ← afterPrefix? "$\x7b\x7b" cs
  let cs ← afterPrefix? "inputs" (cs.dropWhile isSpace)
  let (name, cs) ← inputReference cs
  let cs ← afterPrefix? "\x7d\x7d" (cs.dropWhile isSpace)
  some (.ofList name, cs)

section Substitution
variable (inputs : Inputs) (context : String)

/-- A turn reads one character or one input. -/
def substituteText : Nat → List Char → Except WorkflowError (List Char)
  | turns + 1, c :: rest =>
    match inputAt (c :: rest) with
    | some (name, after) =>
      match inputs.lookup name with
      | some value => (substituteText turns after).map (value.toList ++ ·)
      | none => .error (.unsupported s!"{context} reads input '{name}', which the caller does not pass")
    | none => (substituteText turns rest).map (c :: ·)
  | _, _ => .ok []

def substituteString (text : String) : Except WorkflowError String :=
  (substituteText inputs context text.length text.toList).map String.ofList

mutual

def substituteInputs : Json → Except WorkflowError Json
  | .str text => (substituteString inputs context text).map Json.str
  | .arr items => (substituteItems items).map Json.arr
  | .obj fields => (substituteFields fields).map Json.obj
  | value => .ok value

def substituteItems : List Json → Except WorkflowError (List Json)
  | [] => .ok []
  | item :: rest => do
    let item ← substituteInputs item
    let rest ← substituteItems rest
    .ok (item :: rest)

def substituteFields : List (String × Json) → Except WorkflowError (List (String × Json))
  | [] => .ok []
  | (key, value) :: rest => do
    let value ← substituteInputs value
    let rest ← substituteFields rest
    .ok ((key, value) :: rest)

end

end Substitution

/-! ## `_read_call` -/

def Document.on (document : Document) : Json :=
  if (document.data.get "on").truthy then document.data.get "on"
  else if document.onTrue.truthy then document.onTrue
  else .obj []

section Calls
variable {Path : Type} (tree : Tree Path)

def Tree.text (value : Json) : String := value.asStr?.getD (tree.str value)

/-- `_call_inputs`: the inputs with a default, by their names, with their types. -/
def callInputs (onSpec : Json) : List (String × Option String × String) :=
  match (onSpec.get "workflow_call").get "inputs" with
  | .obj inputs => inputs.filterMap fun (name, spec) =>
    if hasKey "default" spec then some (name, (spec.get "type").asStr?,
      tree.text (spec.get "default")) else none
  | _ => []

def guardValue (kind : Option String) (value : String) : Except WorkflowError String :=
  (asExpression kind value).mapError fun
    | .notNumber default => .unsupported
        s!"input default {tree.repr default} is declared a number and is not one"

def guardInputs : List (String × Option String × String) → Except WorkflowError Inputs
  | [] => .ok []
  | (name, kind, value) :: rest => do
    let expression ← guardValue tree kind value
    let rest ← guardInputs rest
    .ok ((name, expression) :: rest)

/-- The values a call passes, each on top of what the workflow declares. -/
def overrideInputs (declared : List (String × Option String × String)) (guards : Inputs) :
    List (String × String) → Except WorkflowError Inputs
  | [] => .ok guards
  | (name, value) :: rest => do
    let kind := (declared.lookup name).bind Prod.fst
    let expression ← guardValue tree kind value
    overrideInputs declared ((name, expression) :: guards) rest

def substituteGuard (guards : Inputs) (context : String) (job : Json) : Except WorkflowError Json :=
  match job, job.get "if" with
  | .obj fields, .str guard => (substituteString guards context guard).map fun guard =>
      .obj (setField "if" (.str guard) fields)
  | job, _ => .ok job

/-- A called job, its guard first: the general pass would put the plain text there. -/
def substituteJob (values guards : Inputs) (context : String) (job : Json) :
    Except WorkflowError Json := do
  let job ← substituteGuard guards context job
  substituteInputs values context job

def substituteJobs (values guards : Inputs) (context : String) : Fields → Except WorkflowError Fields
  | [] => .ok []
  | (key, job) :: rest => do
    let job ← substituteJob values guards context job
    let rest ← substituteJobs values guards context rest
    .ok ((key, job) :: rest)

/-- The texts of a mapping, which is empty for anything else. -/
def stringValues (value : Json) : List (String × String) :=
  match value with
  | .obj fields => fields.map fun (key, value) => (key, tree.text value)
  | _ => []

variable [DecidableEq Path]

def readCall (path : Path) (called jobId : String) (withInputs : Json) :
    Except WorkflowError (Fields × List (String × String)) :=
  match tree.files.lookup path with
  | none => .error (.unsupported s!"job '{jobId}' calls '{called}', which cannot be read: no such file")
  | some (.error (.expected reason)) =>
    .error (.unsupported s!"job '{jobId}' calls '{called}', which cannot be read: {reason}")
  | some (.error (.other text)) => .error (.raised text)
  | some (.ok document) =>
    match document.data.get "jobs" with
    | .obj calledJobs => do
      let declared := callInputs tree document.on
      let overrides := stringValues tree withInputs
      let guards ← overrideInputs tree declared (← guardInputs tree declared) overrides
      let values := overrides.reverse ++ declared.map fun (name, _, value) => (name, value)
      let jobs ← substituteJobs values guards s!"job '{jobId}' calls '{called}'" calledJobs
      .ok (jobs, stringValues tree (document.data.get "env"))
    | _ => .error (.unsupported s!"job '{jobId}' calls '{called}', which defines no jobs")

/-- What the expansion asks for, as the source answers it. -/
def Tree.repository : Repository Path Inputs where
  resolve := tree.resolve
  inside := tree.inside
  readCall := readCall tree
  substitute guard inputs context := substituteString inputs context guard

end Calls
end Cindral.Workflow

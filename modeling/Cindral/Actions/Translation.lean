import Cindral.Actions.Act
import Cindral.Actions.Toolchain
import Cindral.Workflow.Reading
import Mathlib.Data.List.ReduceOption

/-!
# The translation of a workflow job

A job whose steps are commands, checkouts and installs is translated into the commands that run it,
and any other job is left to the engine. What the commands are follows from the job alone, and
nothing the job reads is missing.
-/

namespace Cindral.Actions
open Cindral.Base Cindral.Workflow

/-! ## The image -/

def defaultRunnerImage : String := "ubuntu:24.04"

def imageMap : List (String × String) :=
  [("ubuntu-latest", "ubuntu:24.04"), ("ubuntu-24.04", "ubuntu:24.04"),
  ("ubuntu-22.04", "ubuntu:22.04"), ("ubuntu-20.04", "ubuntu:20.04")]

/-- `HOSTED_LABEL_SHAPE`. Without regard to case an `i` may be dotless or keep its dot, and an `s`
may be long. -/
def hostedLabelShape (label : String) : Bool :=
  let folded (c : Char) : Char := if c = 'İ' || c = 'ı' then 'i' else if c = 'ſ' then 's' else lowerChar c
  let line := if hasSuffix label "\n" then label.toList.dropLast else label.toList
  ["ubuntu-", "windows-", "macos-"].any fun system =>
    (afterPrefix? system (line.map folded)).any fun version =>
      version = "latest".toList || version.head?.any Char.isDigit && version.all fun c =>
        c.isDigit || c = '.'

/-- `runner_image`. A label that names a platform without an image is refused before any other label
is read. -/
def runnerImage (job : WorkflowJob) : Except String String :=
  match job.runsOn.find? fun label => hostedLabelShape label &&
    (imageMap.lookup (lower label)).isNone with
  | some label => .error <| s!"job '{job.id}' asks for '{label}', which this build has no image for;" ++
      " the device pool runs linux/amd64 and linux/arm64 only"
  | none => .ok ((job.runsOn.findSome? fun label => imageMap.lookup (lower label)).getD
      defaultRunnerImage)

/-! ## Steps -/

/-- `step.get(key) is not None` -/
def given (step : Fields) (key : String) : Bool :=
  match getOr step key .null with
  | .null => false
  | _ => true

/-- `condition in (True, "true", None)` -/
def alwaysTrue : Json → Bool
  | .null => true
  | .bool value => value
  | .int value => value = 1
  | .float value => value = 1
  | .str value => value = "true"
  | _ => false

/-- `value in (None, False, "false")` -/
def alwaysFalse : Json → Bool
  | .null => true
  | .bool value => !value
  | .int value => value = 0
  | .float value => value = 0
  | .str value => value = "false"
  | _ => false

def stepLabel (job : WorkflowJob) (index : Nat) : String := s!"job '{job.id}' step {index}"

/-- The step strings that the engine evaluates, each with the name it was read under. -/
def stepValues (step : Fields) : List (String × String) :=
  (["run", "if", "uses", "working-directory", "shell"].filterMap fun key =>
    (getOr step key .null).asStr?.map (key, ·)) ++
    ["with", "env"].flatMap fun key => match getOr step key .null with
      | .obj fields => fields.filterMap fun (name, item) => item.asStr?.map (s!"{key}.{name}", ·)
      | _ => []

def expander (event : Event) (label text name : String) : Except Stop String :=
  let place := s!"{label} 'with.{name}'"
  (do event.requireResolvable place text; event.expand place text : Except String String).mapError
  .context

section
variable (python : Python) (files : Files) (event : Event)

def isCheckout (step : Fields) : Bool :=
  given step "uses" && (python.text (getOr step "uses" .null)).toList.takeWhile (· ≠ '@') =
  "actions/checkout".toList

def checkoutInputs (step : Fields) : List String :=
  if isCheckout python step then (sortedItems (inputsOf step)).map Prod.fst else []

/-- What stops the translation of the action that a step uses. -/
def actionBlocker (label : String) (step : Fields) : Except Stop (Option String) :=
  if !given step "uses" || isCheckout python step then .ok none
  else if isSetupAction python step then
    match toolchainFor python files (expander event label) step with
    | .ok _ => .ok none
    | .error (.unsupported message) => .ok (some message)
    | .error stop => .error stop
  else
    let uses := getOr step "uses" .null
    .ok (some s!"unsupported action '{strip (python.text uses)}'")

def stepBlocker (label : String) (step : Fields) : Except Stop (Option String) :=
  if !alwaysTrue (getOr step "if" .null) then .ok (some "unsupported 'if' condition")
  else if given step "working-directory" then .ok (some "unsupported 'working-directory'")
  else if given step "shell" then .ok (some "step 'shell'")
  else if !alwaysFalse (getOr step "continue-on-error" .null) || given step "timeout-minutes" then
    .ok (some "step failure or timeout settings")
  else (actionBlocker python files event label step).map fun blocker => blocker.orElse fun _ =>
    match getOr step "env" .null with
    | .obj (_ :: _) => some "step 'env'"
    | _ => if !given step "uses" && !given step "run" then some "neither 'run' nor 'uses'" else none

/-- The command of a step, if it has one. -/
def stepCommand (label : String) (step : Fields) : Except Stop (List String) :=
  match step.lookup "run" with
  | none => .ok []
  | some run =>
    let command := strip (python.text run)
    if command = "" then .ok [] else ((event.expand s!"{label} 'run'" command).mapError
      .context).map fun expanded => [expanded]

/-- What `workflow_to_contract` appends for a step that nothing blocks. -/
def stepRuns (label : String) (step : Fields) : Except Stop (List String) := do
  match ← toolchainFor python files (expander event label) step with
  | some commands => .ok commands
  | none => stepCommand python event label step

def translateStep (label : String) (step : Fields) : Except Stop (List String) := do
  match ← stepBlocker python files event label step with
  | some blocker => unsupported s!"{label} is not translatable natively: {blocker} (requires act engine)"
  | none => stepRuns python files event label step

def workflowToContract (job : WorkflowJob) : Except Stop Contract := do
  let parts ← (job.steps.zipIdx 1).mapM fun (step, index) => translateStep python files event
    (stepLabel job index) step
  if parts.flatten = [] then .error (.invalid s!"job '{job.id}' has no executable steps")
  else do
    let image ← (runnerImage job).mapError .unsupported
    .ok { steps := parts.flatten, image := some image, env := event.env, services := job.services,
          timeoutMinutes := job.timeoutMinutes,
          labels := job.runsOn.filter fun label => lower (strip label) ≠ "self-hosted" }

def namedBlocker (label : String) (step : Fields) : Except Stop (Option String) :=
  (stepBlocker python files event label step).map fun blocker => blocker.map fun reason =>
  s!"{label}: {reason}"

def nativeBlockers (job : WorkflowJob) : Except Stop (List String) := do
  let found ← (job.steps.zipIdx 1).mapM fun (step, index) => namedBlocker python files event
    (stepLabel job index) step
  .ok found.reduceOption

/-! ## The translation -/

/-- What a step's text may read. -/
def checkValue (native : Bool) (label key text : String) : Except Stop Unit :=
  let place := s!"{label} '{key}'"
  (if key = "if" then event.requireExpression place text.toList
    else if native then (event.expand place text).map fun _ => ()
    else event.requireResolvable place text).mapError .context

def checkStep (native : Bool) (label : String) (step : Fields) : Except Stop Unit :=
  match checkoutInputs python step with
  | name :: _ => unsupported s!"{label} sets checkout input '{name}', which Cindral does not apply"
  | [] => (stepValues step).forM fun (key, text) => checkValue event native label key text

/-- The job that act is given, every label of which maps to the one image. -/
def engineJob (job : JobSpec) (workflow : Workflow) (workflowJob : WorkflowJob) (image : String)
    (blockers : List String) : ActJob :=
  { workflowPath := ".github/workflows/" ++ workflow.path, workflowName := workflow.path,
      jobId := workflowJob.id, eventName := event.name,
    event := .obj event.fields, reason := "; ".intercalate blockers, platforms :=
    workflowJob.runsOn.eraseDups.map fun label => (label, image),
    steps := workflowJob.steps, env := workflowJob.env, network :=
    some (jobNetwork job.id), timeoutMinutes := workflowJob.timeoutMinutes }

variable (float : ℚ → List Char)

/-- A job that act cannot place either says so with what kept it from a translation. -/
def engineContract (job : JobSpec) (workflow : Workflow) (workflowJob : WorkflowJob)
    (blockers : List String) : Except Stop Contract :=
  match runnerImage workflowJob with
  | .error message => unsupported ("; ".intercalate (message :: blockers))
  | .ok image => .ok (actContract python float (engineJob event job workflow workflowJob image blockers))

def translateJob (job : JobSpec) (workflow : Workflow) (workflowJob : WorkflowJob) :
    Except Stop Contract := do
  let blockers ← nativeBlockers python files event workflowJob
  let native := blockers.isEmpty
  let services ← (resolveServices event workflowJob.services native).mapError .context
  (workflowJob.steps.zipIdx 1).forM fun (step, index) => checkStep python event native (stepLabel workflowJob index) step
  if native then workflowToContract python files event { workflowJob with services }
  else engineContract python event float job workflow workflowJob blockers

end

def Stop.refusal : Stop → Refusal
  | .unsupported message => .unsupported message
  | .context message => .unsupported message
  | .invalid message => .invalid message

/-- The rest of `resolve_workflow_contract`, once the job has a context. -/
def translation (python : Python) (files : Files) (float : ℚ → List Char) (job : JobSpec)
    (workflow : Workflow) (workflowJob : WorkflowJob)
    (event : Event) : Except Refusal Contract :=
  (translateJob python files event float job workflow workflowJob).mapError Stop.refusal

/-! ## What a translation runs -/

/-- Nothing of a step says how or whether it runs, and what it uses is known. -/
structure Plain (python : Python) (step : Fields) : Prop where
  unconditional : alwaysTrue (getOr step "if" .null) = true
  settings : ∀ key ∈ ["working-directory", "shell", "timeout-minutes"], given step key = false
  failing : alwaysFalse (getOr step "continue-on-error" .null) = true
  env : ∀ field fields, getOr step "env" .null ≠ .obj (field :: fields)
  known : given step "uses" = true → isCheckout python step = true ∨ isSetupAction python step = true
  asks : given step "uses" = true ∨ given step "run" = true

/-- What a step asks a shell to run. -/
inductive Asks (python : Python) (files : Files) (event : Event) (step : Fields) : List String → Prop
  | install {commands : List String}
      (installs : Installs python files (fun text value => Filled event text.toList value.toList)
      step commands) :
      Asks python files event step commands
  | run {command : Json} {expanded : String} (named : step.lookup "run" = some command)
      (words : strip (python.text command) ≠ "")
      (filled : Filled event (strip (python.text command)).toList expanded.toList) :
      Asks python files event step [expanded]
  | blank {command : Json} (named : step.lookup "run" = some command)
      (bare : strip (python.text command) = "") :
      Asks python files event step []
  | checkout (unnamed : step.lookup "run" = none) (checkout : isCheckout python step = true) :
      Asks python files event step []

/-- What the job reads is there. -/
structure Complete (python : Python) (event : Event) (job : WorkflowJob) : Prop where
  conditions : ∀ step ∈ job.steps, ∀ text, ("if", text) ∈ stepValues step → event.Supplies text.toList
  values : ∀ step ∈ job.steps, ∀ value ∈ stepValues step, value.1 ≠ "if" → event.Carries value.2
  services : ∀ service ∈ job.services, ServiceCarried event service
  checkouts : ∀ step ∈ job.steps, checkoutInputs python step = []

/-- The contract runs the steps of the job and nothing else. -/
structure Native (python : Python) (files : Files) (event : Event) (job : WorkflowJob)
    (contract : Contract) : Prop where
  plain : ∀ step ∈ job.steps, Plain python step
  steps : ∃ parts, List.Forall₂ (Asks python files event) job.steps parts ∧ contract.steps = parts.flatten
  runs : contract.steps ≠ []
  services : List.Forall₂ (ServiceFilled event) job.services contract.services
  image : ∃ image, runnerImage job = .ok image ∧ contract.image = some image ∧ contract.dockerfile = none
  rest : contract.env = event.env ∧ contract.timeoutMinutes = job.timeoutMinutes ∧ contract.docker = false
  labels : ∀ label ∈ job.runsOn, label ∈ contract.labels ∨ lower (strip label) = "self-hosted"

/-- The contract is the engine's, for the reason of every step that kept the job from a translation. -/
structure Engine (python : Python) (files : Files) (float : ℚ → List Char) (event : Event)
    (job : JobSpec) (workflow : Workflow)
    (workflowJob : WorkflowJob) (contract : Contract) (blockers : List String) : Prop where
  blocked : blockers ≠ []
  named : ∀ step index reason, (step, index) ∈ workflowJob.steps.zipIdx 1 →
    stepBlocker python files event (stepLabel workflowJob index) step = .ok (some reason) →
      s!"{stepLabel workflowJob index}: {reason}" ∈ blockers
  runs : ∃ image, runnerImage workflowJob = .ok image ∧
    contract = actContract python float (engineJob event job workflow workflowJob image blockers)

section
variable {python : Python} {files : Files} {event : Event} {label : String} {step : Fields}

theorem actionBlocker_none (h : actionBlocker python files event label step = .ok none)
    (uses : given step "uses" = true) :
    isCheckout python step = true ∨ isSetupAction python step = true := by
  unfold actionBlocker at h
  split at h
  · rename_i free
    rw [uses] at free
    exact .inl free
  · split at h
    · rename_i setup
      exact .inr setup
    · cases h

theorem orElse_eq_none {α : Type} {o : Option α} {f : Unit → Option α} (h : o.orElse f = none) :
    o = none ∧ f () = none := by
  cases o with
  | none => exact ⟨rfl, h⟩
  | some _ => cases h

theorem stepBlocker_none (h : stepBlocker python files event label step = .ok none) :
    Plain python step := by
  unfold stepBlocker at h
  split at h
  · cases h
  rename_i conditional
  split at h
  · cases h
  rename_i directory
  split at h
  · cases h
  rename_i shell
  split at h
  · cases h
  rename_i settings
  rw [Bool.or_eq_true, not_or] at settings
  obtain ⟨blocker, acts, h⟩ := map_ok h
  obtain ⟨rfl, bare⟩ := orElse_eq_none h
  have env : ∀ field fields, getOr step "env" .null ≠ .obj (field :: fields) := by
    intro field fields same
    rw [same] at bare
    cases bare
  have asks : given step "uses" = true ∨ given step "run" = true := by
    by_contra nothing
    rw [not_or, Bool.not_eq_true, Bool.not_eq_true] at nothing
    split at bare
    · cases bare
    · rw [nothing.1, nothing.2] at bare
      cases bare
  refine ⟨by simpa using conditional, ?_, by simpa using settings.1, env, actionBlocker_none acts, asks⟩
  simp only [List.mem_cons, List.not_mem_nil, or_false]
  rintro key (rfl | rfl | rfl)
  · exact Bool.eq_false_of_not_eq_true directory
  · exact Bool.eq_false_of_not_eq_true shell
  · exact Bool.eq_false_of_not_eq_true settings.2

theorem given_of_lookup_none {key : String} (h : step.lookup key = none) : given step key = false := by
  have missing : step.find? (fun field => field.1 = key) = none := by
    rw [List.find?_eq_none]
    intro field member same
    exact absurd (List.lookup_eq_none_iff.mp h field member)
      (by simpa using (of_decide_eq_true same).symm)
  simp only [given, getOr, missing, Option.map_none, Option.getD_none]

theorem expander_filled {text name value : String} (h : expander event label text name = .ok value) :
    Filled event text.toList value.toList := by
  obtain ⟨_, -, expands⟩ := bind_ok (mapError_ok h)
  exact expand_iff.mp expands

theorem stepCommand_asks {commands : List String} (plain : Plain python step)
    (other : isSetupAction python step = false)
    (h : stepCommand python event label step = .ok commands) : Asks python files event step commands := by
  unfold stepCommand at h
  split at h
  · rename_i unnamed
    obtain rfl := Except.ok.inj h
    refine .checkout unnamed ?_
    rcases plain.asks with uses | run
    · rcases plain.known uses with checkout | setup
      · exact checkout
      · rw [other] at setup
        cases setup
    · rw [given_of_lookup_none unnamed] at run
      cases run
  · rename_i command named
    dsimp only at h
    split at h
    · rename_i bare
      obtain rfl := Except.ok.inj h
      exact .blank named bare
    · rename_i words
      obtain ⟨expanded, expands, rfl⟩ := map_ok h
      exact .run named words (expand_iff.mp (mapError_ok expands))

theorem translateStep_asks {commands : List String}
    (h : translateStep python files event label step = .ok commands) :
    Plain python step ∧ Asks python files event step commands := by
  obtain ⟨blocker, free, h⟩ := bind_ok h
  cases blocker with
  | some _ => cases h
  | none =>
    have plain := stepBlocker_none free
    refine ⟨plain, ?_⟩
    obtain ⟨install, installed, h⟩ := bind_ok h
    cases install with
    | some _ =>
      obtain rfl := Except.ok.inj h
      exact .install (toolchainFor_installs (fun _ _ _ => expander_filled) installed)
    | none => exact stepCommand_asks plain (toolchainFor_isSome installed) h

/-- A step of each place is one of the steps. -/
theorem forall₂_steps {α : Type} {r : Fields → α → Prop} {steps : List Fields} {n : Nat} {parts : List α}
    (h : List.Forall₂ (fun place => r place.1) (steps.zipIdx n) parts) : List.Forall₂ r steps parts := by
  have mapped : List.Forall₂ r ((steps.zipIdx n).map Prod.fst) parts := List.forall₂_map_left_iff.mpr h
  rwa [List.zipIdx_map_fst] at mapped

theorem workflowToContract_native {job : WorkflowJob} {contract : Contract} {services : List Service}
    (filled : List.Forall₂ (ServiceFilled event) job.services services)
    (h : workflowToContract python files event { job with services } = .ok contract) :
    Native python files event job contract := by
  obtain ⟨parts, translated, h⟩ := bind_ok h
  split at h
  · cases h
  rename_i runs
  obtain ⟨image, imaged, h⟩ := bind_ok h
  obtain rfl := Except.ok.inj h
  have each := forall₂_steps (r := fun step commands => Plain python step ∧
    Asks python files event step commands)
    ((mapM_ok_iff.mp translated).imp fun _ _ one => translateStep_asks one)
  obtain ⟨plain, asks⟩ := (List.forall₂_and_left _ _).mp each
  refine ⟨plain, ⟨parts, asks, rfl⟩, runs, filled, ⟨image, mapError_ok imaged, rfl, rfl⟩,
    ⟨rfl, rfl, rfl⟩, fun label member => ?_⟩
  by_cases hosted : lower (strip label) = "self-hosted"
  · exact .inr hosted
  · exact .inl (List.mem_filter.mpr ⟨member, decide_eq_true hosted⟩)

theorem resolveServices_ok {services resolved : List Service} {native : Bool}
    (h : resolveServices event services native = .ok resolved) :
    (∀ service ∈ services, ServiceCarried event service) ∧
    (native = true → List.Forall₂ (ServiceFilled event) services resolved) := by
  cases native with
  | true =>
    have both := (mapM_ok_iff.mp h).imp fun _ _ one => And.symm (expandService_ok one)
    obtain ⟨carried, filled⟩ := (List.forall₂_and_left _ _).mp both
    exact ⟨carried, fun _ => filled⟩
  | false =>
    have each : List.Forall₂ (fun service _ => ServiceCarried event service ∧ True) services resolved :=
      (mapM_ok_iff.mp h).imp fun _ _ one => ⟨checkService_ok one, trivial⟩
    exact ⟨((List.forall₂_and_left _ _).mp each).1, fun impossible => by cases impossible⟩

theorem checkStep_ok {native : Bool} {u : Unit} (h : checkStep python event native label step = .ok u) :
    checkoutInputs python step = [] ∧
      (∀ text, ("if", text) ∈ stepValues step → event.Supplies text.toList) ∧
      ∀ value ∈ stepValues step, value.1 ≠ "if" → event.Carries value.2 := by
  unfold checkStep at h
  split at h
  · cases h
  rename_i bare
  have each := forM_ok h
  refine ⟨bare, fun text member => requireExpression_ok (mapError_ok (each ("if", text) member)),
    fun value member other => ?_⟩
  have checked := mapError_ok (each value member)
  rw [if_neg other] at checked
  split at checked
  · obtain ⟨expanded, expands, -⟩ := map_ok checked
    exact expand_carries expands
  · exact requireResolvable_ok checked

theorem nativeBlockers_named {job : WorkflowJob} {blockers : List String}
    (h : nativeBlockers python files event job = .ok blockers)
    {index : Nat} {reason : String} (place : (step, index) ∈ job.steps.zipIdx 1)
    (blocked : stepBlocker python files event (stepLabel job index) step = .ok (some reason)) :
    s!"{stepLabel job index}: {reason}" ∈ blockers := by
  obtain ⟨found, each, h⟩ := bind_ok h
  obtain rfl := Except.ok.inj h
  obtain ⟨blocker, member, same⟩ := mapM_ok_of_mem each place
  obtain ⟨blocker', blocks, rfl⟩ := map_ok same
  obtain rfl := Except.ok.inj (blocks.symm.trans blocked)
  exact List.reduceOption_mem_iff.mpr member

theorem engineContract_engine {float : ℚ → List Char} {job : JobSpec} {workflow : Workflow}
    {workflowJob : WorkflowJob} {contract : Contract}
    {blockers : List String} (h : engineContract python event float job workflow workflowJob
    blockers = .ok contract) :
    ∃ image, runnerImage workflowJob = .ok image ∧
      contract = actContract python float (engineJob event job workflow workflowJob image blockers) := by
  unfold engineContract at h
  split at h
  · cases h
  · rename_i image imaged
    exact ⟨image, imaged, (Except.ok.inj h).symm⟩

end

/-- A job that is translated finds all that it reads. Either its contract runs the commands of its
steps, in their order and with nothing left out, or the engine runs it, told of every step that kept
it from a translation. -/
theorem translation_faithful {python : Python} {files : Files} {float : ℚ → List Char}
    {job : JobSpec} {workflow : Workflow}
    {workflowJob : WorkflowJob} {event : Event} {contract : Contract}
    (h : translation python files float job workflow workflowJob event = .ok contract) :
    Complete python event workflowJob ∧
      (Native python files event workflowJob contract ∨ ∃ blockers, Engine python files float event
      job workflow workflowJob contract blockers) := by
  obtain ⟨blockers, blocking, h⟩ := bind_ok (mapError_ok h)
  obtain ⟨services, resolved, h⟩ := bind_ok h
  obtain ⟨⟨⟩, checked, h⟩ := bind_ok h
  obtain ⟨carried, filled⟩ := resolveServices_ok (mapError_ok resolved)
  have each : ∀ step ∈ workflowJob.steps, checkoutInputs python step = [] ∧
      (∀ text, ("if", text) ∈ stepValues step → event.Supplies text.toList) ∧
        ∀ value ∈ stepValues step, value.1 ≠ "if" → event.Carries value.2 := by
    intro step member
    rw [← List.zipIdx_map_fst 1 workflowJob.steps] at member
    obtain ⟨place, inside, rfl⟩ := List.mem_map.mp member
    exact checkStep_ok (forM_ok checked place inside)
  refine ⟨⟨fun step member => (each step member).2.1, fun step member => (each step member).2.2,
      carried, fun step member =>
    (each step member).1⟩, ?_⟩
  split at h
  · rename_i native
    exact .inl (workflowToContract_native (filled native) h)
  · rename_i other
    refine .inr ⟨blockers, fun none_ => other (by rw [none_]; rfl), fun step index reason =>
      nativeBlockers_named blocking, ?_⟩
    exact engineContract_engine h

def translated (repo : Checkout) (python : Python) (files : Files) (float : ℚ → List Char) : Checkout :=
  { repo with translation := translation python files float }

/-- What a run resolves to finds all that it reads, and runs the job that was resolved: step by
step, or under the engine. -/
theorem resolveWorkflowContract_faithful {repo : Checkout} {python : Python} {files : Files}
    {float : ℚ → List Char} {job : JobSpec}
    {workflow : Workflow} {workflowJob : WorkflowJob} {contract : Contract}
    (h : resolveWorkflowContract python (translated repo python files float) job = .ok
    (workflow, workflowJob, contract)) :
    workflowJob.unmapped = [] ∧ ∃ event, runContext job workflow.name workflowJob.id
      workflowJob.env = .ok event ∧
      EnvFilled { event with env := [] } workflowJob.env event.env ∧ Complete python event workflowJob ∧
        (Native python files event workflowJob contract ∨
          ∃ blockers, Engine python files float event job workflow workflowJob contract blockers) := by
  obtain ⟨⟨found, foundJob⟩, -, h⟩ := bind_ok h
  obtain ⟨answer, resolved, h⟩ := bind_ok h
  obtain ⟨rfl, rfl, rfl⟩ : found = workflow ∧ foundJob = workflowJob ∧ answer = contract := by
    simpa using Except.ok.inj h
  unfold translate at resolved
  split at resolved
  · cases resolved
  rename_i mapped
  split at resolved
  · cases resolved
  rename_i event context
  exact ⟨mapped, event, context, runContext_env context, translation_faithful (mapError_ok resolved)⟩

def asciiPython : Python :=
  { casefold := lower, isAlnum := Char.isAlphanum, repr := fun text => text, str := fun _ => "" }

def echoJob : WorkflowJob :=
  { id := "test", name := "test"
    steps := [[("uses", .str "actions/checkout@v4")],
      [("uses", .str "actions/setup-go@v5"), ("with", .obj [("go-version", .str "1.24.1")])],
      [("run", .str "echo $\x7b\x7b github.sha \x7d\x7d")]] }

def echoWorkflow : Workflow := ⟨"ci.yml", "ci", .str "push", [("test", echoJob)]⟩

def echoCheckout : Checkout :=
  { workflowFiles := [⟨"ci.yml", .ok echoWorkflow⟩], contractFile := none, lockfiles := {},
      translation := fun _ _ _ _ => .error (.other "") }

def echoed : Checkout := translated echoCheckout asciiPython ⟨fun _ => .error "", none⟩ fun _ => []

def echoRun : JobSpec := ⟨"j", "owner/app", "c0ffee", "main", [], 60⟩

theorem resolveWorkflowContract_faithful_echo : ∃ workflow workflowJob contract,
    resolveWorkflowContract asciiPython echoed echoRun = .ok (workflow, workflowJob, contract) ∧
      contract.steps = goCommands "1.24.1" ++ ["echo c0ffee"] ∧ workflowJob.unmapped = [] ∧
      ∃ event, runContext echoRun workflow.name workflowJob.id workflowJob.env = .ok event ∧
        EnvFilled { event with env := [] } workflowJob.env event.env ∧ Complete asciiPython event
          workflowJob ∧
          (Native asciiPython ⟨fun _ => .error "", none⟩ event workflowJob contract ∨
            ∃ blockers, Engine asciiPython ⟨fun _ => .error "", none⟩ (fun _ => []) event echoRun
            workflow workflowJob contract blockers) := by
  have answers : (resolveWorkflowContract asciiPython echoed echoRun).toOption.map
      (fun found => found.2.2.steps) =
      some (goCommands "1.24.1" ++ ["echo c0ffee"]) := by decide +kernel
  cases resolved : resolveWorkflowContract asciiPython echoed echoRun with
  | error e =>
    rw [resolved] at answers
    cases answers
  | ok found =>
    obtain ⟨workflow, workflowJob, contract⟩ := found
    rw [resolved] at answers
    exact ⟨workflow, workflowJob, contract, rfl, Option.some.inj answers,
      resolveWorkflowContract_faithful resolved⟩

end Cindral.Actions

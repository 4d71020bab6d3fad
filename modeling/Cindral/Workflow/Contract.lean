import Cindral.Base.Json
import Cindral.Base.Outcome
import Cindral.Base.Text

/-!
# Contracts

What a job runs, as a repository commits it in `.cindral/ci.toml` and as its lockfiles stand for it.
A refusal is a `ContractError`, by its text.
-/

namespace Cindral.Workflow
open Base

def contractPath : String := ".cindral/ci.toml"

structure Service where
  name : String
  image : String
  env : List (String × String) := []
  command : List String := []
  healthCmd : Option String := none
  deriving DecidableEq, Repr

structure Contract where
  steps : List String
  image : Option String := none
  dockerfile : Option String := none
  env : List (String × String) := []
  services : List Service := []
  timeoutMinutes : Option Int := none
  docker : Bool := false
  contractOnly : Bool := false
  labels : List String := []
  deriving DecidableEq, Repr

/-! ## The committed contract -/

/-- `_optional_str`, of the fields of a table. -/
def optionalStr (table : List (String × Json)) (key label : String) : Except String (Option String) :=
  let refused := Except.error s!"{label}.{key} must be a non-empty string"
  match getOr table key .null with
  | .null => .ok none
  | .str value => if strip value = "" then refused else .ok (some (strip value))
  | _ => refused

/-- `_relative_path`, by the parts `PurePosixPath` has. -/
def relativePath (value label : String) : Except String String :=
  let parts := (value.toList.splitOn '/').filter fun part => part ≠ [] ∧ part ≠ ['.']
  if hasPrefix value "/" || parts.contains ['.', '.'] then .error
    s!"{label} must be a relative path inside the repository"
  else if parts = [] then .ok "." else .ok ("/".intercalate (parts.map String.ofList))

/-- Lowercase is what the message asks for, and not what is checked. -/
def isAlias (isAlnum : Char → Bool) (name : String) : Bool :=
  name ≠ "" && name.length ≤ 63 && name.toList.all (fun c => isAlnum c || c ∈ ['-', '_', '.']) &&
  name.toList.head?.any isAlnum

/-- The fields of a mapping whose values are texts. -/
def stringFields (label : String) : List (String × Json) → Except String (List (String × String))
  | [] => .ok []
  | (key, .str item) :: rest => (stringFields label rest).map ((key, item) :: ·)
  | (key, _) :: _ => .error s!"{label}.{key} must be a string"

def stringMap (value : Json) (label : String) : Except String (List (String × String)) :=
  match value with
  | .obj fields => stringFields label fields
  | _ => .error s!"{label} must be a table of strings"

/-- A section of the file, which is empty when it is not there. -/
def tableSection (data : List (String × Json)) (key label : String) :
    Except String (List (String × Json)) :=
  match getOr data key (.obj []) with
  | .obj fields => .ok fields
  | _ => .error s!"{label} must be a table"

def flag (table : List (String × Json)) (key label : String) : Except String Bool :=
  match getOr table key (.bool false) with
  | .bool value => .ok value
  | _ => .error s!"{label}.{key} must be a boolean"

def stepCommands : Nat → List Json → Except String (List String)
  | _, [] => .ok []
  | index, entry :: rest =>
    match entry, entry.get "run" with
    | .obj _, .str run =>
      if strip run = "" then .error s!"steps[{index}].run must not be empty"
      else (stepCommands (index + 1) rest).map (strip run :: ·)
    | _, _ => .error s!"steps[{index}] must be a table with a string run"

def contractSteps (data : List (String × Json)) : Except String (List String) :=
  match getOr data "steps" (.arr []) with
  | .arr (entry :: rest) => stepCommands 0 (entry :: rest)
  | _ => .error "define at least one [[steps]] entry"

section Services
variable (isAlnum : Char → Bool)

def serviceName (index : Nat) (value : Json) : Except String String :=
  let refused := Except.error s!"services[{index}].name must be a lowercase docker alias"
  match value with
  | .str name => if isAlias isAlnum name then .ok name else refused
  | _ => refused

def serviceImage (index : Nat) (value : Json) : Except String String :=
  let refused := Except.error s!"services[{index}].image must be a non-empty string"
  match value with
  | .str image => if strip image = "" then refused else .ok (strip image)
  | _ => refused

def serviceCommand (index : Nat) (value : Json) : Except String (List String) :=
  let refused := Except.error s!"services[{index}].command must be a list of strings"
  match value with
  | .arr items => match items.mapM Json.asStr? with
    | some command => .ok command
    | none => refused
  | _ => refused

def serviceCheck (index : Nat) (value : Json) : Except String (Option String) :=
  let refused := Except.error s!"services[{index}].health_cmd must be a non-empty string"
  match value with
  | .null => .ok none
  | .str check => if strip check = "" then refused else .ok (some (strip check))
  | _ => refused

def contractService (index : Nat) : Json → Except String Service
  | .obj fields => do
    let name ← serviceName isAlnum index (getOr fields "name" .null)
    let image ← serviceImage index (getOr fields "image" .null)
    let env ← stringMap (getOr fields "env" (.obj [])) s!"services[{index}].env"
    let command ← serviceCommand index (getOr fields "command" (.arr []))
    let healthCmd ← serviceCheck index (getOr fields "health_cmd" .null)
    .ok { name, image, env, command, healthCmd }
  | _ => .error s!"services[{index}] must be a table"

def contractServices (data : List (String × Json)) : Except String (List Service) :=
  match getOr data "services" (.arr []) with
  | .arr entries => entries.zipIdx.mapM fun (entry, index) => contractService isAlnum index entry
  | _ => .error "[[services]] must be an array of tables"

end Services

def contractTimeout (data : List (String × Json)) : Except String (Option Int) :=
  match getOr data "timeout_minutes" .null with
  | .null => .ok none
  | .int timeout => if timeout ≤ 0 then .error "timeout_minutes must be a positive integer" else .ok
      (some timeout)
  | _ => .error "timeout_minutes must be a positive integer"

def oneImage (image dockerfile : Option String) : Except String Unit :=
  if image.isSome = dockerfile.isSome then .error
    "[image] must set exactly one of ref or dockerfile" else .ok ()

def checkedDockerfile : Option String → Except String (Option String)
  | none => .ok none
  | some dockerfile => (relativePath dockerfile "[image].dockerfile").map some

def tomlTable : Except String Json → Except String (List (String × Json))
  | .error reason => .error s!"{contractPath} is not valid TOML: {reason}"
  | .ok (.obj data) => .ok data
  | .ok _ => .error s!"{contractPath} must be a TOML table"

/-- `Contract.parse`, of a file that reads as TOML or of what its reader said of it. -/
def Contract.parse (isAlnum : Char → Bool) (loaded : Except String Json) : Except String Contract := do
  let data ← tomlTable loaded
  let imageTable ← tableSection data "image" "[image]"
  let image ← optionalStr imageTable "ref" "[image]"
  let dockerfile ← optionalStr imageTable "dockerfile" "[image]"
  oneImage image dockerfile
  let dockerfile ← checkedDockerfile dockerfile
  let steps ← contractSteps data
  let env ← stringMap (getOr data "env" (.obj [])) "[env]"
  let runner ← tableSection data "runner" "[runner]"
  let docker ← flag runner "docker" "[runner]"
  let ci ← tableSection data "ci" "[ci]"
  let contractOnly ← flag ci "contract_only" "[ci]"
  let services ← contractServices isAlnum data
  let timeoutMinutes ← contractTimeout data
  .ok { steps, image, dockerfile, env, services, timeoutMinutes, docker, contractOnly }

/-! ### What is accepted -/

structure Service.WellFormed (isAlnum : Char → Bool) (service : Service) : Prop where
  aliased : isAlias isAlnum service.name = true
  image : service.image ≠ ""
  healthCmd : service.healthCmd ≠ some ""

structure Contract.WellFormed (isAlnum : Char → Bool) (contract : Contract) : Prop where
  runs : contract.steps ≠ []
  commands : "" ∉ contract.steps
  oneImage : contract.image.isSome ≠ contract.dockerfile.isSome
  services : ∀ service ∈ contract.services, service.WellFormed isAlnum
  timeout : ∀ timeout, contract.timeoutMinutes = some timeout → 0 < timeout

section Accepted
variable {isAlnum : Char → Bool} {data : List (String × Json)}

theorem stepCommands_ok {index : Nat} {entries : List Json} {commands : List String}
    (h : stepCommands index entries = .ok commands) :
    commands.length = entries.length ∧ "" ∉ commands := by
  induction entries generalizing index commands with
  | nil =>
    obtain rfl := Except.ok.inj h
    exact ⟨rfl, List.not_mem_nil⟩
  | cons entry rest ih =>
    unfold stepCommands at h
    split at h
    · split at h
      · cases h
      · rename_i run _ _ filled
        obtain ⟨later, commanded, same⟩ := map_ok h
        obtain ⟨length, none⟩ := ih commanded
        subst same
        refine ⟨congrArg (· + 1) length, fun member => ?_⟩
        rcases List.mem_cons.mp member with empty | member
        · exact filled empty.symm
        · exact none member
    · cases h

theorem contractSteps_ok {commands : List String} (h : contractSteps data = .ok commands) :
    commands ≠ [] ∧ "" ∉ commands := by
  unfold contractSteps at h
  split at h
  · obtain ⟨length, none⟩ := stepCommands_ok h
    refine ⟨fun empty => ?_, none⟩
    rw [empty] at length
    cases length
  · cases h

theorem contractService_ok {index : Nat} {entry : Json} {service : Service}
    (h : contractService isAlnum index entry = .ok service) : service.WellFormed isAlnum := by
  unfold contractService at h
  split at h
  · obtain ⟨name, named, h⟩ := bind_ok h
    obtain ⟨image, imaged, h⟩ := bind_ok h
    obtain ⟨env, -, h⟩ := bind_ok h
    obtain ⟨command, -, h⟩ := bind_ok h
    obtain ⟨check, checked, h⟩ := bind_ok h
    obtain rfl := Except.ok.inj h
    refine ⟨?_, ?_, ?_⟩
    · unfold serviceName at named
      split at named
      · split at named
        · rename_i aliased
          obtain rfl := Except.ok.inj named
          exact aliased
        · cases named
      · cases named
    · unfold serviceImage at imaged
      split at imaged
      · split at imaged
        · cases imaged
        · rename_i filled
          obtain rfl := Except.ok.inj imaged
          exact filled
      · cases imaged
    · unfold serviceCheck at checked
      split at checked
      · obtain rfl := Except.ok.inj checked
        simp
      · split at checked
        · cases checked
        · rename_i filled
          obtain rfl := Except.ok.inj checked
          exact fun same => filled (Option.some.inj same)
      · cases checked
  · cases h

theorem contractServices_ok {services : List Service} (h : contractServices isAlnum data = .ok services) :
    ∀ service ∈ services, service.WellFormed isAlnum := by
  unfold contractServices at h
  split at h
  · intro service member
    obtain ⟨entry, -, read⟩ := mem_of_mapM_ok h member
    exact contractService_ok read
  · cases h

theorem contractTimeout_ok {found : Option Int} (h : contractTimeout data = .ok found) :
    ∀ timeout, found = some timeout → 0 < timeout := by
  unfold contractTimeout at h
  split at h
  · obtain rfl := Except.ok.inj h
    rintro timeout ⟨⟩
  · split at h
    · cases h
    · rename_i positive
      obtain rfl := Except.ok.inj h
      rintro timeout ⟨⟩
      omega
  · cases h

theorem checkedDockerfile_ok {dockerfile checked : Option String}
    (h : checkedDockerfile dockerfile = .ok checked) :
    checked.isSome = dockerfile.isSome := by
  cases dockerfile with
  | none =>
    obtain rfl := Except.ok.inj h
    rfl
  | some dockerfile =>
    obtain ⟨path, -, rfl⟩ := map_ok h
    rfl

/-- A contract that was read says what to run and in which image. -/
theorem Contract.parse_wellFormed {loaded : Except String Json} {contract : Contract}
    (h : Contract.parse isAlnum loaded = .ok contract) : contract.WellFormed isAlnum := by
  obtain ⟨data, -, h⟩ := bind_ok h
  obtain ⟨table, -, h⟩ := bind_ok h
  obtain ⟨image, -, h⟩ := bind_ok h
  obtain ⟨dockerfile, -, h⟩ := bind_ok h
  obtain ⟨⟨⟩, one, h⟩ := bind_ok h
  obtain ⟨checked, same, h⟩ := bind_ok h
  obtain ⟨steps, ran, h⟩ := bind_ok h
  obtain ⟨env, -, h⟩ := bind_ok h
  obtain ⟨runner, -, h⟩ := bind_ok h
  obtain ⟨docker, -, h⟩ := bind_ok h
  obtain ⟨ci, -, h⟩ := bind_ok h
  obtain ⟨only, -, h⟩ := bind_ok h
  obtain ⟨services, served, h⟩ := bind_ok h
  obtain ⟨timeout, timed, h⟩ := bind_ok h
  obtain rfl := Except.ok.inj h
  refine ⟨(contractSteps_ok ran).1, (contractSteps_ok ran).2, ?_, contractServices_ok served,
    contractTimeout_ok timed⟩
  rw [checkedDockerfile_ok same]
  unfold Workflow.oneImage at one
  split at one
  · cases one
  · assumption

end Accepted

/-- `_contract_declares_itself_ci`, of a file that is there. -/
def contractDeclaresItselfCi (loaded : Except String Json) : Bool :=
  match loaded with
  | .ok data =>
    match (data.get "ci").get "contract_only" with
    | .bool true => true
    | _ => false
  | .error _ => false

/-! ## The contract of the lockfiles -/

/-- The files `infer_contract` looks for. No `packageJson` is one that is not there or does not read
as JSON. -/
structure Lockfiles where
  pnpmLock : Bool := false
  uvLock : Bool := false
  packageJson : Option Json := none
  pyproject : Bool := false
  checkScript : Bool := false

def hasCiScript (manifest : Json) : Bool :=
  match (manifest.get "scripts").get "ci" with
  | .str script => strip script ≠ ""
  | _ => false

def inferContract (files : Lockfiles) : Except String Contract :=
  if files.pnpmLock ∧ files.uvLock then
    .error "both pnpm-lock.yaml and uv.lock exist; commit .cindral/ci.toml to choose CI commands"
  else if files.pnpmLock then
    match files.packageJson with
    | none => .error "pnpm-lock.yaml needs a readable package.json with a ci script"
    | some manifest =>
      if hasCiScript manifest then
        .ok { image := "node:22-bookworm", steps := ["corepack enable && pnpm install --frozen-lockfile", "pnpm run ci"] }
      else .error
      "pnpm-lock.yaml needs a package.json ci script; commit .cindral/ci.toml for other commands"
  else if files.uvLock then
    if !files.pyproject then .error
      "uv.lock needs pyproject.toml; commit .cindral/ci.toml for other commands"
    else if files.checkScript then
      .ok { image := "ghcr.io/astral-sh/uv:python3.12-bookworm", steps := ["uv sync --frozen", "uv run python scripts/check.py"] }
    else .error "uv.lock needs scripts/check.py; commit .cindral/ci.toml for other commands"
  else
    .error "no CI definition found; commit .cindral/ci.toml, a matching .github/workflows file, or a supported lockfile and CI script"

end Cindral.Workflow

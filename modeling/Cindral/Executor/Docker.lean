import Cindral.Actions.Discovery
import Cindral.Archive.Pack
import Cindral.Base.Cleanup
import Cindral.Device.Report
import Cindral.Workflow.Context
import Cindral.Workflow.Contract

/-!
# The executor of a device

`DockerExecutor` as the calls it makes on git, on docker, on the clock and on the files of a run.
What a process exits with and what any other call answers is the environment's, so a run may be
killed or refused anywhere.
-/

namespace Cindral.Executor
open Base Script
open Actions (hostedLabelShape overlay)
open Device (ExecutionResult resultFor runScript)
open Workflow (Contract JobSpec Service containerRepo)

/-- The classes of the exceptions that the executor tells apart. -/
inductive Kind where
  | executorError | contractError | cacheArchiveError | valueError | permissionError | osError | keyError
  | cacheClientError | httpException | tarError | eofError
  | other (type : String)
  deriving DecidableEq

structure Raised where
  kind : Kind
  text : String
  deriving DecidableEq

def executorError (text : String) : Raised := ⟨.executorError, text⟩

namespace Kind

def isOsError : Kind → Bool
  | osError | permissionError => true
  | _ => false

def isValueError : Kind → Bool
  | valueError | contractError | cacheArchiveError => true
  | _ => false

/-- The failures of one cache that the other caches do without. -/
def skipped (kind : Kind) : Bool :=
  kind.isOsError || kind.isValueError ||
  [cacheClientError, httpException, tarError, eofError].contains kind

end Kind

/-- `JobLimits`, with `cpus` as the quota it comes to. -/
structure JobLimits where
  cpuQuota : Option Int := none
  memory : Option String := none
  diskWrite : Option Int := none
  diskRead : Option Int := none

namespace JobLimits
variable (limits : JobLimits)

def capped : Bool := limits.cpuQuota.isSome || limits.memory.isSome || limits.diskWrite.isSome ||
    limits.diskRead.isSome

def budget : List (String × String) :=
  (limits.cpuQuota.elim [] fun quota => [("cpu-period", "100000"), ("cpu-quota", toString quota)]) ++
    limits.memory.elim [] fun memory => [("memory", memory), ("memory-swap", memory)]

def flags (values : List (String × String)) : List String :=
  values.flatMap fun (key, value) => ["--" ++ key, value]

def runArgs : List String :=
  flags (limits.budget ++ (limits.diskWrite.elim [] fun rate => [("device-write-bps", toString rate)]) ++
    limits.diskRead.elim [] fun rate => [("device-read-bps", toString rate)])

def buildArgs (resource : Bool) : List String :=
  if resource then limits.budget.flatMap fun (key, value) =>
    ["--resource", key ++ "=" ++ value] else flags limits.budget

def buildDiskNote : Option String :=
  if limits.diskWrite = none ∧ limits.diskRead = none then none
  else
    let sides := ", ".intercalate ((if limits.diskWrite.isSome then ["write"] else []) ++
      if limits.diskRead.isSome then ["read"] else [])
    some (s!"cindral: warning: the disk {sides} cap does not reach the build container:" ++
      " docker build has no block-I/O resource flag, so it applies to the job container and to nothing before it")

end JobLimits

inductive BuildStyle where
  | resource | legacy | none
  deriving DecidableEq

/-- What Python's `repr` makes of a list of labels and of an exception. -/
structure Shown where
  labels : List String → String
  raised : Raised → String

structure DockerExecutor where
  token : String := ""
  workspaceRoot : String := "/var/lib/cindral/work"
  logs : Bool := false
  docker : String := "docker"
  git : String := "git"
  githubBase : String := "https://github.com"
  shell : String := "sh"
  cleanup : Bool := true
  cacheClient : Bool := false
  limits : JobLimits := {}
  deviceLabels : List String := []
  owner : Nat × Nat := (0, 0)
  shown : Shown

inductive Command where
  | init
  | remote (url : String)
  | fetch (name : String)
  | fetchRef (name : String)
  | checkout (sha : String)
  | inspect (image : String)
  | pull (image : String)
  | build (caps : List String) (tag dockerfile : String)
  | networkCreate (network : String)
  | service (network name : String) (service : Service)
  | job (network image : String) (spec : JobSpec) (mounts : List String) (cache : Bool)
      (env : List (String × String))
  | rm (name : String)
  | networkRm (network : String)
  | readable (path image : String)
  | sweep (image : String)

inductive Call where
  | token
  | openLog
  | closeLog
  | write (text : String)
  | readLog
  | appendLog (text : String)
  | makeRoot
  | clearWorkspace
  | makeWorkspace
  | makeRepo
  | removeWorkspace
  | workspaceExists
  | run (command : Command)
  | knownStyle
  | buildHelp
  | setStyle (style : BuildStyle)
  | resolveContract
  | isFile (path : String)
  | dockerMounts
  | writeScript (text : String)
  | startTimer (seconds : Int)
  | stopTimer
  | cancelled
  | inspectHealth (name : String)
  | monotonic
  | sleep
  | detectPlans
  | cacheDirectory (plan : String)
  | restoreCache (plan : String)
  | archiveCache (plan : String)
  | uploadCache (plan : String)
  | artifactDirectory
  | packArchive
  | unlinkArchive
  | archiveSize

/-- What the run needs of a cache plan: its name, its path, and the variables that point to it. -/
structure CachePlan where
  name : String
  path : String
  environment : List (String × String) := []

abbrev Ans : Call → Type
  | .token | .readLog | .buildHelp => String
  | .run _ => Int
  | .knownStyle => Option BuildStyle
  | .resolveContract => List String × Except Raised Contract
  | .workspaceExists | .isFile _ | .cancelled | .archiveCache _ | .uploadCache _ |
      .artifactDirectory => Bool
  | .dockerMounts => List String
  | .inspectHealth _ => Int × String
  | .monotonic => ℚ
  | .detectPlans => List CachePlan
  | .restoreCache _ => Option String
  | .packArchive | .archiveSize => Nat
  | .openLog | .closeLog | .write _ | .appendLog _ | .makeRoot | .clearWorkspace | .makeWorkspace |
      .makeRepo | .removeWorkspace
  | .setStyle _ | .writeScript _ | .startTimer _ | .stopTimer | .sleep | .cacheDirectory _ |
      .unlinkArchive => Unit

abbrev Exec (α : Type) := Script Call Ans Raised α

def ask (c : Call) : Exec (Ans c) := .call c
def raise {α : Type} (e : Raised) : Exec α := .fail e

section
variable (x : DockerExecutor) (spec : JobSpec)

def DockerExecutor.advertised : List String := x.deviceLabels.map fun label => lower (strip label)

/-- The labels of a contract that name hardware the device does not have. -/
def DockerExecutor.missing (contract : Contract) : List String :=
  contract.labels.filter fun label => !hostedLabelShape label && !x.advertised.contains
  (lower (strip label))

def workspace : String := x.workspaceRoot ++ "/" ++ spec.id
def repo : String := workspace x spec ++ "/repo"
def network : String := s!"cindral-{spec.id}"
def serviceName (service : Service) : String := s!"{network spec}-{service.name}"
def jobName : String := s!"{network spec}-job"

def envArgs (env : List (String × String)) : List String :=
  env.flatMap fun (key, value) => ["-e", s!"{key}={value}"]

def argv : Command → List String
  | .init => [x.git, "init", "-q", repo x spec]
  | .remote url => [x.git, "-C", repo x spec, "remote", "add", "origin", url]
  | .fetch name => [x.git, "-C", repo x spec, "fetch", "--depth", "1", "origin", name]
  | .fetchRef name => [x.git, "-C", repo x spec, "fetch", "origin", name]
  | .checkout sha => [x.git, "-C", repo x spec, "checkout", "--detach", sha]
  | .inspect image => [x.docker, "image", "inspect", image]
  | .pull image => [x.docker, "pull", image]
  | .build caps tag dockerfile =>
    [x.docker, "build"] ++ caps ++ ["-t", tag, "-f", repo x spec ++ "/" ++ dockerfile, repo x spec]
  | .networkCreate network => [x.docker, "network", "create", network]
  | .service network name service =>
    [x.docker, "run", "-d", "--name", name, "--network", network, "--network-alias",
      service.name] ++ x.limits.runArgs ++
      (service.healthCmd.elim [] fun check =>
        ["--health-cmd", check, "--health-interval", "2s", "--health-timeout", "5s",
        "--health-retries", "30"]) ++ envArgs service.env ++ [service.image] ++ service.command
  | .job network image spec mounts cache env =>
    [x.docker, "run", "--name", s!"{network}-job", "--network", network, "-v",
      s!"{workspace x spec}:/workspace", "-w", containerRepo] ++
      ["-e", s!"CINDRAL_JOB_ID={spec.id}", "-e", "CI=true"] ++ x.limits.runArgs ++ mounts ++
      (if cache then ["-v", s!"{workspace x spec}/cache:/cindral-cache"] else []) ++ envArgs env ++
      [image, x.shell, "-lc", "sh /workspace/run.sh"]
  | .rm name => [x.docker, "rm", "-f", name]
  | .networkRm network => [x.docker, "network", "rm", network]
  | .readable path image =>
    [x.docker, "run", "--rm", "--network", "none", "--user", "0:0", "-v", s!"{path}:/cindral-cache",
      "--entrypoint", x.shell, image,
      "-lc", s!"if ! chown -R {x.owner.1}:{x.owner.2} /cindral-cache; then " ++
        "echo 'cindral: warning: chown failed, falling back to chmod' >&2; chmod -R a+rX /cindral-cache; fi"]
  | .sweep image =>
    [x.docker, "run", "--rm", "--network", "none", "--user", "0:0", "-v",
      s!"{workspace x spec}:/cleanup"] ++ x.limits.runArgs ++
      ["--entrypoint", x.shell, image, "-lc", "rm -rf /cleanup/* /cleanup/.[!.]* /cleanup/..?*"]

def spaced (words : List String) : String := " ".intercalate words

def check (command : Command) : Exec Unit := do
  let code ← ask (.run command)
  if code ≠ 0 then raise (executorError s!"command failed (exit {code}): {spaced (argv x spec command)}") else pure ()

def makeReadable (image path : String) : Exec Unit := do
  match ← (check x spec (.readable path image)).attempt with
  | .ok _ => pure ()
  | .error e =>
    if e.kind = .executorError then raise ⟨.osError, s!"cache permissions could not be prepared: {e.text}"⟩ else raise e

def checkout : Exec Unit := do
  ask .makeRepo
  check x spec .init
  check x spec (.remote s!"{x.githubBase}/{spec.repository}.git")
  let fetched ← ask (.run (.fetch spec.sha))
  if fetched ≠ 0 then do
    check x spec (.fetchRef spec.ref)
    check x spec (.checkout spec.sha)
  else check x spec (.checkout spec.sha)

def checkLabels (contract : Contract) : Exec Unit :=
  if x.missing contract ≠ [] then
    let held := if x.advertised = [] then "nothing" else x.shown.labels
      (x.advertised.dedup.mergeSort (· ≤ ·))
    raise (executorError
      (s!"this device does not advertise {x.shown.labels ((x.missing contract).mergeSort (· ≤ ·))}"
      ++
      s!", and the job asks for it; it advertises {held}"))
  else pure ()

def loadContract : Exec Contract := do
  match ← (do
      let (notes, resolved) ← ask .resolveContract
      forEach notes fun note => ask (.write note)
      Script.lift resolved).attempt with
  | .error e => if e.kind = .contractError then raise (executorError e.text) else raise e
  | .ok contract => do
    checkLabels x contract
    pure contract

/-- The style of `docker build`, which is probed once. -/
def buildStyle : Exec BuildStyle := do
  match ← ask .knownStyle with
  | some style => pure style
  | none => do
    let help ← ask .buildHelp
    let style := if hasInfix help "--resource" then .resource else if hasInfix help
      "--cpu-quota" then .legacy else .none
    ask (.setStyle style)
    pure style

def buildLimitArgs : Exec (List String) := do
  forEach x.limits.buildDiskNote.toList fun note => ask (.write (note ++ "\n"))
  if !x.limits.capped then pure []
  else match ← buildStyle with
    | .none => do
      ask (.write
        "cindral: warning: docker build has no CPU or memory flag here, the build is uncapped\n")
      pure []
    | style => pure (x.limits.buildArgs (style = .resource))

/-- `_image`. A parsed contract names one of the two. -/
def image (contract : Contract) : Exec String :=
  match contract.dockerfile.filter (· ≠ "") with
  | some dockerfile => do
    let tag := s!"cindral-job-{spec.id}"
    if !(← ask (.isFile dockerfile)) then raise (executorError s!"dockerfile not found: {dockerfile}")
    else do
      let caps ← buildLimitArgs x
      check x spec (.build caps tag dockerfile)
      pure tag
  | none =>
    match contract.image with
    | none => raise ⟨.other "AssertionError", ""⟩
    | some image => do
      let found ← ask (.run (.inspect image))
      if found ≠ 0 then do
        check x spec (.pull image)
        pure image
      else pure image

/-! ## The job's containers -/

/-- The services up to the first that does not start, and how that one failed. -/
def startServices : List Service → Exec (List Service × Option Raised)
  | [] => pure ([], none)
  | service :: rest => do
    match ← (check x spec (.service (network spec) (serviceName spec service) service)).attempt with
    | .error e => pure ([], some e)
    | .ok _ => do
      let (started, failed) ← startServices rest
      pure (service :: started, failed)

def healthy (service : Service) : Exec Bool := do
  let (code, status) ← ask (.inspectHealth (serviceName spec service))
  pure (code = 0 && strip status = "healthy")

def stillWaiting : List Service → Exec (List Service)
  | [] => pure []
  | service :: rest => do
    let up ← healthy spec service
    let others ← stillWaiting rest
    pure (if up then others else service :: others)

def unhealthyError (pending : List Service) : Raised :=
  let names := ", ".intercalate (pending.map Service.name)
  executorError s!"services did not become healthy within 90s: {names}"

/-- The polls of `_wait_for_services`. Two seconds go by between two of them, so that many reach the
deadline. -/
def poll (deadline : ℚ) : Nat → List Service → Exec Bool
  | 0, pending => raise (unhealthyError pending)
  | fuel + 1, pending => do
    let pending ← stillWaiting spec pending
    if pending = [] then pure true
    else if ← ask .cancelled then pure false
    else do
      let now ← ask .monotonic
      if deadline ≤ now then raise (unhealthyError pending)
      else do
        ask .sleep
        poll deadline fuel pending

def waitForServices (waiting : List Service) : Exec Bool :=
  if waiting = [] then pure true
  else do
    forEach waiting fun service =>
      ask (.write s!"cindral: waiting for {service.name} to become healthy\n")
    let start ← ask .monotonic
    poll spec (start + 90) 46 waiting

/-- The seconds a job may take, none where there is no limit. -/
def timeLimit (contract : Contract) : Option Int :=
  let seconds := match contract.timeoutMinutes with
    | none | some 0 => spec.timeout
    | some minutes => min spec.timeout (minutes * 60)
  if seconds = 0 then none else some seconds

def startTimer : Option Int → Exec Unit
  | none => pure ()
  | some seconds => ask (.startTimer seconds)

/-- What is taken down however the containers fared. -/
def takeDown (timer : Option Int) (services : List Service) : Exec Unit := do
  forEach timer.toList fun _ => ask .stopTimer
  forEach (jobName spec :: services.map (serviceName spec)) fun name => do
    let _ ← ask (.run (.rm name))
    pure ()
  let _ ← ask (.run (.networkRm (network spec)))
  pure ()

/-- The job's own container, once the services are up. -/
def runJob (contract : Contract) (image : String) (mounts : List String) (cache : Bool)
    (environment : List (String × String)) : Exec Int := do
  if !(← waitForServices spec (contract.services.filter (·.healthCmd.isSome))) then pure 130
  else do
    let code ← ask (.run (.job (network spec) image spec mounts cache (overlay contract.env environment)))
    if ← ask .cancelled then pure 130 else pure code

/-- The job, unless a service failed to start. -/
def runUp (failed : Option Raised) (contract : Contract) (image : String) (mounts : List String)
    (cache : Bool)
    (environment : List (String × String)) : Exec Int :=
  match failed with
  | some e => raise e
  | none => runJob spec contract image mounts cache environment

/-- What a job with `docker = true` mounts. -/
def dockerMounts (contract : Contract) : Exec (List String) :=
  if contract.docker then do
    match ← (ask .dockerMounts).attempt with
    | .ok mounts => pure mounts
    | .error e => if e.kind.isValueError then raise (executorError e.text) else raise e
  else pure []

def runSteps (contract : Contract) (image nonce : String) (cache : Bool)
    (environment : List (String × String)) : Exec Int := do
  let mounts ← dockerMounts contract
  ask (.writeScript (runScript contract.steps nonce))
  check x spec (.networkCreate (network spec))
  startTimer (timeLimit spec contract)
  let (services, failed) ← startServices x spec contract.services
  (runUp spec failed contract image mounts cache environment).ensure (takeDown spec (timeLimit spec contract) services)

/-! ## Caches and artifacts -/

/-- The cache of one plan, where there is a client for it. -/
def restoreCache (plan : CachePlan) : Exec Unit :=
  if !x.cacheClient then pure ()
  else do
    match ← (do
        match ← ask (.restoreCache plan.name) with
        | none => ask (.write s!"cindral: cache miss {plan.name}\n")
        | some key => ask (.write s!"cindral: cache hit {plan.name} ({key})\n") : Exec Unit).attempt with
    | .ok _ => pure ()
    | .error e =>
      if e.kind.skipped || e.kind = .keyError then ask (.write s!"cindral: cache restore skipped for {plan.name}: {e.text}\n")
      else raise e

/-- `restore_caches`: the variables of the plans whose directories could be made. -/
def restoreCaches : List CachePlan → Exec (List (String × String))
  | [] => pure []
  | plan :: rest => do
    match ← (ask (.cacheDirectory plan.name)).attempt with
    | .error e =>
      if e.kind.isOsError || e.kind = .cacheArchiveError then do
        ask (.write s!"cindral: cache directory skipped for {plan.name}: {e.text}\n")
        restoreCaches rest
      else raise e
    | .ok _ => do
      restoreCache x plan
      let others ← restoreCaches rest
      pure (overlay plan.environment others)

/-- `create_archive`: whether the cache held anything. -/
def createArchive (image : String) (plan : CachePlan) : Exec Bool := do
  match ← (ask (.archiveCache plan.name)).attempt with
  | .ok held => pure held
  | .error e =>
    if e.kind = .permissionError then do
      makeReadable x spec image plan.path
      ask (.archiveCache plan.name)
    else raise e

def storeCaches (image : String) (plans : List CachePlan) : Exec Unit :=
  if !x.cacheClient then pure ()
  else forEach plans fun plan => do
    match ← (do
        if ← createArchive x spec image plan then do
          let created ← ask (.uploadCache plan.name)
          let outcome := if created then "stored" else "already exists"
          ask (.write s!"cindral: cache {outcome} {plan.name}\n")
        else pure () : Exec Unit).attempt with
    | .ok _ => pure ()
    | .error e => if e.kind.skipped then ask (.write s!"cindral: cache write skipped for {plan.name}: {e.text}\n") else raise e

def detectPlans : Exec (List CachePlan) := do
  match ← (ask .detectPlans).attempt with
  | .ok plans => pure plans
  | .error e =>
    if e.kind.isOsError || e.kind.isValueError then do
      ask (.write s!"cindral: cache detection skipped: {e.text}\n")
      pure []
    else raise e

def runCachedJob (contract : Contract) (image nonce : String) : Exec Int := do
  let plans ← detectPlans
  let environment ← restoreCaches x plans
  let result ← runSteps x spec contract image nonce (plans.any (·.environment ≠ [])) environment
  if result = 0 then
    if ← ask .cancelled then pure result
    else do
      storeCaches x spec image plans
      pure result
  else pure result

/-- The files packed, after a repair where some could not be read. -/
def packFiles (image : String) : Exec Nat := do
  match ← (ask .packArchive).attempt with
  | .ok written => pure written
  | .error e =>
    if e.kind = .permissionError then do
      ask .unlinkArchive
      makeReadable x spec image (repo x spec ++ "/" ++ Archive.artifactDirectory)
      ask .packArchive
    else raise e

/-- `pack_artifacts`, past the directory. -/
def packDirectory (image : String) : Exec String := do
  match ← (packFiles x spec image).attempt with
  | .error e => do
    ask .unlinkArchive
    ask (.write s!"cindral: artifacts skipped: {e.text}\n")
    pure ""
  | .ok written =>
    if written = 0 then do
      ask .unlinkArchive
      ask (.write s!"cindral: artifacts: {Archive.artifactDirectory} is empty\n")
      pure ""
    else do
      let size ← ask .archiveSize
      ask (.write s!"cindral: artifacts: {written} file(s), {size} bytes\n")
      pure (workspace x spec ++ ".tar")

def packArtifacts (image : String) : Exec String := do
  if !(← ask .artifactDirectory) then do
    ask (.write s!"cindral: artifacts: no {Archive.artifactDirectory} directory\n")
    pure ""
  else packDirectory x spec image

/-! ## The whole run -/

/-- The body of `_execute`, with the image once it is known. -/
def executeJob (nonce : String) : Exec (Option String × Except Raised (Int × String)) := do
  let caps := if x.limits.runArgs = [] then "" else s!" caps {spaced x.limits.runArgs}"
  match ← (do
      ask (.write s!"cindral: job {spec.id} {spec.repository}@{sliceTo spec.sha 12}{caps}\n")
      checkout x spec
      let contract ← loadContract x
      let image ← image x spec contract
      pure (contract, image)).attempt with
  | .error e => pure (none, .error e)
  | .ok (contract, image) => do
    let outcome ← (do
      let code ← runCachedJob x spec contract image nonce
      let archive ← packArtifacts x spec image
      pure (code, archive)).attempt
    pure (some image, outcome)

def execute (nonce : String) : Exec (Int × Option String × String) := do
  ask .makeRoot
  ask .clearWorkspace
  ask .makeWorkspace
  let (image, outcome) ← executeJob x spec nonce
  match outcome with
  | .ok (code, archive) => pure (code, image, archive)
  | .error e => do
    ask (.write
      (if e.kind = .executorError then s!"cindral: {e.text}\n" else
      s!"cindral: unexpected executor failure: {x.shown.raised e}\n"))
    pure (1, image, "")

def removeWorkspace (suffix : String) : Exec (Option String) := do
  match ← (ask .removeWorkspace).attempt with
  | .ok _ => pure none
  | .error e =>
    if e.kind.isOsError then
      if ← ask .workspaceExists then pure (some s!"could not remove workspace {workspace x spec}{suffix}: {e.text}") else pure none
    else raise e

def cleanupWorkspace (image : Option String) : Exec (Option String) := do
  match ← removeWorkspace x spec "", image with
  | none, _ => pure none
  | some failure, none => pure (some failure)
  | some _, some image => do
    let code ← ask (.run (.sweep image))
    if code ≠ 0 then
      pure (some (s!"could not remove root-owned files from workspace {workspace x spec}" ++
        s!" (cleanup container exited {code})"))
    else removeWorkspace x spec " after container cleanup"

/-- The end of `__call__`, which knows the image only where `_execute` returned it. -/
def cleanUp (ran : Except Raised (Int × Option String × String)) : Exec (Option String) :=
  if !x.cleanup then pure none
  else match ran with
    | .ok (_, image, _) => cleanupWorkspace x spec image
    | .error _ => cleanupWorkspace x spec none

def readLog : Exec String := if x.logs then ask .readLog else pure ""

/-- `result_for`, whose error is a `ValueError`. -/
def resultOf (exitCode : Int) (log nonce archive : String) : Exec ExecutionResult :=
  match resultFor exitCode log nonce archive with
  | .ok result => pure result
  | .error text => raise ⟨.valueError, text⟩

def completedLog (exitCode : Int) (warning : Option String) (nonce archive : String) :
    Exec ExecutionResult := do
  let text ← readLog x
  let warned := warning.elim "" fun warning =>
    if warning = "" then "" else s!"cindral: warning: {warning}\n"
  if warned ≠ "" ∧ x.logs then do
    ask (.appendLog warned)
    resultOf exitCode (text ++ warned) nonce archive
  else resultOf exitCode (text ++ warned) nonce archive

def call : Exec ExecutionResult := do
  let nonce ← ask .token
  ask .openLog
  let ran ← (execute x spec nonce).attempt
  let closed ← (ask .closeLog).attempt
  let warning ← cleanUp x spec ran
  match closed, ran with
  | .error e, _ | .ok _, .error e => raise e
  | .ok _, .ok (code, _, archive) => completedLog x code warning nonce archive

end
end Cindral.Executor

import Cindral.Github.Hooks
import Mathlib.Data.List.Dedup

/-!
# Adopting repositories

One pass over the repositories of a credential: which of them it selects, what it does to the hooks
of each, and what it answers.
-/

namespace Cindral.Github.Adoption
open Base Script
open Routing (isRepositorySlug invalidRefFragments)

/-! ## The selection -/

def trustedDefaultBranch (branch : String) : Bool :=
  branch ≠ "" && !invalidRefFragments.any (hasInfix branch)

def slugSet (raw : String) : List String :=
  (((raw.toList.splitOn ',').map fun part => lower (strip (.ofList part))).filter (· ≠ "")).dedup

def sorted (slugs : List String) : List String := slugs.mergeSort (· ≤ ·)

/-- `by_slug`, in which the last of two repositories of one name stays. -/
def bySlug (discovered : List DiscoveredRepository) (slug : String) : Option DiscoveredRepository :=
  discovered.reverse.find? fun item => lower item.repository = slug

def slugs (discovered : List DiscoveredRepository) : List String :=
  (discovered.map fun item => lower item.repository).dedup

def candidateSlugs (discovered : List DiscoveredRepository) (allowlist : List String)
    (allOwned : Bool) : List String :=
  if allOwned then slugs discovered else allowlist.dedup.filter fun slug =>
    (bySlug discovered slug).isSome

section
variable (exclusions : List String) (opsRepository : String)

def skipReason (item : DiscoveredRepository) : Option String :=
  let repository := lower item.repository
  if opsRepository ≠ "" ∧ repository = lower
    opsRepository then some "repository owns the deployment policy"
  else if exclusions.contains repository then some "excluded by CINDRAL_ADOPT_EXCLUDE"
  else if !item.isPrivate then some "public repositories route to hosted runners"
  else if item.archived then some "archived repositories accept no pushes"
  else if item.defaultBranch = "" then some "repository has no default branch"
  else if !trustedDefaultBranch item.defaultBranch then some "default branch is not a trusted branch name"
  else none

structure Selection where
  eligible : List DiscoveredRepository
  skips : List (String × String)
  unselected : Int

def selectAdoption (discovered : List DiscoveredRepository) (allowlist : List String)
    (allOwned : Bool) : Selection :=
  let candidates := candidateSlugs discovered allowlist allOwned
  let items := (sorted candidates).filterMap (bySlug discovered)
  let unowned := if allOwned then [] else (sorted allowlist.dedup).filter fun slug =>
    (bySlug discovered slug).isNone
  let refused := items.filterMap fun item => (skipReason exclusions opsRepository item).map
    (lower item.repository, ·)
  { eligible := items.filter fun item => (skipReason exclusions opsRepository item).isNone
    skips := (unowned.map (·, "credential does not own this repository") ++ refused).mergeSort fun a b =>
      a.1 < b.1 || (a.1 = b.1 && a.2 ≤ b.2)
    unselected := discovered.length - candidates.length }

end

def definitionNote (item : DiscoveredRepository) : String :=
  if item.hasContract ∧ item.hasWorkflows then "committed contract and workflow files"
  else if item.hasContract then "committed contract"
  else if item.hasWorkflows then "workflow files"
  else "no committed CI definition; the device infers one from the tree"

/-! ## A pass -/

structure Args where
  apply : Bool
  allOwned : Bool
  opsRepository : Option String
  webhookUrl : Option String
  /-- The repositories that were typed. -/
  repository : List String

def printEach : List String → Exec Unit
  | [] => pure ()
  | line :: rest => do
    ask (.print line)
    printEach rest

def complainEach : List String → Exec Unit
  | [] => pure ()
  | line :: rest => do
    ask (.printError line)
    complainEach rest

/-- The text of an exception that a reconciliation takes for the failure of one repository. -/
def Raised.caught : Raised → Option String
  | .githubApi message => some message
  | .valueError message => some message
  | _ => none

def reconcileWebhooks (register : String → Exec String) :
    List String → Exec (List (String × String) × List (String × String))
  | [] => pure ([], [])
  | repository :: rest => do
    match ← (register repository).attempt with
    | .ok result => do
      let (changed, failed) ← reconcileWebhooks register rest
      pure ((repository, result) :: changed, failed)
    | .error e =>
      match e.caught with
      | some text => do
        let (changed, failed) ← reconcileWebhooks register rest
        pure (changed, (repository, text) :: failed)
      | none => .fail e

section
variable (fault : List Char → Option String) (turns : Nat) (args : Args) (secret : Option String)
    (exclusions allowlist : List String)

/-- What a pass asks of its arguments before it asks GitHub anything. -/
def checkArgs : Except Raised Unit := do
  let usage (message : String) : Except Raised Unit := .error (.usage message)
  if !args.opsRepository.any isRepositorySlug then
    usage "set --ops-repository or CINDRAL_OPS_REPOSITORY to the deployment-policy repository"
  else if args.allOwned ∧ allowlist ≠ [] then usage "--all-owned and a named allowlist are separate opt-ins; pass one"
  else if args.apply ∧ allowlist = [] ∧ !args.allOwned then
    usage "name what to adopt: repeat --repository OWNER/NAME, set CINDRAL_ADOPT_REPOSITORIES, or pass --all-owned"
  else if args.apply then
    if args.webhookUrl.getD "" = "" ∨ secret.getD "" = "" then
      usage "set CINDRAL_WEBHOOK_URL and the webhook secret environment variable before applying"
    else match validateWebhookUrl fault (args.webhookUrl.getD "") with
      | .error (.valueError message) => usage message
      | checked => checked
  else .ok ()

def ops : String := args.opsRepository.getD ""

def adoptable (discovered : List DiscoveredRepository) : List DiscoveredRepository :=
  discovered.filter fun item => (skipReason exclusions (ops args) item).isNone

def notSelected (item : DiscoveredRepository) : String :=
  match skipReason exclusions (ops args) item with
  | none => s!"  {item.repository}: not selected ({definitionNote item})"
  | some reason => s!"  {item.repository}: skipped: {reason}"

/-- What a pass that selects nothing prints. -/
def listOnly (discovered : List DiscoveredRepository) : Exec Bool := do
  ask (.print ("Nothing is selected for adoption; pass --repository OWNER/NAME for each repository, set CINDRAL_ADOPT_REPOSITORIES, " ++
    "or pass --all-owned"))
  printEach ((discovered.mergeSort fun a b => lower a.repository ≤ lower b.repository).map
  (notSelected args exclusions))
  pure true

def selectionLines (selection : Selection) : List String :=
  let named := if args.repository ≠ [] then "with --repository" else "with CINDRAL_ADOPT_REPOSITORIES"
  let noun := if selection.unselected = 1 then "repository" else "repositories"
  let verb := if selection.unselected = 1 then "was" else "were"
  (if args.allOwned then "Selection: every owned private repository, opted in with --all-owned"
    else s!"Selection: {allowlist.length} named {named}") ::
  (selection.skips.map fun (repository, reason) => s!"  {repository}: skipped: {reason}") ++
  (if selection.unselected = 0 then []
    else [s!"{selection.unselected} owned {noun} outside the selection {verb} not touched"])

def applySelection (selection : Selection) : Exec Bool := do
  let (changed, failed) ← reconcileWebhooks
    (ensurePushWebhook fault turns (args.webhookUrl.getD "") (secret.getD ""))
    (selection.eligible.map DiscoveredRepository.repository)
  printEach (changed.map fun (repository, result) => s!"  {repository}: {result} webhook")
  complainEach (failed.map fun (repository, text) => s!"  {repository}: {text}")
  pure (failed = [] && (selection.skips = [] || args.allOwned))

def wouldReconcile (item : DiscoveredRepository) : String :=
  let url := args.webhookUrl.getD ""
  let shown := if url = "" then "(set CINDRAL_WEBHOOK_URL)" else url
  s!"  {item.repository}: would reconcile {shown} ({definitionNote item})"

/-- A pass over what was discovered. -/
def adoptFrom (discovered : List DiscoveredRepository) : Exec Bool := do
  let able := (adoptable args exclusions discovered).length
  ask (.print s!"Credential owns {discovered.length} repositories: {able} adoptable, {discovered.length - able} outside adoption")
  if allowlist = [] ∧ !args.allOwned then listOnly args exclusions discovered
  else do
    let selection := selectAdoption exclusions (ops args) discovered allowlist args.allOwned
    printEach (selectionLines args allowlist selection)
    if !args.apply then do
      printEach (selection.eligible.map (wouldReconcile args))
      pure true
    else applySelection fault turns args secret selection

def runAdoption : Exec Bool := do
  lift (checkArgs fault args secret allowlist)
  match ← (listRepositories (!args.apply)).attempt with
  | .ok discovered => adoptFrom fault turns args secret exclusions allowlist discovered
  | .error (.githubApi message) => do
    ask (.printError s!"Repository discovery failed: {message}")
    pure false
  | .error e => .fail e

end
end Cindral.Github.Adoption

import Cindral.Base.Json
import Cindral.Base.Script
import Cindral.Base.Text
import Cindral.Routing.Policy

/-!
# The repositories of a credential and their webhooks

What the client asks GitHub when it adopts repositories, a page at a time. A request is answered, or
fails in one of the ways that the client words.
-/

namespace Cindral.Github.Adoption
open Base Script
open Routing (isRepositorySlug invalidRefFragments)

abbrev Fields := List (String × Json)

/-- How a request fails: a status, no answer, or an answer that is no JSON. -/
inductive Failed where
  | http (code : Int) (detail : String)
  | unreachable (reason : String)
  | unreadable
  deriving DecidableEq

inductive Raised where
  | githubApi (message : String)
  | valueError (message : String)
  /-- `parser.error`, which ends the program. -/
  | usage (message : String)
  | other (message : String)
  deriving DecidableEq

inductive Call where
  | repositoryPage (page : Nat)
  | contents (repository path : String)
  | hookPage (repository : String) (page : Nat)
  | createHook (repository : String) (payload : Json)
  | updateHook (repository : String) (id payload : Json)
  | print (line : String)
  | printError (line : String)

abbrev Ans : Call → Type
  | .repositoryPage _ | .contents .. | .hookPage .. => Except Failed Json
  | .createHook .. | .updateHook .. => Except Failed Unit
  | .print _ | .printError _ => Unit

abbrev Exec (α : Type) := Script Call Ans Raised α

def ask (c : Call) : Exec (Ans c) := .call c

structure DiscoveredRepository where
  repository : String
  isPrivate : Bool
  archived : Bool
  defaultBranch : String
  hasContract : Bool
  hasWorkflows : Bool
  deriving DecidableEq

def failure (what invalid : String) : Failed → Raised
  | .http code detail => .githubApi s!"GitHub {what} failed with HTTP {code}: {detail}"
  | .unreachable reason => .githubApi s!"GitHub {what} failed: {reason}"
  | .unreadable => .githubApi s!"GitHub returned an invalid {invalid}"

/-- The items of a page, each of which is a mapping. -/
def mappings : Json → Option (List Fields)
  | .arr items => items.mapM fun item => match item with
    | .obj fields => some fields
    | _ => none
  | _ => none

/-! ## The inventory -/

def listRepositoryPage (page : Nat) : Exec (List Fields) := do
  match ← ask (.repositoryPage page) with
  | .error failed => .fail (failure "repository listing" "repository list" failed)
  | .ok payload => match mappings payload with
    | some entries => pure entries
    | none => .fail (.githubApi "GitHub returned an invalid repository inventory")

/-- `_contents`, in which nothing stands for what is not there. -/
def contents (repository path : String) : Exec Json := do
  match ← ask (.contents repository path) with
  | .ok payload => pure payload
  | .error (.http 404 _) => pure .null
  | .error failed => .fail (failure "contents lookup" "contents response" failed)

def pathExists (repository path : String) : Exec Bool := do
  match ← contents repository path with
  | .null => pure false
  | _ => pure true

def hasWorkflowsDirectory (repository : String) : Exec Bool := do
  match ← contents repository ".github/workflows" with
  | .arr (_ :: _) => pure true
  | _ => pure false

def listed (entry : Fields) : Except Raised DiscoveredRepository :=
  match getOr entry "full_name" .null with
  | .str name =>
    if !isRepositorySlug name then .error
      (.githubApi "GitHub returned a repository without an owner/name slug")
    else match getOr entry "private" .null, getOr entry "archived" .null,
    getOr entry "default_branch" .null with
      | .bool isPrivate, .bool archived, .str branch =>
          .ok ⟨name, isPrivate, archived, branch, false, false⟩
      | .bool isPrivate, .bool archived, .null => .ok ⟨name, isPrivate, archived, "", false, false⟩
      | _, _, _ => .error (.githubApi "GitHub returned an invalid repository inventory")
  | _ => .error (.githubApi "GitHub returned a repository without an owner/name slug")

/-- `_repository`, whose two lookups feed a note and nothing else. -/
def repositoryOf (probe : Bool) (entry : Fields) : Exec DiscoveredRepository := do
  let found ← lift (listed entry)
  if probe then do
    let hasContract ← pathExists found.repository ".cindral/ci.toml"
    let hasWorkflows ← hasWorkflowsDirectory found.repository
    pure { found with hasContract, hasWorkflows }
  else pure found

def repositoriesOf (probe : Bool) : List Fields → Exec (List DiscoveredRepository)
  | [] => pure []
  | entry :: rest => do
    let found ← repositoryOf probe entry
    let later ← repositoriesOf probe rest
    pure (found :: later)

def maxRepositoryPages : Nat := 5

/-- The pages from one on, so many of them. A full last page is asked for what comes after it. -/
def listFrom (probe : Bool) (maxPages : Nat) :
    Nat → Nat → List DiscoveredRepository → Exec (List DiscoveredRepository)
  | 0, page, discovered => do
    let more ← listRepositoryPage page
    if more ≠ [] then
      .fail (.githubApi (s!"GitHub returned more than {maxPages * 100} repositories; " ++
        "narrow the credential's scope or raise the page cap explicitly"))
    else pure discovered
  | left + 1, page, discovered => do
    let entries ← listRepositoryPage page
    let found ← repositoriesOf probe entries
    if entries.length < 100 then pure (discovered ++ found) else listFrom probe maxPages left (page + 1) (discovered ++ found)

def listRepositories (probe : Bool) : Exec (List DiscoveredRepository) :=
  listFrom probe maxRepositoryPages maxRepositoryPages 1 []

/-! ## The webhooks of one -/

/-- `_list_hooks`, as many pages of it as `turns`. -/
def listHooks (repository : String) : Nat → Nat → List Fields → Exec (List Fields)
  | 0, _, _ => .fail (.other "unfinished")
  | turns + 1, page, hooks => do
    match ← ask (.hookPage repository page) with
    | .error failed => .fail (failure "webhook lookup" "webhook list" failed)
    | .ok payload => match mappings payload with
      | none => .fail (.githubApi "GitHub returned an invalid webhook list")
      | some found => if found.length < 100 then pure (hooks ++ found) else listHooks repository turns (page + 1) (hooks ++ found)

def hookUrl (hook : Fields) : Option String := ((getOr hook "config" .null).get "url").asStr?

def isInt : Json → Bool
  | .int _ => true
  | .bool _ => true
  | _ => false

def hookPayload (url secret : String) : Json :=
  .obj [("active", .bool true), ("events", .arr [.str "push", .str "pull_request"]),
    ("config", .obj [("url", .str url), ("content_type", .str "json"), ("secret", .str secret),
    ("insecure_ssl", .str "0")])]

/-- Where an address points: its scheme, its host part, and who it says the caller is. `fault` is
what Python's `urlsplit` finds wrong with a host part. -/
structure Address where
  scheme : String
  netloc : List Char

def schemeChar (c : Char) : Bool := c.isAlphanum || c = '+' || c = '-' || c = '.'

/-- `urlsplit`, of the two parts that are asked for. -/
def urlsplit (fault : List Char → Option String) (url : String) : Except Raised Address :=
  let cs := (url.toList.dropWhile fun c => c.toNat ≤ 0x20).filter fun c => c ≠ '\t' && c ≠ '\r' &&
    c ≠ '\n'
  let word := cs.takeWhile (· ≠ ':')
  let schemed := word.length < cs.length && word.head?.any Char.isAlpha && word.all schemeChar
  let rest := if schemed then cs.drop (word.length + 1) else cs
  let netloc := ((afterPrefix? "//" rest).getD []).takeWhile fun c => c ≠ '/' && c ≠ '?' && c ≠ '#'
  match fault netloc with
  | some why => .error (.valueError why)
  | none => .ok ⟨if schemed then lower (.ofList word) else "", netloc⟩

/-- Whether a host part names a user or a password that is not empty. -/
def Address.identified (address : Address) : Bool :=
  if address.netloc.contains '@' then
    let userinfo := ((address.netloc.reverse.dropWhile (· ≠ '@')).drop 1).reverse
    userinfo.takeWhile (· ≠ ':') ≠ [] || (userinfo.dropWhile (· ≠ ':')).drop 1 ≠ []
  else false

def validateWebhookUrl (fault : List Char → Option String) (url : String) : Except Raised Unit := do
  let address ← urlsplit fault url
  if address.scheme ≠ "https" || address.netloc = [] || address.identified then
    .error (.valueError "webhook URL must be an HTTPS URL without embedded credentials")
  else .ok ()

section
variable (fault : List Char → Option String) (turns : Nat) (url secret : String)

def answered (result : String) : Except Failed Unit → Exec String
  | .ok _ => pure result
  | .error failed => .fail (failure "webhook setup" "webhook" failed)

/-- The request that sets a hook up, with the word for it. -/
def setUp (repository : String) (hooks : List Fields) : Exec String :=
  match hooks.find? fun hook => hookUrl hook = some url with
  | none => do answered "created" (← ask (.createHook repository (hookPayload url secret)))
  | some hook =>
    if isInt (getOr hook "id" .null) then do
      answered "updated" (← ask (.updateHook repository (getOr hook "id" .null) (hookPayload url secret)))
    else .fail (.githubApi "GitHub returned a webhook without a numeric id")

def ensurePushWebhook (repository : String) : Exec String :=
  if !isRepositorySlug repository then .fail (.valueError "repository must use the owner/name format")
  else do
    lift (validateWebhookUrl fault url)
    if secret = "" then .fail (.valueError "webhook secret must not be empty")
    else do
      let hooks ← listHooks repository turns 1 []
      setUp url secret repository hooks

end
end Cindral.Github.Adoption

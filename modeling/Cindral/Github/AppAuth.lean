import Cindral.Base.Action
import Cindral.Base.Json
import Cindral.Base.Outcome
import Mathlib.Algebra.Order.Field.Rat
import Mathlib.Data.String.Basic

/-!
# Authentication as a GitHub App

The installation access token and the installation it is for, each cached, with the two functions that ask
for one another: a token is minted for the installation, and the installation is checked with a token.
-/

namespace Cindral.Github
open Base

def tokenRefreshMarginSeconds : ℚ := 300
def perPage : Nat := 100
def maxPages : Nat := 20

inductive Raised where
  | appAuthError (text : String)
  | attributeError (name : String)
  | recursionError
  | other (text : String)
  deriving DecidableEq, Repr

structure Installation where
  id : Int
  account : String
  selection : String
  suspendedAt : Json

def Installation.usable (installation : Installation) : Bool :=
  match installation.suspendedAt with
  | .null => true
  | _ => false

/-- A request: its path, its bearer token, and the body of a `POST`. -/
structure Sent where
  path : String
  bearer : String
  body : Option Json

/-- A request with its reply, and the last reading of the clock before it. -/
structure Exchange where
  sent : Sent
  reply : Except Raised Json
  time : ℚ

/-- What the code calls: the clock at each reading, the reply to each request, `mint_jwt` with the
App's id and key, the time an ISO text stands for, and `str`. -/
structure Environment where
  clock : Nat → ℚ
  transport : Nat → Sent → Except Raised Json
  mintJwt : ℚ → Except Raised String
  timestamp : String → Option ℚ
  str : Json → String

/-- The fields of an `AppAuth` that change. -/
structure AppAuth where
  token : Option String := none
  tokenExpiresAt : ℚ := 0
  installation : Option Installation := none

/-- An `AppAuth`, and what it has read and sent since it was made. -/
structure Session where
  auth : AppAuth := {}
  readings : Nat := 0
  now : ℚ := 0
  exchanges : List Exchange := []

abbrev Program := Action Session Raised

open Action

section
variable (env : Environment)

/-- `self._now()` -/
def readClock : Program ℚ := do
  let session ← read
  let now := env.clock session.readings
  modify fun session => { session with readings := session.readings + 1, now }
  return now

def transport (path bearer : String) (body : Option Json) : Program Json := do
  let session ← read
  let sent : Sent := { path, bearer, body }
  let reply := env.transport session.exchanges.length sent
  modify fun session => { session with exchanges := session.exchanges ++ [⟨sent, reply, session.now⟩] }
  lift reply

def appToken : Program String := do
  let now ← readClock env
  lift (env.mintJwt now)

/-- `_installation` -/
def installationOf (entry : Json) : Except Raised Installation :=
  match entry with
  | .obj fields =>
    match getOr fields "id" .null with
    | .int id =>
      .ok { id
            account := match getOr fields "account" .null with
              | .obj account => env.str (getOr account "login" (.str ""))
              | _ => ""
            selection := env.str (getOr fields "repository_selection" (.str ""))
            suspendedAt := getOr fields "suspended_at" .null }
    | _ => .error (.appAuthError "GitHub returned an installation without an id")
  | _ => .error (.appAuthError "GitHub returned an invalid installation entry")

/-- The entries of one page of installations. -/
def batchOf (found : Json) : Except Raised (List Json) :=
  match found with
  | .arr batch => .ok batch
  | .obj fields =>
    match getOr fields "installations" (.arr []) with
    | .arr batch => .ok batch
    | _ => .error (.appAuthError "GitHub returned an invalid installation list")
  | _ => .error (.attributeError "get")

def pagePath (page : Nat) : String := s!"/app/installations?per_page={perPage}&page={page}"

/-- The loop of `installations` from a page on, with the pages that are left. -/
def installationPages (appToken : String) : Nat → Nat → List Json → Program (List Installation)
  | 0, _, _ => raise (.appAuthError
      (s!"the App is installed on at least {maxPages * perPage} accounts;" ++
      " name one, or narrow the App"))
  | left + 1, page, entries => do
    let found ← transport env (pagePath page) appToken none
    let batch ← lift (batchOf found)
    if batch.length < perPage then lift ((entries ++ batch).mapM (installationOf env))
    else installationPages appToken left (page + 1) (entries ++ batch)

def installations : Program (List Installation) := do
  let appToken ← appToken env
  installationPages env appToken maxPages 1 []

/-- The one installation that is not suspended. -/
def scopedOf (found : List Installation) : Except Raised Installation :=
  if found = [] then .error (.appAuthError "the App is not installed on any account")
  else match found.filter Installation.usable with
    | [] => .error (.appAuthError "every installation of the App is suspended")
    | [installation] => .ok installation
    | usable =>
      let names := ", ".intercalate (usable.map fun installation =>
        s!"{installation.account}:{installation.id}")
      .error (.appAuthError s!"the App has more than one usable installation, name one: {names}")

def coveragePath : String := "/installation/repositories?per_page=1&page=1"

def covered (body : Json) : Except Raised Bool :=
  match body with
  | .obj fields =>
    match getOr fields "repositories" (.arr []) with
    | .arr entries => .ok (!entries.isEmpty)
    | _ => .error (.appAuthError "GitHub returned an invalid repository list")
  | _ => .error (.appAuthError "GitHub returned an invalid repository page")

/-- `_covers_anything`, with the token it asks for. -/
def coversAnything (token : Program String) : Program Bool := do
  let bearer ← token
  let body ← transport env coveragePath bearer none
  lift (covered body)

/-- `value.replace("Z", "+00:00")` -/
def withOffset (text : String) : String :=
  .ofList (text.toList.flatMap fun c => if c = 'Z' then "+00:00".toList else [c])

def expiry (value : Json) (now : ℚ) : ℚ :=
  match value with
  | .str text =>
    if text = "" then now + 3600
    else match env.timestamp (withOffset text) with
      | none => now + 3600
      | some stated => min stated (now + 3600)
  | _ => now + 3600

def mintPath (installation : Installation) : String :=
  s!"/app/installations/{installation.id}/access_tokens"

/-- The token of a reply, and what the reply says of its expiry. -/
def mintedOf (minted : Json) : Except Raised (String × Json) :=
  match minted with
  | .obj fields =>
    match getOr fields "token" .null with
    | .str token =>
      if token = "" then .error (.appAuthError "GitHub returned no installation token")
      else .ok (token, getOr fields "expires_at" .null)
    | _ => .error (.appAuthError "GitHub returned no installation token")
  | _ => .error (.attributeError "get")

/-- The end of `token`: a token for the installation, which is cached with its expiry. -/
def mint (installation : Installation) (now : ℚ) : Program String := do
  let appToken ← appToken env
  let minted ← transport env (mintPath installation) appToken (some (.obj []))
  let (token, expiresAt) ← lift (mintedOf minted)
  modify fun session => { session with
    auth := { session.auth with token := some token, tokenExpiresAt := expiry env expiresAt now } }
  return token

/-- The cached token, while it has more than the margin left. -/
def AppAuth.fresh (auth : AppAuth) (now : ℚ) : Option String :=
  if now < auth.tokenExpiresAt - tokenRefreshMarginSeconds then auth.token else none

def setInstallation (installation : Installation) : Program Unit :=
  modify fun session => { session with auth := { session.auth with installation := some installation } }

/-- The `except` clause of `installation`. -/
def clearCaches {α : Type} (e : Raised) : Program α := do
  modify fun session => { session with auth := {} }
  raise e

/-- The check of the installation that the caches are filled with. -/
def check (token : Program String) (installation : Installation) : Program Unit := do
  if installation.selection = "all" then return ()
  else
    if ← coversAnything env token then return ()
    else raise (.appAuthError
      (s!"installation {installation.id} is scoped to selected repositories" ++
      " and covers none of them"))

mutual

/-- `AppAuth.installation`, at a depth that is left of the recursion limit. -/
def installation : Nat → Program Installation
  | 0 => raise .recursionError
  | depth + 1 => do
    match (← read).auth.installation with
    | some installation => return installation
    | none =>
      let found ← installations env
      let installation ← lift (scopedOf found)
      -- cached while it is checked, because the check asks for it again
      setInstallation installation
      rescue (check env (token depth) installation) clearCaches
      return installation

def token : Nat → Program String
  | 0 => raise .recursionError
  | depth + 1 => do
    let now ← readClock env
    match (← read).auth.fresh now with
    | some token => return token
    | none =>
      let installation ← installation depth
      -- the check of the installation may have minted one
      match (← read).auth.fresh now with
      | some token => return token
      | none => mint env installation now

end

/-- The calls a server makes of its `AppAuth`. -/
inductive Entry where
  | installation | token

inductive Served where
  | installation (installation : Installation)
  | token (token : String)

/-- One call from outside, with four calls or more left below the recursion limit. -/
def perform (limit : Nat) : Entry → Program Served
  | .installation => do return .installation (← installation env (limit + 4))
  | .token => do return .token (← token env (limit + 4))

/-- One call after the other, whatever each comes to. -/
def run (limit : Nat) (entries : List Entry) (session : Session) : Session :=
  entries.foldl (fun session entry => (perform env limit entry session).2) session

end
end Cindral.Github

import Cindral.Base.Json
import Cindral.Base.Table
import Cindral.Base.Text

/-!
# Which device a credential speaks for

The tokens `serve` reads, the device a bearer token belongs to, and the two gates in front of every
request a device makes.
-/

namespace Cindral.Agent
open Base

/-- The exceptions a handler can meet. The first three are those `_jobs` answers for, `ArtifactError` and
`JSONDecodeError` being kinds of `ValueError`. -/
inductive Raised where
  | valueError (text : String)
  | keyError (key : String)
  | typeError (text : String)
  | artifactError (text : String)
  | githubApiError (text : String)
  | osError (text : String)
  | sqliteError (text : String)
  | other (text : String)
  deriving DecidableEq, Repr

/-- Python's `str` and `int` of a decoded value. -/
structure Conversions where
  str : Json → String
  int : Json → Except Raised Int
  str_str : ∀ s, str (.str s) = s
  int_int : ∀ n, int (.int n) = .ok n

/-- A device's name and its token. -/
abbrev Tokens := Table (Prod.fst : String × String → String)

section Digest
variable {δ : Type} [DecidableEq δ] (sha256 : String → δ)

/-- The names keyed by the digest of their token, in the order of the map. -/
def index (tokens : Tokens) : Except Raised (List (δ × String)) :=
  let built := tokens.rows.map fun entry => (sha256 entry.2, entry.1)
  if (built.map Prod.fst).Nodup then .ok built
  else .error (.valueError "every device in CINDRAL_AGENT_TOKENS must have a distinct token")

def deviceFor (presented : String) (tokens : Tokens) : Except Raised (Option String) :=
  (index sha256 tokens).map fun built => (built.find? fun entry => entry.1 = sha256 presented).map
  Prod.snd

end Digest

/-- What `parse` makes of the names and values of a JSON object. -/
def parseTokens (py : Conversions) (fields : List (String × Json)) : Tokens :=
  fields.foldl (fun tokens field => tokens.replace (field.1, py.str field.2)) Table.empty

/-- `json.loads` is a parameter, and none where it raises. -/
def parse (py : Conversions) (loads : String → Option Json) (raw : Option String) :
    Except Raised (Option Tokens) :=
  match raw with
  | none => .ok none
  | some raw =>
    if strip raw = "" then .ok none
    else match loads raw with
      | some (.obj (field :: fields)) =>
        let tokens := parseTokens py (field :: fields)
        if tokens.rows.any fun entry => entry.1 = "" || entry.2 = "" then
          .error (.valueError "every device in CINDRAL_AGENT_TOKENS needs a name and a token")
        else .ok (some tokens)
      | _ => .error (.valueError "CINDRAL_AGENT_TOKENS must be a JSON object of device to token")

structure Secrets where
  agentToken : Option String
  agentTokens : Option Tokens
  poolToken : Option String
  dispatchToken : Option String

/-- `os.environ.get(name) or None`. -/
def orNone (value : Option String) : Option String :=
  value.bind fun text => if text = "" then none else some text

/-- What `serve` reads of the credentials, and the values it refuses to share. -/
def serveSecrets (py : Conversions) (loads : String → Option Json)
    (getenv : String → Option String) : Except Raised Secrets := do
  let agentTokens ← parse py loads (getenv "CINDRAL_AGENT_TOKENS")
  let secrets : Secrets :=
    { agentToken := orNone (getenv "CINDRAL_AGENT_TOKEN"), agentTokens := agentTokens
      poolToken := orNone (getenv "CINDRAL_POOL_TOKEN"), dispatchToken :=
      orNone (getenv "CINDRAL_DISPATCH_TOKEN") }
  if secrets.poolToken.isSome &&
      (secrets.poolToken = secrets.agentToken || secrets.poolToken = secrets.dispatchToken) then
    .error (.valueError
    "CINDRAL_POOL_TOKEN must differ from CINDRAL_AGENT_TOKEN and CINDRAL_DISPATCH_TOKEN")
  else .ok secrets

/-! ## The gates -/

/-- The token of an `Authorization` header. -/
def bearer (header : String) : Option String :=
  (afterPrefix? "Bearer " header.toList).map fun rest => strip (.ofList rest)

def isAscii (text : String) : Bool := text.toList.all (·.toNat < 128)

/-- `hmac.compare_digest`, which takes ASCII text alone. -/
def compareDigest (a b : String) : Except Raised Bool :=
  if isAscii a && isAscii b then .ok (a = b)
  else .error (.typeError "comparing strings with non-ASCII characters is not supported")

def tokenAuthorized (header : String) (expected : Option String) : Except Raised Bool :=
  match expected with
  | none => .ok false
  | some expected =>
    if expected = "" then .ok false
    else match bearer header with
      | none => .ok false
      | some presented => compareDigest presented expected

namespace Secrets
variable {δ : Type} [DecidableEq δ] (sha256 : String → δ) (secrets : Secrets) (header : String)

def presentedDevice : Except Raised (Option String) :=
  match secrets.agentTokens with
  | none => .ok none
  | some tokens =>
    match bearer header with
    | none => .ok none
    | some presented => deviceFor sha256 presented tokens

def authorizedAs (device : String) : Except Raised Bool :=
  match secrets.agentTokens with
  | none => tokenAuthorized header secrets.agentToken
  | some _ => (secrets.presentedDevice sha256 header).map fun presented => presented = some device

def agentAuthorized : Except Raised Bool :=
  match secrets.agentTokens with
  | none => tokenAuthorized header secrets.agentToken
  | some _ => (secrets.presentedDevice sha256 header).map Option.isSome

def poolAuthorized : Except Raised Bool := tokenAuthorized header secrets.poolToken

def readAuthorized : Except Raised Bool := do
  if ← secrets.agentAuthorized sha256 header then .ok true else secrets.poolAuthorized header

end Secrets
end Cindral.Agent

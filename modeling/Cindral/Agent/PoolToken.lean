import Cindral.Agent.Ownership

/-!
# What the pool token opens

The pool token is for reading. `serve` refuses one that is also the agent token or the dispatch
token, and compares it with no device's token.
-/

namespace Cindral.Agent
open Base Script

variable {δ : Type} [DecidableEq δ] {server : Server δ} {q : Request} {depot : Depot}
    {tokens : Tokens} {pool : String}

/-- An answer to a call in the name of a device that takes what the device sent. -/
def accepted : (c : Call) → Except Raised (Ans c) → Prop
  | .recordHeartbeat _, .ok _ | .claim _ _ _ _, .ok (some _) | .renew _ _ _, .ok true | .settle _ _
      _, .ok ()
  | .put _ _ _ _, .ok _ => True
  | _, _ => False

/-- No request that carries the pool token is accepted for any device, at any moment and in any state. -/
def AcceptedNowhere (depot : Depot) (server : Server δ) (pool : String) : Prop :=
  ∀ (q : Request) (c : Call) (next : Except Raised (Ans c) → Program Unit)
    (shown : Option (String × String)) (k : Choice)
    (w w' : World) (r : Except Raised (Ans c)), q.authorization = "Bearer " ++ pool →
    Amid confirmed (perform depot) (handle server q) none (.ask c next) shown →
    perform depot k w c = some (r, w') →
    ¬accepted c r

theorem accepted_named {allowed : String → Prop} {shown : Option (String × String)} {c : Call}
    {r : Except Raised (Ans c)}
    (may : (inName allowed).may shown c) (taken : accepted c r) : ∃ device, allowed device := by
  cases c with
  | recordHeartbeat _ | claim _ _ _ _ | renew _ _ _ | settle _ _ _ => exact ⟨_, may⟩
  | put _ _ _ _ =>
    obtain ⟨device, -, allowed⟩ := may
    exact ⟨device, allowed⟩
  | _ => exact taken.elim

theorem accepted_in_name {c : Call} {r : Except Raised (Ans c)} (taken : accepted c r) : ¬c.nameless := by
  cases c with
  | recordHeartbeat _ | claim _ _ _ _ | renew _ _ _ | settle _ _ _ | put _ _ _ _ => exact not_false
  | _ => exact taken.elim

theorem handle_unconfigured (idle : server.jobsDb = false) : (handle server q).Only Call.nameless := by
  have closed : (jobs server q).Only Call.nameless := by
    simp only [jobs, idle, Bool.not_false, if_true]
    exact only_refuse _ _
  unfold handle
  simp only
  split
  · split
    · exact closed
    · exact only_refuse _ _
  · split
    · exact closed
    · split
      · simp only [agents, idle, Bool.not_false, if_true]
        exact only_refuse _ _
      · exact only_refuse _ _

/-! ## A pool token that is a device's token -/

section Index
variable {sha256 : String → δ} (injective : Function.Injective sha256)
include injective

omit injective in
/-- A map that gives two devices one token lets nobody in. -/
theorem authorized_distinct {secrets : Secrets} {header device : String}
    (mapped : secrets.agentTokens = some tokens)
    (authorized : secrets.authorizedAs sha256 header device = .ok true) :
    (tokens.rows.map Prod.snd).Nodup := by
  simp only [Secrets.authorizedAs, Secrets.presentedDevice, mapped] at authorized
  cases carried : bearer header with
  | none => simp [carried, Except.map] at authorized
  | some presented =>
    simp only [carried, deviceFor] at authorized
    cases indexed : index sha256 tokens with
    | error e =>
      rw [indexed] at authorized
      cases authorized
    | ok built =>
      have single := (index_ok_iff.mp indexed).1
      rw [digests_keys] at single
      exact single.of_map

theorem deviceFor_listed (distinct : (tokens.rows.map Prod.snd).Nodup) {token : String}
    (listed : token ∈ tokens.rows.map Prod.snd) :
    ∃ device, deviceFor sha256 token tokens = .ok (some device) := by
  obtain ⟨entry, member, rfl⟩ := List.mem_map.mp listed
  exact ⟨entry.1, deviceFor_some_iff.mpr
    ⟨by rw [digests_keys]; exact distinct.map injective, entry, member, rfl, rfl⟩⟩

end Index

def poolClaim (pool device : String) : Request :=
  { command := "POST", path := "/v1/jobs/claim", authorization := "Bearer " ++ pool
    body := some (.ok (.obj [("device", .str device), ("lease_seconds", .int 1)])) }

/-- A queue with one run that any device may take. -/
def waitingRun : Queue.Row :=
  Queue.EnqueueRequest.row { repository := "owner/app", sha := "c0ffee", ref := "main" } "run" 0

def waitingWorld : World :=
  { jobs := { Queue.Store.empty with jobs := Table.empty.replace waitingRun },
      archives := Archive.ArtifactStore.empty }

omit [DecidableEq δ] in
theorem poolClaim_read (device : String) :
    ((poolClaim pool device).readJson server.py >>= readClaim server.py server.leaseSeconds) = .ok
    ⟨device, [], 1⟩ := by
  change readClaim server.py server.leaseSeconds [("device", .str device), ("lease_seconds", .int 1)] = _
  have named : item [("device", .str device), ("lease_seconds", .int 1)] "device" = .ok
    (.str device) := rfl
  have lease : leaseOf server.py [("device", .str device), ("lease_seconds", .int 1)]
      server.leaseSeconds = .ok 1 :=
    server.py.int_int 1
  rw [readClaim, named, lease]
  change Except.ok (ClaimRequest.mk (server.py.str (.str device)) [] 1) = _
  rw [server.py.str_str]

section Claim
variable {device : String} (configured : server.jobsDb = true)
    (mapped : server.secrets.agentTokens = some tokens)
  (known : deviceFor server.sha256 (strip pool) tokens = .ok (some device))
include configured mapped known

variable (depot) in
/-- The handler of the claim comes to the queue. -/
theorem poolClaim_asks :
    ∃ next, Amid confirmed (perform depot) (handle server (poolClaim pool device)) none
    (.ask (.claim device [] 1 server.maxRepositoryRunning) next) none := by
  have presented : server.secrets.presentedDevice server.sha256
      (poolClaim pool device).authorization = .ok (some device) := by
    simp only [Secrets.presentedDevice, mapped, poolClaim, bearer_token, known]
  have some_device : server.secrets.agentAuthorized server.sha256
      (poolClaim pool device).authorization = .ok true := by
    simp only [Secrets.agentAuthorized, mapped, presented]
    rfl
  have itself : server.secrets.authorizedAs server.sha256 (poolClaim pool device).authorization
      device = .ok true := by
    simp only [Secrets.authorizedAs, mapped, presented, Except.map, decide_true]
  have route : (poolClaim pool device).route = "/v1/jobs/claim".toList := by
    change (("/v1/jobs/claim".toList.takeWhile (· ≠ '?')).reverse.dropWhile (· = '/')).reverse = _
    decide +kernel
  have routed : handle server (poolClaim pool device) = jobs server (poolClaim pool device) := by
    have path : hasPrefix (String.ofList ((poolClaim pool device).path.toList.takeWhile (· ≠ '?')))
        "/v1/jobs" = true := by
      change hasPrefix (String.ofList ("/v1/jobs/claim".toList.takeWhile (· ≠ '?'))) "/v1/jobs" = true
      decide +kernel
    have posted : ¬(poolClaim pool device).command = "GET" := by
      change ¬("POST" : String) = "GET"
      decide +kernel
    unfold handle
    rw [if_neg posted]
    simp only [path, if_true]
  have mutates : mutating (poolClaim pool device) "/v1/jobs/claim".toList = true := by
    unfold mutating
    have ends_claim : ends "/v1/jobs/claim".toList "/claim" = true := by decide +kernel
    simp only [ends_claim, Bool.true_or]
  have admitted : jobs server (poolClaim pool device) =
      (routeJob server (poolClaim pool device) "/v1/jobs/claim".toList).attempt.bind badRequest := by
    simp only [jobs, configured, Bool.not_true, Bool.false_eq_true, if_false, route, mutates,
      if_true, some_device, lift,
      bind_eq, done_bind]
  have claims : routeJob server (poolClaim pool device) "/v1/jobs/claim".toList = claim server
      (poolClaim pool device) := by
    have posted : ¬(poolClaim pool device).command ≠ "POST" := fun other => other rfl
    simp only [routeJob, if_true, require, if_neg posted]
  have asks : ∃ next, handle server (poolClaim pool device) = .ask .reclaimExpired next ∧
      ∃ next', next (.ok []) = .ask .claimOwed next' ∧
        ∃ next'', next' (.ok []) = .ask (.claim device [] 1 server.maxRepositoryRunning) next'' := by
    rw [routed, admitted, claims, claim, poolClaim_read]
    refine ⟨_, rfl, _, rfl, ?_⟩
    simp only [authorizedAs, itself]
    exact ⟨_, rfl⟩
  obtain ⟨next, first, next', second, next'', third⟩ := asks
  have amid : Amid confirmed (perform depot) (handle server (poolClaim pool device)) none
      (.ask .reclaimExpired next) none :=
    first ▸ .begun
  have reclaimed : perform depot {} emptyWorld .reclaimExpired = some (.ok [], emptyWorld) := rfl
  have drained : perform depot {} emptyWorld .claimOwed = some (.ok [], emptyWorld) := rfl
  have amid' := Amid.called amid reclaimed
  rw [second] at amid'
  have amid'' := Amid.called amid' drained
  rw [third] at amid''
  exact ⟨next'', amid''⟩

end Claim

theorem waiting_claimed (depot : Depot) (device : String) {limit : Int} (positive : 0 < limit) :
    ∃ job w', perform depot {} waitingWorld (.claim device [] 1 limit) = some (.ok (some job), w') := by
  have room : decide ((waitingWorld.jobs.active waitingRun.repository : Int) < limit) = true :=
    decide_eq_true positive
  have picked : waitingWorld.jobs.pickJob (waitingWorld.jobs.claimable 0) [] (some limit) =
      some waitingRun := by
    change (([waitingRun].filter fun r => r.labels.all (· ∈ ([] : List String)) &&
      (some limit).all ((waitingWorld.jobs.active r.repository : Int) < ·)).argmin
      waitingWorld.jobs.rank) = _
    simp only [List.filter_cons, Option.all_some, room, Bool.and_true, List.filter_nil]
    rfl
  have capped : ¬(some limit).any (· ≤ 0) = true := by
    simp only [Option.any_some, decide_eq_true_eq, not_le]
    exact positive
  have claimed : ∃ job t, waitingWorld.jobs.claim device [] 1 0 (some limit) = .ok (some job, t) := by
    unfold Queue.Store.claim
    rw [if_neg (by decide), if_neg capped, picked]
    exact ⟨_, _, rfl⟩
  obtain ⟨job, t, claimed⟩ := claimed
  refine ⟨job, { waitingWorld with jobs := t }, ?_⟩
  change some (waitingWorld.transact (waitingWorld.jobs.claim device [] 1 0 (some limit))) = _
  rw [claimed]
  rfl

/-- With a token map, the pool token is accepted nowhere exactly when the server has no queue, the
map gives two devices one token, so that it serves none, or the pool token is no device's token. -/
theorem pool_token_accepted_nowhere (injective : Function.Injective server.sha256)
    (mapped : server.secrets.agentTokens = some tokens) :
    AcceptedNowhere depot server pool ↔
      ¬(server.jobsDb = true ∧ (tokens.rows.map Prod.snd).Nodup ∧ strip pool ∈ tokens.rows.map
      Prod.snd) := by
  constructor
  · rintro nowhere ⟨configured, distinct, shared⟩
    obtain ⟨device, known⟩ := deviceFor_listed injective distinct shared
    obtain ⟨next, amid⟩ := poolClaim_asks depot configured mapped known
    obtain ⟨job, w', claimed⟩ := waiting_claimed depot device server.positive
    exact nowhere _ _ next none {} waitingWorld w' _ rfl amid claimed trivial
  · intro apart q c next shown k w w' r carries amid performed taken
    cases configured : server.jobsDb with
    | false =>
      have free := only_amid (handle_unconfigured configured) amid
      exact accepted_in_name taken free.1
    | true =>
      have gate (device : String) (authorized : server.secrets.authorizedAs server.sha256
          q.authorization device = .ok true) :
          False := by
        obtain ⟨token, listed, carried⟩ := authorizedAs_presents injective mapped authorized
        rw [carries, bearer_token] at carried
        obtain rfl := Option.some.inj carried
        exact apart ⟨configured, authorized_distinct mapped authorized, List.mem_map_of_mem listed⟩
      obtain ⟨_, allowed⟩ := accepted_named (follows_amid (handle_follows gate) amid).1 taken
      exact allowed

/-- A pool token of its own. -/
theorem own_pool_token_accepted_nowhere : AcceptedNowhere plainDepot piServer "pool" :=
  (pool_token_accepted_nowhere (fun _ _ same => same) rfl).mpr (by decide +kernel)

/-- One value for the pool and for a device. -/
def sharedEnvironment (name : String) : Option String :=
  if name = "CINDRAL_AGENT_TOKENS" then some "\x7b\"pi\": \"shared\"\x7d"
  else if name = "CINDRAL_POOL_TOKEN" then some "shared" else none

/-- `json.loads` of that one map. -/
def sharedLoads (text : String) : Option Json :=
  if text = "\x7b\"pi\": \"shared\"\x7d" then some (.obj [("pi", .str "shared")]) else none

def sharedServer : Server String :=
  { piServer with secrets :=
      { agentToken := none, agentTokens := some (Table.empty.replace ("pi", "shared")),
          poolToken := some "shared"
        dispatchToken := none } }

theorem sharedServer_served : serveSecrets plainConversions sharedLoads sharedEnvironment = .ok
    sharedServer.secrets := by
  have tokens : parse plainConversions sharedLoads (sharedEnvironment "CINDRAL_AGENT_TOKENS") =
      .ok (some (Table.empty.replace ("pi", "shared"))) := by
    have set : sharedEnvironment "CINDRAL_AGENT_TOKENS" = some "\x7b\"pi\": \"shared\"\x7d" := by
      decide +kernel
    have filled : strip "\x7b\"pi\": \"shared\"\x7d" ≠ "" := by decide +kernel
    have named : ((parseTokens plainConversions [("pi", .str "shared")]).rows.any fun entry =>
        entry.1 = "" || entry.2 = "") =
        false := by decide +kernel
    have loaded : sharedLoads "\x7b\"pi\": \"shared\"\x7d" = some (.obj [("pi", .str "shared")]) :=
      if_pos rfl
    rw [set, parse, if_neg filled, loaded]
    exact if_neg (ne_true_of_eq_false named)
  have agent : orNone (sharedEnvironment "CINDRAL_AGENT_TOKEN") = none := by decide +kernel
  have pool : orNone (sharedEnvironment "CINDRAL_POOL_TOKEN") = some "shared" := by decide +kernel
  have dispatch : orNone (sharedEnvironment "CINDRAL_DISPATCH_TOKEN") = none := by decide +kernel
  rw [serveSecrets, tokens, agent, pool, dispatch]
  rfl

theorem pool_token_claims_as_device :
    ¬ ∀ (server : Server String) (loads : String → Option Json) (getenv : String → Option String)
      (depot : Depot)
      (tokens : Tokens) (pool : String), Function.Injective server.sha256 →
      serveSecrets server.py loads getenv = .ok server.secrets →
      server.secrets.agentTokens = some tokens →
      server.secrets.poolToken = some pool → AcceptedNowhere depot server pool := by
  intro claim
  have nowhere := claim sharedServer sharedLoads sharedEnvironment plainDepot _ "shared"
    (fun _ _ same => same)
    sharedServer_served rfl rfl
  have known : deviceFor sharedServer.sha256 (strip "shared")
      (Table.empty.replace ("pi", "shared")) = .ok (some "pi") := by
    decide +kernel
  obtain ⟨next, amid⟩ := poolClaim_asks plainDepot rfl rfl known
  obtain ⟨job, w', claimed⟩ := waiting_claimed plainDepot "pi" sharedServer.positive
  exact nowhere _ _ next none {} waitingWorld w' _ rfl amid claimed trivial

end Cindral.Agent

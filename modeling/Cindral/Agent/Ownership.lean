import Cindral.Agent.Parts
import Cindral.Agent.Tokens
import Cindral.Archive.Keeping
import Cindral.Queue.Frame

/-!
# Whose token a device's requests carry

Each handler reads the device from another place and checks it at another moment. What it then does
in the name of a device, it does only for the device whose token the request carried, whatever the
other handlers do between its calls.
-/

namespace Cindral.Agent
open Base Script
open Archive (Artifact ArtifactStore Artifacts)
open Queue (Job Owed RowStep Verdict)

variable {δ : Type} {server : Server δ} {q : Request} {device : String} {tokens : Tokens}

/-! ## The gate -/

section Gate
variable [DecidableEq δ]

def Presents (tokens : Tokens) (header device : String) : Prop :=
  ∃ token, (device, token) ∈ tokens.rows ∧ bearer header = some token

theorem index_ok {sha256 : String → δ} {built : List (δ × String)}
    (indexed : index sha256 tokens = .ok built) :
    built = tokens.rows.map fun entry => (sha256 entry.2, entry.1) := by
  simp only [index] at indexed
  split at indexed
  · exact (Except.ok.inj indexed).symm
  · cases indexed

theorem deviceFor_some {sha256 : String → δ} (injective : Function.Injective sha256) {presented : String}
    (found : deviceFor sha256 presented tokens = .ok (some device)) :
    (device, presented) ∈ tokens.rows := by
  cases indexed : index sha256 tokens with
  | error e =>
    simp only [deviceFor, indexed, Except.map] at found
    cases found
  | ok built =>
    simp only [deviceFor, indexed, Except.map, Except.ok.injEq, Option.map_eq_some_iff] at found
    obtain ⟨entry, listed, rfl⟩ := found
    have same := List.find?_some listed
    simp only [decide_eq_true_eq] at same
    have member := List.mem_of_find?_eq_some listed
    rw [index_ok indexed] at member
    obtain ⟨⟨name, token⟩, there, rfl⟩ := List.mem_map.mp member
    rw [← injective same]
    exact there

theorem authorizedAs_presents {sha256 : String → δ} {secrets : Secrets} {header : String}
    (injective : Function.Injective sha256) (mapped : secrets.agentTokens = some tokens)
    (authorized : secrets.authorizedAs sha256 header device = .ok true) :
    Presents tokens header device := by
  simp only [Secrets.authorizedAs, Secrets.presentedDevice, mapped] at authorized
  cases carried : bearer header with
  | none =>
    simp [carried, Except.map] at authorized
  | some presented =>
    simp only [carried] at authorized
    cases found : deviceFor sha256 presented tokens with
    | error e =>
      rw [found] at authorized
      cases authorized
    | ok holder =>
      rw [found] at authorized
      have same : holder = some device := of_decide_eq_true (Except.ok.inj authorized)
      rw [same] at found
      exact ⟨presented, deviceFor_some injective found, carried⟩

end Gate

/-! ## What a handler may do for a device -/

/-- The job and the device the queue last said hold a lease. -/
def confirmed (shown : Option (String × String)) :
    (c : Call) → Except Raised (Ans c) → Option (String × String)
  | .holdsLease jobId device, .ok true => some (jobId, device)
  | _, _ => shown

/-- A call in the name of a device is for one that the request may speak for. -/
def inName (allowed : String → Prop) : Protocol Call Ans Raised (Option (String × String)) where
  may shown
    | .recordHeartbeat heartbeat => allowed heartbeat.device
    | .claim device _ _ _ | .renew _ device _ | .settle _ device _ => allowed device
    | .put jobId _ _ _ => ∃ device, shown = some (jobId, device) ∧ allowed device
    | _ => True
  note := confirmed

def Call.nameless : Call → Prop
  | .recordHeartbeat _ | .claim _ _ _ _ | .renew _ _ _ | .settle _ _ _ | .put _ _ _ _ | .holdsLease
      _ _ => False
  | _ => True

theorem nameless_idle {allowed : String → Prop} {shown : Option (String × String)} (c : Call)
    (free : c.nameless) :
    (inName allowed).may shown c ∧ ∀ r, (inName allowed).note shown c r = shown := by
  cases c with
  | recordHeartbeat _ | claim _ _ _ _ | renew _ _ _ | settle _ _ _ | put _ _ _ _ | holdsLease _ _ =>
      exact free.elim
  | _ => exact ⟨trivial, fun _ => rfl⟩

theorem inward_nameless (c : Call) (h : c.inward) : c.nameless := by
  cases c with
  | recordHeartbeat _ | claim _ _ _ _ | renew _ _ _ | settle _ _ _ | put _ _ _ _ | holdsLease _ _ | send _ => exact h.elim
  | _ => trivial

theorem only_ask {c : Call} (named : c.nameless) : (ask c).Only Call.nameless := only_call named

theorem only_refuse (status : Nat) (text : String) : (refuse status text).Only Call.nameless :=
  only_ask trivial

theorem only_jobStatus (jobId : String) : (jobStatus jobId).Only Call.nameless := by
  refine only_bind (only_ask trivial) fun job => ?_
  split
  · exact only_refuse _ _
  · exact only_bind (only_artifactOf inward_nameless _) fun _ => only_ask trivial

theorem only_jobLog (jobId : String) : (jobLog jobId).Only Call.nameless := by
  refine only_bind (only_ask trivial) fun job => ?_
  split
  · exact only_refuse _ _
  · exact only_ask trivial

theorem only_artifactDownload (jobId : String) : (artifactDownload jobId).Only Call.nameless := by
  refine only_bind (only_attempt (only_ask trivial)) fun outcome => ?_
  split
  · exact only_refuse _ _
  · trivial
  · refine only_bind (only_ask trivial) fun job => ?_
    split
    · split
      · exact only_refuse _ _
      · refine only_bind (only_ask trivial) fun opened => ?_
        split
        · exact only_ask trivial
        · exact only_refuse _ _
    · exact only_refuse _ _

theorem only_badRequest (outcome : Except Raised Unit) : (badRequest outcome).Only Call.nameless := by
  unfold badRequest
  split
  · trivial
  · exact only_refuse _ _
  · exact only_refuse _ _
  · exact only_refuse _ _
  · exact only_refuse _ _
  · trivial

/-! ## Every handler asks for the token first -/

section Follows
variable {allowed : String → Prop} {α : Type} {s : Program α} {shown : Option (String × String)}
  {post : Option (String × String) → Except Raised α → Prop}

theorem follows_nameless (only : s.Only Call.nameless) (h : ∀ r, post shown r) :
    s.Follows (inName allowed) post shown :=
  follows_of_only (nameless_idle) only h

theorem follows_refuse (status : Nat) (text : String) :
    (refuse status text).Follows (inName allowed) (fun _ _ => True) shown :=
  follows_nameless (only_refuse status text) fun _ => trivial

theorem follows_after_nameless {β : Type} {f : α → Program β} (only : s.Only Call.nameless)
    (next : ∀ a, (f a).Follows (inName allowed) (fun _ _ => True) shown) :
    (s.bind f).Follows (inName allowed) (fun _ _ => True) shown := by
  refine follows_bind (follows_nameless only fun r => ?_)
  cases r with
  | error e => trivial
  | ok a => exact next a

theorem follows_then {β : Type} {f : α → Program β}
    (h : s.Follows (inName allowed) (fun _ _ => True) shown)
    (next : ∀ shown a, (f a).Follows (inName allowed) (fun _ _ => True) shown) :
    (s.bind f).Follows (inName allowed) (fun _ _ => True) shown := by
  refine follows_bind (follows_mono h fun shown r _ => ?_)
  cases r with
  | error e => trivial
  | ok a => exact next shown a

theorem follows_reply (answer : Reply) :
    (reply answer).Follows (inName allowed) (fun _ _ => True) shown :=
  follows_nameless (only_ask trivial) fun _ => trivial

theorem reportJob_follows (jobId : String) (report : Queue.Report) (may : allowed device) :
    (reportJob jobId device report).Follows (inName allowed) (fun _ _ => True) shown := by
  refine follows_then (follows_call may fun _ => trivial) fun shown _ => ?_
  refine follows_then (follows_nameless (only_ask trivial) fun _ => trivial) fun shown job => ?_
  cases job <;> trivial

theorem settleAndPost_follows (jobId : String) (report : Queue.Report) (status : Verdict)
    (may : allowed device) :
    (settleAndPost server jobId device report status).Follows (inName allowed) (fun _ _ => True)
    shown := by
  refine follows_then (follows_attempt (reportJob_follows jobId report may)) fun shown outcome => ?_
  split
  · exact follows_then (follows_refuse _ _) fun _ _ => trivial
  · trivial
  · refine follows_after_nameless (only_postStatus inward_nameless _ _) fun failure =>
      follows_nameless ?_ fun _ => trivial
    split
    · exact only_bind (only_ask trivial) fun _ => trivial
    · trivial

/-- Past the store's answer an upload is in nobody's name. -/
theorem uploaded_follows (jobId : String) (record : Artifact) (created : Bool) :
    (uploaded jobId device record created).Follows (inName allowed) (fun _ _ => True) shown := by
  refine follows_then (follows_call trivial fun _ => trivial) fun shown holds => follows_nameless ?_
    fun _ => trivial
  split
  · exact only_bind (only_withdraw inward_nameless _ _ _) fun _ => only_refuse _ _
  · refine only_bind (only_evicted inward_nameless _ _) fun missing => ?_
    split
    · exact only_refuse _ _
    · exact only_ask trivial

variable [DecidableEq δ] (gate : ∀ device, server.secrets.authorizedAs server.sha256 q.authorization
    device = .ok true → allowed device)
include gate

/-- Past the gate the request may speak for the device. -/
theorem follows_gate {next : Program Unit}
    (inside : allowed device →
      next.Follows (inName allowed) (fun _ _ => True) shown) :
    ((authorizedAs server q device).bind fun authorized =>
      if !authorized then refuse 401 wrongDevice else next).Follows (inName allowed)
        (fun _ _ => True) shown := by
  refine follows_bind (follows_lift ?_)
  cases asked : server.secrets.authorizedAs server.sha256 q.authorization device with
  | error e => trivial
  | ok authorized =>
    cases authorized with
    | false => exact follows_refuse 401 wrongDevice
    | true => exact inside (gate device asked)

theorem agents_follows : (agents server q).Follows (inName allowed) (fun _ _ => True) shown := by
  unfold agents
  split
  · exact follows_refuse _ _
  · refine follows_after_nameless (only_lift _) fun some_device => ?_
    split
    · exact follows_refuse _ _
    · split
      · exact follows_refuse _ _
      · exact follows_refuse _ _
      · trivial
      · refine follows_gate gate fun may => follows_bind (follows_call may fun r => ?_)
        cases r with
        | error e => trivial
        | ok lastSeen => exact follows_nameless (only_ask trivial) fun _ => trivial

theorem claim_follows : (claim server q).Follows (inName allowed) (fun _ _ => True) shown := by
  refine follows_after_nameless (only_lift _) fun request => follows_after_nameless
      (only_releaseExpired inward_nameless) fun _ =>
    follows_after_nameless (only_drainStatuses inward_nameless) fun _ => follows_gate gate fun may => ?_
  refine follows_bind (follows_call may fun r => ?_)
  cases r with
  | error e => trivial
  | ok job => cases job <;> exact follows_nameless (only_ask trivial) fun _ => trivial

theorem renew_follows (jobId : String) :
    (renew server q jobId).Follows (inName allowed) (fun _ _ => True) shown := by
  refine follows_after_nameless (only_lift _) fun request => follows_gate gate fun may => ?_
  refine follows_bind (follows_call may fun r => ?_)
  cases r with
  | error e => trivial
  | ok renewed =>
    simp only [before]
    split
    · exact follows_refuse _ _
    · exact follows_nameless (only_ask trivial) fun _ => trivial

theorem report_follows (jobId : String) :
    (report server q jobId).Follows (inName allowed) (fun _ _ => True) shown := by
  refine follows_after_nameless (only_ask trivial) fun job => ?_
  split
  · exact follows_refuse _ _
  · refine follows_after_nameless (only_lift _) fun reported => follows_gate gate fun may => ?_
    refine follows_then (follows_call trivial fun _ => trivial) fun shown holds => ?_
    split
    · exact follows_refuse _ _
    · refine follows_then (settleAndPost_follows jobId _ _ may) fun shown settled => ?_
      split
      · trivial
      · exact follows_after_nameless (only_publishCheckRun inward_nameless _) fun _ =>
          follows_after_nameless (only_artifactOf inward_nameless _) fun _ => follows_reply _

theorem artifactUpload_follows (jobId : String) :
    (artifactUpload server q jobId).Follows (inName allowed) (fun _ _ => True) shown := by
  refine follows_after_nameless (only_ask trivial) fun job => ?_
  split
  · exact follows_refuse _ _
  · refine follows_gate gate fun may => follows_bind (follows_call trivial fun r => ?_)
    cases r with
    | error e => trivial
    | ok holds =>
      simp only [before]
      split
      · exact follows_refuse _ _
      · rename_i held
        simp only [Bool.not_eq_true', Bool.not_eq_false] at held
        subst held
        -- the lease is the one the store is asked to keep the archive for
        refine follows_after_nameless (only_lift _) fun length => ?_
        split
        · exact follows_refuse _ _
        · refine follows_then (follows_attempt (follows_call ⟨_, rfl, may⟩ fun _ => trivial))
            fun shown outcome => ?_
          split
          · exact follows_refuse _ _
          · trivial
          · exact uploaded_follows jobId _ _

theorem routeJob_follows (path : List Char) :
    (routeJob server q path).Follows (inName allowed) (fun _ _ => True) shown := by
  have required {expected action : String} {served : Program Unit}
      (inside : served.Follows (inName allowed) (fun _ _ => True) shown) :
      (require q expected action served).Follows (inName allowed) (fun _ _ => True) shown := by
    unfold require
    split
    · exact follows_refuse _ _
    · exact inside
  have quiet {s : Program Unit} (only : s.Only Call.nameless) :
      s.Follows (inName allowed) (fun _ _ => True) shown := follows_nameless only fun _ => trivial
  unfold routeJob
  split
  · exact required (claim_follows gate)
  split
  · exact follows_refuse _ _
  simp only
  split
  · exact follows_refuse _ _
  split
  · exact required (renew_follows gate _)
  split
  · exact required (report_follows gate _)
  split
  · exact required (quiet (only_jobStatus _))
  split
  · exact required (quiet (only_jobLog _))
  split
  · split
    · exact quiet (only_artifactDownload _)
    split
    · exact artifactUpload_follows gate _
    · exact follows_refuse _ _
  · exact follows_refuse _ _

theorem handle_follows : (handle server q).Follows (inName allowed) (fun _ _ => True) shown := by
  have jobs_follows : (jobs server q).Follows (inName allowed) (fun _ _ => True) shown := by
    unfold jobs
    split
    · exact follows_refuse _ _
    · refine follows_after_nameless (only_lift _) fun authorized => ?_
      split
      · exact follows_refuse _ _
      · exact follows_then (follows_attempt (routeJob_follows gate _)) fun shown outcome =>
          follows_nameless (only_badRequest _) fun _ => trivial
  unfold handle
  simp only
  split
  · split
    · exact jobs_follows
    · exact follows_refuse _ _
  · split
    · exact jobs_follows
    · split
      · exact agents_follows gate
      · exact follows_refuse _ _

end Follows

/-! ## What a call changes -/

/-- The job runs on the device, under a lease until then. -/
def Holds (w : World) (jobId device : String) (expiry : Option ℚ) : Prop :=
  ∃ r, w.jobs.row? jobId = some r ∧ r.status = .running ∧ r.device = some device ∧ r.leaseExpires = expiry

/-- The job's lease was spent, and it was released. -/
def Lapsed (w w' : World) (jobId : String) : Prop :=
  ∃ r now owed, w.jobs.row? jobId = some r ∧ w.jobs.spentLease now r = true ∧
    w'.jobs.row? jobId = some (Queue.Row.released r.attempts now Queue.leaseLost owed r)

/-- An archive of the job is there that was not. -/
def Stored (w w' : World) (jobId : String) : Prop :=
  (∃ record, w'.archives.row? jobId = some record ∧ w.archives.row? jobId ≠ some record) ∨
    ∃ body, w'.archives.archives jobId = some body ∧ w.archives.archives jobId ≠ some body

/-- What is done in the name of a device: its presence is recorded, a job is leased to it or its
lease moved, a job it holds is settled other than by the release of a lapsed lease, or an archive is
stored for a job that counts as its own. -/
inductive Changes (own : String → Prop) (w w' : World) (device : String) : Prop where
  | announced {agent : Queue.Agent} (now_ : w'.jobs.agents.find? device = some agent)
      (before_ : w.jobs.agents.find? device ≠ some agent)
  | leased {jobId : String} {expiry : Option ℚ} (now_ : Holds w' jobId device expiry)
      (before_ : ¬Holds w jobId device expiry)
  | settled {jobId : String} {expiry : Option ℚ} (before_ : Holds w jobId device expiry)
      (now_ : ∀ later, ¬Holds w' jobId device later) (kept : ¬Lapsed w w' jobId)
  | stored {jobId : String} (its : own jobId) (now_ : Stored w w' jobId)

section Rows
variable {s : Queue.Store} {op : Queue.Store.Op} {r r' : Queue.Row}

/-- Only a claim and a renewal give a lease. -/
theorem step_leases (step : RowStep s op r r') (running : r'.status = .running)
    (held : r'.device = some device) :
    (r.status = .running ∧ r.device = some device ∧ r.leaseExpires = r'.leaseExpires) ∨
      (∃ labels lease now limit, op = .claim device labels lease now limit) ∨
      ∃ jobId lease now, op = .renew jobId device lease now := by
  cases step with
  | same => exact Or.inl ⟨running, held, rfl⟩
  | taken claimed picked pending =>
    obtain rfl := Option.some.inj held
    exact Or.inr (Or.inl ⟨_, _, _, _, rfl⟩)
  | renewed positive named running' held' spent =>
    obtain rfl := Option.some.inj (held'.symm.trans held)
    exact Or.inr (Or.inr ⟨_, _, _, rfl⟩)
  | failed | lapsed => exact absurd running Queue.released_not_running
  | settled => exact absurd running Queue.settled_not_running
  | drained | restored | owed | cleared => exact Or.inl ⟨running, held, rfl⟩

/-- Only a report and a lapse take one. -/
theorem step_settles (step : RowStep s op r r') (running : r.status = .running)
    (held : r.device = some device)
    (gone : ¬(r'.status = .running ∧ r'.device = some device)) :
    (∃ jobId report now, op = .report jobId device report now) ∨
      ∃ now owed, s.spentLease now r = true ∧ r' = Queue.Row.released r.attempts now Queue.leaseLost
      owed r := by
  cases step with
  | same => exact absurd ⟨running, held⟩ gone
  | taken claimed picked pending =>
    rw [running] at pending
    cases pending
  | renewed | drained | restored | owed | cleared => exact absurd ⟨running, held⟩ gone
  | failed named running' held' spent failed =>
    obtain rfl := Option.some.inj (held'.symm.trans held)
    exact Or.inl ⟨_, _, _, rfl⟩
  | settled named running' held' spent failed reported =>
    obtain rfl := Option.some.inj (held'.symm.trans held)
    exact Or.inl ⟨_, _, _, rfl⟩
  | lapsed running' spent => exact Or.inr ⟨_, _, spent, rfl⟩

theorem foldl_agents {β : Type} {body : Queue.Store → β → Queue.Store}
    (one : ∀ t b, (body t b).agents = t.agents)
    (todo : List β) : (todo.foldl body s).agents = s.agents := by
  induction todo generalizing s with
  | nil => rfl
  | cons b rest ih => exact (ih (s := body s b)).trans (one s b)

end Rows

/-- The transaction a call of the queue runs. -/
def Call.op? (k : Choice) : Call → Option Queue.Store.Op
  | .recordHeartbeat heartbeat => some (.recordHeartbeat (heartbeat.agent k.now))
  | .reclaimExpired => some (.reclaimExpired k.now (some lostVerdict))
  | .claim device labels leaseSeconds limit => some (.claim device labels leaseSeconds k.now (some limit))
  | .renew jobId device leaseSeconds => some (.renew jobId device leaseSeconds k.now)
  | .settle jobId device report => some (.report jobId device report k.now)
  | .claimOwed => some .claimOwed
  | .restoreStatus jobId status seq => some (.restoreStatus jobId status seq)
  | .oweStatus jobId status => some (.oweStatus jobId status)
  | _ => none

section Answers
variable {depot : Depot} {k : Choice} {w w' : World} {c : Call} {r : Except Raised (Ans c)}

theorem transact_jobs {α : Type} (result : Except Queue.QueueError (α × Queue.Store)) :
    (w.transact result).2.jobs = w.jobs.kept result := by
  cases result <;> rfl

theorem transact_archives {α : Type} (result : Except Queue.QueueError (α × Queue.Store)) :
    (w.transact result).2.archives = w.archives := by
  cases result <;> rfl

theorem handle_jobs {α : Type} (result : Except Archive.StoreError (α × ArtifactStore)) :
    (w.handle result).2.jobs = w.jobs := by
  cases result <;> rfl

theorem handle_archives {α : Type} (result : Except Archive.StoreError (α × ArtifactStore)) :
    (w.handle result).2.archives = w.archives.kept result := by
  cases result <;> rfl

/-- What is left of a call that raised is what it was or what the call made of it. -/
theorem perform_left (performed : perform depot k w c = some (r, w')) :
    w' = w ∨ w' = (answer depot k w c).2 := by
  unfold perform at performed
  split at performed
  · exact Or.inr (Prod.mk.inj (Option.some.inj performed)).2.symm
  · split at performed
    · obtain ⟨-, rfl⟩ := Prod.mk.inj (Option.some.inj performed)
      split
      · exact Or.inr rfl
      · exact Or.inl rfl
    · cases performed

theorem answer_jobs : (answer depot k w c).2.jobs = w.jobs ∨
    ∃ op, c.op? k = some op ∧ (answer depot k w c).2.jobs = w.jobs.apply op := by
  cases c with
  | recordHeartbeat _ | claim _ _ _ _ | renew _ _ _ => exact Or.inr ⟨_, rfl, transact_jobs _⟩
  | settle jobId device report =>
    refine Or.inr ⟨_, rfl, (transact_jobs _).trans ?_⟩
    simp only [Queue.Store.apply, Queue.Store.report]
    cases w.jobs.settle jobId device report k.now <;> rfl
  | reclaimExpired | claimOwed | restoreStatus _ _ _ | oweStatus _ _ => exact Or.inr ⟨_, rfl, rfl⟩
  | put _ _ _ _ | artifact _ | openArchive _ => exact Or.inl (handle_jobs _)
  | _ => exact Or.inl rfl

theorem claim_agents {s t : Queue.Store} {device : String} {labels : List String}
    {leaseSeconds : Int} {now : ℚ}
    {limit : Option Int} {job : Option Job}
    (claimed : s.claim device labels leaseSeconds now limit = .ok (job, t)) :
    t.agents = s.agents := by
  unfold Queue.Store.claim at claimed
  split at claimed
  · cases claimed
  · split at claimed
    · cases claimed
    · split at claimed
      · obtain ⟨-, rfl⟩ := Prod.mk.inj (Except.ok.inj claimed)
        rfl
      · obtain ⟨-, rfl⟩ := Prod.mk.inj (Except.ok.inj claimed)
        rfl

/-- Only a heartbeat writes the presence of a device. -/
theorem answer_agents (other : ∀ heartbeat, c ≠ .recordHeartbeat heartbeat) :
    (answer depot k w c).2.jobs.agents = w.jobs.agents := by
  cases c with
  | recordHeartbeat heartbeat => exact absurd rfl (other heartbeat)
  | claim device labels leaseSeconds limit =>
    refine (congrArg Queue.Store.agents (transact_jobs _)).trans ?_
    rcases Queue.Store.kept_cases (s := w.jobs)
        (w.jobs.claim device labels leaseSeconds k.now (some limit)) with
      same | ⟨job, t, claimed, same⟩
    · rw [same]
    · rw [same, claim_agents claimed]
  | renew jobId device leaseSeconds =>
    refine (congrArg Queue.Store.agents (transact_jobs _)).trans ?_
    unfold Queue.Store.renew
    split <;> rfl
  | settle jobId device report =>
    refine (congrArg Queue.Store.agents (transact_jobs _)).trans ?_
    cases settled : w.jobs.settle jobId device report k.now with
    | error e => rfl
    | ok t =>
      obtain ⟨row, -, -, -, -, ending⟩ := Queue.Store.settle_cases settled
      rcases ending with ⟨-, rfl⟩ | ⟨-, _, -, rfl⟩ <;> rfl
  | reclaimExpired =>
    simp only [answer, Queue.Store.reclaimExpired, Queue.Store.expire]
    split
    · rfl
    · change Queue.Store.agents (List.foldl _ _ _) = _
      refine foldl_agents (fun t job => ?_) _
      rfl
  | claimOwed =>
    change Queue.Store.agents (List.foldl _ _ _) = _
    refine foldl_agents (fun t owed => ?_) _
    rfl
  | put _ _ _ _ | artifact _ | openArchive _ => exact congrArg Queue.Store.agents (handle_jobs _)
  | _ => rfl

/-- A call leaves each archive of a job as it was, or takes it away. -/
structure Fewer (jobId : String) (s t : ArtifactStore) : Prop where
  row : ∀ record, t.row? jobId = some record → s.row? jobId = some record
  body : ∀ body, t.archives jobId = some body → s.archives jobId = some body

theorem fewer_refl {jobId : String} (s : ArtifactStore) : Fewer jobId s s := ⟨fun _ h => h, fun _ h => h⟩

theorem Fewer.trans {jobId : String} {s t u : ArtifactStore} (h : Fewer jobId s t)
    (h' : Fewer jobId t u) : Fewer jobId s u :=
  ⟨fun record there => h.row record (h'.row record there), fun body there =>
  h.body body (h'.body body there)⟩

theorem unlinked {jobId : String} {archives : Directory String (List UInt8)} {names : List String}
    {body : List UInt8}
    (there : archives.unlinkAll names jobId = some body) : archives jobId = some body := by
  rw [Directory.unlinkAll_apply] at there
  split at there
  · cases there
  · exact there

theorem fewer_look {jobId : String} (s : ArtifactStore) (other : String) (now : ℚ) :
    Fewer jobId s (s.look other now).2 :=
  ⟨(ArtifactStore.look_lessens s other now).row, fun _ there => unlinked there⟩

theorem fewer_discard {jobId : String} (s : ArtifactStore) (other : String) (digest : Option String)
    (createdAt : Option ℚ) :
    Fewer jobId s (s.discard other digest createdAt) :=
  ⟨(ArtifactStore.discard_lessens s other digest createdAt).row, fun _ there => unlinked there⟩

theorem fewer_get (jobId : String) (s : ArtifactStore) (other : String) (now : ℚ) :
    Fewer jobId s (s.kept (s.get other now)) := by
  unfold ArtifactStore.get
  cases Archive.archivePath other with
  | error e => exact fewer_refl s
  | ok name =>
    simp only [Except.map, ArtifactStore.kept]
    split
    · exact fewer_look s other now
    · split
      · exact fewer_look s other now
      · exact (fewer_look s other now).trans (fewer_discard _ _ _ _)

theorem fewer_openArchive {jobId : String} (s : ArtifactStore) (other : String) (now : ℚ) :
    Fewer jobId s (s.kept ((s.openArchive other now).map fun x => (x.1.isSome, x.2))) := by
  have got := fewer_get jobId s other now
  unfold ArtifactStore.openArchive
  cases looked : s.get other now with
  | error e => exact fewer_refl s
  | ok x =>
    rw [looked] at got
    exact got

/-- A store of an archive touches no other job's. -/
theorem fewer_put {sha256 : List UInt8 → String} {limits : Archive.Limits}
    {jobId other repository : String}
    {source : List (List UInt8)} {contentLength : Int} {now : ℚ} (s : ArtifactStore)
    (apart : jobId ≠ other) :
    Fewer jobId s (s.kept (s.put sha256 limits other repository source contentLength now)) := by
  unfold ArtifactStore.put
  cases Archive.ArtifactStore.receive limits other source contentLength with
  | error e => exact fewer_refl s
  | ok body =>
    refine ⟨(ArtifactStore.publish_lessens apart).row, fun held there => ?_⟩
    simp only [Except.map, ArtifactStore.kept] at there
    cases found : (Artifacts.expire s.rows now).1.find? other with
    | some existing =>
      rw [ArtifactStore.publish_standing found] at there
      exact unlinked there
    | none =>
      obtain ⟨inserted, -, state⟩ := ArtifactStore.publish_fresh sha256 limits repository body found
      rw [state] at there
      have installed := unlinked there
      rwa [Directory.install_apply, if_neg apart] at installed

/-- Only an upload stores an archive, and of its own job. -/
theorem answer_archives {jobId : String}
    (other : ∀ repository source contentLength, c ≠ .put jobId repository source contentLength) :
    Fewer jobId w.archives (answer depot k w c).2.archives := by
  cases c with
  | put target repository source contentLength =>
    rw [answer, handle_archives]
    exact fewer_put w.archives fun same => other repository source contentLength (by rw [same])
  | artifact target =>
    rw [answer, handle_archives]
    exact fewer_get _ w.archives target k.now
  | openArchive target =>
    rw [answer, handle_archives]
    exact fewer_openArchive w.archives target k.now
  | discard target digest createdAt => exact fewer_discard w.archives target digest createdAt
  | recordHeartbeat _ | claim _ _ _ _ | renew _ _ _ | settle _ _ _ =>
    rw [answer, transact_archives]
    exact fewer_refl _
  | _ => exact fewer_refl _

end Answers

/-! ## Whose token -/

section Owned
variable {depot : Depot} {k : Choice} {w w' : World} {c : Call} {r : Except Raised (Ans c)}
    {jobId : String}

theorem announced_call {agent : Queue.Agent} (performed : perform depot k w c = some (r, w'))
    (now_ : w'.jobs.agents.find? device = some agent)
    (before_ : w.jobs.agents.find? device ≠ some agent) :
    ∃ heartbeat, c = .recordHeartbeat heartbeat ∧ heartbeat.device = device := by
  rcases perform_left performed with rfl | rfl
  · exact absurd now_ before_
  by_cases heard : ∃ heartbeat, c = .recordHeartbeat heartbeat
  · obtain ⟨heartbeat, rfl⟩ := heard
    refine ⟨heartbeat, rfl, ?_⟩
    by_contra other
    rw [answer, transact_jobs, Queue.Store.recordHeartbeat] at now_
    split at now_
    · exact before_ now_
    · simp only [Queue.Store.kept, Queue.Store.pruneAgents, Table.find?_replace] at now_
      rw [if_neg (show ¬(heartbeat.agent k.now).device = device from other)] at now_
      obtain ⟨member, rfl⟩ := Table.find?_some now_
      exact before_ (Table.find?_of_mem (List.mem_filter.mp member).1)
  · push Not at heard
    rw [answer_agents heard] at now_
    exact absurd now_ before_

theorem perform_jobs (performed : perform depot k w c = some (r, w')) :
    w'.jobs = w.jobs ∨ ∃ op, c.op? k = some op ∧ w'.jobs = w.jobs.apply op := by
  rcases perform_left performed with rfl | rfl
  · exact Or.inl rfl
  · exact answer_jobs

theorem leased_call {expiry : Option ℚ} (performed : perform depot k w c = some (r, w'))
    (now_ : Holds w' jobId device expiry) (before_ : ¬Holds w jobId device expiry) :
    (∃ labels lease limit, c = .claim device labels lease limit) ∨ ∃ jobId lease,
    c = .renew jobId device lease := by
  rcases perform_jobs performed with same | ⟨op, runs, same⟩
  · unfold Holds at now_ before_
    rw [same] at now_
    exact absurd now_ before_
  · obtain ⟨row', found', running, held, expires⟩ := now_
    rw [same] at found'
    cases found : w.jobs.row? jobId with
    | none =>
      have fresh := (Queue.Store.apply_fresh op found found').2
      rw [running] at fresh
      cases fresh
    | some row =>
      obtain ⟨row'', found'', step⟩ := Queue.Store.apply_row op found
      obtain rfl := Option.some.inj (found'.symm.trans found'')
      rcases step_leases step running held with ⟨ran, had, until_⟩ |
        ⟨labels, lease, now, limit, rfl⟩ | ⟨id, lease, now, rfl⟩
      · exact absurd ⟨row, found, ran, had, until_.trans expires⟩ before_
      · cases c with
        | claim name offered seconds most =>
          obtain ⟨rfl, -⟩ := Queue.Store.Op.claim.inj (Option.some.inj runs)
          exact Or.inl ⟨_, _, _, rfl⟩
        | _ => cases runs
      · cases c with
        | renew named name seconds =>
          obtain ⟨-, rfl, -⟩ := Queue.Store.Op.renew.inj (Option.some.inj runs)
          exact Or.inr ⟨_, _, rfl⟩
        | _ => cases runs

theorem settled_call {expiry : Option ℚ} (performed : perform depot k w c = some (r, w'))
    (before_ : Holds w jobId device expiry) (now_ : ∀ later, ¬Holds w' jobId device later)
    (kept : ¬Lapsed w w' jobId) :
    ∃ jobId report, c = .settle jobId device report := by
  obtain ⟨row, found, running, held, -⟩ := before_
  rcases perform_jobs performed with same | ⟨op, runs, same⟩
  · refine absurd ⟨row, ?_, running, held, rfl⟩ (now_ row.leaseExpires)
    rw [same]
    exact found
  · obtain ⟨row', found', step⟩ := Queue.Store.apply_row op found
    rw [← same] at found'
    have gone : ¬(row'.status = .running ∧ row'.device = some device) :=
      fun still => now_ row'.leaseExpires ⟨row', found', still.1, still.2, rfl⟩
    rcases step_settles step running held gone with ⟨id, report, now, rfl⟩ | ⟨now, owed, spent, rfl⟩
    · cases c with
      | settle named name settled =>
        obtain ⟨-, rfl, -⟩ := Queue.Store.Op.report.inj (Option.some.inj runs)
        exact ⟨_, _, rfl⟩
      | _ => cases runs
    · exact absurd ⟨row, now, owed, found, spent, found'⟩ kept

theorem stored_call (performed : perform depot k w c = some (r, w')) (stored : Stored w w' jobId) :
    ∃ repository source contentLength, c = .put jobId repository source contentLength := by
  by_contra other
  push Not at other
  have fewer : Fewer jobId w.archives w'.archives := by
    rcases perform_left performed with rfl | rfl
    · exact fewer_refl _
    · exact answer_archives other
  rcases stored with ⟨record, there, absent⟩ | ⟨body, there, absent⟩
  · exact absent (fewer.row record there)
  · exact absent (fewer.body body there)

end Owned

section Claim
variable [DecidableEq δ] {depot : Depot} {k : Choice} {w w' : World} {c : Call}
    {r : Except Raised (Ans c)}
  {next : Except Raised (Ans c) → Program Unit} {shown : Option (String × String)}

/-- With a token map, whatever a request changes in the name of a device it changes with that
device's token, at any moment of its handling and whatever the others do meanwhile; and an archive
is stored only for a job that the queue has just said a device holds. -/
theorem device_named_by_token (injective : Function.Injective server.sha256)
    (mapped : server.secrets.agentTokens = some tokens)
    (amid : Amid confirmed (perform depot) (handle server q) none (.ask c next) shown)
    (performed : perform depot k w c = some (r, w')) :
    (∀ device, Changes (fun jobId => shown = some (jobId, device)) w w' device →
      Presents tokens q.authorization device) ∧
      ∀ jobId, Stored w w' jobId → ∃ device, shown = some (jobId, device) := by
  have gate (device : String) : server.secrets.authorizedAs server.sha256 q.authorization
      device = .ok true →
      Presents tokens q.authorization device := authorizedAs_presents injective mapped
  have may := (follows_amid (handle_follows gate) amid).1
  refine ⟨fun device changes => ?_, fun jobId stored => ?_⟩
  · cases changes with
    | announced now_ before_ =>
      obtain ⟨heartbeat, rfl, rfl⟩ := announced_call performed now_ before_
      exact may
    | leased now_ before_ =>
      rcases leased_call performed now_ before_ with ⟨_, _, _, rfl⟩ | ⟨_, _, rfl⟩ <;> exact may
    | settled before_ now_ kept =>
      obtain ⟨_, _, rfl⟩ := settled_call performed before_ now_ kept
      exact may
    | stored its now_ =>
      obtain ⟨_, _, _, rfl⟩ := stored_call performed now_
      obtain ⟨holder, same, presents⟩ := may
      obtain rfl := (Prod.mk.inj (Option.some.inj (its.symm.trans same))).2
      exact presents
  · obtain ⟨_, _, _, rfl⟩ := stored_call performed stored
    obtain ⟨holder, same, -⟩ := may
    exact ⟨holder, same⟩

end Claim

/-! ## Two devices -/

instance (w : World) (jobId device : String) (expiry : Option ℚ) :
    Decidable (Holds w jobId device expiry) :=
  decidable_of_iff ((w.jobs.row? jobId).any fun r =>
      r.status = .running && r.device = some device && r.leaseExpires = expiry) <| by
    simp only [Option.any_eq_true, Bool.and_eq_true, decide_eq_true_eq, and_assoc, Holds]

def plainDepot : Depot := ⟨fun _ => "", Archive.shippedLimits⟩

def emptyWorld : World := ⟨Queue.Store.empty, ArtifactStore.empty⟩

def piTokens : Tokens := Table.empty.replace ("pi", "pi-secret")

def piServer : Server String :=
  { py := plainConversions, sha256 := id
    secrets := { agentToken := some "shared", agentTokens := some piTokens, poolToken := some "pool", dispatchToken := none }
    jobsDb := true, github := true, leaseSeconds := 300, maxRepositoryRunning := 2, positive := by decide
    maxBytes := 1000 }

def pairServer : Server String :=
  { piServer with py := countConversions, secrets := mappedSecrets pair }

def runId : String := "00112233445566778899aabbccddeeff"

/-- One run waits, then the first device has it, then its lease is spent and the second has it. -/
def waiting : World :=
  { emptyWorld with
    jobs := Queue.Store.empty.apply (.enqueue { repository := "acme/app", sha := "c0ffee", ref := "main" } runId 0) }

def atPi : World := { waiting with jobs := waiting.jobs.apply (.claim "pi" [] 300 0 none) }

def atNas : World :=
  { atPi with
    jobs := (atPi.jobs.apply (.reclaimExpired 1000 (some lostVerdict))).apply (.claim "nas" [] 300 2000 none) }

def piHeartbeat : Request :=
  { command := "POST", path := agentHeartbeatPath, authorization := "Bearer first"
    body := some (.ok (.obj [("device", .str "pi"), ("labels", .arr [.str "fallback"]),
    ("max_concurrency", .int 1)])) }

def piClaim : Request :=
  { command := "POST", path := "/v1/jobs/claim", authorization := "Bearer first"
    body := some (.ok (.obj [("device", .str "pi")])) }

def piRenewal : Request :=
  { command := "POST", path := "/v1/jobs/" ++ runId ++ "/renew", authorization := "Bearer first"
    body := some (.ok (.obj [("device", .str "pi")])) }

def piReport : Request :=
  { command := "POST", path := "/v1/jobs/" ++ runId ++ "/report", authorization := "Bearer first"
    body := some (.ok (.obj [("device", .str "pi"), ("exit_code", .int 0)])) }

def piUpload : Request :=
  { command := "POST", path := "/v1/jobs/" ++ runId ++ "/artifacts",
      authorization := "Bearer first", deviceHeader := "pi"
    contentLength := some "1", source := [[1]] }

section Moments
variable {server : Server String} {q : Request} {shown : Option (String × String)} {k : Choice}
    {w : World}

/-- The state after the call a request makes next, once its earlier calls have met these moments. -/
def afterNext (server : Server String) (q : Request) (moments : List (Choice × World)) (k : Choice)
    (w : World) :
    Option (World × Option (String × String)) :=
  match leftAt confirmed (perform plainDepot) moments (handle server q) none with
  | (.ask c _, shown) => (perform plainDepot k w c).map fun x => (x.2, shown)
  | _ => none

theorem afterNext_amid {moments : List (Choice × World)} {w' : World}
    (done : afterNext server q moments k w = some (w', shown)) :
    ∃ c next r, Amid confirmed (perform plainDepot) (handle server q) none (.ask c next) shown ∧
      perform plainDepot k w c = some (r, w') := by
  have outset : Amid confirmed (perform plainDepot) (handle server q) none (handle server q) none :=
    .begun
  have amid := amid_leftAt moments outset
  unfold afterNext at done
  split at done
  · rename_i c next seen left
    obtain ⟨⟨r, after⟩, performed, same⟩ := Option.map_eq_some_iff.mp done
    obtain ⟨rfl, rfl⟩ := Prod.mk.inj same
    rw [left] at amid
    exact ⟨c, next, r, amid, performed⟩
  · cases done

end Moments

/-- The call a request makes next changes something for the device whose token it carries. -/
def SpeaksForPi (q : Request) (moments : List (Choice × World)) (w : World) : Prop :=
  ∃ w' shown, afterNext pairServer q moments { now := 10 } w = some (w', shown) ∧
    Changes (fun jobId => shown = some (jobId, "pi")) w w' "pi" ∧
    Presents (parseTokens plainConversions pair) q.authorization "pi"

/-- The device's own token is what each of its five requests was carrying when it made its change. -/
theorem pi_speaks_for_itself :
    SpeaksForPi piHeartbeat [] emptyWorld ∧ SpeaksForPi piClaim [({}, waiting), ({}, waiting)] waiting ∧
      SpeaksForPi piRenewal [] atPi ∧ SpeaksForPi piReport
      [({ now := 10 }, atPi), ({ now := 10 }, atPi)] atPi ∧
      SpeaksForPi piUpload [({ now := 10 }, atPi), ({ now := 10 }, atPi)] atPi := by
  have named (q : Request) (moments : List (Choice × World)) (w w' : World)
      (shown : Option (String × String))
      (done : afterNext pairServer q moments { now := 10 } w = some (w', shown))
      (changes : Changes (fun jobId => shown = some (jobId, "pi")) w w' "pi") :
      Presents (parseTokens plainConversions pair) q.authorization "pi" := by
    obtain ⟨c, next, r, amid, performed⟩ := afterNext_amid done
    exact (device_named_by_token (fun _ _ same => same) rfl amid performed).1 "pi" changes
  -- what each request did is read off the state it left
  have seen (q : Request) (moments : List (Choice × World)) (w : World)
      (test : World × Option (String × String) → Bool)
      (holds : (afterNext pairServer q moments { now := 10 } w).any test = true) :
      ∃ w' shown, afterNext pairServer q moments { now := 10 } w = some (w', shown) ∧
      test (w', shown) = true := by
    obtain ⟨⟨w', shown⟩, done, passed⟩ := (Option.any_eq_true _ _).mp holds
    exact ⟨w', shown, done, passed⟩
  refine ⟨?_, ?_, ?_, ?_, ?_⟩
  · obtain ⟨w', shown, done, there⟩ := seen piHeartbeat [] emptyWorld
      (fun x => x.1.jobs.agents.find? "pi" = some ⟨"pi", ["fallback"], 1, 10, []⟩) (by decide +kernel)
    have changes : Changes (fun jobId => shown = some (jobId, "pi")) emptyWorld w' "pi" :=
      .announced (of_decide_eq_true there) (by decide +kernel)
    exact ⟨w', shown, done, changes, named _ _ _ _ _ done changes⟩
  · obtain ⟨w', shown, done, there⟩ := seen piClaim [({}, waiting), ({}, waiting)] waiting
      (fun x => Holds x.1 runId "pi" (some 310)) (by decide +kernel)
    have changes : Changes (fun jobId => shown = some (jobId, "pi")) waiting w' "pi" :=
      .leased (of_decide_eq_true there) (by decide +kernel)
    exact ⟨w', shown, done, changes, named _ _ _ _ _ done changes⟩
  · obtain ⟨w', shown, done, there⟩ :=
      seen piRenewal [] atPi (fun x => Holds x.1 runId "pi" (some 310)) (by decide +kernel)
    have changes : Changes (fun jobId => shown = some (jobId, "pi")) atPi w' "pi" :=
      .leased (of_decide_eq_true there) (by decide +kernel)
    exact ⟨w', shown, done, changes, named _ _ _ _ _ done changes⟩
  · obtain ⟨w', shown, done, there⟩ := seen piReport [({ now := 10 }, atPi), ({ now := 10 }, atPi)] atPi
      (fun x => (x.1.jobs.row? runId).map Queue.Row.status = some .success) (by decide +kernel)
    have ended : (w'.jobs.row? runId).map Queue.Row.status = some .success := of_decide_eq_true there
    have changes : Changes (fun jobId => shown = some (jobId, "pi")) atPi w' "pi" := by
      refine .settled (show Holds atPi runId "pi" (some 300) by decide +kernel) ?_ ?_
      · rintro later ⟨r, found, running, -⟩
        simp [found, running] at ended
      · rintro ⟨r, now, owed, -, -, found⟩
        rw [found] at ended
        have given : (if Queue.parked r.attempts then Queue.JobStatus.dead else .pending) =
          .success := Option.some.inj ended
        split at given <;> cases given
    exact ⟨w', shown, done, changes, named _ _ _ _ _ done changes⟩
  · obtain ⟨w', shown, done, there⟩ := seen piUpload [({ now := 10 }, atPi), ({ now := 10 }, atPi)] atPi
      (fun x => (x.1.archives.row? runId).isSome && x.2 = some (runId, "pi")) (by decide +kernel)
    obtain ⟨kept, confirmed⟩ := (Bool.and_eq_true _ _).mp there
    obtain ⟨record, row⟩ := Option.isSome_iff_exists.mp kept
    have fresh : atPi.archives.row? runId = none := by decide +kernel
    have changes : Changes (fun jobId => shown = some (jobId, "pi")) atPi w' "pi" :=
      .stored (of_decide_eq_true confirmed) (Or.inl ⟨record, row, by simp [fresh]⟩)
    exact ⟨w', shown, done, changes, named _ _ _ _ _ done changes⟩

/-- While the first device's upload arrives, its lease is spent and the run goes to the second
device: what is stored then is the archive of a run the second device holds, and the request carried
the first one's token. -/
theorem late_upload_stored_for_other :
    ¬ ∀ (q : Request) (k : Choice) (w w' : World) (c : Call) (r : Except Raised (Ans c))
      (next : Except Raised (Ans c) → Program Unit) (shown : Option (String × String)) (device : String),
      Amid confirmed (perform plainDepot) (handle pairServer q) none (.ask c next) shown →
      perform plainDepot k w c = some (r, w') →
      Changes (fun jobId => ∃ expiry, Holds w jobId device expiry) w w' device →
      Presents (parseTokens plainConversions pair) q.authorization device := by
  intro named
  obtain ⟨⟨w', shown⟩, done, stored⟩ := (Option.any_eq_true _ _).mp
    (show (afterNext pairServer piUpload [({ now := 10 }, atPi), ({ now := 10 }, atPi)]
      { now := 2010 } atNas).any
      (fun x => (x.1.archives.row? runId).isSome) = true by decide +kernel)
  obtain ⟨c, next, r, amid, performed⟩ := afterNext_amid done
  obtain ⟨record, row⟩ := Option.isSome_iff_exists.mp stored
  have fresh : atNas.archives.row? runId = none := by decide +kernel
  have held : ∃ expiry, Holds atNas runId "nas" expiry := ⟨some 2300, by decide +kernel⟩
  obtain ⟨token, listed, carried⟩ :=
    named piUpload { now := 2010 } atNas w' c r next shown "nas" amid performed
    (.stored held (Or.inl ⟨record, row, by simp [fresh]⟩))
  have first : bearer piUpload.authorization = some "first" := by decide +kernel
  rw [first] at carried
  obtain rfl := Option.some.inj carried
  exact absurd listed (by decide +kernel)

end Cindral.Agent

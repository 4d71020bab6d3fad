import Cindral.Agent.Parts
import Cindral.Device.Client
import Mathlib.Data.List.TakeWhile

/-!
# What the broker makes of a message

A device's message reaches one handler. That handler settles a run only as the message says, hands
over only the job the queue gave it, and says that a run was reported only once it was.
-/

namespace Cindral.Device
open Base Script
open Agent (Ans Conversions Program Raised Reply Request Server)
open Queue (Job Owed)

/-- The job, the device and the exit code a message settles a run with: no exit code where the
device lost the run. -/
def Message.verdict? : Message → Option (String × String × Option Int)
  | report jobId device exitCode .. => some (jobId, device, some exitCode)
  | reportLost jobId device .. => some (jobId, device, none)
  | _ => none

/-- The exit code a report settles a run with: none where it names an error of the device. -/
def settles (report : Queue.Report) : Option Int := if report.error = "" then report.exitCode else none

inductive Told where
  | nothing
  | handed (job : Job)
  | settled (verdict : String × String × Option Int)

def heard (told : Told) : (c : Agent.Call) → Except Raised (Ans c) → Told
  | .claim _ _ _ _, .ok (some job) => .handed job
  | .settle jobId device report, .ok () => .settled (jobId, device, settles report)
  | _, _ => told

/-- The answers a message may get, by what the queue has said. -/
def Message.fits (m : Message) (told : Told) : Reply → Prop
  | .refused status _ => 400 ≤ status
  | .claimed job => m.verdict? = none ∧ told = .handed job
  | .reported _ _ _ => ∃ verdict, m.verdict? = some verdict ∧ told = .settled verdict
  | _ => m.verdict? = none

def meant (m : Message) : Protocol Agent.Call Ans Raised Told where
  may told
    | .claim _ _ _ _ => m.verdict? = none ∧ told = .nothing
    | .settle jobId device report => m.verdict? = some (jobId, device, settles report)
    | .send reply => m.fits told reply
    | _ => True
  note := heard

/-- A call that says nothing and takes nothing. -/
def silent : Agent.Call → Prop
  | .claim _ _ _ _ | .settle _ _ _ | .send _ => False
  | _ => True

theorem silent_idle {m : Message} {told : Told} (c : Agent.Call) (free : silent c) :
    (meant m).may told c ∧ ∀ r, (meant m).note told c r = told := by
  cases c with
  | claim _ _ _ _ | settle _ _ _ | send _ => exact free.elim
  | _ => exact ⟨trivial, fun _ => rfl⟩

theorem inward_silent (c : Agent.Call) (h : c.inward) : silent c := by
  cases c with
  | claim _ _ _ _ | settle _ _ _ | send _ => exact h.elim
  | _ => trivial

theorem silent_ask {c : Agent.Call} (free : silent c) : (Agent.ask c).Only silent := only_call free

/-! ## The handlers -/

section Follows
variable {δ : Type} {server : Server δ} {q : Request} {m : Message} {told : Told} {α β : Type}
    {s : Program α}

theorem follows_silent (only : s.Only silent) {post : Told → Except Raised α → Prop}
    (h : ∀ r, post told r) :
    s.Follows (meant m) post told := follows_of_only silent_idle only h

/-- A part that tells the handler nothing, and what follows it. -/
theorem follows_after {f : α → Program β} (only : s.Only silent)
    (next : ∀ a, (f a).Follows (meant m) (fun _ _ => True) told) :
    (s.bind f).Follows (meant m) (fun _ _ => True) told := by
  apply follows_bind
  apply follows_silent only
  intro r
  cases r with
  | error e => trivial
  | ok a => exact next a

theorem follows_reply {answer : Reply} (fits : m.fits told answer) :
    (Agent.reply answer).Follows (meant m) (fun _ _ => True) told :=
  follows_call fits fun _ => trivial

theorem follows_refuse {status : Nat} (text : String) (failed : 400 ≤ status) :
    (Agent.refuse status text).Follows (meant m) (fun _ _ => True) told := follows_reply failed

variable [DecidableEq δ]

theorem agents_follows (mute : m.verdict? = none) :
    (Agent.agents server q).Follows (meant m) (fun _ _ => True) told := by
  unfold Agent.agents
  split
  · exact follows_refuse _ (by decide)
  apply follows_after (only_lift _)
  intro authorized
  split
  · exact follows_refuse _ (by decide)
  split
  · exact follows_refuse _ (by decide)
  · exact follows_refuse _ (by decide)
  · trivial
  · apply follows_after (only_lift _)
    intro itself
    split
    · exact follows_refuse _ (by decide)
    · exact follows_after (silent_ask trivial) fun _ => follows_reply mute

theorem claim_follows (mute : m.verdict? = none) :
    (Agent.claim server q).Follows (meant m) (fun _ _ => True) .nothing := by
  apply follows_after (only_lift _)
  intro request
  apply follows_after (Agent.only_releaseExpired inward_silent)
  intro _
  apply follows_after (Agent.only_drainStatuses inward_silent)
  intro _
  apply follows_after (only_lift _)
  intro itself
  split
  · exact follows_refuse _ (by decide)
  have may : (meant m).may .nothing (.claim request.device request.labels request.leaseSeconds
      server.maxRepositoryRunning) :=
    ⟨mute, rfl⟩
  apply follows_bind
  apply follows_call may
  intro r
  cases r with
  | error e => trivial
  | ok job =>
    cases job with
    | none => exact follows_reply mute
    | some job => exact follows_reply ⟨mute, rfl⟩

theorem renew_follows (mute : m.verdict? = none) (jobId : String) :
    (Agent.renew server q jobId).Follows (meant m) (fun _ _ => True) told := by
  apply follows_after (only_lift _)
  intro renewal
  apply follows_after (only_lift _)
  intro itself
  split
  · exact follows_refuse _ (by decide)
  apply follows_after (silent_ask (by trivial))
  intro renewed
  split
  · exact follows_refuse _ (by decide)
  · exact follows_reply mute

theorem artifactUpload_follows (mute : m.verdict? = none) (jobId : String) :
    (Agent.artifactUpload server q jobId).Follows (meant m) (fun _ _ => True) told := by
  apply follows_after (silent_ask (by trivial))
  intro job
  split
  · exact follows_refuse _ (by decide)
  apply follows_after (only_lift _)
  intro itself
  split
  · exact follows_refuse _ (by decide)
  apply follows_after (silent_ask (by trivial))
  intro holds
  split
  · exact follows_refuse _ (by decide)
  apply follows_after (only_lift _)
  intro length
  split
  · exact follows_refuse _ (by decide)
  apply follows_after (only_attempt (silent_ask (by trivial)))
  intro outcome
  split
  · exact follows_refuse _ (by decide)
  · trivial
  · apply follows_after (silent_ask (by trivial))
    intro held
    split
    · exact follows_after (Agent.only_withdraw inward_silent _ _ _) fun _ => follows_refuse _ (by decide)
    · apply follows_after (Agent.only_evicted inward_silent _ _)
      intro missing
      split
      · exact follows_refuse _ (by decide)
      · exact follows_reply mute

omit [DecidableEq δ] in
/-- Where a report settles a run, what is left of it says so. -/
theorem settleAndPost_follows {jobId device : String} {report : Queue.Report} (status : Queue.Verdict)
    (says_ : m.verdict? = some (jobId, device, settles report)) :
    (Agent.settleAndPost server jobId device report status).Follows (meant m)
      (fun told r => ∀ job, r = .ok (some job) → told = .settled (jobId, device, settles report))
      told := by
  have recorded : (Agent.reportJob jobId device report).Follows (meant m)
      (fun told r => ∀ job, r = .ok job → told = .settled (jobId, device, settles report)) told := by
    apply follows_bind
    apply follows_call says_
    intro r
    cases r with
    | error e => exact fun job done => nomatch done
    | ok _ =>
      apply follows_bind
      apply follows_silent (silent_ask (by trivial))
      intro r
      cases r with
      | error e => exact fun job done => nomatch done
      | ok job =>
        cases job with
        | none => exact fun job done => nomatch done
        | some job => exact fun _ _ => rfl
  apply follows_bind
  apply follows_attempt
  apply follows_mono recorded
  intro told r kept
  cases r with
  | error e =>
    cases e with
    | valueError text =>
      apply follows_bind
      apply follows_call (show 400 ≤ 409 by decide)
      intro r
      cases r <;> exact fun job done => nomatch done
    | _ => exact fun job done => nomatch done
  | ok job =>
    have settled := kept job rfl
    apply follows_bind
    apply follows_silent (Agent.only_postStatus inward_silent _ _)
    intro r
    cases r with
    | error e => exact fun job done => nomatch done
    | ok failure =>
      apply follows_silent
      · dsimp only
        split
        · exact only_bind (silent_ask trivial) fun _ => trivial
        · trivial
      · intro r job done
        exact settled

theorem report_follows {jobId : String}
    (read : ∀ reported, (q.readJson server.py >>= Agent.readReport server.py) = .ok reported →
      m.verdict? = some (jobId, reported.device, settles reported.report)) :
    (Agent.report server q jobId).Follows (meant m) (fun _ _ => True) told := by
  apply follows_after (silent_ask (by trivial))
  intro job
  split
  · exact follows_refuse _ (by decide)
  apply follows_bind
  apply follows_lift
  cases body : (q.readJson server.py >>= Agent.readReport server.py) with
  | error e => trivial
  | ok reported =>
    have says_ := read reported body
    apply follows_after (only_lift _)
    intro itself
    split
    · exact follows_refuse _ (by decide)
    apply follows_after (silent_ask (by trivial))
    intro holds
    split
    · exact follows_refuse _ (by decide)
    apply follows_bind
    apply follows_mono (settleAndPost_follows _ says_)
    intro told r kept
    cases r with
    | error e => trivial
    | ok outcome =>
      cases outcome with
      | none => trivial
      | some settled =>
        have same := kept settled rfl
        apply follows_after (Agent.only_publishCheckRun inward_silent _)
        intro published
        apply follows_after (Agent.only_artifactOf inward_silent _)
        intro artifact
        exact follows_reply ⟨_, says_, same⟩

end Follows

/-! ## The routes -/

/-- `uuid4().hex` -/
def isUuid (id : String) : Bool := id.length = 32 && id.toList.all isLowerHex

theorem isUuid_iff {id : String} : isUuid id = true ↔ id.length = 32 ∧ ∀ c ∈ id.toList,
    isLowerHex c = true := by
  simp only [isUuid, Bool.and_eq_true, decide_eq_true_eq, List.all_eq_true]

/-- The job a message names has an id the broker made. -/
def Message.named : Message → Bool
  | renew jobId .. | report jobId .. | reportLost jobId .. | upload jobId .. => isUuid jobId
  | claim .. | heartbeat .. => true

theorem hex_ne {c d : Char} (hex : isLowerHex c = true) (other : isLowerHex d = false) : c ≠ d := by
  intro same
  rw [same, other] at hex
  cases hex

theorem hex_unreserved {c : Char} (hex : isLowerHex c = true) : unreserved c = true := by
  simp only [isLowerHex, Bool.or_eq_true, Bool.and_eq_true, decide_eq_true_eq] at hex
  simp only [unreserved, Bool.or_eq_true, Bool.and_eq_true, decide_eq_true_eq]
  rcases hex with digit | ⟨low, high⟩
  · exact Or.inl (Or.inr digit)
  · exact Or.inl (Or.inl (Or.inl ⟨low, le_trans high (by decide)⟩))

/-- An id is sent as it is. -/
theorem quote_uuid {id : String} (uuid : isUuid id = true) : quote id = id := by
  have plain : ∀ c ∈ id.toList, unreserved c = true :=
    fun c member => hex_unreserved ((isUuid_iff.mp uuid).2 c member)
  have same (cs : List Char) (all : ∀ c ∈ cs, unreserved c = true) :
      (cs.flatMap fun c => if unreserved c then [c] else (String.singleton c).toUTF8.toList.flatMap
      percent) = cs := by
    induction cs with
    | nil => rfl
    | cons c cs ih =>
      rw [List.flatMap_cons, if_pos (all c List.mem_cons_self), ih fun d member =>
        all d (List.mem_cons_of_mem _ member)]
      rfl
  rw [quote, same _ plain, String.ofList_toList]

section Routes
variable {id action : String}

theorem toList_jobPath :
    (jobPath id action).toList = "/v1/jobs/".toList ++ (id.toList ++ '/' :: action.toList) := by
  have spelled : jobPath id action = "/v1/jobs/" ++ id ++ "/" ++ action := rfl
  rw [spelled, String.toList_append, String.toList_append, String.toList_append, List.append_assoc,
    List.append_assoc]
  rfl

def plainAction (action : String) : Bool := action ≠ "" && action.toList.all fun c => c ≠ '/' && c ≠ '?'

theorem plainAction_iff : plainAction action = true ↔ action ≠ "" ∧ ∀ c ∈ action.toList, c ≠ '/' ∧
    c ≠ '?' := by
  simp [plainAction]

variable (uuid : isUuid id = true) (plain : plainAction action = true)
include uuid plain

theorem no_query : (jobPath id action).toList.takeWhile (· ≠ '?') = (jobPath id action).toList := by
  have all : ∀ c ∈ (jobPath id action).toList, decide (c ≠ '?') = true := by
    intro c member
    rw [toList_jobPath] at member
    rw [decide_eq_true_eq]
    rcases List.mem_append.mp member with lead | member
    · exact of_decide_eq_true
        (List.all_eq_true.mp (by decide : ("/v1/jobs/".toList.all fun c => c ≠ '?') = true) c lead)
    rcases List.mem_append.mp member with named | member
    · exact hex_ne ((isUuid_iff.mp uuid).2 c named) (by decide)
    rcases List.mem_cons.mp member with rfl | rest
    · decide
    · exact ((plainAction_iff.mp plain).2 c rest).2
  exact List.takeWhile_eq_self_iff.mpr all

omit uuid in
theorem no_trailing : ((jobPath id action).toList.reverse.dropWhile (· = '/')).reverse =
    (jobPath id action).toList := by
  obtain ⟨named, chars⟩ := plainAction_iff.mp plain
  rcases List.eq_nil_or_concat' action.toList with empty | ⟨lead, last, split⟩
  · exact absurd (String.toList_eq_nil_iff.mp empty) named
  have other : last ≠ '/' := (chars last (by rw [split]; simp)).1
  have ends_ : (jobPath id action).toList = ("/v1/jobs/".toList ++ (id.toList ++ '/' :: lead)) ++
      [last] := by
    rw [toList_jobPath, split]
    simp
  rw [ends_, List.reverse_append, List.reverse_singleton, List.singleton_append,
    List.dropWhile_cons_of_neg (by simpa using other),
    List.reverse_cons, List.reverse_reverse]

theorem routeJob_path {δ : Type} [DecidableEq δ] {server : Server δ} {q : Request} :
    Agent.routeJob server q (jobPath id action).toList =
      if action = "renew" then Agent.require q "POST" action (Agent.renew server q id)
      else if action = "report" then Agent.require q "POST" action (Agent.report server q id)
      else if action = "log" then Agent.require q "GET" "job log" (Agent.jobLog id)
      else if action = "artifacts" then
        if q.command = "GET" then Agent.artifactDownload id
        else if q.command = "POST" then Agent.artifactUpload server q id
        else Agent.refuse 405 "job artifacts requires GET or POST"
      else Agent.refuse 404 "not found" := by
  obtain ⟨named, chars⟩ := plainAction_iff.mp plain
  have unclaimed : (jobPath id action).toList ≠ "/v1/jobs/claim".toList := by
    intro same
    have slash : '/' ∈ "claim".toList := by
      have rest : id.toList ++ '/' :: action.toList = "claim".toList := by
        rw [toList_jobPath] at same
        exact List.append_cancel_left (same.trans (by decide : _ = "/v1/jobs/".toList ++ "claim".toList))
      rw [← rest]
      simp
    exact absurd slash (by decide)
  have found : afterPrefix? "/v1/jobs/" (jobPath id action).toList =
      some (id.toList ++ '/' :: action.toList) :=
    afterPrefix?_eq_some.mpr toList_jobPath
  have hex : ∀ c ∈ id.toList, decide (c ≠ '/') = true :=
    fun c member => decide_eq_true (hex_ne ((isUuid_iff.mp uuid).2 c member) (by decide))
  have first : (id.toList ++ '/' :: action.toList).takeWhile (· ≠ '/') = id.toList := by
    rw [List.takeWhile_append_of_pos hex, List.takeWhile_cons_of_neg (by simp), List.append_nil]
  have rest : ((id.toList ++ '/' :: action.toList).dropWhile (· ≠ '/')).drop 1 = action.toList := by
    rw [List.dropWhile_append_of_pos hex, List.dropWhile_cons_of_neg (by simp), List.drop_one,
      List.tail_cons]
  have some_ : id ≠ "" := by
    rintro rfl
    exact absurd (isUuid_iff.mp uuid).1 (by decide)
  rw [Agent.routeJob, if_neg unclaimed, found]
  simp only [first, rest, String.ofList_toList, if_neg some_, if_neg named]

end Routes
/-! ## What a message comes to -/

section Handled
variable {δ : Type} [DecidableEq δ] {server : Server δ} {float : ℚ → List Char} {token : String}
    {m : Message}

theorem readJson_fields {q : Request} {fields payload : List (String × Json)} {py : Conversions}
    (body : q.body = some (.ok (.obj fields))) (read : q.readJson py = .ok payload) :
    payload = fields := by
  have bounded (length : Int) (ended : (do
      if Agent.maxBody < length then Agent.invalid "payload too large"
      pure fields : Except Raised (List (String × Json))) = .ok payload) : payload = fields := by
    split at ended
    · cases ended
    · exact (Except.ok.inj ended).symm
  simp only [Request.readJson, body] at read
  split at read
  · exact bounded 0 read
  split at read
  · exact bounded 0 read
  · obtain ⟨length, -, read⟩ := bind_ok read
    exact bounded length read

/-- The broker reads of a report what the device wrote. -/
theorem read_verdict {jobId device : String} {exitCode : Option Int} {reported : Status.Reported}
    {py : Conversions}
    (kind : m.verdict? = some (jobId, device, exitCode))
    (read : ((m.request float token).readJson py >>= Agent.readReport py) = .ok reported) :
    reported.device = device ∧ settles reported.report = exitCode := by
  obtain ⟨payload, decoded, read⟩ := bind_ok read
  cases m with
  | report id name code log steps =>
    obtain rfl := readJson_fields rfl decoded
    obtain ⟨rfl, rfl, rfl⟩ : id = jobId ∧ name = device ∧ some code = exitCode := by
      simpa [Message.verdict?] using kind
    generalize fields : ([("device", Json.str name), ("exit_code", Json.int code)] ++
      (if log = "" then [] else [("log", Json.str log)]) ++
      if steps.isEmpty = true then [] else [("steps", Json.arr steps)] : List (String × Json)) =
        payload at read
    have named : payload.lookup "device" = some (.str name) := by
      rw [← fields]
      rfl
    have coded : payload.lookup "exit_code" = some (.int code) := by
      rw [← fields]
      rfl
    have sound : payload.lookup "error" = none := by
      rw [← fields]
      by_cases quiet : log = "" <;> by_cases stepless :
        steps.isEmpty = true <;> simp only [quiet, stepless, if_true, if_false] <;> rfl
    simp only [Agent.readReport, Agent.item, named, coded, Agent.textOf, sound, Option.getD_some,
      Option.getD_none] at read
    have blank : strip (if (Json.str "").truthy = true then py.str (.str "") else "") = "" := by
      rw [if_neg (by decide : ¬(Json.str "").truthy = true)]
      decide
    simp only [blank, py.int_int, ne_eq, not_true_eq_false, if_false] at read
    obtain rfl := Except.ok.inj read
    exact ⟨py.str_str name, if_pos rfl⟩
  | reportLost id name error log steps =>
    obtain rfl := readJson_fields rfl decoded
    obtain ⟨rfl, rfl, rfl⟩ : id = jobId ∧ name = device ∧ none = exitCode := by
      simpa [Message.verdict?] using kind
    generalize fields :
      ([("device", Json.str name), ("error", Json.str (sliceTo error Queue.maxErrorChars))] ++
      (if log = "" then [] else [("log", Json.str log)]) ++
      if steps.isEmpty = true then [] else [("steps", Json.arr steps)] : List (String × Json)) =
        payload at read
    have named : payload.lookup "device" = some (.str name) := by
      rw [← fields]
      rfl
    have uncoded : payload.lookup "exit_code" = none := by
      rw [← fields]
      by_cases quiet : log = "" <;> by_cases stepless :
        steps.isEmpty = true <;> simp only [quiet, stepless, if_true, if_false] <;> rfl
    simp only [Agent.readReport, Agent.item, named, uncoded, Option.getD_none] at read
    obtain ⟨_, same, read⟩ := bind_ok read
    obtain rfl := Except.ok.inj same
    split at read
    · cases read
    · obtain rfl := Except.ok.inj read
      exact ⟨py.str_str name, ite_self none⟩
  | _ => cases kind

variable {told : Told}

theorem jobs_follows {q : Request} (routed : (Agent.routeJob server q q.route).Follows (meant m)
    (fun _ _ => True) told) :
    (Agent.jobs server q).Follows (meant m) (fun _ _ => True) told := by
  unfold Agent.jobs
  split
  · exact follows_refuse _ (by decide)
  apply follows_after (only_lift _)
  intro authorized
  split
  · exact follows_refuse _ (by decide)
  apply follows_bind
  apply follows_attempt
  apply follows_mono routed
  intro told outcome _
  cases outcome with
  | ok _ => trivial
  | error e =>
    cases e with
    | valueError _ | keyError _ | typeError _ | artifactError _ => exact follows_refuse _ (by decide)
    | _ => trivial

theorem route_jobPath {q : Request} {id action : String} (path : q.path = jobPath id action)
    (uuid : isUuid id = true)
    (plain : plainAction action = true) : q.route = (jobPath id action).toList := by
  rw [Request.route, path, no_query uuid plain, no_trailing plain]

/-- A path of a job leads to the jobs. -/
theorem handle_jobPath {q : Request} {id action : String} (path : q.path = jobPath id action)
    (uuid : isUuid id = true)
    (plain : plainAction action = true) (post : q.command = "POST") :
    Agent.handle server q = Agent.jobs server q := by
  have prefixed : hasPrefix (jobPath id action) "/v1/jobs" = true := by
    rw [hasPrefix, toList_jobPath]
    simp
  have posted : q.command ≠ "GET" := by
    rw [post]
    decide
  simp only [Agent.handle, path, no_query uuid plain, String.ofList_toList, if_neg posted, prefixed,
    if_true]

theorem require_follows {q : Request} {expected action : String} {served : Program Unit}
    (inside : served.Follows (meant m) (fun _ _ => True) told) :
    (Agent.require q expected action served).Follows (meant m) (fun _ _ => True) told := by
  unfold Agent.require
  split
  · exact follows_refuse _ (by decide)
  · exact inside

theorem handle_report {q : Request} {id device : String} {exitCode : Option Int}
    (asked : m.request float token = q)
    (path : m.path = jobPath id "report") (uuid : isUuid id = true)
    (kind : m.verdict? = some (id, device, exitCode)) :
    (Agent.handle server q).Follows (meant m) (fun _ _ => True) told := by
  have plain : plainAction "report" = true := by decide
  have path' : q.path = jobPath id "report" := by rw [← asked, ← path]; rfl
  have post : q.command = "POST" := by rw [← asked]; rfl
  rw [handle_jobPath path' uuid plain post]
  refine jobs_follows ?_
  rw [route_jobPath path' uuid plain, routeJob_path uuid plain, if_neg (by decide), if_pos rfl]
  refine require_follows (report_follows fun reported read => ?_)
  rw [← asked] at read
  obtain ⟨rfl, coded⟩ := read_verdict kind read
  rw [coded]
  exact kind

/-- Whatever the broker makes of a message keeps to what the message means. -/
theorem handle_follows (named : m.named = true) :
    (Agent.handle server (m.request float token)).Follows (meant m) (fun _ _ => True) .nothing := by
  have post : (m.request float token).command = "POST" := rfl
  have path : (m.request float token).path = m.path := rfl
  generalize asked : m.request float token = q at post path
  cases m with
  | claim device labels leaseSeconds =>
    have path : q.path = "/v1/jobs/claim" := path
    have whole : String.ofList ("/v1/jobs/claim".toList.takeWhile (· ≠ '?')) =
      "/v1/jobs/claim" := by decide +kernel
    have prefixed : hasPrefix "/v1/jobs/claim" "/v1/jobs" = true := by decide +kernel
    have route : q.route = "/v1/jobs/claim".toList := by
      rw [Request.route, path]
      decide +kernel
    have posted : q.command ≠ "GET" := by rw [post]; decide
    simp only [Agent.handle, path, whole, if_neg posted, prefixed, if_true]
    refine jobs_follows ?_
    rw [route, Agent.routeJob, if_pos rfl]
    exact require_follows (claim_follows rfl)
  | heartbeat device labels maxConcurrency build =>
    have path : q.path = Agent.agentHeartbeatPath := path
    have whole : String.ofList (Agent.agentHeartbeatPath.toList.takeWhile (· ≠ '?')) =
        Agent.agentHeartbeatPath := by
      decide +kernel
    have apart : hasPrefix Agent.agentHeartbeatPath "/v1/jobs" = false := by decide +kernel
    have posted : q.command ≠ "GET" := by rw [post]; decide
    simp only [Agent.handle, path, whole, if_neg posted, apart, if_false, if_true, Bool.false_eq_true]
    exact agents_follows rfl
  | renew id device leaseSeconds =>
    have path : q.path = jobPath id "renew" := path
    have plain : plainAction "renew" = true := by decide
    rw [handle_jobPath path named plain post]
    refine jobs_follows ?_
    rw [route_jobPath path named plain, routeJob_path named plain, if_pos rfl]
    exact require_follows (renew_follows rfl id)
  | report id device exitCode log steps => exact handle_report asked rfl named rfl
  | reportLost id device error log steps => exact handle_report asked rfl named rfl
  | upload id device archive =>
    have path : q.path = jobPath id "artifacts" := by rw [path, Message.path, quote_uuid named]
    have plain : plainAction "artifacts" = true := by decide
    rw [handle_jobPath path named plain post]
    refine jobs_follows ?_
    rw [route_jobPath path named plain, routeJob_path named plain, if_neg (by decide), if_neg (by decide),
      if_neg (by decide), if_pos rfl, post, if_neg (by decide), if_pos rfl]
    exact artifactUpload_follows rfl id

end Handled
end Cindral.Device

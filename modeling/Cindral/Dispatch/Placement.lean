import Cindral.Dispatch.Once

/-!
# One place for each push

A push that GitHub may be running is not to be queued on a device as well. The ledger rules it out
for the deliveries it holds. A push that finds no adapter is queued without ever being registered,
so for those it is ruled out only as long as all arrivals go the same way.
-/

namespace Cindral.Dispatch
open Base Routing Script

def DispatchOutcome.mayRun : DispatchOutcome → Bool
  | accepted | lost _ => true
  | refused statusCode _ => refusalUncertain (some statusCode)
  | unreachable _ => false

/-- The delivery a call names, as the ledger keys it. -/
def Call.names : Call → Option (String × String)
  | .getDelivery repository delivery | .register repository delivery _ _ _ _ _ | .claimDelivery
      repository delivery
  | .finish repository delivery _ _ | .rejectReady repository delivery _ =>
      some (lower repository, delivery)
  | _ => none

/-- The delivery a thread named last, or the one it was started for. -/
def lastNamed (errand : Option (String × String)) (made : List Call) : Option (String × String) :=
  made.foldl (fun named c => c.names.or named) errand

def Call.queues (named : Option (String × String)) : Call → List (String × String)
  | .enqueue _ => named.toList
  | _ => []

/-- The deliveries a thread has queued device jobs for. A job is for the delivery the thread named
last. -/
def queuedFor (errand : Option (String × String)) : List Call → List (String × String)
  | [] => []
  | c :: rest => c.queues errand ++ queuedFor (c.names.or errand) rest

/-- The delivery a webhook request brings, if it brings a push. -/
def WebhookRequest.errand (request : WebhookRequest) : Option (String × String) :=
  if request.event = some "push" then
    (parsePushEvent request.payload).toOption.map fun event =>
      (lower event.repository, deliveryId request.delivery request.fingerprint)
  else none

def Action.starts : Action → Option Thread
  | .webhook p _ | .dispatch p _ | .replay p => some p
  | _ => none

def Action.errand : Action → Option (String × String)
  | .webhook _ request => request.errand
  | _ => none

/-- The delivery a thread is started for in a run. -/
def errandOf : List Action → Thread → Option (String × String)
  | [], _ => none
  | a :: rest, p => if a.starts = some p then a.errand else errandOf rest p

/-- A request that may have started a run was sent for the delivery. -/
def World.MayRun (w : World) (key : String × String) : Prop :=
  ∃ sent ∈ w.sent, sent.1.delivery = some key ∧ sent.2.mayRun = true

def World.Rejected (w : World) (key : String × String) : Prop :=
  ∃ d, w.deliveries.find? key = some d ∧ d.state = .rejected

namespace Site

def Queued (actions : List Action) (s : Site) (key : String × String) : Prop :=
  ∃ p, key ∈ queuedFor (errandOf actions p) (s.crew.made p)

/-- The thread serves a push the ledger did not hold, and is about to ask GitHub for its adapter. -/
structure Looks (s : Site) (p : Thread) (server : Server) (event : PushEvent) (delivery : String)
    (fallback : Option (Program Unit)) : Prop where
  github : server.github = true
  made : s.crew.made p = [.getDelivery event.repository delivery]
  task : ∃ header fingerprint branch,
    s.crew.task p = some (firstDelivery server header fingerprint event branch delivery fallback)

/-- The arrivals of a delivery that the ledger does not hold go one way, all to GitHub or all to the
device: neither the push lane nor the adapter changes between them. -/
def OneWay (hosted : String × String → Bool) (s : Site) : Action → Prop
  | .webhook _ request => ∀ event, request.event = some "push" →
      parsePushEvent request.payload = .ok event →
      (if s.server.jobsDb then s.server.policy.pushLane event.repository else none) = some .device →
      hosted (lower event.repository, deliveryId request.delivery request.fingerprint) = false
  | .turn p k => ∀ server event delivery fallback, s.Looks p server event delivery fallback →
      k.raised = none →
      if k.present then hosted (lower event.repository, delivery) = true
      else server.policy.permitsDevice event.repository = true → fallback.isSome = true →
        hosted (lower event.repository, delivery) = false
  | _ => True

end Site

section Named
variable {errand : Option (String × String)} {made : List Call} {c : Call}

theorem lastNamed_concat : lastNamed errand (made ++ [c]) = c.names.or (lastNamed errand made) := by
  rw [lastNamed, List.foldl_append]
  rfl

theorem queuedFor_concat : queuedFor errand (made ++ [c]) = queuedFor errand made ++ c.queues
    (lastNamed errand made) := by
  induction made generalizing errand with
  | nil => simp only [List.nil_append, queuedFor, List.append_nil, lastNamed, List.foldl_nil]
  | cons first rest ih =>
    rw [List.cons_append, queuedFor, queuedFor, ih, List.append_assoc]
    rfl

end Named

/-! ## What a thread may queue -/

/-- What a thread has learnt of one delivery: its name, that GitHub refused it, and that the ledger
holds it as rejected. -/
structure Standing where
  named : Option (String × String)
  refused : Option (String × String) := none
  settled : Option (String × String) := none

/-- The ledger rejects the delivery a thread is about, or no arrival of it goes to GitHub. -/
def Standing.Cleared (hosted : String × String → Bool) (g : Standing) : Prop :=
  ∀ key ∈ g.named, g.settled = some key ∨ hosted key = false

def Standing.may (hosted : String × String → Bool) (g : Standing) : Call → Prop
  | .register repository delivery _ _ _ _ _ => hosted (lower repository, delivery) = true
  | .finish repository delivery state _ =>
    state = .rejected → (g.refused.map fun key => (lower key.1, key.2)) =
      some (lower repository, delivery)
  | .enqueue _ => g.Cleared hosted
  | _ => True

def refusedBy (request : Request) : Except Raised Unit → Option (String × String)
  | .error (.githubDispatchError _ statusCode) =>
      if refusalUncertain statusCode then none else request.delivery
  | _ => none

def Standing.note (g : Standing) (c : Call) (r : Except Raised (Ans c)) : Standing :=
  { named := c.names.or g.named
    refused := match c, r with
      | .dispatch request, r => refusedBy request r
      | _, _ => g.refused
    settled := match c, r with
      | .rejectReady repository delivery _, .ok true => some (lower repository, delivery)
      | .finish repository delivery .rejected _, .ok _ => some (lower repository, delivery)
      | _, _ => g.settled }

def placing (hosted : String × String → Bool) : Protocol Call Ans Raised Standing :=
  ⟨Standing.may hosted, Standing.note⟩

section Follows
variable {hosted : String × String → Bool} {server : Server} {g : Standing}

/-- A loose end: nothing is asked of where the script stops. -/
abbrev Places (hosted : String × String → Bool) (s : Program Unit) (g : Standing) : Prop :=
  s.Follows (placing hosted) (fun _ _ => True) g

theorem follows_beside {α : Type} {s : Program α} {post : Standing → Except Raised α → Prop}
    (only : s.Only Call.sideline)
    (h : ∀ r, post g r) : s.Follows (placing hosted) post g := by
  refine follows_of_only (fun c side => ?_) only h
  cases c with
  | dispatch _ | enqueue _ | getDelivery _ _ | register _ _ _ _ _ _ _ | claimDelivery _ _ | finish _ _ _ _
  | rejectReady _ _ _ | pending => exact side.elim
  | _ => exact ⟨trivial, fun _ => rfl⟩

theorem places_beside {s : Program Unit} (only : s.Only Call.sideline) : Places hosted s g :=
  follows_beside only fun _ => trivial

theorem places_aside {s : Program Unit} (only : s.Only Call.aside) : Places hosted s g :=
  places_beside (only_mono only fun _ => And.left)

theorem follows_beside_bind {α β : Type} {s : Program α} {f : α → Program β}
    {post : Standing → Except Raised β → Prop}
    (only : s.Only Call.sideline) (raised : ∀ e, post g (.error e))
    (next : ∀ a, (f a).Follows (placing hosted) post g) :
    (s.bind f).Follows (placing hosted) post g := by
  refine follows_bind (follows_beside only fun r => ?_)
  cases r with
  | ok a => exact next a
  | error e => exact raised e

theorem places_beside_bind {α : Type} {s : Program α} {f : α → Program Unit} (only : s.Only Call.sideline)
    (next : ∀ a, Places hosted (f a) g) : Places hosted (s.bind f) g :=
  follows_beside_bind only (fun _ => trivial) next

theorem places_aside_bind {α : Type} {s : Program α} {f : α → Program Unit} (only : s.Only Call.aside)
    (next : ∀ a, Places hosted (f a) g) : Places hosted (s.bind f) g :=
  places_beside_bind (only_mono only fun _ => And.left) next

theorem places_enqueueDirect (cleared : g.Cleared hosted) (delivery : Option String)
    (repository sha ref : String)
    (statusSha : Option String) (extra : List (String × Json)) :
    Places hosted (enqueueDirect server delivery repository sha ref statusSha extra) g := by
  unfold enqueueDirect
  split
  · exact places_aside (only_sendError _ _)
  · split
    · trivial
    · refine follows_bind (follows_call cleared fun r => ?_)
      cases r with
      | error e => trivial
      | ok job =>
        refine places_beside_bind ?_ fun _ => places_aside_bind (only_postIf _ _ _ _ _) fun _ =>
          places_aside (only_send _ _)
        unfold publishQuietly
        split
        · exact only_call trivial
        · trivial

/-- The device lane a push was given may be taken by a thread whose delivery is cleared for it. -/
def SparesDevice (hosted : String × String → Bool) (fallback : Option (Program Unit)) : Prop :=
  ∀ enqueue ∈ fallback, ∀ g : Standing, g.Cleared hosted → Places hosted enqueue g

/-- The ledger rejects what a thread named last, if what it heard may be covered by the device. -/
def Covered (g : Standing) : Except Raised (Handled × String) → Prop
  | .ok handled => shouldFallback handled.1 = true → g.settled = g.named
  | .error _ => True

theorem cleared_of_settled (same : g.settled = g.named) : g.Cleared hosted := by
  intro key named
  exact Or.inl (same.trans (Option.mem_def.mp named))

theorem follows_finishRecord {record : Delivery} {state : DeliveryState} {text : String}
    (allowed : state = .rejected → g.refused = some record.key) :
    (finishRecord record state text).Follows (placing hosted) Covered g := by
  have may : (placing hosted).may g (.finish record.repository record.delivery state text) :=
      fun rejected => by
    rw [allowed rejected]
    rfl
  refine follows_bind (follows_attempt (follows_call may fun r => ?_))
  cases r with
  | error e =>
    cases e with
    | sqliteError _ | runtimeError _ => exact nofun
    | _ => trivial
  | ok _ =>
    intro falls
    obtain rfl := Handled.state.inj (of_decide_eq_true falls)
    rfl

theorem follows_recordOutcome {record : Delivery} (ledger : Bool) (reservation : Option Nat)
    {outcome : Except Raised Unit} (heard : g.refused = refusedBy (requestOf record) outcome) :
    (recordOutcome record ledger reservation outcome).Follows (placing hosted) Covered g := by
  unfold recordOutcome
  split
  · rename_i text statusCode
    refine follows_beside_bind (only_mono (only_releaseIf mute_aside _ _ _) fun _ => And.left)
      (fun _ => trivial) fun _ => ?_
    refine follows_finishRecord fun rejected => ?_
    rw [heard, refusedBy, if_neg]
    · rfl
    · intro uncertain
      rw [if_pos uncertain] at rejected
      cases rejected
  · -- a lost answer is never recorded as a refusal
    have lost (state : Handled) (g' : Standing) (other : state ≠ .state .rejected) :
        ((releaseIf (state = .state .rejected) ledger reservation).bind fun _ =>
          (Script.done (state, "GitHub dispatch result is unknown") : Program (Handled × String))).Follows
            (placing hosted) Covered g' := by
      refine follows_beside_bind (only_mono (only_releaseIf mute_aside _ _ _) fun _ => And.left)
        (fun _ => trivial) fun _ => ?_
      exact fun falls => absurd (of_decide_eq_true falls) other
    refine follows_bind (follows_bind (follows_attempt (follows_call nofun fun r => ?_)))
    cases r with
    | error e =>
      cases e with
      | sqliteError _ | runtimeError _ => exact lost (.state .uncertain) _ nofun
      | _ => trivial
    | ok _ => exact lost (.state .uncertain) _ nofun
  · exact follows_beside_bind (only_mono (only_nameHold mute_aside _ _ _ _ _) fun _ => And.left)
      (fun _ => trivial) fun _ =>
      follows_finishRecord nofun

/-- After `dispatch_record` a refusal that may be covered is in the ledger. -/
theorem follows_placed (record : Delivery) (ledger : Bool) (reservation : Option Nat) (g : Standing) :
    (dispatchRecord record ledger reservation).Follows (placing hosted) Covered g := by
  refine follows_bind (follows_call trivial fun claimed => ?_)
  cases claimed with
  | error e => trivial
  | ok won =>
    cases won with
    | true =>
      refine follows_bind (follows_attempt (follows_call trivial fun outcome => ?_))
      exact follows_recordOutcome ledger reservation rfl
    | false =>
      refine follows_beside_bind (only_mono (only_releaseReservation mute_aside _ _) fun _ =>
        And.left) (fun _ => trivial) fun _ => ?_
      refine follows_bind (follows_call trivial fun current => ?_)
      cases current with
      | error e => trivial
      | ok found =>
        cases found with
        | none =>
          intro falls
          cases falls
        | some row =>
          simp only [before]
          split
          · intro falls
            cases falls
          · rename_i unsettled
            intro falls
            rw [Handled.state.inj (of_decide_eq_true falls)] at unsettled
            exact absurd rfl unsettled

theorem places_adapterAbsent {event : PushEvent} {workflow reason : String}
    {fallback : Option (Program Unit)}
    (spare : SparesDevice hosted fallback)
    (cleared : server.policy.permitsDevice event.repository = true → fallback.isSome = true →
    g.Cleared hosted) :
    Places hosted (adapterAbsent server event workflow reason fallback) g := by
  unfold adapterAbsent
  simp only
  split
  · rename_i enqueue chosen
    split at chosen
    · rename_i eligible
      exact spare enqueue chosen g (cleared eligible (by rw [chosen]; rfl))
    · cases chosen
  · exact places_aside_bind (only_postIf _ _ _ _ _) fun _ => places_aside (only_send _ _)

theorem follows_checkAdapter {event : PushEvent} {existing : Delivery} {delivery : String}
    {fallback : Option (Program Unit)} (spare : SparesDevice hosted fallback) :
    (checkAdapter server event existing delivery fallback).Follows (placing hosted)
    (fun _ _ => True) g := by
  refine follows_beside_bind (only_call trivial) (fun _ => trivial) fun found => ?_
  split
  · trivial
  · refine follows_bind (follows_call trivial fun rejected => ?_)
    cases rejected with
    | error e => trivial
    | ok won =>
      cases won with
      | false => trivial
      | true =>
        refine follows_bind (follows_mono
          (places_adapterAbsent spare fun _ _ => cleared_of_settled rfl) fun g' r _ => ?_)
        cases r with
        | ok _ => trivial
        | error e => trivial

theorem places_dispatchExisting {event : PushEvent} {existing : Delivery} {delivery : String}
    {fallback : Option (Program Unit)} (spare : SparesDevice hosted fallback) :
    Places hosted (dispatchExisting server event existing delivery fallback) g := by
  refine places_beside_bind (only_reserveFor _ _) fun ⟨hold, refusal⟩ => ?_
  simp only
  split
  · exact places_aside (only_send _ _)
  · refine follows_bind (follows_attempt
      (follows_mono (follows_placed existing server.jobsDb hold g) fun g' r covered => ?_))
    simp only [before]
    split
    · exact places_aside_bind (only_releaseReservation mute_aside _ _) fun _ =>
        places_aside (only_sendError _ _)
    · trivial
    · split
      · rename_i enqueue chosen
        split at chosen
        · rename_i falls
          exact spare enqueue chosen g' (cleared_of_settled (covered (Bool.and_eq_true_iff.mp falls).2))
        · cases chosen
      · exact places_aside (only_send _ _)

theorem places_redeliver {event : PushEvent} {existing : Delivery} {delivery : String}
    {fallback : Option (Program Unit)} (spare : SparesDevice hosted fallback) :
    Places hosted (redeliver server event existing delivery fallback) g := by
  refine follows_bind (follows_attempt (follows_mono (follows_checkAdapter spare) fun g' r _ => ?_))
  simp only [before]
  split
  · exact places_aside (only_sendError _ _)
  · exact places_aside (only_sendError _ _)
  · trivial
  · trivial
  · exact places_dispatchExisting spare

theorem places_answerPush {header : Option String} {event : PushEvent} {branch delivery : String}
    {fallback : Option (Program Unit)} (spare : SparesDevice hosted fallback) (decision : RouteDecision)
    (reservation : Option (String × Nat)) (record : Delivery) {handled : Handled × String}
    (covered : Covered g (.ok handled)) :
    Places hosted (answerPush server header event branch delivery fallback decision reservation
    record handled) g := by
  unfold answerPush
  split
  · exact places_beside_bind (only_giveBack _ _) fun _ => places_aside (only_send _ _)
  · split
    · exact places_beside_bind (only_dropRunner _) fun _ => places_aside (only_send _ _)
    · exact places_aside (only_send _ _)
  · refine places_beside_bind (only_dropRunner _) fun _ => ?_
    split
    · rename_i enqueue chosen
      split at chosen
      · rename_i falls
        exact spare enqueue chosen g (cleared_of_settled (covered falls))
      · cases chosen
    · exact places_aside (only_send _ _)

theorem places_registerPush {header : Option String} {fingerprint : String} {event : PushEvent}
    {branch delivery : String} {fallback : Option (Program Unit)} (spare : SparesDevice hosted fallback)
    (goes : hosted (lower event.repository, delivery) = true) (decision : RouteDecision)
    (reservation : Option (String × Nat)) :
    Places hosted (registerPush server header fingerprint event branch delivery fallback decision
    reservation) g := by
  refine follows_bind (follows_attempt (follows_call goes fun registered => ?_))
  simp only [before]
  split
  · exact places_beside_bind (only_giveBack _ _) fun _ => places_aside (only_sendError _ _)
  · trivial
  · rename_i record
    split
    · exact places_beside_bind (only_giveBack _ _) fun _ => places_aside (only_sendError _ _)
    · refine follows_bind (follows_attempt
        (follows_mono (follows_placed record _ _ _) fun g' r covered => ?_))
      simp only [before]
      split
      · exact places_beside_bind (only_giveBack _ _) fun _ => places_aside (only_sendError _ _)
      · trivial
      · exact places_answerPush spare _ _ _ covered

/-- A first delivery asks GitHub for the adapter, and goes on by the answer. -/
theorem firstDelivery_asks (header : Option String) (fingerprint : String) (event : PushEvent)
    (branch delivery : String)
    {fallback : Option (Program Unit)} (github : server.github = true)
    (spare : SparesDevice hosted fallback) :
    ∃ next, firstDelivery server header fingerprint event branch delivery fallback =
        .ask (.workflowExists event.repository server.workflowFile) next ∧
      (∀ g, hosted (lower event.repository, delivery) = true → Places hosted (next (.ok true)) g) ∧
      (∀ g : Standing, (server.policy.permitsDevice event.repository = true →
        fallback.isSome = true → g.Cleared hosted) →
        Places hosted (next (.ok false)) g) ∧
      ∀ g e, Places hosted (next (.error e)) g := by
  refine ⟨_, by unfold firstDelivery; rw [if_neg (by rw [github]; decide)]; rfl, ?_, ?_, ?_⟩
  · intro g goes
    refine follows_bind (follows_attempt ?_)
    show ((dispatchDecision server (pushRoute server event) event.repository true).bind _).Follows
      (placing hosted) _ g
    refine follows_bind (follows_beside (only_dispatchDecision _ _ _ _) fun r => ?_)
    cases r with
    | ok decided => exact places_registerPush spare goes decided.1 decided.2
    | error e =>
      cases e with
      | routeUnavailable _ | githubApiError _ => exact places_aside (only_sendError _ _)
      | _ => trivial
  · intro g cleared
    refine follows_bind (follows_attempt ?_)
    show ((adapterAbsent server event _ _ fallback).bind _).Follows (placing hosted) _ g
    refine follows_bind (follows_mono (places_adapterAbsent spare cleared) fun g' r _ => ?_)
    cases r with
    | ok _ => trivial
    | error e =>
      cases e with
      | routeUnavailable _ | githubApiError _ => exact places_aside (only_sendError _ _)
      | _ => trivial
  · intro g e
    cases e with
    | routeUnavailable _ | githubApiError _ => exact places_aside (only_sendError _ _)
    | _ => trivial

theorem places_handOff (record : Delivery) (settled : g.settled = g.named) :
    (handOff server record).Follows (placing hosted) (fun _ _ => True) g := by
  unfold handOff
  split
  · trivial
  · split
    · trivial
    · split
      · trivial
      · refine follows_bind (follows_call (cleared_of_settled settled) fun r => ?_)
        cases r with
        | ok _ => trivial
        | error e => trivial

theorem follows_rejectAndHandOff (record : Delivery) (reason : String) (g : Standing) :
    (rejectAndHandOff server record reason).Follows (placing hosted) (fun _ _ => True) g := by
  refine follows_bind (follows_call trivial fun rejected => ?_)
  cases rejected with
  | error e => trivial
  | ok won =>
    cases won with
    | false => trivial
    | true => exact places_handOff record rfl

theorem follows_replayHold (record : Delivery) (g : Standing) :
    (replayHold server record).Follows (placing hosted) (fun _ _ => True) g := by
  have ends {r : Except Raised Unit} {g' : Standing} :
      before (placing hosted) (fun _ => (Script.done none : Program (Option (Option Nat))))
      (fun _ _ => True) g' r := by
    cases r with
    | ok _ => trivial
    | error e => trivial
  unfold replayHold
  split
  · exact follows_bind (follows_mono (follows_rejectAndHandOff record _ g) fun _ _ _ => ends)
  · refine follows_beside_bind (only_call trivial) (fun _ => trivial) fun found => ?_
    split
    · exact follows_beside_bind (only_reserveFor _ _) (fun _ => trivial) fun _ => trivial
    · exact follows_bind (follows_mono (follows_rejectAndHandOff record _ g) fun _ _ _ => ends)

theorem places_replayRecord (record : Delivery) (g : Standing) :
    Places hosted (replayRecord server record) g := by
  refine follows_bind (follows_attempt (follows_mono (follows_replayHold record g) fun g' held _ => ?_))
  simp only [before]
  split
  · trivial
  · trivial
  · refine follows_bind (follows_attempt
      (follows_bind (follows_mono (follows_placed record _ _ g') fun g'' r covered => ?_)))
    cases r with
    | error e => exact places_aside (only_releaseReservation mute_aside _ _)
    | ok handled =>
      simp only [before]
      split
      · rename_i falls
        refine follows_mono (places_handOff record (covered falls)) fun g₃ outcome _ => ?_
        cases outcome with
        | ok _ => trivial
        | error e => exact places_aside (only_releaseReservation mute_aside _ _)
      · trivial

theorem places_recoverReady (g : Standing) : Places hosted (recoverReady server) g := by
  unfold recoverReady
  split
  · trivial
  · refine follows_bind (follows_call trivial fun pending => ?_)
    cases pending with
    | error e => trivial
    | ok records =>
      exact follows_forEach (I := fun _ => True) (fun record _ g' _ => places_replayRecord record g')
        (fun _ _ _ => trivial) trivial

/-- A script that leaves the ledger out of it, in a thread that is about no delivery. -/
theorem places_unnamed {s : Program Unit} (only : s.Only Call.unledgered) (unnamed : g.named = none) :
    Places hosted s g := by
  induction s generalizing g with
  | done a => trivial
  | fail e => trivial
  | ask c next ih =>
    have nameless : c.names = none := by
      cases c with
      | getDelivery _ _ | register _ _ _ _ _ _ _ | claimDelivery _ _ | finish _ _ _ _ | rejectReady _ _ _ =>
        exact only.1.elim
      | _ => rfl
    refine ⟨?_, fun r => ih r (only.2 r) ?_⟩
    · cases c with
      | register _ _ _ _ _ _ _ | finish _ _ _ _ => exact only.1.elim
      | enqueue request =>
        intro key named
        rw [unnamed] at named
        cases named
      | _ => trivial
    · show c.names.or g.named = none
      rw [nameless, unnamed]
      rfl

/-- Where a thread stands: bound by the protocol, or with its lookup of a push or of the adapter
still to make. -/
inductive Stands (hosted : String × String → Bool) (g : Standing) (made : List Call) : Program Unit → Prop
  | free {left : Program Unit} (places : Places hosted left g) : Stands hosted g made left
  | arrived {server : Server} {request : WebhookRequest} {event : PushEvent}
      {fallback : Option (Program Unit)}
      (spare : SparesDevice hosted fallback) (silent : made = [])
      (named : g.named = some (lower event.repository, deliveryId request.delivery request.fingerprint)) :
      Stands hosted g made (lookup server request event fallback)
  | unknown {server : Server} {header : Option String} {fingerprint : String} {event : PushEvent}
      {branch delivery : String} {fallback : Option (Program Unit)} (github : server.github = true)
      (spare : SparesDevice hosted fallback) (looked : made = [.getDelivery event.repository delivery])
      (named : g.named = some (lower event.repository, delivery)) :
      Stands hosted g made (firstDelivery server header fingerprint event branch delivery fallback)

theorem stands_dispatchPush {request : WebhookRequest} {event : PushEvent}
    {fallback : Option (Program Unit)}
    (spare : SparesDevice hosted fallback)
    (named : g.named = some (lower event.repository, deliveryId request.delivery request.fingerprint)) :
    Stands hosted g [] (dispatchPush server request.delivery request.fingerprint event event.branch
    fallback) := by
  unfold dispatchPush
  split
  · exact .free (places_aside (only_sendError _ _))
  · split
    · exact .free (places_aside (only_sendError _ _))
    · exact .arrived spare rfl named

theorem spares_none : SparesDevice hosted none := fun _ member => nomatch member

theorem spares_enqueueDirect (delivery : Option String) (repository sha ref : String)
    (statusSha : Option String)
    (extra : List (String × Json)) :
    SparesDevice hosted (some (enqueueDirect server delivery repository sha ref statusSha extra)) := by
  intro enqueue member g' cleared
  obtain rfl := Option.some.inj member
  exact places_enqueueDirect cleared _ _ _ _ _ _

theorem stands_handlePush {request : WebhookRequest} {event : PushEvent}
    (named : g.named = some (lower event.repository, deliveryId request.delivery request.fingerprint))
    (oneWay : (if server.jobsDb then server.policy.pushLane event.repository else none) = some .device →
      hosted (lower event.repository, deliveryId request.delivery request.fingerprint) = false) :
    Stands hosted g [] (handlePush server request.delivery request.fingerprint event) := by
  unfold handlePush
  simp only
  split
  · rename_i device
    refine .free (places_enqueueDirect (fun key member => Or.inr ?_) _ _ _ _ _ _)
    rw [named] at member
    obtain rfl := Option.some.inj member
    exact oneWay device
  · exact stands_dispatchPush (spares_enqueueDirect _ _ _ _ _ _) named
  · exact stands_dispatchPush spares_none named

theorem stands_webhook {request : WebhookRequest} (named : g.named = request.errand)
    (oneWay : ∀ event, request.event = some "push" → parsePushEvent request.payload = .ok event →
      (if server.jobsDb then server.policy.pushLane event.repository else none) = some .device →
      hosted (lower event.repository, deliveryId request.delivery request.fingerprint) = false) :
    Stands hosted g [] (webhook server request) := by
  have answers (status : Nat) (body : List (String × Json)) : Stands hosted g [] (send status body) :=
    .free (places_aside (only_send _ _))
  unfold webhook
  split
  · exact answers _ _
  · split
    · exact answers _ _
    · split
      · exact answers _ _
      · split
        · rename_i pullRequest
          refine .free (places_unnamed (only_pullRequestWebhook _ _) ?_)
          rw [named, WebhookRequest.errand, if_neg (by rw [pullRequest]; decide)]
        · split
          · rename_i push
            unfold pushWebhook
            split
            · exact answers _ _
            · rename_i event parsed
              split
              · exact answers _ _
              · split
                · exact answers _ _
                · split
                  · exact answers _ _
                  · refine stands_handlePush ?_ (oneWay event push parsed)
                    rw [named, WebhookRequest.errand, if_pos push, parsed]
                    rfl
          · exact answers _ _

theorem places_answerKnown {header : Option String} {fingerprint : String} {event : PushEvent}
    {branch : String}
    {fallback : Option (Program Unit)} (spare : SparesDevice hosted fallback) {existing : Option Delivery}
    (known : server.github = true → existing ≠ none) :
    Places hosted (answerKnown server header fingerprint event branch fallback existing) g := by
  have unable (absent : server.github ≠ true) : Places hosted
      (firstDelivery server header fingerprint event branch (deliveryId header fingerprint)
      fallback) g := by
    unfold firstDelivery
    rw [if_pos (by simpa using absent)]
    exact places_aside (only_sendError _ _)
  unfold answerKnown
  simp only
  split
  · exact unable fun able => known able rfl
  · rename_i record
    split
    · exact places_aside (only_sendError _ _)
    · split
      · exact places_redeliver spare
      · rename_i waits
        split
        · exact places_aside (only_send _ _)
        · rename_i ready
          exact unable fun able => waits ⟨not_not.mp ready, able⟩

/-- A call of a thread leaves it standing, if the arrivals of its delivery go one way. -/
theorem stands_next {made : List Call} {c : Call} {next : Except Raised (Ans c) → Program Unit}
    (h : Stands hosted g made (.ask c next)) {k : Choice} {w w' : World} {r : Except Raised (Ans c)}
    (performed : perform k w c = some (r, w'))
    (oneWay : ∀ server header fingerprint event branch delivery fallback, server.github = true →
      made = [.getDelivery event.repository delivery] →
      .ask c next = firstDelivery server header fingerprint event branch delivery fallback →
      k.raised = none →
      if k.present then hosted (lower event.repository, delivery) = true
      else server.policy.permitsDevice event.repository = true → fallback.isSome = true →
        hosted (lower event.repository, delivery) = false) :
    (placing hosted).may g c ∧ Stands hosted (g.note c r) (made ++ [c]) (next r) := by
  generalize whole : Script.ask c next = left at h
  cases h with
  | free places =>
    subst whole
    exact ⟨places.1, .free (places.2 r)⟩
  | arrived spare silent named =>
    rename_i server request event fallback
    rw [lookup_eq] at whole
    injection whole with asked continues
    subst asked
    obtain rfl := eq_of_heq continues
    refine ⟨trivial, ?_⟩
    have same :
        (g.note (.getDelivery event.repository (deliveryId request.delivery request.fingerprint))
        r).named =
        some (lower event.repository, deliveryId request.delivery request.fingerprint) := rfl
    cases r with
    | error e =>
      refine .free ?_
      cases e with
      | sqliteError _ => exact places_aside (only_sendError _ _)
      | _ => trivial
    | ok existing =>
      by_cases first : existing = none ∧ server.github = true
      · obtain ⟨rfl, able⟩ := first
        exact .unknown able spare (by rw [silent]; rfl) same
      · exact .free (places_answerKnown spare fun able absent => first ⟨absent, able⟩)
  | unknown github spare looked named =>
    rename_i server header fingerprint event branch delivery fallback
    have way := oneWay server header fingerprint event branch delivery fallback github looked whole
    obtain ⟨next', same, present, absent, raised⟩ :=
      firstDelivery_asks header fingerprint event branch delivery github spare
    rw [same] at whole
    injection whole with asked continues
    subst asked
    obtain rfl := eq_of_heq continues
    refine ⟨trivial, .free ?_⟩
    rcases perform_cases performed with ⟨e, _, _, rfl, _⟩ | ⟨quiet, answered⟩
    · exact raised _ e
    · obtain ⟨rfl, -⟩ := Prod.mk.inj (Option.some.inj answered)
      have decided := way quiet
      cases found : k.present with
      | true =>
        rw [found, if_pos rfl] at decided
        exact present _ decided
      | false =>
        rw [found] at decided
        refine absent _ fun eligible device => fun key member => Or.inr ?_
        obtain rfl : key = (lower event.repository, delivery) := by
          rw [show (g.note _ _).named = g.named from rfl, named] at member
          exact (Option.some.inj member).symm
        exact decided eligible device

end Follows

/-! ## What the ledger and the threads account for -/

/-- The ledger and what was sent, against where the threads stand and what they have queued. -/
structure Placed (hosted : String × String → Bool) (w : World) (told : Thread → Told)
    (g : Thread → Standing)
    (queued : String × String → Prop) : Prop where
  refused : ∀ p key, (g p).refused = some key → 0 < w.sentFor key ∧ ¬ w.MayRun key
  settled : ∀ p key, (g p).settled = some key → w.Rejected key
  won : ∀ p key, (told p).won = some key → ¬ w.Rejected key
  ran : ∀ key, w.MayRun key → ¬ w.Rejected key
  held : ∀ key d, w.deliveries.find? key = some d → hosted key = true
  queued : ∀ key, queued key → w.Rejected key ∨ hosted key = false

section Placed
variable {hosted : String × String → Bool} {w w' : World} {told : Thread → Told} {g : Thread → Standing}
  {queued : String × String → Prop} {k : Choice} {c : Call} {r : Except Raised (Ans c)} {p : Thread}

theorem rejected_evolves (evolves : w.deliveries.Evolves w'.deliveries) {key : String × String}
    (rejected : w.Rejected key) :
    w'.Rejected key := by
  obtain ⟨d, found, state⟩ := rejected
  obtain ⟨d', found', evolved⟩ := evolves.kept key d found
  refine ⟨d', found', ?_⟩
  rcases evolved.state with same | moved
  · rw [← same, state]
  · have stuck := moved.not_terminal
    rw [state] at stuck
    cases stuck

/-- A row is rejected by the two statements that reject one, and by no other call. -/
theorem perform_rejects (performed : perform k w c = some (r, w')) {key : String × String}
    (rejected : w'.Rejected key) :
    w.Rejected key ∨
      (∃ repository delivery reason d, c = .rejectReady repository delivery reason ∧
        key = (lower repository, delivery) ∧
        w.deliveries.find? key = some d ∧ d.state = .ready) ∨
      ∃ repository delivery text, c = .finish repository delivery .rejected text ∧
      key = (lower repository, delivery) := by
  obtain ⟨d', found', state⟩ := rejected
  have kept (same : w'.deliveries = w.deliveries) : w.Rejected key :=
    ⟨d', by rw [← same]; exact found', state⟩
  rcases perform_cases performed with ⟨e, _, _, _, rfl⟩ | ⟨_, answered⟩
  · exact Or.inl (kept rfl)
  · cases c with
    | register repository delivery fingerprint workflow ref inputs sha =>
      obtain ⟨-, rfl⟩ := Prod.mk.inj (Option.some.inj answered)
      rcases Deliveries.register_row found' with found | ready
      · exact Or.inl ⟨d', found, state⟩
      · exact nomatch state.symm.trans ready
    | claimDelivery repository delivery =>
      obtain ⟨-, rfl⟩ := Prod.mk.inj (Option.some.inj answered)
      obtain ⟨d, found, same | ⟨_, _, attempting⟩⟩ := Deliveries.move_state found'
      · exact Or.inl ⟨d, found, same.symm.trans state⟩
      · exact nomatch state.symm.trans attempting
    | finish repository delivery target text =>
      simp only [answer] at answered
      split at answered
      · obtain ⟨-, rfl⟩ := Prod.mk.inj (Option.some.inj answered)
        exact Or.inl (kept rfl)
      · obtain ⟨-, rfl⟩ := Prod.mk.inj (Option.some.inj answered)
        obtain ⟨d, found, same | ⟨named, _, moved⟩⟩ := Deliveries.move_state found'
        · exact Or.inl ⟨d, found, same.symm.trans state⟩
        · obtain rfl : target = .rejected := moved.symm.trans state
          exact Or.inr (Or.inr ⟨repository, delivery, text, rfl, named⟩)
    | rejectReady repository delivery reason =>
      obtain ⟨-, rfl⟩ := Prod.mk.inj (Option.some.inj answered)
      obtain ⟨d, found, same | ⟨named, ready, _⟩⟩ := Deliveries.move_state found'
      · exact Or.inl ⟨d, found, same.symm.trans state⟩
      · exact Or.inr (Or.inl ⟨repository, delivery, reason, d, rfl, named, found, ready⟩)
    | enqueue request =>
      simp only [answer] at answered
      split at answered
      · obtain ⟨-, rfl⟩ := Prod.mk.inj (Option.some.inj answered)
        exact Or.inl (kept rfl)
      · obtain ⟨-, rfl⟩ := Prod.mk.inj (Option.some.inj answered)
        exact Or.inl (kept rfl)
    | dispatch _ | getDelivery _ _ | pending =>
      obtain ⟨-, rfl⟩ := Prod.mk.inj (Option.some.inj answered)
      exact Or.inl (kept rfl)
    | _ => exact Or.inl (kept (sideline_keeps performed trivial).2.2)

theorem mayRun_sentFor {key : String × String} (ran : w.MayRun key) : 0 < w.sentFor key := by
  obtain ⟨sent, member, named, _⟩ := ran
  exact sentFor_pos member named

theorem sent_row (accountable : Accountable w told) {key : String × String} (sent : 0 < w.sentFor key) :
    (lower key.1, key.2) = key ∧ ∃ d, w.deliveries.find? key = some d ∧ d.state ≠ .ready := by
  obtain ⟨sent, member, named⟩ := List.countP_pos_iff.mp sent
  obtain ⟨d, found, past, -⟩ := accountable.sent sent member key (of_decide_eq_true named)
  refine ⟨?_, d, found, past⟩
  obtain rfl := (Table.find?_some found).2
  exact Prod.ext (accountable.lowered _ d found) rfl

/-- A delivery that a call newly rejects is claimed by nobody and has not run. -/
theorem rejects_unsent (h : Placed hosted w told g queued) (accountable : Accountable w told)
    (stands : (g p).may hosted c) (performed : perform k w c = some (r, w')) {key : String × String}
    (rejected : w'.Rejected key) : w.Rejected key ∨ (∀ q, (told q).won ≠ some key) ∧ ¬ w.MayRun key := by
  rcases perform_rejects performed rejected with before | ⟨_, _, _, d, _, _, found, ready⟩ |
    ⟨_, _, _, rfl, rfl⟩
  · exact Or.inl before
  · refine Or.inr ⟨fun q won => ?_, fun ran => ?_⟩
    · obtain ⟨⟨d', found', past⟩, -⟩ := accountable.won q key won
      obtain rfl := Option.some.inj (found.symm.trans found')
      exact past ready
    · obtain ⟨-, d', found', past⟩ := sent_row accountable (mayRun_sentFor ran)
      obtain rfl := Option.some.inj (found.symm.trans found')
      exact past ready
  · -- only the thread that was refused records a refusal
    obtain ⟨key, refused, same⟩ := Option.map_eq_some_iff.mp (stands rfl)
    obtain ⟨sent, lost⟩ := h.refused p key refused
    rw [(sent_row accountable sent).1] at same
    subst same
    refine Or.inr ⟨fun q won => ?_, lost⟩
    rw [(accountable.won q _ won).2] at sent
    exact Nat.lt_irrefl 0 sent

/-- The ledger rejects a delivery a thread has just seen it reject. -/
theorem note_settled (performed : perform k w c = some (r, w')) {standing : Standing}
    {key : String × String}
    (settled : (standing.note c r).settled = some key) :
    standing.settled = some key ∨ w'.Rejected key := by
  have taken {repository delivery : String} {source : DeliveryState} {error : Option String}
      (won : (w.deliveries.move repository delivery source .rejected error k.now).1 = true)
      (same : w'.deliveries = (w.deliveries.move repository delivery source .rejected error k.now).2)
      (named : some (lower repository, delivery) = some key) : w'.Rejected key := by
    obtain rfl := Option.some.inj named
    obtain ⟨-, d', found, state⟩ := Deliveries.move_taken won
    exact ⟨d', by rw [same]; exact found, state⟩
  cases c with
  | rejectReady repository delivery reason =>
    rcases perform_cases performed with ⟨e, _, _, rfl, _⟩ | ⟨_, answered⟩
    · exact Or.inl settled
    · obtain ⟨rfl, rfl⟩ := Prod.mk.inj (Option.some.inj answered)
      cases won : (w.deliveries.rejectReady repository delivery reason k.now).1 with
      | false =>
        rw [won] at settled
        exact Or.inl settled
      | true =>
        rw [won] at settled
        exact Or.inr (taken won rfl settled)
  | finish repository delivery state text =>
    rcases perform_cases performed with ⟨e, _, _, rfl, _⟩ | ⟨_, answered⟩
    · cases state <;> exact Or.inl settled
    · simp only [answer] at answered
      split at answered
      · obtain ⟨rfl, rfl⟩ := Prod.mk.inj (Option.some.inj answered)
        cases state <;> exact Or.inl settled
      · obtain ⟨rfl, rfl⟩ := Prod.mk.inj (Option.some.inj answered)
        cases state with
        | rejected =>
          cases won : (w.deliveries.finish repository delivery .rejected text k.now).1 with
          | false =>
            rw [won] at settled
            exact Or.inl settled
          | true =>
            rw [won] at settled
            exact Or.inr (taken won rfl settled)
        | _ => exact Or.inl settled
  | _ => exact Or.inl settled

/-- A claim a thread holds after a call it held before, unless the call was that claim. -/
theorem note_won (performed : perform k w c = some (r, w')) {known : Told} {key : String × String}
    (won : (known.note c r).won = some key) :
    known.won = some key ∨ ∃ d, w'.deliveries.find? key = some d ∧ d.state = .attempting := by
  cases c with
  | claimDelivery repository delivery =>
    rcases perform_cases performed with ⟨e, _, _, rfl, _⟩ | ⟨_, answered⟩
    · exact Or.inl won
    · obtain ⟨rfl, rfl⟩ := Prod.mk.inj (Option.some.inj answered)
      cases taken : (w.deliveries.claim repository delivery k.now).1 with
      | false =>
        rw [taken] at won
        exact Or.inl won
      | true =>
        rw [taken] at won
        obtain rfl := Option.some.inj won
        exact Or.inr (Deliveries.move_taken taken).2
  | dispatch _ => exact nomatch won
  | getDelivery _ _ =>
    cases r with
    | error e => exact Or.inl won
    | ok found => cases found <;> exact Or.inl won
  | register _ _ _ _ _ _ _ | pending => cases r <;> exact Or.inl won
  | _ => exact Or.inl won

/-- A call that asks GitHub for no run. -/
theorem placed_undispatched (h : Placed hosted w told g queued) (accountable : Accountable w told)
    (stands : (g p).may hosted c) (quiet : c.undispatched) (performed : perform k w c = some (r, w')) :
    Placed hosted w' (Function.update told p ((told p).note c r)) (Function.update g p ((g p).note c r))
      (fun key => queued key ∨ key ∈ c.queues (g p).named) := by
  have sent := undispatched_sends performed quiet
  have kept {key : String × String} : w.Rejected key → w'.Rejected key :=
    rejected_evolves (perform_evolves performed)
  have ran {key : String × String} : w'.MayRun key ↔ w.MayRun key := by
    rw [World.MayRun, World.MayRun, sent]
  have count (key : String × String) : w'.sentFor key = w.sentFor key := by
    rw [World.sentFor, World.sentFor, sent]
  have refused (q : Thread) (key : String × String) (refused : (g q).refused = some key) :
      0 < w'.sentFor key ∧ ¬ w'.MayRun key := by
    rw [count, ran]
    exact h.refused q key refused
  have free (q : Thread) (key : String × String) (won : (told q).won = some key) :
      ¬ w'.Rejected key := fun rejected => by
    rcases rejects_unsent h accountable stands performed rejected with before | ⟨nobody, -⟩
    · exact h.won q key won before
    · exact nobody q won
  constructor
  · intro q key
    refine update_forall (P := fun x : Standing => x.refused = some key → 0 < w'.sentFor key ∧
      ¬ w'.MayRun key)
      (fun q => refused q key) (fun mine => refused p key ?_) q
    cases c with
    | dispatch _ => exact quiet.elim
    | _ => exact mine
  · intro q key
    refine update_forall (P := fun x : Standing => x.settled = some key → w'.Rejected key)
      (fun q settled => kept (h.settled q key settled)) (fun mine => ?_) q
    rcases note_settled performed mine with before | now
    · exact kept (h.settled p key before)
    · exact now
  · intro q key
    refine update_forall (P := fun x : Told => x.won = some key → ¬ w'.Rejected key)
      (fun q => free q key) (fun mine => ?_) q
    rcases note_won performed mine with before | ⟨d, found, attempting⟩
    · exact free p key before
    · rintro ⟨d', found', rejected⟩
      obtain rfl := Option.some.inj (found.symm.trans found')
      rw [attempting] at rejected
      cases rejected
  · intro key mayRun rejected
    rw [ran] at mayRun
    rcases rejects_unsent h accountable stands performed rejected with before | ⟨-, lost⟩
    · exact h.ran key mayRun before
    · exact lost mayRun
  · intro key d found
    cases before : w.deliveries.find? key with
    | some d' => exact h.held key d' before
    | none =>
      obtain ⟨_, _, _, _, _, _, _, rfl, rfl, -⟩ := perform_born performed before found
      exact stands
  · rintro key (before | now)
    · exact (h.queued key before).imp_left kept
    · cases c with
      | enqueue _ =>
        refine (stands key (Option.mem_toList.mp now)).imp_left fun settled =>
          kept (h.settled p key settled)
      | _ => cases now

/-- The request of a row goes out for a delivery none was sent for. -/
theorem may_unsent (accountable : Accountable w told) {request : Request}
    (allowed : (told p).may (.dispatch request))
    {key : String × String} (named : request.delivery = some key) :
    (told p).won = some key ∧ w.sentFor key = 0 := by
  rcases allowed with nobody | ⟨d, member, rfl, paid⟩
  · rw [nobody] at named
    cases named
  · obtain rfl := Option.some.inj named
    obtain ⟨d', found, -⟩ := accountable.seen p d member
    have same : d'.repository = d.repository := congrArg Prod.fst (Table.find?_some found).2
    have lowered : lower d.repository = d.repository := by
      rw [← same]
      exact accountable.lowered _ d' found
    rw [lowered] at paid
    exact ⟨paid, (accountable.won p _ paid).2⟩

theorem placed_dispatch (h : Placed hosted w told g queued) (accountable : Accountable w told)
    {request : Request}
    (allowed : (told p).may (.dispatch request)) {outcome : DispatchOutcome} :
    Placed hosted { w with sent := w.sent ++ [(request, outcome)] }
      (Function.update told p { told p with won := none })
      (Function.update g p ((g p).note (.dispatch request) (outcome.raised.elim (.ok ()) .error)))
      queued := by
  have unsent {key : String × String} (named : request.delivery = some key) :=
    may_unsent accountable allowed named
  have ran {key : String × String}
      (ran : World.MayRun { w with sent := w.sent ++ [(request, outcome)] } key) :
      w.MayRun key ∨ request.delivery = some key ∧ outcome.mayRun = true := by
    obtain ⟨sent, member, named, runs⟩ := ran
    rcases List.mem_append.mp member with before | now
    · exact Or.inl ⟨sent, before, named, runs⟩
    · obtain rfl := List.mem_singleton.mp now
      exact Or.inr ⟨named, runs⟩
  have grown {key : String × String} (positive : 0 < w.sentFor key) :
      0 < World.sentFor { w with sent := w.sent ++ [(request, outcome)] } key := by
    rw [World.sentFor, List.countP_append]
    exact Nat.add_pos_left positive _
  constructor
  · intro q key
    refine update_forall (P := fun x : Standing => x.refused = some key → _) (fun q refused => ?_)
      (fun mine => ?_) q
    · obtain ⟨sent, lost⟩ := h.refused q key refused
      refine ⟨grown sent, fun again => ?_⟩
      rcases ran again with before | ⟨named, -⟩
      · exact lost before
      · rw [(unsent named).2] at sent
        exact Nat.lt_irrefl 0 sent
    · -- a definite refusal is the only request the delivery has seen
      change refusedBy request (outcome.raised.elim (.ok ()) .error) = some key at mine
      have named : request.delivery = some key ∧ outcome.mayRun = false := by
        cases outcome with
        | accepted | lost _ => cases mine
        | unreachable _ => exact ⟨mine, rfl⟩
        | refused statusCode detail =>
          change (if refusalUncertain (some statusCode) then none else request.delivery) =
            some key at mine
          split at mine
          · cases mine
          · rename_i definite
            exact ⟨mine, by simpa [DispatchOutcome.mayRun] using definite⟩
      refine ⟨sentFor_pos (List.mem_append_right _ (List.mem_singleton_self _)) named.1, fun again => ?_⟩
      rcases ran again with before | ⟨-, runs⟩
      · have positive := mayRun_sentFor before
        rw [(unsent named.1).2] at positive
        exact Nat.lt_irrefl 0 positive
      · rw [named.2] at runs
        cases runs
  · intro q key
    refine update_forall (P := fun x : Standing => x.settled = some key → w.Rejected key)
      (fun q => h.settled q key)
      (fun mine => ?_) q
    exact h.settled p key mine
  · intro q key
    exact update_forall (P := fun x : Told => x.won = some key → ¬ w.Rejected key) (fun q => h.won q key)
      (fun won => by cases won) q
  · intro key again
    rcases ran again with before | ⟨named, -⟩
    · exact h.ran key before
    · exact h.won p key (unsent named).1
  · exact h.held
  · exact h.queued

/-- A request that failed before it was sent refuses nothing. -/
theorem placed_unsent (h : Placed hosted w told g queued) (request : Request) {e : Raised}
    (unsent : refusedBy request (.error e) = none) :
    Placed hosted w (Function.update told p { told p with won := none })
      (Function.update g p ((g p).note (.dispatch request) (.error e))) queued := by
  refine ⟨fun q key => ?_, fun q key => ?_, fun q key => ?_, h.ran, h.held, h.queued⟩
  · refine update_forall (P := fun x : Standing => x.refused = some key → 0 < w.sentFor key ∧
      ¬ w.MayRun key)
      (fun q => h.refused q key) (fun mine => ?_) q
    exact nomatch unsent.symm.trans mine
  · refine update_forall (P := fun x : Standing => x.settled = some key → w.Rejected key)
      (fun q => h.settled q key)
      (fun mine => ?_) q
    exact h.settled p key mine
  · exact update_forall (P := fun x : Told => x.won = some key → ¬ w.Rejected key) (fun q => h.won q key)
      (fun won => by cases won) q

/-- One allowed call of one thread. -/
theorem placed_perform (h : Placed hosted w told g queued) (accountable : Accountable w told)
    (allowed : (told p).may c) (stands : (g p).may hosted c) (performed : perform k w c = some (r, w')) :
    Placed hosted w' (Function.update told p ((told p).note c r)) (Function.update g p ((g p).note c r))
      (fun key => queued key ∨ key ∈ c.queues (g p).named) := by
  cases c with
  | dispatch request =>
    have same : (fun key => queued key ∨ key ∈ Call.queues (g p).named (.dispatch request)) = queued :=
      funext fun key => propext ⟨fun h => h.resolve_right List.not_mem_nil, Or.inl⟩
    rw [same]
    rcases perform_cases performed with ⟨e, _, possible, rfl, rfl⟩ | ⟨_, answered⟩
    · refine placed_unsent h request ?_
      cases e with
      | other _ => rfl
      | _ => cases possible
    · obtain ⟨rfl, rfl⟩ := Prod.mk.inj (Option.some.inj answered)
      exact placed_dispatch h accountable allowed
  | _ => exact placed_undispatched h accountable stands trivial performed

end Placed

/-! ## Runs -/

namespace Site

/-- Where every thread stands, and what is accounted for. -/
structure OnePlace (hosted : String × String → Bool) (errand : Thread → Option (String × String))
    (told : Thread → Told)
    (g : Thread → Standing) (s : Site) : Prop where
  disciplined : Crew.Disciplined discipline told s.crew
  accountable : Accountable s.state told
  stands : ∀ p left, s.crew.task p = some left → Stands hosted (g p) (s.crew.made p) left
  named : ∀ p, (g p).named = lastNamed (errand p) (s.crew.made p)
  unused : s.crew.Unused
  placed : Placed hosted s.state told g fun key => ∃ p, key ∈ queuedFor (errand p) (s.crew.made p)

section OnePlace
variable {hosted : String × String → Bool} {errand : Thread → Option (String × String)}
    {told : Thread → Told}
  {g : Thread → Standing} {s s' : Site} {a : Action} {p : Thread}

theorem start_onePlace (server : Server) :
    OnePlace hosted errand (fun _ => {}) (fun p => { named := errand p }) (start server) := by
  refine ⟨Crew.disciplined_fresh _, ?_, nofun, fun _ => rfl, Crew.unused_fresh _, ?_⟩
  · constructor
    · intro key d found; cases found
    · intro p d member; cases member
    · intro p key won; cases won
    · intro p q key won; cases won
    · intro sent member; cases member
    · intro key; exact Nat.zero_le 1
  · constructor
    · intro p key refused; cases refused
    · intro p key settled; cases settled
    · intro p key won; cases won
    · rintro key ⟨sent, member, -⟩; cases member
    · intro key d found; cases found
    · rintro key ⟨p, member⟩; cases member

/-- What becomes of the ledger and the threads when only the queue, or nothing, is touched. -/
theorem placed_evolves {w w' : World} {queued : String × String → Prop}
    (h : Placed hosted w told g queued)
    (evolves : w.deliveries.Evolves w'.deliveries) (same : w'.sent = w.sent)
    (rejected : ∀ key, w'.Rejected key → w.Rejected key)
    (known : ∀ key, w.deliveries.find? key = none → w'.deliveries.find? key = none) :
    Placed hosted w' told g queued := by
  have ran {key : String × String} : w'.MayRun key ↔ w.MayRun key := by
    rw [World.MayRun, World.MayRun, same]
  have count (key : String × String) : w'.sentFor key = w.sentFor key := by
    rw [World.sentFor, World.sentFor, same]
  refine ⟨fun p key refused => ?_, fun p key settled => rejected_evolves evolves
    (h.settled p key settled),
    fun p key won again => h.won p key won (rejected key again), fun key runs again =>
    h.ran key (ran.mp runs) (rejected key again),
    fun key d found => ?_, fun key queued => (h.queued key queued).imp_left (rejected_evolves evolves)⟩
  · rw [count, ran]
    exact h.refused p key refused
  · cases before : w.deliveries.find? key with
    | some d' => exact h.held key d' before
    | none =>
      rw [known key before] at found
      cases found

theorem recovered_rejected {w w' : World}
    (h : w'.deliveries = w.deliveries ∨ ∃ now, w'.deliveries = w.deliveries.recover now)
    {key : String × String} (rejected : w'.Rejected key) : w.Rejected key := by
  obtain ⟨d', found', state⟩ := rejected
  rcases h with same | ⟨now, same⟩
  · exact ⟨d', by rw [← same]; exact found', state⟩
  · rw [same, Deliveries.recover, Table.find?_update] at found'
    obtain ⟨d, found, rfl⟩ := Option.map_eq_some_iff.mp found'
    refine ⟨d, found, ?_⟩
    rw [Edit.only_apply] at state
    split at state
    · cases state
    · exact state

/-- One step, if it starts each push under its own errand and keeps the arrivals of a delivery to
one way. -/
theorem step_onePlace (h : OnePlace hosted errand told g s) (oneWay : OneWay hosted s a)
    (errands : ∀ p, a.starts = some p → errand p = a.errand) (taken : s.step a = some s') :
    ∃ told g, OnePlace hosted errand told g s' := by
  have starts {p : Thread} {program : Program Unit} {crew : Crew Thread Call Ans Raised World}
      (follows : Keeps program (told p)) (stands : Stands hosted (g p) [] program)
      (started : s.crew.spawn p program = some crew) :
      OnePlace hosted errand told g { s with crew := crew } := by
    obtain ⟨same, kept⟩ := Crew.disciplined_spawn h.disciplined follows started
    rw [Function.update_eq_self] at kept
    have unused := Crew.unused_spawn h.unused started
    obtain ⟨idle, rfl⟩ := Crew.spawn_eq started
    refine ⟨kept, h.accountable, fun q left task => ?_, h.named, unused, h.placed⟩
    by_cases acting : q = p
    · subst acting
      obtain rfl := Option.some.inj ((Function.update_self q (some program) s.crew.task).symm.trans task)
      show Stands hosted (g q) (s.crew.made q) program
      rw [h.unused q idle]
      exact stands
    · exact h.stands q left ((Function.update_of_ne acting (some program) s.crew.task).symm.trans task)
  cases a with
  | webhook p request =>
    obtain ⟨crew, started, rfl⟩ := Option.map_eq_some_iff.mp taken
    obtain ⟨idle, -⟩ := Crew.spawn_eq started
    refine ⟨told, g, starts (keeps_webhook request _) (stands_webhook ?_ oneWay) started⟩
    rw [h.named, h.unused p idle, errands p rfl]
    rfl
  | dispatch p request =>
    obtain ⟨crew, started, rfl⟩ := Option.map_eq_some_iff.mp taken
    obtain ⟨idle, -⟩ := Crew.spawn_eq started
    have only : (dispatchEndpoint s.server request).Only Call.unledgered := only_dispatchEndpoint request
    refine ⟨told, g, starts (keeps_undelivered (only_mono only fun _ => unledgered_undelivered) _)
      (.free (places_unnamed only ?_)) started⟩
    rw [h.named, h.unused p idle, errands p rfl]
    rfl
  | replay p =>
    simp only [step] at taken
    split at taken
    · obtain ⟨crew, started, rfl⟩ := Option.map_eq_some_iff.mp taken
      exact ⟨told, g, starts (keeps_recoverReady _) (.free (places_recoverReady _)) started⟩
    · cases taken
  | turn p k =>
    obtain ⟨crew, turned, rfl⟩ := Option.map_eq_some_iff.mp taken
    have unused := Crew.unused_turn h.unused turned
    obtain ⟨c, next, r, task, performed, tasks, made⟩ := Crew.turn_eq turned
    obtain ⟨allowed, kept⟩ := Crew.disciplined_answer h.disciplined task tasks
    obtain ⟨may, stands⟩ := stands_next (h.stands p _ task) performed fun server header fingerprint
      event branch delivery
      fallback github looked asked quiet => oneWay server event delivery fallback
        ⟨github, looked, header, fingerprint, branch, by rw [task, asked]⟩ quiet
    have placed := placed_perform h.placed h.accountable allowed may performed
    refine ⟨_, Function.update g p ((g p).note c r), kept, accountable_perform h.accountable allowed
      performed,
      fun q left mine => ?_, fun q => ?_, unused,
      { placed with queued := fun key queued => placed.queued key ?_ }⟩
    · change crew.task q = some left at mine
      show Stands hosted (Function.update g p _ q) (crew.made q) left
      rw [tasks] at mine
      rw [made]
      by_cases acting : q = p
      · subst acting
        rw [Function.update_self] at mine ⊢
        rw [Function.update_self]
        obtain rfl := Option.some.inj mine
        exact stands
      · rw [Function.update_of_ne acting] at mine ⊢
        rw [Function.update_of_ne acting]
        exact h.stands q left mine
    · show (Function.update g p _ q).named = lastNamed (errand q) (crew.made q)
      rw [made]
      by_cases acting : q = p
      · subst acting
        rw [Function.update_self, Function.update_self, lastNamed_concat, ← h.named]
        rfl
      · rw [Function.update_of_ne acting, Function.update_of_ne acting]
        exact h.named q
    · obtain ⟨q, member⟩ := queued
      change key ∈ queuedFor (errand q) (crew.made q) at member
      rw [made] at member
      by_cases acting : q = p
      · subst acting
        rw [Function.update_self, queuedFor_concat, ← h.named] at member
        exact (List.mem_append.mp member).imp_left fun before => ⟨q, before⟩
      · rw [Function.update_of_ne acting] at member
        exact Or.inl ⟨q, member⟩
  | restart server now =>
    obtain ⟨w, rfl, sent, -, ledger⟩ := step_restart taken
    have evolves := Deliveries.evolves_of_recovered ledger
    refine ⟨told, g, Crew.disciplined_stop _ _, accountable_evolves h.accountable evolves sent,
      fun p left task => ?_, h.named,
      Crew.unused_stop h.unused _, placed_evolves h.placed evolves sent
        (fun _ => recovered_rejected ledger)
        fun _ => Deliveries.recovered_absent ledger⟩
    obtain ⟨_, _, rfl⟩ := Option.map_eq_some_iff.mp task
    exact .free trivial
  | queue op =>
    obtain rfl := Option.some.inj taken
    exact ⟨told, g, h.disciplined, accountable_evolves h.accountable (Deliveries.Evolves.refl _)
      rfl, h.stands, h.named,
      h.unused, placed_evolves h.placed (Deliveries.Evolves.refl _) rfl (fun _ => id) fun _ => id⟩

end OnePlace

variable {hosted : String × String → Bool} {s t : Site} {actions : List Action}

/-- An action that starts a thread finds it idle. -/
theorem step_starts {a : Action} {p : Thread} (starts : a.starts = some p) (taken : s.step a = some t) :
    s.crew.task p = none ∧ t.crew.task p ≠ none := by
  have spawned {program : Program Unit} (taken : s.spawn p program = some t) :
      s.crew.task p = none ∧ t.crew.task p ≠ none := by
    obtain ⟨crew, started, rfl⟩ := Option.map_eq_some_iff.mp taken
    obtain ⟨idle, rfl⟩ := Crew.spawn_eq started
    refine ⟨idle, ?_⟩
    show Function.update s.crew.task p (some program) p ≠ none
    rw [Function.update_self]
    exact nofun
  cases a with
  | webhook q request | dispatch q request =>
    obtain rfl := Option.some.inj starts
    exact spawned taken
  | replay q =>
    obtain rfl := Option.some.inj starts
    simp only [step] at taken
    split at taken
    · exact spawned taken
    · cases taken
  | _ => cases starts

theorem started_stays {a : Action} {p : Thread} (started : s.crew.task p ≠ none)
    (taken : s.step a = some t) :
    t.crew.task p ≠ none := by
  obtain ⟨left, task⟩ := Option.ne_none_iff_exists'.mp started
  rcases step_thread task taken with ⟨_, _, _, _, _, _, mine, _⟩ | ⟨_, mine | ⟨_, mine⟩⟩
  · rw [mine]; exact nofun
  · rw [mine]; exact nofun
  · rw [mine]; exact nofun

theorem started_once {p : Thread} (started : s.crew.task p ≠ none) (h : run step s actions = some t) :
    ∀ a ∈ actions, a.starts ≠ some p := by
  induction actions generalizing s with
  | nil => exact fun a member => nomatch member
  | cons first rest ih =>
    obtain ⟨u, taken, tail⟩ := run_cons h
    intro a member starts
    rcases List.mem_cons.mp member with rfl | later
    · exact started (step_starts starts taken).1
    · exact ih (started_stays started taken) tail a later starts

/-- Each thread is started once, so that a run starts it for one errand. -/
theorem errandOf_starts (h : run step s actions = some t) :
    ∀ a ∈ actions, ∀ p, a.starts = some p → errandOf actions p = a.errand := by
  induction actions generalizing s with
  | nil => exact fun a member => nomatch member
  | cons first rest ih =>
    obtain ⟨u, taken, tail⟩ := run_cons h
    intro a member p starts
    rw [errandOf]
    split
    · rename_i mine
      rcases List.mem_cons.mp member with rfl | later
      · rfl
      · exact absurd starts (started_once (step_starts mine taken).2 tail a later)
    · rename_i other
      rcases List.mem_cons.mp member with rfl | later
      · exact absurd starts other
      · exact ih tail a later p starts

/-- A push whose arrivals go one way runs in one place: nothing is queued on a device for a delivery
that GitHub may be running. -/
theorem push_in_one_place {server : Server} (oneWay : Along step (OneWay hosted) (start server) actions)
    (h : run step (start server) actions = some s) (key : String × String) :
    ¬ (s.state.MayRun key ∧ s.Queued actions key) := by
  have errands : Along step (fun _ (a : Action) => ∀ p, a.starts = some p →
      errandOf actions p = a.errand) (start server)
      actions := along_of_forall _ (errandOf_starts h)
  obtain ⟨told, g, onePlace⟩ :=
    along_invariant (P := fun s => ∃ told g, OnePlace hosted (errandOf actions) told g s)
    (fun s a t holds guard taken => by
      obtain ⟨told, g, onePlace⟩ := holds
      exact step_onePlace onePlace guard.1 guard.2 taken)
    (along_and oneWay errands) ⟨_, _, start_onePlace server⟩ h
  rintro ⟨ran, queued⟩
  rcases onePlace.placed.queued key queued with rejected | device
  · exact onePlace.placed.ran key ran rejected
  · obtain ⟨-, d, found, -⟩ := sent_row onePlace.accountable (mayRun_sentFor ran)
    exact nomatch device.symm.trans (onePlace.placed.held key d found)

end Site

/-! ## A push whose adapter appears between two arrivals -/

/-- The push finds no adapter and is queued. GitHub delivers it again once the adapter is there. -/
def adoptedPush : List Action :=
  .webhook 0 (pushOf "digest" "abc123") :: List.replicate 6
    (.turn 0 { present := false, fresh := "job" }) ++
    .webhook 1 (pushOf "digest" "abc123") :: List.replicate 5 (.turn 1 {})

theorem adoptedPush_twice :
    ∃ s, run Site.step (Site.start shippedServer) adoptedPush = some s ∧
      s.Queued adoptedPush ("example-org/example-app", "72d3162e") ∧
      s.state.MayRun ("example-org/example-app", "72d3162e") ∧
      s.state.jobs.jobs.rows.map (fun row => (row.repository, row.sha, row.delivery)) =
        [("example-org/example-app", "abc123", some "72d3162e")] ∧
      s.state.sent.map (fun sent => (sent.1.delivery, sent.2)) =
        [(some ("example-org/example-app", "72d3162e"), .accepted)] := by
  have ends : (run Site.step (Site.start shippedServer) adoptedPush).map (fun s =>
      (queuedFor (errandOf adoptedPush 0) (s.crew.made 0),
        s.state.jobs.jobs.rows.map fun row => (row.repository, row.sha, row.delivery))) =
      some ([("example-org/example-app", "72d3162e")],
      [("example-org/example-app", "abc123", some "72d3162e")]) := by
    decide +kernel
  have requests : (run Site.step (Site.start shippedServer) adoptedPush).map
      (fun s => s.state.sent.map fun sent => (sent.1.delivery, sent.2)) =
      some [(some ("example-org/example-app", "72d3162e"), .accepted)] := by decide +kernel
  obtain ⟨s, ran, ended⟩ := Option.map_eq_some_iff.mp ends
  obtain ⟨queued, jobs⟩ := Prod.mk.inj ended
  rw [ran] at requests
  have sent := Option.some.inj requests
  refine ⟨s, ran, ⟨0, by rw [queued]; exact List.mem_singleton_self _⟩, ?_, jobs, sent⟩
  obtain ⟨x, member, same⟩ := List.mem_map.mp (sent ▸ List.mem_singleton_self
    (some ("example-org/example-app", "72d3162e"), DispatchOutcome.accepted))
  obtain ⟨named, accepted⟩ := Prod.mk.inj same
  exact ⟨x, member, named, by rw [accepted]; rfl⟩

/-- Neither arrival of the push finds an adapter. -/
def absentPush : List Action :=
  .webhook 0 (pushOf "digest" "abc123") :: List.replicate 6
    (.turn 0 { present := false, fresh := "job" }) ++
    .webhook 1 (pushOf "digest" "abc123") :: List.replicate 6
    (.turn 1 { present := false, fresh := "other" })

theorem absentPush_in_one_place :
    ∃ s, run Site.step (Site.start shippedServer) absentPush = some s ∧
      s.Queued absentPush ("example-org/example-app", "72d3162e") ∧
      ¬ (s.state.MayRun ("example-org/example-app", "72d3162e") ∧
        s.Queued absentPush ("example-org/example-app", "72d3162e")) := by
  have ends : (run Site.step (Site.start shippedServer) absentPush).map
      (fun s => queuedFor (errandOf absentPush 0) (s.crew.made 0)) =
      some [("example-org/example-app", "72d3162e")] := by decide +kernel
  obtain ⟨s, ran, queued⟩ := Option.map_eq_some_iff.mp ends
  have absent : ∀ a ∈ absentPush, ∀ p k, a = .turn p k → k.present = false := by
    intro a member p k same
    subst same
    simp only [absentPush, List.cons_append, List.mem_cons, List.mem_append, List.mem_replicate,
      Action.turn.injEq,
      reduceCtorEq, false_or] at member
    rcases member with ⟨_, _, rfl⟩ | ⟨_, _, rfl⟩
    · rfl
    · rfl
  have oneWay : Along Site.step (Site.OneWay fun _ => false) (Site.start shippedServer) absentPush := by
    refine along_mono (fun s a absent => ?_)
      (along_of_forall (fun a => ∀ p k, a = .turn p k → k.present = false) absent)
    cases a with
    | webhook p request => exact fun _ _ _ _ => rfl
    | turn p k =>
      intro server event delivery fallback _ _
      rw [absent p k rfl]
      exact fun _ _ => rfl
    | _ => trivial
  exact ⟨s, ran, ⟨0, by rw [queued]; exact List.mem_singleton_self _⟩, Site.push_in_one_place
    oneWay ran _⟩

end Cindral.Dispatch

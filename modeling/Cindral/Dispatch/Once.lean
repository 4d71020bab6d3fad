import Cindral.Dispatch.Discipline
import Cindral.Dispatch.Ledger

/-!
# One request for each delivery

Over any run of the broker: what the ledger says of a delivery only moves forward, a delivery's
request goes out once at most and as it was registered, and a second payload under a known id is
refused.
-/

namespace Cindral.Dispatch
open Base Routing Script

namespace World

/-- How often a request for a delivery was sent. -/
def sentFor (w : World) (key : String × String) : Nat :=
  w.sent.countP fun sent => sent.1.delivery = some key

/-- The row of a delivery is past `ready`, so its claim has been given out or is void. -/
def Past (w : World) (key : String × String) : Prop :=
  ∃ d, w.deliveries.find? key = some d ∧ d.state ≠ .ready

end World

theorem sentFor_pos {w : World} {key : String × String} {sent : Request × DispatchOutcome}
    (member : sent ∈ w.sent)
    (named : sent.1.delivery = some key) : 0 < w.sentFor key :=
  List.countP_pos_iff.mpr ⟨sent, member, decide_eq_true named⟩

/-- The ledger against what the threads know and what went out. -/
structure Accountable (w : World) (told : Thread → Told) : Prop where
  lowered : ∀ key d, w.deliveries.find? key = some d → lower d.repository = d.repository
  seen : ∀ p, ∀ d ∈ (told p).seen, ∃ d', w.deliveries.find? d.key = some d' ∧ d'.registered = d.registered
  won : ∀ p key, (told p).won = some key → w.Past key ∧ w.sentFor key = 0
  own : ∀ p q key, (told p).won = some key → (told q).won = some key → p = q
  sent : ∀ sent ∈ w.sent, ∀ key, sent.1.delivery = some key →
    ∃ d, w.deliveries.find? key = some d ∧ d.state ≠ .ready ∧ sent.1 = requestOf d
  once : ∀ key, w.sentFor key ≤ 1

variable {w w' : World} {told : Thread → Told} {k : Choice} {c : Call} {r : Except Raised (Ans c)}
    {p : Thread}

theorem requestOf_congr {d d' : Delivery} (key : d'.key = d.key)
    (registered : d'.registered = d.registered) :
    requestOf d' = requestOf d := by
  simp only [Delivery.key, Prod.mk.injEq] at key
  simp only [Delivery.registered, Prod.mk.injEq] at registered
  simp only [requestOf, Delivery.key, key, registered]

theorem evolved_past {d d' : Delivery} (evolved : d.Evolved d') (past : d.state ≠ .ready) :
    d'.state ≠ .ready := by
  rcases evolved.state with same | moved
  · rwa [← same]
  · exact moved.not_ready

theorem past_evolves (evolves : w.deliveries.Evolves w'.deliveries) {key : String × String}
    (past : w.Past key) :
    w'.Past key := by
  obtain ⟨d, found, state⟩ := past
  obtain ⟨d', found', evolved⟩ := evolves.kept key d found
  exact ⟨d', found', evolved_past evolved state⟩

/-- A ledger that moves on while nothing is sent stays accountable. -/
theorem accountable_evolves (h : Accountable w told) (evolves : w.deliveries.Evolves w'.deliveries)
    (same : w'.sent = w.sent) : Accountable w' told := by
  have count (key) : w'.sentFor key = w.sentFor key := by rw [World.sentFor, World.sentFor, same]
  constructor
  · intro key d' found'
    cases found : w.deliveries.find? key with
    | none => exact (evolves.born key d' found found').2
    | some d =>
      obtain ⟨d'', again, evolved⟩ := evolves.kept key d found
      obtain rfl := Option.some.inj (found'.symm.trans again)
      have named : d'.repository = d.repository := congrArg Prod.fst evolved.key
      rw [named]
      exact h.lowered key d found
  · intro p d member
    obtain ⟨d', found, registered⟩ := h.seen p d member
    obtain ⟨d'', found', evolved⟩ := evolves.kept _ d' found
    exact ⟨d'', found', evolved.registered.trans registered⟩
  · intro p key won
    obtain ⟨past, unsent⟩ := h.won p key won
    exact ⟨past_evolves evolves past, by rw [count, unsent]⟩
  · exact h.own
  · intro sent member key named
    rw [same] at member
    obtain ⟨d, found, past, request⟩ := h.sent sent member key named
    obtain ⟨d', found', evolved⟩ := evolves.kept key d found
    exact ⟨d', found', evolved_past evolved past,
      request.trans (requestOf_congr evolved.key evolved.registered).symm⟩
  · intro key
    rw [count]
    exact h.once key

/-- A thread that has learnt of rows the ledger holds. -/
theorem accountable_sees (h : Accountable w told) {rows : List Delivery}
    (present : ∀ d ∈ rows, w.deliveries.find? d.key = some d) :
    Accountable w (Function.update told p ((told p).sees rows)) := by
  have won (q) : (Function.update told p ((told p).sees rows) q).won = (told q).won := by
    by_cases same : q = p
    · subst same; rw [Function.update_self]; rfl
    · rw [Function.update_of_ne same]
  constructor
  · exact h.lowered
  · intro q d member
    by_cases same : q = p
    · subst same
      rw [Function.update_self] at member
      rcases List.mem_append.mp member with read | known
      · exact ⟨d, present d read, rfl⟩
      · exact h.seen q d known
    · rw [Function.update_of_ne same] at member
      exact h.seen q d member
  · intro q key
    rw [won]
    exact h.won q key
  · intro q q' key
    rw [won, won]
    exact h.own q q' key
  · exact h.sent
  · exact h.once

/-- A claim gives its thread the one request of a row nobody has claimed. -/
theorem accountable_claims (h : Accountable w told) (evolves : w.deliveries.Evolves w'.deliveries)
    (same : w'.sent = w.sent) {key : String × String} {d : Delivery}
    (found : w.deliveries.find? key = some d)
    (ready : d.state = .ready) (past : w'.Past key) :
    Accountable w' (Function.update told p { told p with won := some key }) := by
  have unclaimed (q) : (told q).won ≠ some key := fun won => by
    obtain ⟨⟨d', found', state⟩, -⟩ := h.won q key won
    obtain rfl := Option.some.inj (found.symm.trans found')
    exact state ready
  have unsent : w.sentFor key = 0 := by
    refine List.countP_eq_zero.mpr fun sent member named => ?_
    obtain ⟨d', found', state, -⟩ := h.sent sent member key (of_decide_eq_true named)
    obtain rfl := Option.some.inj (found.symm.trans found')
    exact state ready
  have moved := accountable_evolves h evolves same
  have won {q : Thread} {key' : String × String}
      (won : (Function.update told p { told p with won := some key } q).won = some key') :
      (q = p ∧ key' = key) ∨ (q ≠ p ∧ (told q).won = some key') := by
    by_cases acting : q = p
    · subst acting
      rw [Function.update_self] at won
      exact Or.inl ⟨rfl, (Option.some.inj won).symm⟩
    · rw [Function.update_of_ne acting] at won
      exact Or.inr ⟨acting, won⟩
  constructor
  · exact moved.lowered
  · intro q d' member
    refine moved.seen q d' ?_
    by_cases acting : q = p
    · subst acting
      rwa [Function.update_self] at member
    · rwa [Function.update_of_ne acting] at member
  · intro q key' holds
    rcases won holds with ⟨rfl, rfl⟩ | ⟨_, before⟩
    · exact ⟨past, by rw [World.sentFor, same]; exact unsent⟩
    · exact moved.won q key' before
  · intro q q' key' holds holds'
    rcases won holds with ⟨rfl, rfl⟩ | ⟨_, before⟩
    · rcases won holds' with ⟨rfl, -⟩ | ⟨_, before'⟩
      · rfl
      · exact absurd before' (unclaimed q')
    · rcases won holds' with ⟨rfl, rfl⟩ | ⟨_, before'⟩
      · exact absurd before (unclaimed q)
      · exact h.own q q' key' before before'
  · exact moved.sent
  · exact moved.once

/-- A thread that has used its claim, or lost it, holds none. -/
theorem accountable_drops (h : Accountable w told) :
    Accountable w (Function.update told p { told p with won := none }) := by
  have won {q : Thread} {key : String × String}
      (won : (Function.update told p { told p with won := none } q).won = some key) :
      (told q).won = some key := by
    by_cases acting : q = p
    · subst acting
      rw [Function.update_self] at won
      cases won
    · rwa [Function.update_of_ne acting] at won
  refine ⟨h.lowered, fun q d member => h.seen q d ?_, fun q key holds => h.won q key (won holds),
    fun q q' key holds holds' => h.own q q' key (won holds) (won holds'), h.sent, h.once⟩
  by_cases acting : q = p
  · subst acting
    rwa [Function.update_self] at member
  · rwa [Function.update_of_ne acting] at member

/-- A request that was allowed uses up the claim it was sent on. -/
theorem accountable_sends (h : Accountable w told) {request : Request} {outcome : DispatchOutcome}
    (allowed : (told p).may (.dispatch request)) :
    Accountable { w with sent := w.sent ++ [(request, outcome)] }
      (Function.update told p { told p with won := none }) := by
  have dropped := accountable_drops (p := p) h
  rcases allowed with nobody | ⟨d, member, rfl, paid⟩
  · have count (key) : World.sentFor { w with sent := w.sent ++ [(request, outcome)] }
      key = w.sentFor key := by
      simp only [World.sentFor, List.countP_append, List.countP_singleton, nobody]
      rfl
    refine ⟨dropped.lowered, dropped.seen, fun q key holds => ?_, dropped.own,
      fun sent member key named => ?_, fun key => ?_⟩
    · obtain ⟨past, unsent⟩ := dropped.won q key holds
      exact ⟨past, (count key).trans unsent⟩
    · rcases List.mem_append.mp member with before | now
      · exact dropped.sent sent before key named
      · obtain rfl := List.mem_singleton.mp now
        rw [nobody] at named
        cases named
    · rw [count]
      exact dropped.once key
  · -- the claim is for the row's own key, which the ledger keeps lowered
    obtain ⟨d', found, registered⟩ := h.seen p d member
    have key : d'.key = d.key := (Table.find?_some found).2
    have lowered : lower d.repository = d.repository := by
      have named : d'.repository = d.repository := congrArg Prod.fst key
      rw [← named]
      exact h.lowered _ d' found
    rw [lowered] at paid
    obtain ⟨⟨d'', again, past⟩, unsent⟩ := h.won p d.key paid
    obtain rfl := Option.some.inj (found.symm.trans again)
    have count (other) : World.sentFor { w with sent := w.sent ++ [(requestOf d, outcome)] } other =
        w.sentFor other + if d.key = other then 1 else 0 := by
      simp only [World.sentFor, List.countP_append, List.countP_singleton, requestOf,
        Option.some.injEq, decide_eq_true_eq]
    refine ⟨dropped.lowered, dropped.seen, fun q other holds => ?_, dropped.own,
      fun sent member other named => ?_,
      fun other => ?_⟩
    · obtain ⟨past', unsent'⟩ := dropped.won q other holds
      refine ⟨past', ?_⟩
      rw [count, unsent', if_neg, Nat.zero_add]
      rintro rfl
      -- no other thread holds the claim that was just used
      by_cases acting : q = p
      · subst acting
        rw [Function.update_self] at holds
        cases holds
      · rw [Function.update_of_ne acting] at holds
        exact acting (h.own q p _ holds paid)
    · rcases List.mem_append.mp member with before | now
      · exact dropped.sent sent before other named
      · obtain rfl := List.mem_singleton.mp now
        obtain rfl := Option.some.inj named
        exact ⟨d', found, past, (requestOf_congr key registered).symm⟩
    · rw [count]
      split
      · rename_i same
        subst same
        omega
      · exact h.once other

theorem accountable_quiet (h : Accountable w told) (evolves : w.deliveries.Evolves w'.deliveries)
    (same : w'.sent = w.sent)
    (silent : (told p).note c r = told p) :
    Accountable w' (Function.update told p ((told p).note c r)) := by
  rw [silent, Function.update_eq_self]
  exact accountable_evolves h evolves same

theorem pending_present (t : Deliveries) (limit : Nat) :
    ∀ d ∈ t.pending limit, t.find? d.key = some d := by
  intro d member
  have sorted := List.mem_of_mem_take member
  rw [List.mem_insertionSort] at sorted
  exact Table.find?_of_mem (List.mem_filter.mp sorted).1

/-- One allowed call of one thread. -/
theorem accountable_perform (h : Accountable w told) (allowed : (told p).may c)
    (performed : perform k w c = some (r, w')) :
    Accountable w' (Function.update told p ((told p).note c r)) := by
  have evolves := perform_evolves performed
  rcases perform_cases performed with ⟨e, _, _, rfl, rfl⟩ | ⟨_, answered⟩
  · cases c with
    | dispatch _ => exact accountable_drops h
    | _ => exact accountable_quiet h evolves rfl rfl
  · cases c with
    | dispatch request =>
      obtain ⟨rfl, rfl⟩ := Prod.mk.inj (Option.some.inj answered)
      exact accountable_sends h allowed
    | getDelivery repository delivery =>
      obtain ⟨rfl, rfl⟩ := Prod.mk.inj (Option.some.inj answered)
      cases found : w.deliveries.get repository delivery with
      | none => exact accountable_quiet h evolves rfl rfl
      | some d =>
        refine accountable_sees h fun d' member => ?_
        obtain rfl := List.mem_singleton.mp member
        rw [(Table.find?_some found).2]
        exact found
    | register repository delivery fingerprint workflow ref inputs sha =>
      obtain ⟨rfl, rfl⟩ := Prod.mk.inj (Option.some.inj answered)
      refine accountable_sees (accountable_evolves h evolves rfl) fun d member => ?_
      obtain rfl := List.mem_singleton.mp member
      have found := Deliveries.register_find w.deliveries repository delivery fingerprint workflow
        ref inputs sha k.now
      rw [(Table.find?_some found).2]
      exact found
    | pending =>
      obtain ⟨rfl, rfl⟩ := Prod.mk.inj (Option.some.inj answered)
      exact accountable_sees h (pending_present _ _)
    | claimDelivery repository delivery =>
      obtain ⟨rfl, rfl⟩ := Prod.mk.inj (Option.some.inj answered)
      cases taken : (w.deliveries.claim repository delivery k.now).1 with
      | false => exact accountable_quiet h evolves rfl rfl
      | true =>
        obtain ⟨⟨d, found, ready⟩, d', found', attempting⟩ := Deliveries.move_taken taken
        refine accountable_claims h evolves rfl found ready ⟨d', found', ?_⟩
        rw [attempting]
        exact nofun
    | finish repository delivery state error =>
      simp only [answer] at answered
      split at answered
      · obtain ⟨rfl, rfl⟩ := Prod.mk.inj (Option.some.inj answered)
        exact accountable_quiet h evolves rfl rfl
      · obtain ⟨rfl, rfl⟩ := Prod.mk.inj (Option.some.inj answered)
        exact accountable_quiet h evolves rfl rfl
    | rejectReady repository delivery reason =>
      obtain ⟨rfl, rfl⟩ := Prod.mk.inj (Option.some.inj answered)
      exact accountable_quiet h evolves rfl rfl
    | enqueue request =>
      simp only [answer] at answered
      split at answered
      · obtain ⟨rfl, rfl⟩ := Prod.mk.inj (Option.some.inj answered)
        exact accountable_quiet h evolves rfl rfl
      · obtain ⟨rfl, rfl⟩ := Prod.mk.inj (Option.some.inj answered)
        exact accountable_quiet h evolves rfl rfl
    | _ => exact accountable_quiet h evolves (sideline_keeps performed trivial).1 rfl

/-! ## Runs -/

namespace Site

/-- Every thread keeps to the discipline, and the ledger accounts for what went out. -/
def Accounted (s : Site) : Prop := ∃ told, Crew.Disciplined discipline told s.crew ∧
    Accountable s.state told

variable {s s' : Site} {a : Action} {actions : List Action} {server : Server}

theorem start_accounted (server : Server) : (start server).Accounted := by
  refine ⟨fun _ => {}, Crew.disciplined_fresh _, ?_⟩
  constructor
  · intro key d found; cases found
  · intro p d member; cases member
  · intro p key won; cases won
  · intro p q key won; cases won
  · intro sent member; cases member
  · intro key; exact Nat.zero_le 1

theorem keeps_started {program : Program Unit} (h : Starts server program) (g : Told) :
    Keeps program g := by
  rcases h with ⟨request, rfl⟩ | ⟨request, rfl⟩ | rfl
  · exact keeps_webhook request g
  · exact keeps_undelivered (only_mono (only_dispatchEndpoint request) fun _ => unledgered_undelivered) g
  · exact keeps_recoverReady g

theorem step_accounted (h : s.Accounted) (taken : s.step a = some s') : s'.Accounted := by
  obtain ⟨told, disciplined, accountable⟩ := h
  rcases step_cases taken with ⟨p, program, crew, starts, started, rfl⟩ | ⟨p, k, crew, turned, rfl⟩ |
    ⟨server, w, -, rfl, sent, ledger⟩ | ⟨jobs, rfl⟩
  · obtain ⟨same, kept⟩ := Crew.disciplined_spawn disciplined (keeps_started starts (told p)) started
    rw [Function.update_eq_self] at kept
    refine ⟨told, kept, ?_⟩
    rw [Site.state, same]
    exact accountable
  · obtain ⟨c, r, performed, allowed, kept⟩ := Crew.disciplined_turn disciplined turned
    exact ⟨_, kept, accountable_perform accountable allowed performed⟩
  · refine ⟨told, Crew.disciplined_stop _ _, accountable_evolves accountable ?_ sent⟩
    exact Deliveries.evolves_of_recovered ledger
  · exact ⟨told, disciplined, accountable_evolves accountable (Deliveries.Evolves.refl _) rfl⟩

theorem step_evolves (taken : s.step a = some s') : s.state.deliveries.Evolves s'.state.deliveries := by
  rcases step_cases taken with ⟨p, program, crew, -, started, rfl⟩ | ⟨p, k, crew, turned, rfl⟩ |
    ⟨server, w, -, rfl, -, ledger⟩ | ⟨jobs, rfl⟩
  · obtain ⟨-, rfl⟩ := Crew.spawn_eq started
    exact Deliveries.Evolves.refl _
  · obtain ⟨c, next, r, -, performed, -⟩ := Crew.turn_eq turned
    exact perform_evolves performed
  · exact Deliveries.evolves_of_recovered ledger
  · exact Deliveries.Evolves.refl _

/-- A later row under the same key: registered as it was, and at or past the state it was in. -/
structure Later (d d' : Delivery) : Prop where
  registered : d'.registered = d.registered
  state : Relation.ReflTransGen DeliveryState.Moves d.state d'.state

theorem Later.trans_evolved {d d' d'' : Delivery} (later : Later d d') (evolved : d'.Evolved d'') :
    Later d d'' := by
  refine ⟨evolved.registered.trans later.registered, ?_⟩
  rcases evolved.state with same | moved
  · rw [← same]; exact later.state
  · exact later.state.tail moved

theorem Later.terminal {d d' : Delivery} (later : Later d d') (terminal : d.state.terminal = true) :
    d'.state = d.state := by
  have stuck : ∀ state, Relation.ReflTransGen DeliveryState.Moves d.state state → state = d.state := by
    intro state reached
    induction reached with
    | refl => rfl
    | tail _ moved ih =>
      rw [ih] at moved
      rw [moved.not_terminal] at terminal
      cases terminal
  exact stuck _ later.state

theorem run_later {key : String × String} {d : Delivery} (found : s.state.deliveries.find? key = some d)
    (h : run step s actions = some s') : ∃ d', s'.state.deliveries.find? key = some d' ∧ Later d d' := by
  refine run_invariant (P := fun t => ∃ d', t.state.deliveries.find? key = some d' ∧ Later d d') ?_
    ⟨d, found, rfl, .refl⟩ h
  rintro t a u ⟨d', found', later⟩ taken
  obtain ⟨d'', found'', evolved⟩ := (step_evolves taken).kept key d' found'
  exact ⟨d'', found'', later.trans_evolved evolved⟩

end Site

/-! ## A second payload under a known id -/

/-- The request carries a push that the broker takes to `_dispatch_push`. -/
structure Server.Pushes (server : Server) (request : WebhookRequest) (event : PushEvent) : Prop where
  secret : server.webhookSecret = true
  small : request.tooLarge = false
  verified : request.verified = true
  push : request.event = some "push"
  parsed : parsePushEvent request.payload = .ok event
  slug : isRepositorySlug event.repository = true
  named : event.branch ≠ ""
  branch : event.branch = event.defaultBranch
  lane : (if server.jobsDb then server.policy.pushLane event.repository else none) ≠ some .device

theorem webhook_pushes {server : Server} {request : WebhookRequest} {event : PushEvent}
    (h : server.Pushes request event) : ∃ fallback, webhook server request =
      dispatchPush server request.delivery request.fingerprint event event.branch fallback := by
  have pushed : webhook server request = handlePush server request.delivery request.fingerprint
      event := by
    simp only [webhook, h.secret, h.small, h.verified, h.push, pushWebhook, h.parsed, h.slug,
      h.named, ← h.branch,
      Bool.not_true, Bool.false_eq_true, if_false, false_and, ne_eq, not_true_eq_false, or_self, if_true,
      Option.some.injEq, String.reduceEq]
  rw [pushed]
  unfold handlePush
  simp only
  split
  · rename_i device
    exact absurd device h.lane
  · exact ⟨_, rfl⟩
  · exact ⟨_, rfl⟩

/-- Any other push asks GitHub for no run, whatever the ledger says. -/
theorem webhook_undispatched {server : Server} {request : WebhookRequest} {event : PushEvent}
    (push : request.event = some "push") (parsed : parsePushEvent request.payload = .ok event)
    (other : ¬ server.Pushes request event) : (webhook server request).Only Call.undispatched := by
  have answers (status : Nat) (body : List (String × Json)) : (send status body).Only Call.undispatched :=
    only_call trivial
  unfold webhook
  split
  · exact answers _ _
  rename_i secret
  split
  · exact answers _ _
  rename_i small
  split
  · exact answers _ _
  rename_i verified
  rw [if_neg (by rw [push]; decide)]
  unfold pushWebhook
  rw [parsed]
  simp only
  split
  · exact answers _ _
  rename_i slug
  split
  · exact answers _ _
  split
  · exact answers _ _
  rename_i named
  push Not at named
  unfold handlePush
  simp only
  split
  · exact only_mono (only_direct _ _ _ _ _ _) fun _ => And.right
  · rename_i lane notDevice chosen
    refine absurd ?_ other
    refine ⟨by
      simpa using secret, by
      simpa using small, by simpa using verified, push, parsed, by simpa using slug,
      named.1, named.2, ?_⟩
    rw [chosen]
    exact fun same => notDevice (Option.some.inj same)
  · rename_i chosen
    refine absurd ?_ other
    refine ⟨by
      simpa using secret, by
      simpa using small, by simpa using verified, push, parsed, by simpa using slug,
      named.1, named.2, ?_⟩
    rw [chosen]
    exact nofun

/-- The calls of a push that is refused: it looks itself up, and is answered with an error. -/
def Call.refuses : Call → Prop
  | .getDelivery _ _ => True
  | .send status _ => status = 403 ∨ status = 409 ∨ status = 503
  | _ => False

/-- A script that has nothing left but to send one error. -/
def Refusal (s : Program Unit) : Prop :=
  ∃ status text, (status = 403 ∨ status = 409 ∨ status = 503) ∧ s = sendError status text

/-- The lookup a push begins with, and what follows from its answer. -/
def lookup (server : Server) (request : WebhookRequest) (event : PushEvent)
    (fallback : Option (Program Unit)) :
    Program Unit :=
  (ask (.getDelivery event.repository (deliveryId request.delivery request.fingerprint))).attempt.bind
    (answerLookup server request.delivery request.fingerprint event event.branch fallback)

theorem pushes_begins {server : Server} {request : WebhookRequest} {event : PushEvent}
    (h : server.Pushes request event) :
    Refusal (webhook server request) ∨ ∃ fallback, webhook server request = lookup server request
    event fallback := by
  obtain ⟨fallback, pushed⟩ := webhook_pushes h
  rw [pushed]
  unfold dispatchPush
  split
  · exact Or.inl ⟨503, _, Or.inr (Or.inr rfl), rfl⟩
  · split
    · exact Or.inl ⟨403, _, Or.inl rfl, rfl⟩
    · exact Or.inr ⟨fallback, rfl⟩

/-- A push on its way to being refused. `cut` is whether the process may have stopped under it. -/
structure Refused (server : Server) (request : WebhookRequest) (event : PushEvent) (p : Thread)
    (cut : Prop) (s : Site) :
    Prop where
  known : ∃ d, s.state.deliveries.find?
    (lower event.repository, deliveryId request.delivery request.fingerprint) =
    some d ∧ d.fingerprint ≠ request.fingerprint
  made : ∀ c ∈ s.crew.made p, c.refuses
  task : ∃ left, s.crew.task p = some left ∧
    ((∃ fallback, left = lookup server request event fallback) ∨ Refusal left ∨
      (left.Only (fun _ => False) ∧ (cut ∨ ∃ status body, .send status body ∈ s.crew.made p)))

section Refused
variable {server : Server} {request : WebhookRequest} {event : PushEvent} {cut : Prop} {s s' : Site}
    {a : Action}

theorem refused_known (h : Refused server request event p cut s)
    (evolves : s.state.deliveries.Evolves s'.state.deliveries) :
    ∃ d, s'.state.deliveries.find?
      (lower event.repository, deliveryId request.delivery request.fingerprint) = some d ∧
      d.fingerprint ≠ request.fingerprint := by
  obtain ⟨d, found, other⟩ := h.known
  obtain ⟨d', found', evolved⟩ := evolves.kept _ d found
  have same : d'.fingerprint = d.fingerprint := congrArg Prod.fst evolved.registered
  exact ⟨d', found', by rwa [same]⟩

/-- What the ledger answers the lookup with is a refusal. -/
theorem lookup_refused {fallback : Option (Program Unit)} {k : Choice} {w w' : World}
    (known : ∃ d, w.deliveries.find?
      (lower event.repository, deliveryId request.delivery request.fingerprint) = some d ∧
      d.fingerprint ≠ request.fingerprint) {r : Except Raised (Option Delivery)}
    (performed : perform k w
      (.getDelivery event.repository (deliveryId request.delivery request.fingerprint)) =
      some (r, w')) :
    Refusal (answerLookup server request.delivery request.fingerprint event event.branch fallback r) := by
  obtain ⟨d, found, other⟩ := known
  rcases perform_cases performed with ⟨e, _, possible, rfl, _⟩ | ⟨_, answered⟩
  · cases e with
    | sqliteError text => exact ⟨503, _, Or.inr (Or.inr rfl), rfl⟩
    | _ => cases possible
  · obtain ⟨rfl, -⟩ := Prod.mk.inj (Option.some.inj answered)
    refine ⟨409, "delivery ID belongs to a different payload", Or.inr (Or.inl rfl), ?_⟩
    simp only [answerLookup, answerKnown, Deliveries.get, found, ne_eq, other, not_false_eq_true, if_true]

theorem lookup_eq (server : Server) (request : WebhookRequest) (event : PushEvent)
    (fallback : Option (Program Unit)) :
    lookup server request event fallback =
      .ask (.getDelivery event.repository (deliveryId request.delivery request.fingerprint))
        (answerLookup server request.delivery request.fingerprint event event.branch fallback) := by
  show Script.ask _ _ = Script.ask _ _
  congr 1
  funext r
  cases r <;> rfl

theorem refused_step (h : Refused server request event p cut s) (restarts : a.isRestart → cut)
    (taken : s.step a = some s') : Refused server request event p cut s' := by
  have known := refused_known h (Site.step_evolves taken)
  obtain ⟨left, task, cases⟩ := h.task
  rcases Site.step_thread task taken with ⟨k, c, next, r, rfl, performed, mine, grown⟩ | ⟨same, mine⟩
  · have calls (refuses : c.refuses) : ∀ c' ∈ s'.crew.made p, c'.refuses := by
      rw [grown]
      intro c' member
      rcases List.mem_append.mp member with before | now
      · exact h.made c' before
      · rw [List.mem_singleton.mp now]
        exact refuses
    rcases cases with ⟨fallback, same⟩ | ⟨status, text, refusal, same⟩ | ⟨silent, _⟩
    · rw [lookup_eq] at same
      injection same with asked continues
      subst asked
      obtain rfl := eq_of_heq continues
      exact ⟨known, calls trivial, _, mine, Or.inr (Or.inl (lookup_refused h.known performed))⟩
    · injection same with asked continues
      subst asked
      obtain rfl := eq_of_heq continues
      refine ⟨known, calls refusal, lift r, mine,
        Or.inr (Or.inr ⟨only_lift r, Or.inr ⟨status, .obj [("error", .str text)], ?_⟩⟩)⟩
      rw [grown]
      exact List.mem_append_right _ (List.mem_singleton_self _)
    · exact silent.1.elim
  · have made : ∀ c ∈ s'.crew.made p, c.refuses := by rw [same]; exact h.made
    rcases mine with unmoved | ⟨restarted, gone⟩
    · exact ⟨known, made, left, unmoved, by rw [same]; exact cases⟩
    · exact ⟨known, made, _, gone, Or.inr (Or.inr ⟨trivial, Or.inl (restarts restarted)⟩)⟩

end Refused

namespace Site
variable {s s' t u : Site} {a : Action} {actions later : List Action} {server : Server}

theorem step_born (taken : s.step a = some s') {key : String × String} {d : Delivery}
    (absent : s.state.deliveries.find? key = none) (found : s'.state.deliveries.find? key = some d) :
    ∃ p repository delivery fingerprint workflow ref inputs sha,
      s'.crew.made p = s.crew.made p ++ [.register repository delivery fingerprint workflow ref
        inputs sha] ∧
        key = (lower repository, delivery) ∧
        d.registered = (fingerprint, workflow, ref, inputs, sha) := by
  rcases step_cases taken with ⟨p, program, crew, -, started, rfl⟩ | ⟨p, k, crew, turned, rfl⟩ |
    ⟨server, w, -, rfl, -, ledger⟩ | ⟨jobs, rfl⟩
  · obtain ⟨-, rfl⟩ := Crew.spawn_eq started
    exact nomatch absent.symm.trans found
  · obtain ⟨c, next, r, -, performed, -, made⟩ := Crew.turn_eq turned
    obtain ⟨repository, delivery, fingerprint, workflow, ref, inputs, sha, rfl, rest⟩ :=
      perform_born performed absent found
    refine ⟨p, repository, delivery, fingerprint, workflow, ref, inputs, sha, ?_, rest⟩
    show crew.made p = _
    rw [made, Function.update_self]
  · exact nomatch (Deliveries.recovered_absent ledger absent).symm.trans found
  · exact nomatch absent.symm.trans found

/-- However a run goes on, a push that arrives now asks GitHub for no run. One that would be
dispatched is refused, and told so unless the process stops first. -/
def RefusesPush (s : Site) (request : WebhookRequest) (event : PushEvent) : Prop :=
  ∀ p t later u, s.step (.webhook p request) = some t → run step t later = some u →
    (∀ c ∈ u.crew.made p, c.undispatched) ∧
    (s.server.Pushes request event → (∀ c ∈ u.crew.made p, c.refuses) ∧
      ((∀ c next, u.crew.task p ≠ some (.ask c next)) →
        (∃ a ∈ later, a.isRestart) ∨ ∃ status body, .send status body ∈ u.crew.made p))

theorem refuses_undispatched {c : Call} (h : c.refuses) : c.undispatched := by
  cases c with
  | dispatch _ => exact h.elim
  | _ => trivial

/-- A push under a known id whose payload is another one. -/
theorem refuses_reuse (unused : s.crew.Unused) {request : WebhookRequest} {event : PushEvent}
    {d : Delivery}
    (push : request.event = some "push") (parsed : parsePushEvent request.payload = .ok event)
    (known : s.state.deliveries.find?
    (lower event.repository, deliveryId request.delivery request.fingerprint) = some d)
    (other : d.fingerprint ≠ request.fingerprint) : s.RefusesPush request event := by
  intro p t later u arrived ran
  obtain ⟨task, silent, same⟩ := spawn_fresh unused arrived
  have quiet (free : Call → Prop) : ∀ c ∈ t.crew.made p, free c := by
    rw [silent]
    exact fun _ member => nomatch member
  by_cases pushes : s.server.Pushes request event
  · have start : Refused s.server request event p (∃ a ∈ later, a.isRestart) t := by
      refine ⟨⟨d, by rw [same]; exact known, other⟩, quiet _, _, task, ?_⟩
      rcases pushes_begins pushes with refusal | begins
      · exact Or.inr (Or.inl refusal)
      · exact Or.inl begins
    have refused := along_invariant (fun _ _ _ holds restarts taken => refused_step holds restarts taken)
      (along_of_forall (fun a => a.isRestart → ∃ a ∈ later, a.isRestart) fun a member restarted =>
      ⟨a, member, restarted⟩)
      start ran
    refine ⟨fun c member => refuses_undispatched (refused.made c member), fun _ =>
      ⟨refused.made, fun finished => ?_⟩⟩
    obtain ⟨left, task, cases⟩ := refused.task
    rcases cases with ⟨fallback, rfl⟩ | ⟨status, text, _, rfl⟩ | ⟨-, answered⟩
    · rw [lookup_eq] at task
      exact absurd task (finished _ _)
    · exact absurd task (finished _ _)
    · exact answered
  · have start : Makes Call.undispatched p t :=
      ⟨quiet _, _, task, webhook_undispatched push parsed pushes⟩
    have makes := run_invariant (fun _ _ _ holds taken => makes_step holds taken) start ran
    exact ⟨makes.made, fun dispatches => absurd dispatches pushes⟩

/-- At most one request goes out for each delivery, as the first one registered it, whatever arrives
again, is replayed or is interrupted. -/
theorem delivery_dispatched_once (h : run step (start server) actions = some s) :
    (∀ key, s.state.sentFor key ≤ 1) ∧
    (∀ sent ∈ s.state.sent, ∀ key, sent.1.delivery = some key →
      ∃ d, s.state.deliveries.find? key = some d ∧ d.state ≠ .ready ∧ sent.1 = requestOf d) ∧
    (∀ later t, run step s later = some t → ∀ key d, s.state.deliveries.find? key = some d →
      ∃ d', t.state.deliveries.find? key = some d' ∧ d'.registered = d.registered ∧
        Relation.ReflTransGen DeliveryState.Moves d.state d'.state ∧
        (d.state.terminal = true → d'.state = d.state)) ∧
    (∀ a t, s.step a = some t → s.state.deliveries.Evolves t.state.deliveries ∧
      ∀ key d, s.state.deliveries.find? key = none → t.state.deliveries.find? key = some d →
        ∃ p repository delivery fingerprint workflow ref inputs sha,
          t.crew.made p = s.crew.made p ++
            [.register repository delivery fingerprint workflow ref inputs sha] ∧
            key = (lower repository, delivery) ∧
            d.registered = (fingerprint, workflow, ref, inputs, sha)) ∧
    ∀ request event d, request.event = some "push" → parsePushEvent request.payload = .ok event →
      s.state.deliveries.find?
      (lower event.repository, deliveryId request.delivery request.fingerprint) = some d →
      d.fingerprint ≠ request.fingerprint → s.RefusesPush request event := by
  obtain ⟨told, -, accountable⟩ := run_invariant (fun _ _ _ holds taken => step_accounted holds taken)
    (start_accounted server) h
  have unused : s.crew.Unused := run_invariant
    (fun _ _ _ holds taken => step_unused holds taken) (Crew.unused_fresh _) h
  refine ⟨accountable.once, accountable.sent, fun later t ran key d found => ?_, fun a t taken =>
    ⟨step_evolves taken, fun key d absent found => step_born taken absent found⟩,
      fun request event d push parsed known other =>
    refuses_reuse unused push parsed known other⟩
  obtain ⟨d', found', later⟩ := run_later found ran
  exact ⟨d', found', later.registered, later.state, later.terminal⟩

end Site

/-! ## A push whose broker stops before the answer is recorded -/

def shippedServer : Server :=
  { policy := Policy.shipped, runners := [], github := true, jobsDb := true, agentToken := true,
      webhookSecret := true }

def pushOf (fingerprint sha : String) : WebhookRequest :=
  { event := some "push", delivery := some "72d3162e", fingerprint := fingerprint
    payload := some (.obj [("ref", .str "refs/heads/main"), ("after", .str sha),
      ("repository", .obj [("full_name", .str "example-org/example-app"), ("private", .bool false),
        ("default_branch", .str "main")])]) }

/-- The process stops after the request. GitHub delivers the push again, and another payload under
its id. -/
def interruptedPush : List Action :=
  .webhook 0 (pushOf "digest" "abc123") :: List.replicate 5 (.turn 0 {}) ++ [.restart shippedServer 10] ++
    .webhook 1 (pushOf "digest" "abc123") :: List.replicate 2 (.turn 1 {}) ++
    .webhook 2 (pushOf "other" "def456") :: List.replicate 2 (.turn 2 {})

theorem interruptedPush_dispatched_once :
    ∃ s, run Site.step (Site.start shippedServer) interruptedPush = some s ∧ s.state.sent.length = 1 ∧
      s.state.replies.map Prod.fst = [503, 409] ∧ ∀ key, s.state.sentFor key ≤ 1 := by
  have ends : (run Site.step (Site.start shippedServer) interruptedPush).map
      (fun s => (s.state.sent.length, s.state.replies.map Prod.fst)) = some (1, [503, 409]) := by
        decide +kernel
  obtain ⟨s, ran, counts⟩ := Option.map_eq_some_iff.mp ends
  obtain ⟨sent, replies⟩ := Prod.mk.inj counts
  exact ⟨s, ran, sent, replies, (Site.delivery_dispatched_once ran).1⟩

end Cindral.Dispatch

import Cindral.Dispatch.Custody
import Cindral.Dispatch.Once

/-!
# No rejected push is dropped

A delivery of a repository with a device lane leaves `ready` for a request that GitHub accepts, for
an attempt that is kept as it is found, or for the device. The one gap is between a rejection and
the job that follows it.
-/

namespace Cindral.Dispatch
open Base Routing Script

namespace World

def AcceptedFor (w : World) (key : String × String) : Prop :=
  ∃ request, request.delivery = some key ∧ (request, DispatchOutcome.accepted) ∈ w.sent

/-- There is a device job under the delivery's id, or for its repository and commit. -/
def QueuedFor (w : World) (key : String × String) (sha : String) : Prop :=
  ∃ row ∈ w.jobs.jobs.rows, row.delivery = some key.2 ∨ (lower row.repository = key.1 ∧ row.sha = sha)

end World

/-- The broker at work, and the threads that have one rejected delivery in hand. -/
structure Watched where
  site : Site
  held : List Thread

namespace Watched

def start (server : Server) : Watched := ⟨Site.start server, []⟩

/-- The threads that have the delivery in hand once a thread's call is answered. -/
def passes (key : String × String) (held : List Thread) (p : Thread) (c : Call)
    (r : Except Raised (Ans c)) : List Thread :=
  let others := held.filter (· ≠ p)
  if Parcel.holds key (p ∈ held) c r then p :: others else others

def handed (key : String × String) (w : Watched) : Action → List Thread
  | .turn p k =>
    match w.site.crew.task p with
    | some (.ask c _) =>
      match perform k w.site.state c with
      | some (r, _) => passes key w.held p c r
      | none => w.held
    | _ => w.held
  | .restart _ _ => []
  | _ => w.held

def step (key : String × String) (w : Watched) (a : Action) : Option Watched :=
  (w.site.step a).map fun s => ⟨s, w.handed key a⟩

/-- A call by a thread with the delivery in hand that does not lose it: a job that is queued, and no
answer instead of one. -/
def keeps (w : Watched) (k : Choice) : Call → Bool
  | .enqueue request =>
    match perform k w.site.state (.enqueue request) with
    | some (.ok _, _) => true
    | _ => false
  | .send _ _ => w.site.server.agentToken
  | _ => true

/-- The call a thread is about to make. -/
def next? (w : Watched) (p : Thread) : Option Call :=
  match w.site.crew.task p with
  | some (.ask c _) => some c
  | _ => none

/-- A hand-over that is under way is not cut: its job can be queued, and the broker does not stop. -/
def Uncut (w : Watched) : Action → Prop
  | .turn p k => p ∈ w.held → (w.next? p).all (w.keeps k) = true
  | .restart _ _ => w.held = []
  | _ => True

instance (w : Watched) : (a : Action) → Decidable (w.Uncut a)
  | .turn _ _ => inferInstanceAs (Decidable (_ → _))
  | .restart _ _ => inferInstanceAs (Decidable (_ = _))
  | .webhook _ _ | .dispatch _ _ | .replay _ | .queue _ => inferInstanceAs (Decidable True)

def Placed (w : Watched) (key : String × String) (d : Delivery) : Prop :=
  match d.state with
  | .ready | .attempting | .uncertain => True
  | .accepted => w.site.state.AcceptedFor key
  | .rejected => w.site.state.QueuedFor key d.sha ∨ ∃ p ∈ w.held, (w.next? p).isSome = true

end Watched

/-! ## One call -/

section Perform
variable {t : Parcel} {token : Bool} {w w' : World} {k : Choice} {c : Call}
    {r : Except Raised (Ans c)} {g : Hand}

/-- A row as it was registered: under a lowered name, with the commit of the body its digest belongs
to. -/
def Genuine (body : String → Option Json) (d : Delivery) : Prop :=
  lower d.repository = d.repository ∧ ∀ event, parsePushEvent (body d.fingerprint) = .ok event →
  event.after = d.sha

theorem accepted_grows (performed : perform k w c = some (r, w')) {key : String × String}
    (h : w.AcceptedFor key) :
    w'.AcceptedFor key := by
  obtain ⟨request, named, member⟩ := h
  exact ⟨request, named, (sent_grows performed).subset member⟩

theorem evolved_genuine {body : String → Option Json} {d d' : Delivery} (evolved : d.Evolved d')
    (h : Genuine body d) :
    Genuine body d' := by
  have repository : d'.repository = d.repository := congrArg Prod.fst evolved.key
  have registered := evolved.registered
  simp only [Delivery.registered, Prod.mk.injEq] at registered
  rw [Genuine, repository, registered.1, registered.2.2.2.2]
  exact h

/-- Every row is registered with what a thread read from the body. -/
theorem genuine_perform (performed : perform k w c = some (r, w')) (allowed : t.may token g c)
    (rows : ∀ key d, w.deliveries.find? key = some d → Genuine t.body d) :
    ∀ key d, w'.deliveries.find? key = some d → Genuine t.body d := by
  intro key d found
  have evolves := perform_evolves performed
  cases before : w.deliveries.find? key with
  | some d₀ =>
    obtain ⟨d', found', evolved⟩ := evolves.kept key d₀ before
    obtain rfl := Option.some.inj (found.symm.trans found')
    exact evolved_genuine evolved (rows key d₀ before)
  | none =>
    refine ⟨(evolves.born key d before found).2, ?_⟩
    obtain ⟨repository, delivery, fingerprint, workflow, ref, inputs, sha, rfl, -, registered⟩ :=
      perform_born performed before found
    simp only [Delivery.registered, Prod.mk.injEq] at registered
    rw [registered.1, registered.2.2.2.2]
    exact allowed

/-- Where the ledger's rows agree with the delivery, so does what a thread reads of them. -/
theorem sound_perform (performed : perform k w c = some (r, w')) (sound : g.sound)
    (rows : ∀ key d, w'.deliveries.find? key = some d → t.Kept d) : (t.note g c r).sound := by
  rcases perform_cases performed with ⟨e, _, possible, rfl, rfl⟩ | ⟨_, answered⟩
  · cases c with
    | lockCapacity | unlockCapacity | dropReservation _ _ => cases possible
    | _ => exact sound
  · cases c with
    | getDelivery repository delivery =>
      obtain ⟨rfl, rfl⟩ := Prod.mk.inj (Option.some.inj answered)
      cases found : w.deliveries.get repository delivery with
      | none => exact sound
      | some d => exact ⟨sound, rows _ d found, (Table.find?_some found).2⟩
    | register repository delivery fingerprint workflow ref inputs sha =>
      obtain ⟨rfl, rfl⟩ := Prod.mk.inj (Option.some.inj answered)
      have found := Deliveries.register_find w.deliveries repository delivery fingerprint workflow
        ref inputs sha k.now
      exact ⟨sound, rows _ _ found, (Table.find?_some found).2⟩
    | pending =>
      obtain ⟨rfl, rfl⟩ := Prod.mk.inj (Option.some.inj answered)
      exact ⟨sound, fun d member => rows _ d (pending_present _ _ d member)⟩
    | lockCapacity =>
      cases r with
      | ok _ => exact sound
      | error e => 
        simp only [answer, take] at answered
        split at answered
        · cases answered
        · cases answered
    | unlockCapacity | dropReservation _ _ =>
      obtain ⟨rfl, rfl⟩ := Prod.mk.inj (Option.some.inj answered)
      exact sound
    | _ => exact sound

theorem asked_perform (performed : perform k w c = some (r, w')) (asked : (t.note g c r).asked = true) :
    g.asked = true ∨ w'.AcceptedFor t.key := by
  cases c with
  | dispatch request =>
    cases r with
    | error e => exact Or.inl asked
    | ok _ =>
      have either : (g.asked || decide (request.delivery = some t.key)) = true := asked
      rw [Bool.or_eq_true, decide_eq_true_eq] at either
      refine either.imp_right fun named => ?_
      rcases perform_cases performed with ⟨e, _, _, raised, _⟩ | ⟨_, answered⟩
      · cases raised
      · obtain ⟨accepted, rfl⟩ := Prod.mk.inj (Option.some.inj answered)
        refine ⟨request, named, List.mem_append_right _ ?_⟩
        cases outcome : k.outcome with
        | accepted => exact List.mem_singleton_self _
        | refused _ _ | unreachable _ | lost _ =>
          rw [outcome] at accepted
          cases accepted
  | _ => exact Or.inl asked

theorem jobs_grow (performed : perform k w c = some (r, w')) : w.jobs.jobs.rows ⊆ w'.jobs.jobs.rows := by
  cases c with
  | enqueue request =>
    rcases perform_cases performed with ⟨e, _, _, _, rfl⟩ | ⟨_, answered⟩
    · exact List.Subset.refl _
    · simp only [answer] at answered
      split at answered
      · rename_i job jobs queued
        obtain ⟨-, rfl⟩ := Prod.mk.inj (Option.some.inj answered)
        rcases Queue.Store.enqueue_rows queued with ⟨-, -, rows⟩ | ⟨rfl, -⟩
        · rw [rows]
          exact List.subset_append_left _ _
        · exact List.Subset.refl _
      · obtain ⟨-, rfl⟩ := Prod.mk.inj (Option.some.inj answered)
        exact List.Subset.refl _
  | _ =>
    have same : w'.jobs = w.jobs := unqueued_keeps performed trivial
    rw [same]
    exact List.Subset.refl _

theorem queued_grows (performed : perform k w c = some (r, w')) {key : String × String} {sha : String}
    (h : w.QueuedFor key sha) : w'.QueuedFor key sha := by
  obtain ⟨row, member, names⟩ := h
  exact ⟨row, jobs_grow performed member, names⟩

/-- A queued job is there, be it new or the one that has the delivery's id. -/
theorem enqueue_queues {request : Queue.EnqueueRequest} {job : Queue.Job} {key : String × String}
    {sha : String}
    (performed : perform k w (.enqueue request) = some (.ok job, w'))
    (repository : lower request.repository = key.1)
    (commit : request.sha = sha) (id : ∀ id ∈ request.delivery, id = key.2) : w'.QueuedFor key sha := by
  rcases perform_cases performed with ⟨e, _, _, raised, _⟩ | ⟨_, answered⟩
  · cases raised
  · simp only [answer] at answered
    split at answered
    · rename_i job' jobs queued
      obtain ⟨-, rfl⟩ := Prod.mk.inj (Option.some.inj answered)
      rcases Queue.Store.enqueue_rows queued with ⟨-, -, rows⟩ | ⟨rfl, delivery, row, named, found, -⟩
      · refine ⟨request.row k.fresh k.now, ?_, Or.inr ⟨repository, commit⟩⟩
        rw [rows]
        exact List.mem_append_right _ (List.mem_singleton_self _)
      · have known : row.delivery = some delivery := by simpa using List.find?_some found
        exact ⟨row, List.mem_of_find?_eq_some found, Or.inl (by rw [known, id delivery named])⟩
    · obtain ⟨raised, -⟩ := Prod.mk.inj (Option.some.inj answered)
      cases raised

/-- How a row comes to its state. -/
theorem perform_row (performed : perform k w c = some (r, w')) {key : String × String} {d' : Delivery}
    (found' : w'.deliveries.find? key = some d') :
    (∃ d, w.deliveries.find? key = some d ∧ d'.state = d.state) ∨ d'.state = .ready ∨
      d'.state = .attempting ∨
      (d'.state = .rejected ∧ ∀ held, Parcel.holds key held c r = true) ∨
      ∃ repository delivery text, c = .finish repository delivery d'.state text ∧
        key = (lower repository, delivery) ∧
        d'.state ≠ .rejected := by
  have kept (same : w'.deliveries = w.deliveries) :
      ∃ d, w.deliveries.find? key = some d ∧ d'.state = d.state :=
    ⟨d', by rw [← same]; exact found', rfl⟩
  rcases perform_cases performed with ⟨e, _, _, _, rfl⟩ | ⟨_, answered⟩
  · exact Or.inl (kept rfl)
  · cases c with
    | register repository delivery fingerprint workflow ref inputs sha =>
      obtain ⟨-, rfl⟩ := Prod.mk.inj (Option.some.inj answered)
      rcases Deliveries.register_row found' with found | ready
      · exact Or.inl ⟨d', found, rfl⟩
      · exact Or.inr (Or.inl ready)
    | claimDelivery repository delivery =>
      obtain ⟨-, rfl⟩ := Prod.mk.inj (Option.some.inj answered)
      obtain ⟨d, found, same | ⟨_, _, attempting⟩⟩ := Deliveries.move_state found'
      · exact Or.inl ⟨d, found, same⟩
      · exact Or.inr (Or.inr (Or.inl attempting))
    | finish repository delivery target text =>
      simp only [answer] at answered
      split at answered
      · obtain ⟨-, rfl⟩ := Prod.mk.inj (Option.some.inj answered)
        exact Or.inl (kept rfl)
      · obtain ⟨rfl, rfl⟩ := Prod.mk.inj (Option.some.inj answered)
        obtain ⟨d, found, same | ⟨rfl, attempting, moved⟩⟩ := Deliveries.move_state found'
        · exact Or.inl ⟨d, found, same⟩
        · have hit : (w.deliveries.finish repository delivery target text k.now).1 = true :=
            Deliveries.move_hits found attempting
          by_cases rejected : target = .rejected
          · subst rejected
            refine Or.inr (Or.inr (Or.inr (Or.inl ⟨moved, fun held => ?_⟩)))
            rw [hit, if_pos rfl]
            simp [Parcel.holds]
          · rw [← moved] at rejected
            exact Or.inr
              (Or.inr (Or.inr (Or.inr ⟨repository, delivery, text, by rw [moved], rfl, rejected⟩)))
    | rejectReady repository delivery reason =>
      obtain ⟨rfl, rfl⟩ := Prod.mk.inj (Option.some.inj answered)
      obtain ⟨d, found, same | ⟨rfl, ready, moved⟩⟩ := Deliveries.move_state found'
      · exact Or.inl ⟨d, found, same⟩
      · have hit : (w.deliveries.rejectReady repository delivery reason k.now).1 = true :=
          Deliveries.move_hits found ready
        refine Or.inr (Or.inr (Or.inr (Or.inl ⟨moved, fun held => ?_⟩)))
        rw [hit]
        simp [Parcel.holds]
    | enqueue request =>
      simp only [answer] at answered
      split at answered
      · obtain ⟨-, rfl⟩ := Prod.mk.inj (Option.some.inj answered)
        exact Or.inl (kept rfl)
      · obtain ⟨-, rfl⟩ := Prod.mk.inj (Option.some.inj answered)
        exact Or.inl (kept rfl)
    | dispatch _ | getDelivery _ _ | pending =>
      obtain ⟨-, rfl⟩ := Prod.mk.inj (Option.some.inj answered)
      exact Or.inl (kept rfl)
    | _ => exact Or.inl (kept (sideline_keeps performed trivial).2.2)

/-- A delivery stays in hand but for a job or an answer. -/
theorem holds_on (key : String × String) (c : Call) (r : Except Raised (Ans c)) :
    Parcel.holds key true c r = true ∨
    (∃ request, c = .enqueue request) ∨ ∃ status body, c = .send status body := by
  cases c with
  | enqueue request => exact Or.inr (Or.inl ⟨request, rfl⟩)
  | send status body => exact Or.inr (Or.inr ⟨status, body, rfl⟩)
  | rejectReady _ _ _ =>
    cases r with
    | error e => exact Or.inl rfl
    | ok done => cases done <;> exact Or.inl rfl
  | finish _ _ state _ => cases r <;> cases state <;> exact Or.inl rfl
  | _ => exact Or.inl rfl

end Perform
/-! ## Runs -/

namespace Watched
variable {t : Parcel} {w w' : Watched} {p q : Thread} {k : Choice} {c : Call} {r : Except Raised (Ans c)}
  {key : String × String} {hs : List Thread}

theorem mem_passes : q ∈ passes key hs p c r ↔
    if q = p then Parcel.holds key (decide (p ∈ hs)) c r = true else q ∈ hs := by
  unfold passes
  simp only
  by_cases same : q = p
  · subst same
    split
    · rename_i holds
      simp [holds]
    · rename_i dropped
      simp [dropped]
  · split
    · simp [same]
    · simp [same]

/-- Every row that was accepted was asked for, and every rejected one is queued or in hand. -/
def Safe (t : Parcel) (s : World) (hs : List Thread) (d : Delivery) : Prop :=
  (d.state = .accepted → s.AcceptedFor t.key) ∧
  (d.state = .rejected → s.QueuedFor t.key t.sha ∨ ∃ p, p ∈ hs)

theorem safe_perform {s s' : World} {g : Hand} {token : Bool} (performed : perform k s c = some (r, s'))
    (allowed : t.may token g c) (sound : g.sound) (asked : g.asked = true → s.AcceptedFor t.key)
    (held : g.held = decide (p ∈ hs))
    (uncut : p ∈ hs → (∀ request, c = .enqueue request → ∃ x, r = .ok x) ∧ ∀ status body,
    c = .send status body → token = true)
    (before : ∀ d, s.deliveries.find? t.key = some d → Safe t s hs d) {d : Delivery}
    (found : s'.deliveries.find? t.key = some d) : Safe t s' (passes t.key hs p c r) d := by
  have others (q) (member : q ∈ hs) : s'.QueuedFor t.key t.sha ∨ ∃ p', p' ∈ passes t.key hs p c r := by
    by_cases acting : q = p
    · subst acting
      have mine : g.held = true := held.trans (decide_eq_true member)
      rcases holds_on t.key c r with on | ⟨request, rfl⟩ | ⟨status, body, rfl⟩
      · exact Or.inr ⟨q, mem_passes.mpr (by rw [if_pos rfl, decide_eq_true member, on])⟩
      · obtain ⟨job, rfl⟩ := (uncut member).1 request rfl
        obtain ⟨repository, commit, id⟩ := allowed sound mine
        exact Or.inl (enqueue_queues performed repository commit id)
      · exact absurd ((uncut member).2 status body rfl)
          (by rw [allowed sound mine]; exact Bool.false_ne_true)
    · exact Or.inr ⟨q, mem_passes.mpr (by rwa [if_neg acting])⟩
  rcases perform_row performed found with ⟨d₀, found₀, same⟩ | ready | attempting | ⟨rejected, holds⟩ |
    ⟨repository, delivery, text, rfl, named, notRejected⟩
  · obtain ⟨accepted, rejected⟩ := before d₀ found₀
    refine ⟨fun state => accepted_grows performed (accepted (same.symm.trans state)), fun state => ?_⟩
    rcases rejected (same.symm.trans state) with queued | ⟨q, member⟩
    · exact Or.inl (queued_grows performed queued)
    · exact others q member
  · exact ⟨fun state => absurd (ready.symm.trans state) (by decide), fun state =>
      absurd (ready.symm.trans state) (by decide)⟩
  · refine ⟨fun state => ?_, fun state => ?_⟩
    · exact absurd (attempting.symm.trans state) (by decide)
    · exact absurd (attempting.symm.trans state) (by decide)
  · refine ⟨fun state => absurd (rejected.symm.trans state) (by decide), fun _ =>
      Or.inr ⟨p, mem_passes.mpr ?_⟩⟩
    rw [if_pos rfl]
    exact holds _
  · refine ⟨fun state => ?_, fun state => absurd state notRejected⟩
    rw [state] at allowed
    exact accepted_grows performed (asked (allowed sound named.symm))

/-- The watch over one delivery, as far as a run has come. -/
structure Carried (t : Parcel) (told : Thread → Hand) (w : Watched) : Prop where
  obeys : Crew.Obeys (t.custody w.site.server.agentToken) (fun g _ => g.Empty) told w.site.crew
  serves : w.site.server.policy.permitsDevice t.key.1 = true
  held : ∀ p, (told p).held = decide (p ∈ w.held)
  idle : ∀ p, w.site.crew.task p = none → p ∉ w.held
  sound : ∀ p, (told p).sound
  asked : ∀ p, (told p).asked = true → w.site.state.AcceptedFor t.key
  rows : ∀ key d, w.site.state.deliveries.find? key = some d → Genuine t.body d
  safe : ∀ d, w.site.state.deliveries.find? t.key = some d → Safe t w.site.state w.held d

theorem start_carried {server : Server} (serves : server.policy.permitsDevice t.key.1 = true) :
    Carried t (fun _ => {}) (start server) := by
  refine ⟨?_, serves, fun p => rfl, fun p _ => List.not_mem_nil, fun p => trivial, fun p asked =>
    ?_, fun key d found => ?_,
    fun d found => ?_⟩
  · intro p s task
    cases task
  · cases asked
  · cases found
  · cases found

theorem spawn_carried {told : Thread → Hand} {program : Program Unit} {s' : Site} (h : Carried t told w)
    (empties : Empties t w.site.server.agentToken program {})
    (spawned : w.site.spawn p program = some s') :
    Carried t (Function.update told p {}) ⟨s', w.held⟩ := by
  obtain ⟨crew, started, rfl⟩ := Option.map_eq_some_iff.mp spawned
  obtain ⟨unused, same⟩ := Crew.spawn_eq started
  obtain ⟨state, obeys⟩ := Crew.obeys_spawn h.obeys empties started
  have world : Site.state { w.site with crew := crew } = w.site.state := state
  refine ⟨obeys, h.serves, fun q => ?_, fun q idle => ?_, update_forall h.sound trivial, ?_, ?_, ?_⟩
  · by_cases acting : q = p
    · subst acting
      rw [Function.update_self, decide_eq_false (h.idle q unused)]
    · rw [Function.update_of_ne acting]
      exact h.held q
  · rw [same] at idle
    by_cases acting : q = p
    · subst acting
      simp only [Function.update_self] at idle
      cases idle
    · simp only [Function.update_of_ne acting] at idle
      exact h.idle q idle
  · rw [world]
    refine update_forall (P := fun g : Hand => g.asked = true → w.site.state.AcceptedFor t.key) h.asked ?_
    rintro ⟨⟩
  · rw [world]
    exact h.rows
  · rw [world]
    exact h.safe

theorem kept_row {d : Delivery} (genuine : Genuine t.body d)
    (commit : d.key = t.key → d.sha = t.sha) : t.Kept d :=
  ⟨genuine.1, fun key => ⟨commit key, fun event parsed => (genuine.2 event parsed).trans (commit key)⟩⟩

theorem turn_carried {told : Thread → Hand} {s' : Site} (h : Carried t told w)
    (uncut : w.Uncut (.turn p k))
    (turned : w.site.step (.turn p k) = some s')
    (commit : ∀ d, s'.state.deliveries.find? t.key = some d → d.sha = t.sha) :
    ∃ told', Carried t told' ⟨s', w.handed t.key (.turn p k)⟩ := by
  obtain ⟨crew, taken, rfl⟩ := Option.map_eq_some_iff.mp turned
  obtain ⟨c, next, r, task, performed, tasks, -⟩ := Crew.turn_eq taken
  obtain ⟨allowed, obeys⟩ := Crew.obeys_answer h.obeys task tasks
  have handed : w.handed t.key (.turn p k) = passes t.key w.held p c r := by
    have performed' : perform k w.site.state c = some (r, crew.state) := performed
    simp only [Watched.handed, task, performed']
  rw [handed]
  have rows := genuine_perform performed allowed h.rows
  have kept : ∀ key d, crew.state.deliveries.find? key = some d → t.Kept d := by
    intro key d found
    refine kept_row (rows key d found) fun same => commit d ?_
    rwa [← same, (Table.find?_some found).2]
  refine ⟨_, obeys, h.serves, fun q => ?_, fun q idle => ?_, ?_, ?_, rows, fun d found => ?_⟩
  · by_cases acting : q = p
    · subst acting
      rw [Function.update_self]
      have mine : q ∈ passes t.key w.held q c r ↔ Parcel.holds t.key (decide (q ∈ w.held)) c
          r = true := by
        rw [mem_passes, if_pos rfl]
      show Parcel.holds t.key (told q).held c r = _
      simp only [h.held, mine, Bool.decide_eq_true]
    · rw [Function.update_of_ne acting, h.held]
      have same : q ∈ passes t.key w.held p c r ↔ q ∈ w.held := by
        rw [mem_passes, if_neg acting]
      simp only [same]
  · rw [tasks] at idle
    by_cases acting : q = p
    · subst acting
      rw [Function.update_self] at idle
      cases idle
    · rw [Function.update_of_ne acting] at idle
      exact fun member => h.idle q idle (by simpa [acting] using mem_passes.mp member)
  · exact update_forall h.sound (sound_perform performed (h.sound p) kept)
  · refine update_forall (P := fun g : Hand => g.asked = true → crew.state.AcceptedFor t.key)
      (fun q asked => accepted_grows performed (h.asked q asked)) fun asked => ?_
    exact (asked_perform performed asked).elim
      (fun before => accepted_grows performed (h.asked p before)) id
  · refine safe_perform performed allowed (h.sound p) (h.asked p) (h.held p) (fun member => ?_)
      h.safe found
    have keeps := uncut member
    simp only [next?, task, Option.all_some] at keeps
    refine ⟨?_, ?_⟩
    · rintro request rfl
      have performed' : perform k w.site.state (.enqueue request) = some (r, crew.state) := performed
      simp only [Watched.keeps, performed'] at keeps
      cases r with
      | ok x => exact ⟨x, rfl⟩
      | error e => cases keeps
    · rintro status body rfl
      exact keeps

theorem evolves_safe {s s' : World} {ledger : Deliveries}
    (evolves : ledger = s.deliveries ∨ ∃ now, ledger = s.deliveries.recover now)
    (queued : s.QueuedFor t.key t.sha → s'.QueuedFor t.key t.sha) (sent : s'.sent = s.sent)
    (before : ∀ d, s.deliveries.find? t.key = some d → Safe t s hs d) {d : Delivery}
    (found : ledger.find? t.key = some d) :
    Safe t s' hs d := by
  have kept (d₀ : Delivery) (found : s.deliveries.find? t.key = some d₀) : Safe t s' hs d₀ := by
    obtain ⟨accepted, rejected⟩ := before d₀ found
    refine ⟨fun state => ?_, fun state => (rejected state).imp_left queued⟩
    obtain ⟨request, named, member⟩ := accepted state
    exact ⟨request, named, by rwa [sent]⟩
  rcases evolves with rfl | ⟨now, rfl⟩
  · exact kept d found
  · rw [Deliveries.recover, Table.find?_update] at found
    obtain ⟨d₀, before₀, rfl⟩ := Option.map_eq_some_iff.mp found
    rw [Edit.only_apply]
    split
    · exact ⟨by rintro ⟨⟩, by rintro ⟨⟩⟩
    · exact kept d₀ before₀

/-- A restart that finds nothing in hand. -/
theorem restart_carried {told : Thread → Hand} {server : Server} {now : ℚ} {s' : Site}
    (h : Carried t told w)
    (uncut : w.held = []) (serves : server.policy.permitsDevice t.key.1 = true)
    (taken : w.site.step (.restart server now) = some s') : Carried t (fun _ => {}) ⟨s', []⟩ := by
  obtain ⟨v, rfl, sent, jobs, ledger⟩ := Site.step_restart taken
  refine ⟨?_, serves, fun p => rfl, fun p _ => List.not_mem_nil, fun p => trivial, ?_,
    fun key d found => ?_, fun d found => ?_⟩
  · intro p s task
    obtain ⟨_, _, rfl⟩ := Option.map_eq_some_iff.mp task
    exact fun _ => rfl
  · rintro p ⟨⟩
  · have evolves := Deliveries.evolves_of_recovered ledger
    cases before : w.site.state.deliveries.find? key with
    | none => exact nomatch (Deliveries.recovered_absent ledger before).symm.trans found
    | some d₀ =>
      obtain ⟨d', found', evolved⟩ := evolves.kept key d₀ before
      obtain rfl := Option.some.inj (found.symm.trans found')
      exact evolved_genuine evolved (h.rows key d₀ before)
  · refine evolves_safe ledger (fun queued => ?_) sent (fun d found => uncut ▸ h.safe d found) found
    obtain ⟨row, member, names⟩ := queued
    exact ⟨row, show row ∈ v.jobs.jobs.rows from jobs ▸ member, names⟩

/-- A row of the queue keeps the names it was queued under. -/
theorem step_names {store : Queue.Store} {op : Queue.Store.Op} {row row' : Queue.Row}
    (step : Queue.RowStep store op row row') :
    row'.repository = row.repository ∧ row'.sha = row.sha ∧ row'.delivery = row.delivery := by
  cases step <;> exact ⟨rfl, rfl, rfl⟩

theorem queue_carried {told : Thread → Hand} {op : Queue.Store.Op} {s' : Site} (h : Carried t told w)
    (taken : w.site.step (.queue op) = some s') : Carried t told ⟨s', w.held⟩ := by
  obtain rfl := Option.some.inj taken
  refine ⟨h.obeys, h.serves, h.held, h.idle, h.sound, h.asked, h.rows, fun d found => ?_⟩
  refine evolves_safe (Or.inl rfl) ?_ ?_ h.safe found
  swap
  · rfl
  rintro ⟨row, member, names⟩
  obtain ⟨row', found', step⟩ := Queue.Store.apply_row op (Queue.Store.row?_of_mem member)
  obtain ⟨repository, sha, delivery⟩ := step_names step
  exact ⟨row', (Queue.Store.row?_some found').1, by rwa [repository, sha, delivery]⟩

/-- What a run may bring: bodies that go with their digests, and policies that keep the device lane. -/
def Brings (t : Parcel) : Action → Prop
  | .webhook _ request => request.payload = t.body request.fingerprint
  | .restart server _ => server.policy.permitsDevice t.key.1 = true
  | _ => True

theorem step_carried {told : Thread → Hand} {a : Action} (serves : t.sha ≠ "")
    (h : Carried t told w) (brings : Brings t a)
    (uncut : w.Uncut a) (taken : w.step t.key a = some w')
    (commit : ∀ d, w'.site.state.deliveries.find? t.key = some d → d.sha = t.sha) :
    ∃ told', Carried t told' w' := by
  obtain ⟨s', moved, rfl⟩ := Option.map_eq_some_iff.mp taken
  have empty : Hand.Empty {} := fun _ => rfl
  cases a with
  | webhook p request =>
    exact ⟨_, spawn_carried h (Site.empties_started h.serves serves (Or.inl ⟨request, rfl, brings⟩)
      empty) moved⟩
  | dispatch p request =>
    exact ⟨_, spawn_carried h (Site.empties_started h.serves serves (Or.inr (Or.inl ⟨request, rfl⟩))
      empty) moved⟩
  | replay p =>
    simp only [Site.step] at moved
    split at moved
    · rename_i db
      exact ⟨_, spawn_carried h (Site.empties_started h.serves serves (Or.inr (Or.inr ⟨rfl, db⟩))
        empty) moved⟩
    · cases moved
  | turn p k => exact turn_carried h uncut moved commit
  | restart server now => exact ⟨_, restart_carried h uncut brings moved⟩
  | queue op => exact ⟨_, queue_carried h moved⟩

theorem registered_commit {d d' : Delivery} (same : d'.registered = d.registered) : d'.sha = d.sha := by
  simp only [Delivery.registered, Prod.mk.injEq] at same
  exact same.2.2.2.2

theorem step_site (key : String × String) (w : Watched) (a : Action) :
    (step key w a).map Watched.site = w.site.step a := by
  rw [step, Option.map_map]
  exact congrFun Option.map_id _

/-- The site of a watched run is a run of the site. -/
theorem run_site {actions : List Action} (h : run (step key) w actions = some w') :
    run Site.step w.site actions = some w'.site := by
  rw [← run_map (step_site key) w actions, h]
  rfl

/-- Every run of the site can be watched. -/
theorem run_watched (key : String × String) (w : Watched) {actions : List Action} {s : Site}
    (h : run Site.step w.site actions = some s) : ∃ held, run (step key) w actions = some ⟨s, held⟩ := by
  rw [← run_map (step_site key) w actions] at h
  obtain ⟨v, ran, rfl⟩ := Option.map_eq_some_iff.mp h
  exact ⟨v.held, ran⟩

/-- In any run that cuts no hand-over: a delivery of a repository with a device lane is ready, or is
kept as attempted, or GitHub has accepted a request for it, or it is rejected and a device has its
job, or is about to get it. -/
theorem delivery_placed {server : Server} {body : String → Option Json} {actions : List Action}
    {d : Delivery}
    (serves : server.policy.permitsDevice key.1 = true)
    (served : ∀ server now, .restart server now ∈ actions → server.policy.permitsDevice key.1 = true)
    (genuine : ∀ p request, .webhook p request ∈ actions → request.payload = body request.fingerprint)
    (uncut : Along (step key) Uncut (start server) actions)
    (h : run (step key) (start server) actions = some w)
    (found : w.site.state.deliveries.find? key = some d) (commit : d.sha ≠ "") : w.Placed key d := by
  let t : Parcel := ⟨key, d.sha, body⟩
  have brings : Along (step key) (fun _ a => Brings t a) (start server) actions := by
    refine along_of_forall (Brings t) fun a member => ?_
    cases a with
    | webhook p request => exact genuine p request member
    | restart server now => exact served server now member
    | _ => trivial
  have carried : ∃ told, Carried t told w := by
    refine along_invariant (P := fun w => ∃ told, Carried t told w) ?_
      (along_and (along_and uncut brings) (along_reaches h))
      ⟨_, start_carried serves⟩ h
    rintro v a v' ⟨told, carried⟩ ⟨⟨uncut, brings⟩, reaches⟩ taken
    refine step_carried commit carried brings uncut taken fun d' found' => ?_
    obtain ⟨rest, ran⟩ := reaches v' taken
    obtain ⟨d'', found'', later⟩ := Site.run_later found' (run_site ran)
    obtain rfl := Option.some.inj (found.symm.trans found'')
    exact (registered_commit later.registered).symm
  obtain ⟨told, carried⟩ := carried
  obtain ⟨accepted, rejected⟩ := carried.safe d found
  unfold Placed
  split
  · trivial
  · trivial
  · trivial
  · rename_i state
    exact accepted state
  · rename_i state
    refine (rejected state).imp_right fun ⟨p, member⟩ => ⟨p, member, ?_⟩
    -- a thread that has stopped has nothing in hand
    have held : (told p).held = true := (carried.held p).trans (decide_eq_true member)
    cases task : w.site.crew.task p with
    | none => exact absurd member (carried.idle p task)
    | some left =>
      have follows := carried.obeys p left task
      cases left with
      | ask c next => simp [next?, task]
      | done a =>
        have empty : (told p).held = false := follows (carried.sound p)
        rw [held] at empty
        cases empty
      | fail e =>
        have empty : (told p).held = false := follows (carried.sound p)
        rw [held] at empty
        cases empty

end Watched
/-! ## A push that is handed over, and one whose attempt is interrupted -/

def pushBody : String → Option Json := fun _ => (pushOf "digest" "abc123").payload

/-- The ledger fails as the push is claimed. The replay finds no adapter, and queues the push for a
device. -/
def handedPush : List Action :=
  .webhook 0 (pushOf "digest" "abc123") :: List.replicate 3 (.turn 0 {}) ++
    [.turn 0 { raised := some (.sqliteError "database is locked") }, .turn 0 {}, .replay 1, .turn 1 {},
      .turn 1 { present := false }, .turn 1 {}, .turn 1 { fresh := "job" }]

theorem handedPush_placed : ∃ w d, run (Watched.step ("example-org/example-app", "72d3162e"))
    (Watched.start shippedServer)
    handedPush = some w ∧ w.site.state.deliveries.find? ("example-org/example-app", "72d3162e") = some d ∧
      d.state = .rejected ∧ w.held = [] ∧ w.Placed ("example-org/example-app", "72d3162e") d := by
  have ends : (run (Watched.step ("example-org/example-app", "72d3162e"))
      (Watched.start shippedServer) handedPush).map
      (fun w => (w.held, (w.site.state.deliveries.find? ("example-org/example-app", "72d3162e")).map
        fun d => (d.state, d.sha))) = some ([], some (.rejected, "abc123")) := by decide +kernel
  obtain ⟨w, ran, summary⟩ := Option.map_eq_some_iff.mp ends
  obtain ⟨held, row⟩ := Prod.mk.inj summary
  obtain ⟨d, found, names⟩ := Option.map_eq_some_iff.mp row
  obtain ⟨state, sha⟩ := Prod.mk.inj names
  refine ⟨w, d, ran, found, state, held, ?_⟩
  have genuine : ∀ p request, Action.webhook p request ∈ handedPush → request.payload = pushBody
      request.fingerprint := by
    intro p request member
    simp only [handedPush, List.cons_append, List.mem_cons, Action.webhook.injEq, List.mem_append,
      List.mem_replicate,
      reduceCtorEq, and_false, List.not_mem_nil, or_false] at member
    rw [member.2]
    rfl
  refine Watched.delivery_placed (by decide +kernel) (fun server now member => ?_) genuine
    (by decide +kernel) ran found
    (by rw [sha]; decide)
  simp [handedPush] at member

/-- The process stops between the claim and the request. -/
def interruptedAttempt : List Action :=
  .webhook 0 (pushOf "digest" "abc123") :: List.replicate 4 (.turn 0 {}) ++ [.restart shippedServer 10]

/-- An attempt that was interrupted before its request is neither handed over nor tried again. -/
theorem interrupted_attempt_kept :
    ¬ ∀ (server : Server) (body : String → Option Json) (actions : List Action) (s : Site)
      (key : String × String)
      (d : Delivery), server.policy.permitsDevice key.1 = true →
      (∀ server now, .restart server now ∈ actions → server.policy.permitsDevice key.1 = true) →
      (∀ p request, .webhook p request ∈ actions → request.payload = body request.fingerprint) →
      run Site.step (Site.start server) actions = some s → s.state.deliveries.find? key = some d →
      d.sha ≠ "" →
      (∀ p c next, s.crew.task p ≠ some (.ask c next)) →
      (∀ sent ∈ s.state.sent, sent.1.delivery ≠ some key) →
      d.state = .ready ∨ s.state.QueuedFor key d.sha := by
  intro claim
  have ends : (run Site.step (Site.start shippedServer) interruptedAttempt).map (fun s =>
      (s.state.sent.length, s.state.jobs.jobs.rows.length,
        (s.state.deliveries.find? ("example-org/example-app", "72d3162e")).map fun d =>
        (d.state, d.sha))) =
      some (0, 0, some (.uncertain, "abc123")) := by decide +kernel
  obtain ⟨s, ran, summary⟩ := Option.map_eq_some_iff.mp ends
  obtain ⟨sent, rest⟩ := Prod.mk.inj summary
  obtain ⟨jobs, row⟩ := Prod.mk.inj rest
  obtain ⟨d, found, names⟩ := Option.map_eq_some_iff.mp row
  obtain ⟨state, sha⟩ := Prod.mk.inj names
  have lost := claim shippedServer pushBody interruptedAttempt s _ d (by decide +kernel)
    (fun server now member => ?_) (fun p request member => ?_) ran found (by rw [sha]; decide)
    (fun p c next task => ?_)
    (fun sent' member => ?_)
  · rcases lost with ready | ⟨row, member, -⟩
    · exact absurd (state.symm.trans ready) (by decide)
    · rw [List.length_eq_zero_iff.mp jobs] at member
      cases member
  · simp only [interruptedAttempt, List.cons_append, List.mem_cons, reduceCtorEq, List.mem_append,
      List.mem_replicate,
      and_false, List.not_mem_nil, or_false, false_or, Action.restart.injEq] at member
    rw [member.1]
    decide +kernel
  · simp only [interruptedAttempt, List.cons_append, List.mem_cons, Action.webhook.injEq,
      List.mem_append, List.mem_replicate,
      reduceCtorEq, and_false, List.not_mem_nil, or_false] at member
    rw [member.2]
    rfl
  · -- the last step stopped every thread
    obtain ⟨v, -, stopped⟩ := run_split ran
    obtain ⟨u, taken, same⟩ := run_cons stopped
    obtain rfl := Option.some.inj same
    obtain ⟨_, rfl, -⟩ := Site.step_restart taken
    obtain ⟨_, _, gone⟩ := Option.map_eq_some_iff.mp task
    cases gone
  · rw [List.length_eq_zero_iff.mp sent] at member
    cases member

end Cindral.Dispatch

import Cindral.Base.Crew
import Cindral.Base.Run
import Cindral.Dispatch.Webhook

/-!
# The broker at work

One process of the broker over its database. A request or a replay pass gets a thread of its own, the
threads' calls interleave freely, and the process may stop between any two of them. The next one
starts with whatever configuration it is given.
-/

namespace Cindral.Dispatch
open Base Routing

abbrev Thread := Nat

structure Site where
  server : Server
  crew : Crew Thread Call Ans Raised World

inductive Action where
  | webhook (thread : Thread) (request : WebhookRequest)
  | dispatch (thread : Thread) (request : DispatchRequest)
  | replay (thread : Thread)
  | turn (thread : Thread) (choice : Choice)
  | restart (server : Server) (now : ℚ)
  /-- What the devices and the job interface do to the queue. -/
  | queue (op : Queue.Store.Op)

def Action.isRestart : Action → Prop
  | .restart _ _ => True
  | _ => False

namespace World

def empty : World :=
  { deliveries := Deliveries.empty, metered := Table.empty, jobs := Queue.Store.empty, reservations := []
    budgetLock := false, capacityLock := false, sent := [], replies := [] }

/-- What a new process finds: the database, with interrupted attempts marked, and nothing of the old
memory. -/
def recovered (w : World) (now : ℚ) : World :=
  { w with deliveries := w.deliveries.recover now, reservations := [], budgetLock := false, capacityLock := false }

end World

namespace Site

def start (server : Server) : Site := ⟨server, Crew.fresh World.empty⟩

def state (s : Site) : World := s.crew.state

def spawn (s : Site) (thread : Thread) (program : Program Unit) : Option Site :=
  (s.crew.spawn thread program).map fun crew => { s with crew := crew }

def step (s : Site) : Action → Option Site
  | .webhook thread request => s.spawn thread (Dispatch.webhook s.server request)
  | .dispatch thread request => s.spawn thread (dispatchEndpoint s.server request)
  | .replay thread => if s.server.jobsDb then s.spawn thread (recoverReady s.server) else none
  | .turn thread choice => (s.crew.turn perform thread choice).map fun crew => { s with crew := crew }
  -- the ledger is only opened, and so recovered, where there is a database
  | .restart server now => some
    ⟨server, s.crew.stop (if server.jobsDb then s.state.recovered now
      else { s.state with reservations := [], budgetLock := false, capacityLock := false })⟩
  | .queue op => some
    { s with crew := { s.crew with state := { s.state with jobs := s.state.jobs.apply op } } }

variable {s s' : Site} {a : Action} {actions : List Action} {p : Thread}

/-- The programs the broker starts a thread with. -/
def Starts (server : Server) (program : Program Unit) : Prop :=
  (∃ request, program = Dispatch.webhook server request) ∨
    (∃ request, program = dispatchEndpoint server request) ∨
    program = recoverReady server

theorem step_restart {server : Server} {now : ℚ} (taken : step s (.restart server now) = some s') :
    ∃ w, s' = ⟨server, s.crew.stop w⟩ ∧ w.sent = s.state.sent ∧ w.jobs = s.state.jobs ∧
      (w.deliveries = s.state.deliveries ∨ ∃ now, w.deliveries = s.state.deliveries.recover now) := by
  obtain rfl := Option.some.inj taken
  refine ⟨_, rfl, ?_⟩
  split
  · exact ⟨rfl, rfl, Or.inr ⟨now, rfl⟩⟩
  · exact ⟨rfl, rfl, Or.inl rfl⟩

/-- Everything an action can do. -/
theorem step_cases (taken : step s a = some s') :
    (∃ p program crew, Starts s.server program ∧ s.crew.spawn p program = some crew ∧
    s' = { s with crew := crew }) ∨
    (∃ p k crew, s.crew.turn perform p k = some crew ∧ s' = { s with crew := crew }) ∨
    (∃ server w, a.isRestart ∧ s' = ⟨server, s.crew.stop w⟩ ∧ w.sent = s.state.sent ∧
      (w.deliveries = s.state.deliveries ∨ ∃ now, w.deliveries = s.state.deliveries.recover now)) ∨
    (∃ jobs, s' = { s with crew := { s.crew with state := { s.state with jobs := jobs } } }) := by
  cases a with
  | webhook p request =>
    obtain ⟨crew, started, rfl⟩ := Option.map_eq_some_iff.mp taken
    exact Or.inl ⟨p, _, crew, Or.inl ⟨request, rfl⟩, started, rfl⟩
  | dispatch p request =>
    obtain ⟨crew, started, rfl⟩ := Option.map_eq_some_iff.mp taken
    exact Or.inl ⟨p, _, crew, Or.inr (Or.inl ⟨request, rfl⟩), started, rfl⟩
  | replay p =>
    simp only [step] at taken
    split at taken
    · obtain ⟨crew, started, rfl⟩ := Option.map_eq_some_iff.mp taken
      exact Or.inl ⟨p, _, crew, Or.inr (Or.inr rfl), started, rfl⟩
    · cases taken
  | turn p k =>
    obtain ⟨crew, turned, rfl⟩ := Option.map_eq_some_iff.mp taken
    exact Or.inr (Or.inl ⟨p, k, crew, turned, rfl⟩)
  | restart server now =>
    obtain ⟨w, same, sent, -, ledger⟩ := step_restart taken
    exact Or.inr (Or.inr (Or.inl ⟨server, w, trivial, same, sent, ledger⟩))
  | queue op =>
    obtain rfl := Option.some.inj taken
    exact Or.inr (Or.inr (Or.inr ⟨_, rfl⟩))

/-- A started thread makes its own call, or stays where it is unless the process stops. -/
theorem step_thread {left : Program Unit} (task : s.crew.task p = some left)
    (taken : step s a = some s') :
    (∃ k c next r, left = .ask c next ∧ perform k s.state c = some (r, s'.state) ∧
      s'.crew.task p = some (next r) ∧ s'.crew.made p = s.crew.made p ++ [c]) ∨
    (s'.crew.made p = s.crew.made p ∧
      (s'.crew.task p = some left ∨ a.isRestart ∧ s'.crew.task p = some (.done ()))) := by
  rcases step_cases taken with ⟨q, program, crew, -, started, rfl⟩ | ⟨q, k, crew, turned, rfl⟩ |
    ⟨server, w, restarted, rfl, -⟩ | ⟨jobs, rfl⟩
  · obtain ⟨unused, rfl⟩ := Crew.spawn_eq started
    have other : p ≠ q := by
      rintro rfl
      rw [unused] at task
      cases task
    exact Or.inr ⟨rfl, Or.inl (by rw [← task]; exact Function.update_of_ne other _ _)⟩
  · obtain ⟨c, next, r, asked, performed, tasks, made⟩ := Crew.turn_eq turned
    by_cases acting : p = q
    · subst acting
      obtain rfl := Option.some.inj (task.symm.trans asked)
      refine Or.inl ⟨k, c, next, r, rfl, performed, ?_, ?_⟩
      · show crew.task p = _
        rw [tasks, Function.update_self]
      · show crew.made p = _
        rw [made, Function.update_self]
    · refine Or.inr ⟨?_, Or.inl ?_⟩
      · show crew.made p = _
        rw [made, Function.update_of_ne acting]
      · show crew.task p = _
        rw [tasks, Function.update_of_ne acting, task]
  · refine Or.inr ⟨rfl, Or.inr ⟨restarted, ?_⟩⟩
    show (s.crew.task p).map _ = _
    rw [task]
    rfl
  · exact Or.inr ⟨rfl, Or.inl task⟩

theorem step_unused (h : s.crew.Unused) (taken : step s a = some s') : s'.crew.Unused := by
  rcases step_cases taken with ⟨q, program, crew, -, started, rfl⟩ | ⟨q, k, crew, turned, rfl⟩ |
    ⟨server, w, -, rfl, -⟩ | ⟨jobs, rfl⟩
  · exact Crew.unused_spawn h started
  · exact Crew.unused_turn h turned
  · exact Crew.unused_stop h w
  · exact h

theorem spawn_fresh {program : Program Unit} (unused : s.crew.Unused)
    (spawned : spawn s p program = some s') :
    s'.crew.task p = some program ∧ s'.crew.made p = [] ∧ s'.state = s.state := by
  obtain ⟨crew, started, rfl⟩ := Option.map_eq_some_iff.mp spawned
  obtain ⟨idle, rfl⟩ := Crew.spawn_eq started
  exact ⟨Function.update_self _ _ _, unused p idle, rfl⟩

/-- A thread all of whose calls, made and to come, are of one kind. -/
structure Makes (free : Call → Prop) (p : Thread) (s : Site) : Prop where
  made : ∀ c ∈ s.crew.made p, free c
  task : ∃ left, s.crew.task p = some left ∧ left.Only free

theorem makes_step {free : Call → Prop} (h : Makes free p s) (taken : step s a = some s') :
    Makes free p s' := by
  obtain ⟨left, task, only⟩ := h.task
  rcases step_thread task taken with ⟨k, c, next, r, rfl, _, mine, grown⟩ | ⟨same, unmoved | ⟨_, gone⟩⟩
  · refine ⟨fun c' member => ?_, next r, mine, only.2 r⟩
    rw [grown] at member
    rcases List.mem_append.mp member with before | now
    · exact h.made c' before
    · rw [List.mem_singleton.mp now]
      exact only.1
  · exact ⟨by rw [same]; exact h.made, left, unmoved, only⟩
  · exact ⟨by rw [same]; exact h.made, _, gone, trivial⟩

end Site
end Cindral.Dispatch

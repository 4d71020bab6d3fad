import Cindral.Dispatch.Once

/-!
# A rate-limited dispatch

`dispatch_record` takes a 403 or a 429 for a refusal that stays retryable, and records it as
uncertain. No statement of the ledger moves an uncertain delivery, so its first request is its last.
-/

namespace Cindral.Dispatch
open Base Routing

namespace World

def RateLimited (w : World) (key : String × String) : Prop :=
  ∃ request code detail, (request, .refused code detail) ∈ w.sent ∧ request.delivery = some key ∧
  (code = 403 ∨ code = 429)

/-- No claim of the delivery is granted, and no replay pass is handed it. -/
structure Abandoned (w : World) (key : String × String) : Prop where
  unclaimed : ∀ repository now, lower repository = key.1 →
    (w.deliveries.claim repository key.2 now).1 = false
  unlisted : ∀ limit, ∀ d ∈ w.deliveries.pending limit, d.key ≠ key

theorem Past.abandoned {w : World} {key : String × String} (past : w.Past key) : w.Abandoned key := by
  obtain ⟨d, found, state⟩ := past
  constructor
  · intro repository now named
    by_contra granted
    obtain ⟨⟨d', found', ready⟩, -⟩ := Deliveries.move_taken (Bool.not_eq_false _ ▸ granted)
    rw [named, found] at found'
    obtain rfl := Option.some.inj found'
    exact state ready
  · rintro limit d' listed rfl
    have ready := List.mem_of_mem_take listed
    rw [List.mem_insertionSort] at ready
    obtain rfl := Option.some.inj (found.symm.trans (pending_present _ _ d' listed))
    exact state (of_decide_eq_true (List.mem_filter.mp ready).2)

end World

namespace Site
variable {server : Server} {s s' t : Site} {a : Action} {actions later : List Action}
    {key : String × String}

theorem step_sent (taken : s.step a = some s') : s.state.sent <+: s'.state.sent := by
  rcases step_cases taken with ⟨p, program, crew, -, started, rfl⟩ | ⟨p, k, crew, turned, rfl⟩ |
    ⟨server, w, -, rfl, sent, -⟩ | ⟨jobs, rfl⟩
  · obtain ⟨-, rfl⟩ := Crew.spawn_eq started
    exact List.prefix_refl _
  · obtain ⟨c, next, r, -, performed, -⟩ := Crew.turn_eq turned
    exact sent_grows performed
  · show s.state.sent <+: w.sent
    exact sent ▸ List.prefix_refl s.state.sent
  · exact List.prefix_refl _

theorem run_sent (ran : run step s later = some t) : s.state.sent <+: t.state.sent :=
  run_invariant (P := fun u => s.state.sent <+: u.state.sent)
    (fun _ _ _ grown taken => grown.trans (step_sent taken))
    (List.prefix_refl _) ran

/-- A delivery with a request has had all the requests it will have, and is past every claim. -/
theorem run_spent (ran : run step (start server) actions = some s) (sent : 0 < s.state.sentFor key)
    (continued : run step s later = some t) :
    t.state.sentFor key = s.state.sentFor key ∧ t.state.Past key := by
  obtain ⟨_, -, accountable⟩ := run_invariant (fun _ _ _ holds taken => step_accounted holds taken)
    (start_accounted server) (run_append ran continued)
  have grown : s.state.sentFor key ≤ t.state.sentFor key := (run_sent continued).sublist.countP_le
  have once := accountable.once key
  obtain ⟨last, member, named⟩ := List.countP_pos_iff.mp (Nat.lt_of_lt_of_le sent grown)
  obtain ⟨d, found, past, -⟩ := accountable.sent last member key (of_decide_eq_true named)
  exact ⟨by omega, d, found, past⟩

theorem rateLimited_sent (limited : s.state.RateLimited key) : 0 < s.state.sentFor key := by
  obtain ⟨request, code, detail, member, named, -⟩ := limited
  exact sentFor_pos member named

/-- Whatever arrives again or is replayed after a rate limit, the delivery's request is not repeated. -/
theorem rate_limited_never_retried (ran : run step (start server) actions = some s)
    (limited : s.state.RateLimited key)
    (continued : run step s later = some t) :
    t.state.sentFor key = s.state.sentFor key ∧ t.state.Abandoned key := by
  obtain ⟨same, past⟩ := run_spent ran (rateLimited_sent limited) continued
  exact ⟨same, past.abandoned⟩

end Site

def rateLimit : Choice := { outcome := .refused 403 "rate limit" }

/-- GitHub answers the dispatch of a push with its rate limit, and the result is recorded. -/
def limitedPush : List Action :=
  .webhook 0 (pushOf "digest" "abc123") :: List.replicate 4 (.turn 0 {}) ++
  [.turn 0 rateLimit, .turn 0 {}]

def limitedKey : String × String := ("example-org/example-app", "72d3162e")

theorem limitedPush_limited :
    ∃ s, run Site.step (Site.start shippedServer) limitedPush = some s ∧
    s.state.RateLimited limitedKey := by
  have ends : (run Site.step (Site.start shippedServer) limitedPush).map
      (fun s => s.state.sent.map fun sent =>
      (sent.1.delivery, sent.2)) = some [(some limitedKey, .refused 403 "rate limit")] := by
        decide +kernel
  obtain ⟨s, ran, sent⟩ := Option.map_eq_some_iff.mp ends
  obtain ⟨only, rest, list, first, -⟩ := List.map_eq_cons_iff.mp sent
  obtain ⟨named, outcome⟩ := Prod.mk.inj first
  refine ⟨s, ran, only.1, 403, "rate limit", ?_, named, Or.inl rfl⟩
  rw [list, ← outcome]
  exact List.mem_cons_self

/-- GitHub delivers the push again, and a replay pass follows. -/
def triedAgain : List Action :=
  .webhook 1 (pushOf "digest" "abc123") :: List.replicate 2 (.turn 1 {}) ++ [.replay 2, .turn 2 {}]

theorem triedAgain_not_retried :
    ∃ s t, run Site.step (Site.start shippedServer) limitedPush = some s ∧
      run Site.step s triedAgain = some t ∧
      t.state.sentFor limitedKey = s.state.sentFor limitedKey ∧ t.state.Abandoned limitedKey := by
  have ends : (run Site.step (Site.start shippedServer) (limitedPush ++ triedAgain)).isSome =
    true := by decide +kernel
  obtain ⟨s, ran, limited⟩ := limitedPush_limited
  obtain ⟨t, both⟩ := Option.isSome_iff_exists.mp ends
  obtain ⟨s', ran', continued⟩ := run_split both
  obtain rfl := Option.some.inj (ran.symm.trans ran')
  exact ⟨s, t, ran, continued, Site.rate_limited_never_retried ran limited continued⟩

/-- No later run gives the rate-limited push a second request. -/
theorem rate_limit_is_final :
    ¬ ∀ (server : Server) (actions : List Action) (s : Site) (key : String × String),
      run Site.step (Site.start server) actions = some s → s.state.RateLimited key →
      ∃ later t, run Site.step s later = some t ∧ s.state.sentFor key < t.state.sentFor key := by
  intro claim
  obtain ⟨s, ran, limited⟩ := limitedPush_limited
  obtain ⟨later, t, continued, again⟩ := claim shippedServer limitedPush s limitedKey ran limited
  have spent := (Site.run_spent ran (Site.rateLimited_sent limited) continued).1
  omega

end Cindral.Dispatch

import Cindral.Status.Order

/-! What a stop of the broker costs, and what the next drain makes good. -/

namespace Cindral.Status
open Base Queue

namespace Broker
variable {b c d : Broker} {note : Note}

/-- Somewhere in the run a worker had the verdict in hand, no commit had it, and the worker's
process stopped or its report handler died of an error it does not catch. -/
def Dropped (actions : List Action) (note : Note) : Prop :=
  ∃ before a after w i, actions = before ++ a :: after ∧ run step start before = some w ∧
    (w.workers i).Unsent note ∧
    (a = .stop ∨ a = .postReport i (.raised false))

theorem step_lost {a : Action} (taken : b.step a = some c) (gone : c.lost note) :
    b.lost note ∨ ∃ i, (b.workers i).Unsent note ∧ (a = .stop ∨ a = .postReport i (.raised false)) := by
  have quiet {reached : Bool} {post : Post} : (b.sent reached post).lost = b.lost := by
    unfold sent; split <;> rfl
  cases step_moved taken with
  | postedQueued | reportAccepted | reportRefused | postAccepted | postFailed =>
    simp only [become, quiet] at gone
    exact Or.inl gone
  | @reportRaised i reached job status seq at_ =>
    rcases gone with old | ⟨rfl, rfl⟩
    · rw [quiet] at old
      exact Or.inl old
    · exact Or.inr ⟨i, ⟨_, by rw [at_]; exact if_pos rfl, rfl, rfl, rfl⟩, Or.inr rfl⟩
  | stopped =>
    rcases gone with old | ⟨i, unsent⟩
    · exact Or.inl old
    · exact Or.inr ⟨i, unsent, Or.inl rfl⟩
  | _ => exact Or.inl gone

theorem run_lost {actions : List Action} (h : run step start actions = some b) (gone : b.lost note) :
    Dropped actions note := by
  induction actions using List.reverseRecOn generalizing b with
  | nil => obtain rfl := Option.some.inj h; exact absurd gone not_false
  | append_singleton before a ih =>
    obtain ⟨w, first, last⟩ := run_split h
    obtain ⟨b', taken, rest⟩ := run_cons last
    obtain rfl := Option.some.inj rest
    rcases step_lost taken gone with old | ⟨i, unsent, why⟩
    · obtain ⟨pre, x, post, v, i, rfl, rest⟩ := ih first old
      exact ⟨pre, x, post ++ [a], v, i, by simp, rest⟩
    · exact ⟨before, a, [], w, i, rfl, first, unsent, why⟩

/-- One verdict of a drain, posted and its check closed. -/
def deliverOne (_ : Owed) : List Action := [.check 0, .post 0 .accepted, .closeCheck 0 true]

/-- A drain left to itself posts everything it took. -/
theorem drain_through (todo : List Owed) (at_ : b.workers 0 = proceed todo) (free : b.lock = none)
    (current : ∀ owed ∈ todo, b.store.currentSeq owed.job.id = owed.seq) :
    ∃ d, run step b (todo.flatMap deliverOne) = some d ∧ b.posts ⊆ d.posts ∧ ∀ owed ∈ todo,
    Owed.post owed ∈ d.posts := by
  induction todo generalizing b with
  | nil => exact ⟨b, rfl, List.Subset.refl _, fun _ member => (nomatch member)⟩
  | cons owed todo ih =>
    let checked : Broker := { b with lock := some 0 }.become 0 (.posting owed todo)
    let posted : Broker := { checked.sent true (Owed.post owed) with lock := none }.become 0
      (.closing owed todo)
    let closed : Broker := posted.become 0 (proceed todo)
    have one : run step b (deliverOne owed) = some closed := by
      have first : b.step (.check 0) = some checked := by
        simp [step, stepCheck, at_, proceed, free, current owed List.mem_cons_self, checked]
      have second : checked.step (.post 0 .accepted) = some posted := by
        simp [step, stepPost, checked, posted, Outcome.reached]
      have third : posted.step (.closeCheck 0 true) = some closed := by
        simp [step, stepCloseCheck, posted, closed]
      simp only [deliverOne, run, first, second, third, Option.bind_some]
    obtain ⟨d, rest, kept, all⟩ := ih (b := closed) (workers_become _) rfl
      fun o member => current o (List.mem_cons_of_mem owed member)
    have posts : closed.posts = b.posts ++ [Owed.post owed] := rfl
    rw [posts] at kept
    refine ⟨d, run_append one rest, (List.append_subset.mp kept).1, fun o member => ?_⟩
    rcases List.mem_cons.mp member with rfl | later
    · exact kept (List.mem_append_right _ (List.mem_singleton_self _))
    · exact all o later

/-- With the broker at rest, a drain brings every recorded verdict to its commit. -/
theorem recorded_delivered (idle : b.workers 0 = .idle) (free : b.lock = none)
    (owes : b.store.slot note.job = some note.status) (latest : b.store.currentSeq note.job = note.seq) :
    ∃ more d, run step b (.drain 0 :: more) = some d ∧
      ∃ post ∈ d.posts, post.job = note.job ∧ post.status = note.status ∧ post.seq = some note.seq := by
  obtain ⟨r, found, pending⟩ := Option.bind_eq_some_iff.mp owes
  obtain ⟨member, same⟩ := Store.row?_some found
  let taken : Broker := { b with store := b.store.claimOwed.2 }.become 0 (proceed b.store.claimOwed.1)
  have first : b.step (.drain 0) = some taken := by simp [step, stepDrain, idle, free, taken]
  have current : ∀ owed ∈ b.store.claimOwed.1, taken.store.currentSeq owed.job.id = owed.seq := by
    intro owed inside
    obtain ⟨x, there, -, job, seq⟩ := Store.mem_claimOwed.mp inside
    rw [seq, job, ← Store.seq_of_row (Store.row?_of_mem there)]
    exact (Store.claimOwed_ledger b.store _).2
  obtain ⟨d, rest, -, all⟩ := drain_through b.store.claimOwed.1 (b := taken) (workers_become _)
    free current
  refine ⟨_, d, by simp only [run, first, Option.bind_some]; exact rest, ?_⟩
  refine ⟨_, all ⟨r.job, note.status, r.statusSeq⟩
    (Store.mem_claimOwed.mpr ⟨r, member, pending, rfl, rfl⟩), same, rfl, ?_⟩
  rw [← latest, Store.seq_of_row found]
  rfl

/-- After a stop the latest verdict of every run is on its commit, or in its row where the next
drain finds and posts it, or some worker had it in hand when its process stopped or its handler
died. -/
theorem verdicts_survive_stop {actions : List Action} (h : run step start (actions ++ [.stop]) = some c) :
    ∀ note ∈ c.written, c.store.currentSeq note.job = note.seq →
      (∃ post ∈ c.posts, post.job = note.job ∧ post.status = note.status ∧ post.seq = some note.seq) ∨
      (c.store.slot note.job = some note.status ∧ ∃ more d, run step c (.drain 0 :: more) = some d ∧
        ∃ post ∈ d.posts, post.job = note.job ∧ post.status = note.status ∧ post.seq = some note.seq) ∨
      Dropped (actions ++ [.stop]) note := by
  intro note member latest
  have steady := run_steady h
  obtain ⟨w, -, last⟩ := run_split h
  obtain rfl : w.stopped = c := Option.some.inj last
  cases steady.accounted note.job (note.status, note.seq) (mem_notesOf.mpr member) with
  | waiting slot _ => exact Or.inr (Or.inl ⟨slot, recorded_delivered rfl rfl slot latest⟩)
  | inHand i h held _ _ => cases held
  | posted there => exact Or.inl (mem_postsOf.mp there)
  | replaced less => exact absurd latest (Nat.ne_of_gt less)
  | lost gone => exact Or.inr (Or.inr (run_lost h gone))

/-- A run that is lost for the first time. -/
def oneLoss (id : String) : List Action :=
  [.enqueue 0 { repository := "acme/app", sha := "c0ffee", ref := "main", labels := [id] } id 0,
    .postQueued 0 true,
    .claim "mini" [id] 300 0 none, .reclaim 1000]

/-- Of three losses one is posted, one is in the drain's hands when the process stops, and one is
still in its row. -/
def threeLosses : List Action :=
  oneLoss "a" ++ [.drain 1, .check 1, .post 1 .accepted, .closeCheck 1 true] ++ oneLoss
  "b" ++ [.drain 1] ++ oneLoss "c"

theorem threeLosses_state :
    (run step start (threeLosses ++ [.stop])).map
      (fun c => (c.written.map (fun note => (note.job, note.seq)),
      c.posts.map fun post => (post.job, post.seq))) =
      some ([("a", 1), ("b", 1), ("c", 1)], [("a", none), ("a", some 1), ("b", none), ("c", none)]) ∧
    (run step start (threeLosses ++ [.stop])).map
      (fun c => ["a", "b", "c"].map fun id => (c.store.slot id).isSome) =
      some [false, false, true] := by
  decide +kernel

theorem threeLosses_survive : ∃ c, run step start (threeLosses ++ [.stop]) = some c ∧
    c.written.map (fun note => (note.job, note.seq)) = [("a", 1), ("b", 1), ("c", 1)] ∧
    c.posts.map (fun post => (post.job, post.seq)) =
    [("a", none), ("a", some 1), ("b", none), ("c", none)] ∧
    ["a", "b", "c"].map (fun id => (c.store.slot id).isSome) = [false, false, true] ∧
    ∀ note ∈ c.written, c.store.currentSeq note.job = note.seq →
      (∃ post ∈ c.posts, post.job = note.job ∧ post.status = note.status ∧ post.seq = some note.seq) ∨
      (c.store.slot note.job = some note.status ∧ ∃ more d, run step c (.drain 0 :: more) = some d ∧
        ∃ post ∈ d.posts, post.job = note.job ∧ post.status = note.status ∧ post.seq = some note.seq) ∨
      Dropped (threeLosses ++ [.stop]) note := by
  obtain ⟨c, h, same⟩ := Option.map_eq_some_iff.mp threeLosses_state.1
  have slots := threeLosses_state.2
  rw [h] at slots
  exact ⟨c, h, congrArg Prod.fst same, congrArg Prod.snd same, Option.some.inj slots,
    verdicts_survive_stop h⟩

/-- A loss that a drain has taken out of its row when the process stops. -/
def drainedThenStopped : List Action :=
  [.enqueue 0 { repository := "acme/app", sha := "c0ffee", ref := "main" } "job" 0, .postQueued 0 true,
    .claim "mini" [] 300 0 none, .reclaim 1000, .drain 1]

def drainedLoss : Note :=
  ⟨"job", ⟨.pending,
  "device pool run lost, retry 2 of 3: the device lease expired before the run finished"⟩, 1⟩

theorem drainedThenStopped_state :
    (run step start (drainedThenStopped ++ [.stop])).map (fun c =>
      (c.written, c.store.currentSeq "job", c.store.slot "job", c.posts.map Post.seq)) =
      some ([drainedLoss], 1, none, [none]) := by
  decide +kernel

/-- So a verdict can be gone: neither on its commit nor in its row. -/
theorem drained_verdict_lost_by_stop :
    ¬∀ actions c, run step start (actions ++ [.stop]) = some c →
      ∀ note ∈ c.written, c.store.currentSeq note.job = note.seq →
        (∃ post ∈ c.posts, post.job = note.job ∧ post.status = note.status ∧ post.seq = some note.seq) ∨
        c.store.slot note.job = some note.status := by
  intro survives
  obtain ⟨c, h, state⟩ := Option.map_eq_some_iff.mp drainedThenStopped_state
  obtain ⟨written, seq, slot, posts⟩ : c.written = [drainedLoss] ∧ c.store.currentSeq "job" = 1 ∧
      c.store.slot "job" = none ∧ c.posts.map Post.seq = [none] := by simpa [Prod.ext_iff] using state
  rcases survives _ c h drainedLoss (by simp [written]) seq with ⟨post, member, -, -, numbered⟩ | recorded
  · have unnumbered : post.seq ∈ c.posts.map Post.seq := List.mem_map_of_mem member
    rw [posts, List.mem_singleton, numbered] at unnumbered
    cases unnumbered
  · rw [show drainedLoss.job = "job" from rfl, slot] at recorded
    cases recorded

end Broker
end Cindral.Status

import Cindral.Status.Refinement

/-! The order verdicts reach a commit in, and where every owed verdict is. -/

namespace Cindral.Status
open Base Queue

namespace Broker
variable {b c : Broker} {i j : Nat} {id : String} {note : Note}

theorem mem_notesOf {notes : List Note} {p : Verdict × Nat} :
    p ∈ notesOf id notes ↔ ⟨id, p.1, p.2⟩ ∈ notes := by
  simp only [notesOf, List.mem_filterMap, Option.ite_none_right_eq_some, Option.some.injEq]
  constructor
  · rintro ⟨note, member, rfl, rfl⟩
    exact member
  · intro member
    exact ⟨_, member, rfl, rfl⟩

theorem mem_postsOf {posts : List Post} {p : Verdict × Nat} :
    p ∈ postsOf id posts ↔ ∃ post ∈ posts, post.job = id ∧ post.status = p.1 ∧ post.seq = some p.2 := by
  simp only [postsOf, List.mem_filterMap, Option.ite_none_right_eq_some, Option.map_eq_some_iff]
  constructor
  · rintro ⟨post, member, here, seq, given, rfl⟩
    exact ⟨post, member, here, rfl, given⟩
  · rintro ⟨post, member, here, status, given⟩
    exact ⟨post, member, here, p.2, given, Prod.ext status rfl⟩

def Drains (b : Broker) (i : Nat) (note : Note) : Prop :=
  ∃ owed ∈ (b.workers i).todo, owed.job.id = note.job ∧ owed.status = note.status ∧ owed.seq = note.seq

theorem heldIn_mem {todo : List Owed} {h : Held Verdict} (held : heldIn id todo = some h) :
    ∃ owed ∈ todo, owed.job.id = id ∧ owed.status = h.note ∧ owed.seq = h.number := by
  obtain ⟨owed, found, rfl⟩ := Option.map_eq_some_iff.mp held
  exact ⟨owed, List.mem_of_find?_eq_some found, by simpa using List.find?_some found, rfl, rfl⟩

theorem heldFirst_mem {owed : Owed} {todo : List Owed} {sent : Bool} {h : Held Verdict}
    (held : heldFirst id owed todo sent = some h) :
    ∃ o ∈ owed :: todo, o.job.id = id ∧ o.status = h.note ∧ o.seq = h.number := by
  unfold heldFirst at held
  split at held
  · rename_i here
    obtain rfl := Option.some.inj held
    exact ⟨owed, List.mem_cons_self, here, rfl, rfl⟩
  · obtain ⟨o, member, facts⟩ := heldIn_mem held
    exact ⟨o, List.mem_cons_of_mem owed member, facts⟩

/-- What came out of a row is in a drain's list. -/
theorem inHand_drains {w : Worker} {h : Held Verdict} (held : w.inHand id = some h)
    (taken : h.taken = true) :
    ∃ owed ∈ w.todo, owed.job.id = id ∧ owed.status = h.note ∧ owed.seq = h.number := by
  cases w with
  | idle | queued | received | admitted => cases held
  | reporting | owing =>
    simp only [Worker.inHand, Option.ite_none_right_eq_some, Option.some.injEq] at held
    rw [← held.2] at taken
    cases taken
  | draining => exact heldIn_mem held
  | posting | failed | closing | returning => exact heldFirst_mem held

theorem heldIn_of_mem {owed : Owed} {todo : List Owed} (distinct : (todo.map fun o => o.job.id).Nodup)
    (member : owed ∈ todo) : heldIn owed.job.id todo = some ⟨owed.status, owed.seq, false, true⟩ := by
  have found := Table.find?_of_mem (t := (⟨todo, distinct⟩ : Table fun o : Owed => o.job.id)) member
  exact Option.map_eq_some_iff.mpr ⟨owed, found, rfl⟩

theorem heldFirst_of_mem {owed first : Owed} {todo : List Owed} {sent : Bool}
    (distinct : ((first :: todo).map fun o => o.job.id).Nodup) (member : owed ∈ first :: todo) :
    ∃ h, heldFirst owed.job.id first todo sent = some h ∧ h.number = owed.seq := by
  rcases List.mem_cons.mp member with rfl | later
  · exact ⟨_, heldFirst_self owed todo sent, rfl⟩
  · have apart : first.job.id ≠ owed.job.id := fun same =>
      (List.nodup_cons.mp distinct).1 (List.mem_map.mpr ⟨owed, later, same.symm⟩)
    exact ⟨_, (heldFirst_other todo sent apart).trans
      (heldIn_of_mem (List.nodup_cons.mp distinct).2 later), rfl⟩

theorem drains_inHand (locked : Locked b) {owed : Owed} (member : owed ∈ (b.workers i).todo) :
    ∃ h, (b.view owed.job.id).hand i = some h ∧ h.number = owed.seq := by
  have distinct := locked.distinct i
  change ∃ h, (b.workers i).inHand owed.job.id = some h ∧ h.number = owed.seq
  cases at_ : b.workers i with
  | idle | queued | received | admitted | reporting | owing => rw [at_] at member; cases member
  | draining todo =>
    rw [at_] at member distinct
    exact ⟨_, heldIn_of_mem distinct member, rfl⟩
  | posting first todo | failed first todo | closing first todo | returning first todo =>
    rw [at_] at member distinct
    exact heldFirst_of_mem distinct member

theorem drains_once (steady : Steady b) {owed owed' : Owed} (member : owed ∈ (b.workers i).todo)
    (member' : owed' ∈ (b.workers j).todo) (job : owed.job.id = owed'.job.id)
    (seq : owed.seq = owed'.seq) : i = j := by
  obtain ⟨h, held, number⟩ := drains_inHand steady.locked member
  obtain ⟨h', held', number'⟩ := drains_inHand steady.locked member'
  rw [← job] at held'
  exact (steady.sound _).hand_inj i j h h' held held' (number.trans (seq.trans number'.symm))

theorem written_le (steady : Steady b) (member : note ∈ b.written) :
    note.seq ≤ b.store.currentSeq note.job :=
  (steady.sound note.job).written_le (note.status, note.seq) (mem_notesOf.mpr member)

/-- The verdicts of a run reach its commit in the order of their numbers, a drain posts only the
latest verdict, and no verdict is in two drains at once. -/
theorem verdicts_in_order {actions : List Action} (h : run step start actions = some b) :
    (∀ id, (postsOf id b.posts).Pairwise fun p q => p.2 ≤ q.2) ∧
      (∀ i outcome owed todo, b.workers i = .posting owed todo → (b.step (.post i outcome)).isSome →
        ∀ note ∈ b.written, note.job = owed.job.id → note.seq ≤ owed.seq) ∧
      ∀ i j owed owed', owed ∈ (b.workers i).todo → owed' ∈ (b.workers j).todo →
        owed.job.id = owed'.job.id → owed.seq = owed'.seq → i = j := by
  have steady := run_steady h
  refine ⟨fun id => (steady.sound id).posted_sorted, ?_, fun i j owed owed' member member' job seq =>
    drains_once steady member member' job seq⟩
  intro i outcome owed todo at_ _ note member here
  have current := steady.locked.current i
  rw [at_] at current
  exact (written_le steady member).trans_eq (here ▸ current)

/-- One run lost twice, the second loss drained before the first drain comes to its post. -/
def overtaken : List Action :=
  [.enqueue 0 { repository := "acme/app", sha := "c0ffee", ref := "main" } "job" 0, .postQueued 0 true,
    .claim "mini" [] 300 0 none, .reclaim 1000, .drain 1, .claim "mini" [] 300 2000 none,
    .reclaim 3000, .drain 2,
    .check 2, .post 2 .accepted, .check 1]

theorem overtaken_runs : (run step start overtaken).isSome := by decide +kernel

theorem overtaken_in_order :
    ∃ b, run step start overtaken = some b ∧ (postsOf "job" b.posts).Pairwise fun p q => p.2 ≤ q.2 := by
  obtain ⟨b, h⟩ := Option.isSome_iff_exists.mp overtaken_runs
  exact ⟨b, h, (verdicts_in_order h).1 "job"⟩

/-- Where an owed verdict can be: in its row, in one drain, on the commit, or behind a later verdict. -/
inductive Accounted (b : Broker) (note : Note) : Prop where
  | recorded : b.store.slot note.job = some note.status → b.store.currentSeq note.job = note.seq →
      Accounted b note
  | drained : (∃ i, Drains b i note ∧ ∀ j, Drains b j note → j = i) → Accounted b note
  | posted : (∃ post ∈ b.posts, post.job = note.job ∧ post.status = note.status ∧
      post.seq = some note.seq) →
      Accounted b note
  | superseded : (∃ later ∈ b.written, later.job = note.job ∧ note.seq < later.seq) → Accounted b note

theorem later_written (steady : Steady b) (less : note.seq < b.store.currentSeq note.job) :
    ∃ later ∈ b.written, later.job = note.job ∧ note.seq < later.seq := by
  obtain ⟨status, member⟩ := (steady.sound note.job).latest (Nat.zero_lt_of_lt less)
  exact ⟨_, mem_notesOf.mp member, rfl, less⟩

/-- Without a stop, no verdict that was owed is ever lost. -/
theorem run_whole {actions : List Action} (live : ∀ a ∈ actions, a ≠ .stop)
    (h : run step start actions = some b) :
    Locked b ∧ ∀ id, (b.view id).Whole := by
  have start_whole : Locked start ∧ ∀ id, (start.view id).Whole :=
    ⟨start_locked, fun _ => start_view ▸ Outbox.empty_whole⟩
  refine along_invariant (P := fun b => Locked b ∧ ∀ id, (b.view id).Whole)
    (fun s a t holds live taken => ?_)
    (along_of_forall (fun a => a ≠ Action.stop) live) start_whole h
  have moved := step_moved taken
  exact ⟨moved_locked holds.1 moved,
    fun id => Outbox.steps_whole (moved_view holds.1 (holds.2 id).sound moved live) (holds.2 id)⟩

theorem owed_accounted (steady : Steady b) (whole : (b.view note.job).Whole) (member : note ∈ b.owed) :
    Accounted b note := by
  have owed : (note.status, note.seq) ∈ (b.view note.job).owed := mem_notesOf.mpr member
  cases whole.accounted _ (whole.sound.owed_written _ owed) with
  | waiting slot seq => exact .recorded slot seq
  | inHand i h held same number =>
    obtain ⟨o, inside, facts⟩ := inHand_drains held (whole.sound.owed_taken _ owed i h held number)
    refine .drained ⟨i, ⟨o, inside, facts.1, facts.2.1.trans same, facts.2.2.trans number⟩, ?_⟩
    rintro j ⟨o', inside', job, -, seq⟩
    exact drains_once steady inside' inside (job.trans facts.1.symm)
      (seq.trans (facts.2.2.trans number).symm)
  | posted there => exact .posted (mem_postsOf.mp there)
  | replaced less => exact .superseded (later_written steady less)
  | lost gone => exact absurd gone (whole.kept _ owed)

theorem putBack_slot (owed : Owed) (s : Store) :
    (s.restoreStatus owed.job.id owed.status owed.seq).slot owed.job.id = s.slot owed.job.id ∨
      (s.slot owed.job.id = none ∧ s.currentSeq owed.job.id = owed.seq ∧
        (s.restoreStatus owed.job.id owed.status owed.seq).slot owed.job.id = some owed.status) := by
  cases found : s.row? owed.job.id with
  | none => exact Or.inl (by simp [Store.slot, Store.restoreStatus, found])
  | some r =>
    have after := Store.restoreStatus_slot owed.status owed.seq found
    by_cases fits : s.slot owed.job.id = none ∧ s.currentSeq owed.job.id = owed.seq
    · exact Or.inr ⟨fits.1, fits.2, after.trans (if_pos fits)⟩
    · exact Or.inl (after.trans (if_neg fits))

/-- While the process runs, every verdict ever owed is accounted for, what a row owes was owed under
its number, and a verdict put back neither overwrites another nor comes back once a later one was
made. -/
theorem owed_verdicts_kept {actions : List Action} (live : ∀ a ∈ actions, a ≠ .stop)
    (h : run step start actions = some b) :
    (∀ note ∈ b.owed, Accounted b note) ∧
      (∀ id status, b.store.slot id = some status → ⟨id, status, b.store.currentSeq id⟩ ∈ b.owed) ∧
      ∀ i c owed todo, ((∃ sent, b.workers i = .failed owed todo sent ∧ b.step (.restore i) = some c) ∨
        (b.workers i = .returning owed todo ∧ b.step (.putBack i) = some c)) →
        c.store.slot owed.job.id = b.store.slot owed.job.id ∨
          (b.store.slot owed.job.id = none ∧ c.store.slot owed.job.id = some owed.status ∧
            ∀ note ∈ b.written, note.job = owed.job.id → note.seq ≤ owed.seq) := by
  have steady := run_steady h
  obtain ⟨-, whole⟩ := run_whole live h
  refine ⟨fun note member => owed_accounted steady (whole note.job) member,
    fun id status owes => mem_notesOf.mp ((steady.sound id).slot_owed status owes), ?_⟩
  intro i c owed todo back
  have store : c.store = b.store.restoreStatus owed.job.id owed.status owed.seq := by
    rcases back with ⟨sent, at_, taken⟩ | ⟨at_, taken⟩
    · simp only [step, stepRestore, at_] at taken
      rw [← Option.some.inj taken]
      rfl
    · simp only [step, stepPutBack, at_] at taken
      split at taken
      · rw [← Option.some.inj taken]; rfl
      · cases taken
  rw [store]
  rcases putBack_slot owed b.store with same | ⟨empty, current, there⟩
  · exact Or.inl same
  · refine Or.inr ⟨empty, there, fun note member here => ?_⟩
    exact (written_le steady member).trans_eq (here ▸ current)

theorem overtaken_kept : ∃ b, run step start overtaken = some b ∧ ∀ note ∈ b.owed, Accounted b note := by
  obtain ⟨b, h⟩ := Option.isSome_iff_exists.mp overtaken_runs
  refine ⟨b, h, (owed_verdicts_kept ?_ h).1⟩
  simp [overtaken]

end Broker
end Cindral.Status

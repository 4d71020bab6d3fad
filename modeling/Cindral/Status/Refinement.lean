import Cindral.Status.Moves

/-! Each run's verdicts as one outbox, and every broker step as steps of it. -/

namespace Cindral.Status
open Base Queue
open Relation (ReflTransGen)

/-- The notes of one run out of a list of them. -/
def notesOf (id : String) (notes : List Note) : List (Verdict × Nat) :=
  notes.filterMap fun note => if note.job = id then some (note.status, note.seq) else none

def postsOf (id : String) (posts : List Post) : List (Verdict × Nat) :=
  posts.filterMap fun post => if post.job = id then post.seq.map fun seq => (post.status, seq) else none

namespace Broker
variable {b c : Broker} {a : Action} {i : Nat} {id : String} {reached : Bool}

/-- The outbox of one run. -/
def view (b : Broker) (id : String) : Outbox Nat Verdict :=
  { seq := b.store.currentSeq id
    slot := b.store.slot id
    hand := fun i => (b.workers i).inHand id
    posted := postsOf id b.posts
    owed := notesOf id b.owed
    written := notesOf id b.written
    lost := { p | b.lost ⟨id, p.1, p.2⟩ } }

@[simp] theorem notesOf_append (id : String) (xs ys : List Note) :
    notesOf id (xs ++ ys) = notesOf id xs ++ notesOf id ys :=
  List.filterMap_append

@[simp] theorem notesOf_one (id : String) (note : Note) :
    notesOf id [note] = if note.job = id then [(note.status, note.seq)] else [] := by
  by_cases same : note.job = id <;> simp [notesOf, same]

@[simp] theorem postsOf_append (id : String) (xs ys : List Post) :
    postsOf id (xs ++ ys) = postsOf id xs ++ postsOf id ys :=
  List.filterMap_append

theorem view_become (w : Worker) : (b.become i w).view id = (b.view id).keep i (w.inHand id) := by
  have hands : (fun j => (Function.update b.workers i w j).inHand id) =
      Function.update (fun j => (b.workers j).inHand id) i (w.inHand id) :=
    Function.comp_update (Worker.inHand id) b.workers i w
  simp only [view, become, Outbox.keep, hands]

theorem keep_self (o : Outbox Nat Verdict) : o.keep i (o.hand i) = o := by
  simp only [Outbox.keep, Function.update_eq_self]

theorem view_become_same {w : Worker} (same : w.inHand id = (b.workers i).inHand id) :
    (b.become i w).view id = b.view id := by
  rw [view_become, same]
  exact keep_self (b.view id)

theorem view_store {t : Store} (same : Store.SameLedger b.store t id) :
    ({ b with store := t } : Broker).view id = b.view id := by
  simp only [view, same.1, same.2]

theorem proceed_inHand (todo : List Owed) : (proceed todo).inHand id = heldIn id todo := by
  cases todo <;> rfl

theorem heldIn_tail {owed : Owed} {todo : List Owed}
    (distinct : ((owed :: todo).map fun o => o.job.id).Nodup) :
    heldIn owed.job.id todo = none := by
  have absent := (List.nodup_cons.mp distinct).1
  simp only [heldIn, Option.map_eq_none_iff]
  refine List.find?_eq_none.mpr fun o member same => absent ?_
  exact List.mem_map.mpr ⟨o, member, of_decide_eq_true same⟩

theorem heldFirst_self (owed : Owed) (todo : List Owed) (sent : Bool) :
    heldFirst owed.job.id owed todo sent = some ⟨owed.status, owed.seq, sent, true⟩ := if_pos rfl

theorem heldFirst_other {owed : Owed} (todo : List Owed) (sent : Bool) (apart : owed.job.id ≠ id) :
    heldFirst id owed todo sent = heldIn id todo := if_neg apart

theorem sent_view {post : Post} (none_of : ∀ seq, post.job = id → post.seq = some seq → reached = false) :
    (b.sent reached post).view id = b.view id := by
  unfold sent
  split
  · rename_i went
    have unseen : postsOf id [post] = [] := by
      refine List.filterMap_eq_nil_iff.mpr fun p member => ?_
      rw [List.mem_singleton.mp member]
      split
      · rename_i here
        cases given : post.seq with
        | none => rfl
        | some seq => rw [none_of seq here given] at went; cases went
      · rfl
    simp only [view, postsOf_append, unseen, List.append_nil]
  · rfl

theorem sent_view_self {post : Post} {seq : Nat} (given : post.seq = some seq) :
    (b.sent true post).view post.job =
      { b.view post.job with posted := (b.view post.job).posted ++ [(post.status, seq)] } := by
  have one : postsOf post.job [post] = [(post.status, seq)] := by simp [postsOf, given]
  simp only [sent, if_true, view, postsOf_append, one]

theorem hand_other {owed : Owed} {todo : List Owed} {w : Worker} {sent : Bool} (at_ : b.workers i = w)
    (first : w.inHand id = heldFirst id owed todo sent) (apart : owed.job.id ≠ id) :
    (proceed todo).inHand id = (b.workers i).inHand id := by
  rw [proceed_inHand, at_, first, heldFirst_other todo sent apart]

theorem hand_self {owed : Owed} {todo : List Owed} {w : Worker} {sent : Bool} (at_ : b.workers i = w)
    (first : ∀ id, w.inHand id = heldFirst id owed todo sent) :
    (b.view owed.job.id).hand i = some ⟨owed.status, owed.seq, sent, true⟩ := by
  change (b.workers i).inHand owed.job.id = _
  rw [at_, first, heldFirst_self]

theorem proceed_self {owed : Owed} {todo : List Owed}
    (distinct : ((owed :: todo).map fun o => o.job.id).Nodup) :
    (proceed todo).inHand owed.job.id = none := by
  rw [proceed_inHand, heldIn_tail distinct]

/-- Putting a verdict back is a restore when it still fits, and lets go of it otherwise. -/
theorem restored_view (sound : (b.view id).Sound) {owed : Owed} {todo : List Owed} {w : Worker}
    {sent : Bool}
    (at_ : b.workers i = w) (first : ∀ id, w.inHand id = heldFirst id owed todo sent)
    (distinct : ((owed :: todo).map fun o => o.job.id).Nodup) :
    ReflTransGen Outbox.Step (b.view id)
      (({ b with store := b.store.restoreStatus owed.job.id owed.status owed.seq }.become i
      (proceed todo)).view id) := by
  by_cases here : owed.job.id = id
  · subst here
    have held := hand_self (b := b) at_ first
    obtain ⟨row, found⟩ := Store.row_of_seq_pos
      ((sound.hand_pos i _ held).trans_le (sound.hand_le i _ held))
    have slot := Store.restoreStatus_slot owed.status owed.seq found
    rw [view_become, proceed_self distinct]
    by_cases fits : b.store.slot owed.job.id = none ∧ b.store.currentSeq owed.job.id = owed.seq
    · rw [if_pos fits] at slot
      have same :
          ({ b with store := b.store.restoreStatus owed.job.id owed.status owed.seq } : Broker).view
          owed.job.id =
          { b.view owed.job.id with slot := some owed.status } := by
        simp only [view, slot, Store.restoreStatus_seq]
      rw [same]
      exact ReflTransGen.single (.restore i _ held rfl fits.1 fits.2.symm)
    · rw [if_neg fits] at slot
      rw [view_store ⟨slot, Store.restoreStatus_seq⟩]
      refine ReflTransGen.single (.drop i _ held (Or.inr fun current => fits ⟨?_, current.symm⟩))
      exact sound.slot_free i _ held current
  · rw [view_become_same ?_, view_store (Store.restoreStatus_other fun same => here same.symm)]
    exact hand_other (b := b) at_ (first id) here

/-- Of the rows a reclaim takes, at most one is this run. -/
theorem notesOf_rows (id : String) {rows : List Row} (nodup : (rows.map Row.id).Nodup)
    (text : Row → Verdict) (number : Row → Nat) :
    notesOf id (rows.map fun r => Note.mk r.id (text r) (number r)) =
      ((rows.find? fun r => r.id = id).map fun r => (text r, number r)).toList := by
  induction rows with
  | nil => rfl
  | cons r rest ih =>
    obtain ⟨absent, distinct⟩ := List.nodup_cons.mp nodup
    by_cases here : r.id = id
    · have others : rest.find? (fun x => x.id = id) = none := by
        refine List.find?_eq_none.mpr fun x member same => absent ?_
        exact List.mem_map.mpr ⟨x, member, (of_decide_eq_true same).trans here.symm⟩
      have tail := ih distinct
      rw [others] at tail
      rw [List.map_cons, ← List.singleton_append, notesOf_append, notesOf_one, if_pos here, tail,
        List.find?_cons_of_pos (by simpa using here)]
      rfl
    · rw [List.map_cons, ← List.singleton_append, notesOf_append, notesOf_one, if_neg here, ih distinct,
        List.find?_cons_of_neg (by simpa using here)]
      rfl

theorem reclaimed_view {now : ℚ} {notes : List Note}
    (made : notes = (b.store.lapsed now).map fun r =>
      Note.mk r.id (lossText r.job) ((b.store.reclaimExpired now (some lossText)).2.currentSeq r.id)) :
    ReflTransGen Outbox.Step (b.view id) (({ b with
      store := (b.store.reclaimExpired now (some lossText)).2
      written := b.written ++ notes, owed := b.owed ++ notes } : Broker).view id) := by
  have nodup : ((b.store.lapsed now).map Row.id).Nodup := (b.store.jobs.filter _).nodup
  have own := made ▸ notesOf_rows id nodup _ _
  cases found : (b.store.lapsed now).find? (fun r => r.id = id) with
  | none =>
    have left : ∀ r ∈ b.store.lapsed now, r.id ≠ id := by simpa using List.find?_eq_none.mp found
    obtain ⟨slot, seq⟩ := Store.reclaim_ledger_other (some lossText) left
    have same : ({ b with
        store := (b.store.reclaimExpired now (some lossText)).2
        written := b.written ++ notes, owed := b.owed ++ notes } : Broker).view id = b.view id := by
      simp only [view, slot, seq, notesOf_append, own, found, Option.map_none, Option.toList_none,
        List.append_nil]
    rw [same]
  | some r =>
    obtain rfl : r.id = id := by simpa using List.find?_some found
    obtain ⟨slot, seq⟩ := Store.reclaim_ledger lossText (List.mem_of_find?_eq_some found)
    have same : ({ b with
        store := (b.store.reclaimExpired now (some lossText)).2
        written := b.written ++ notes, owed := b.owed ++ notes } : Broker).view r.id =
        (b.view r.id).owe (lossText r.job) := by
      simp only [view, Outbox.owe, slot, seq, notesOf_append, own, found, Option.map_some,
        Option.toList_some]
    rw [same]
    exact ReflTransGen.single (.owe _)

/-- A settled report is a new verdict in its handler's hand. -/
theorem settled_view {t : Store} {job settled : Job} {reported : Reported} {status : Verdict}
    {now : ℚ} {lock : Option Nat}
    (same : settled.id = job.id) (empty : ∀ id, (b.workers i).inHand id = none)
    (landed : b.store.settle job.id reported.device reported.report now = .ok t) :
    ReflTransGen Outbox.Step (b.view id) (({ b with
      store := t, lock := lock, written :=
        b.written ++ [Note.mk job.id status (t.currentSeq job.id)] }.become i
        (.reporting settled status (t.currentSeq job.id))).view id) := by
  obtain ⟨slot, seq, other⟩ := Store.settle_ledger landed
  rw [view_become]
  by_cases here : job.id = id
  · subst here
    have announced : ({ b with
        store := t, lock := lock
        written := b.written ++ [Note.mk job.id status (t.currentSeq job.id)] } : Broker).view job.id =
        (b.view job.id).announce status := by
      simp only [view, Outbox.announce, slot, seq, notesOf_append, notesOf_one, if_true]
    have hand : (Worker.reporting settled status (t.currentSeq job.id)).inHand job.id =
        some ⟨status, (b.view job.id).seq + 1, false, false⟩ := by
      simp only [Worker.inHand, same, if_true, seq, view]
    rw [announced, hand]
    exact ReflTransGen.single (.announce i status (empty job.id))
  · obtain ⟨slot, seq⟩ := other id fun equal => here equal.symm
    have unchanged : ({ b with
        store := t, lock := lock
        written := b.written ++ [Note.mk job.id status (t.currentSeq job.id)] } : Broker).view
        id = b.view id := by
      simp only [view, slot, seq, notesOf_append, notesOf_one, if_neg here, List.append_nil]
    have hand : (Worker.reporting settled status (t.currentSeq job.id)).inHand id = (b.view id).hand
        i := by
      simp only [Worker.inHand, same, if_neg here]
      exact (empty id).symm
    rw [unchanged, hand, keep_self]

/-- A status the handler could not send goes to the row under a new number. -/
theorem owed_view (sound : (b.view id).Sound) {job : Job} {status : Verdict} {seq : Nat} {sent : Bool}
    (at_ : b.workers i = .owing job status seq sent) :
    ReflTransGen Outbox.Step (b.view id) (({ b with
      store := b.store.oweStatus job.id status, lock := none
      written :=
      b.written ++ [Note.mk job.id status ((b.store.oweStatus job.id status).currentSeq job.id)]
      owed := b.owed ++ [Note.mk job.id status
        ((b.store.oweStatus job.id status).currentSeq job.id)] }.become i
        .idle).view id) := by
  rw [view_become]
  by_cases here : job.id = id
  · subst here
    have held : (b.view job.id).hand i = some ⟨status, seq, sent, false⟩ := by
      simp only [view, at_, Worker.inHand, if_true]
    obtain ⟨row, found⟩ := Store.row_of_seq_pos
      ((sound.hand_pos i _ held).trans_le (sound.hand_le i _ held))
    obtain ⟨slot, number⟩ := Store.oweStatus_ledger status found
    have owed : ({ b with
        store := b.store.oweStatus job.id status, lock := none
        written :=
        b.written ++ [Note.mk job.id status ((b.store.oweStatus job.id status).currentSeq job.id)]
        owed := b.owed ++ [Note.mk job.id status
          ((b.store.oweStatus job.id status).currentSeq job.id)] } :
          Broker).view job.id = (b.view job.id).owe status := by
      simp only [view, Outbox.owe, slot, number, notesOf_append, notesOf_one, if_true]
    rw [owed]
    exact ReflTransGen.single (.fallBack i _ held)
  · obtain ⟨slot, number⟩ := Store.oweStatus_other b.store status fun equal => here (Eq.symm equal)
    have unchanged : ({ b with
        store := b.store.oweStatus job.id status, lock := none
        written :=
        b.written ++ [Note.mk job.id status ((b.store.oweStatus job.id status).currentSeq job.id)]
        owed := b.owed ++ [Note.mk job.id status
          ((b.store.oweStatus job.id status).currentSeq job.id)] } :
          Broker).view id = b.view id := by
      simp only [view, slot, number, notesOf_append, notesOf_one, if_neg here, List.append_nil]
    have hand : Worker.idle.inHand id = (b.view id).hand i := by
      simp only [view, at_, Worker.inHand, if_neg here]
    rw [unchanged, hand, keep_self]

/-- What a drain takes out of a row is in its hand. -/
theorem drained_view (at_ : b.workers i = .idle) :
    ReflTransGen Outbox.Step (b.view id)
      (({ b with store := b.store.claimOwed.2 }.become i (proceed b.store.claimOwed.1)).view id) := by
  have empty : (b.view id).hand i = none := by simp only [view, at_, Worker.inHand]
  obtain ⟨slot, seq⟩ := Store.claimOwed_ledger b.store id
  have cleared : ({ b with store := b.store.claimOwed.2 } : Broker).view
      id = { b.view id with slot := none } := by
    simp only [view, slot, seq]
  rw [view_become, proceed_inHand, heldIn, Store.claimOwed_find, cleared]
  cases owes : b.store.slot id with
  | none =>
    have nothing : (b.store.row? id).bind (fun r =>
        r.pendingStatus.map fun status => (⟨r.job, status, r.statusSeq⟩ : Owed)) = none := by
      cases found : b.store.row? id with
      | none => rfl
      | some r => rw [Store.slot_of_row found] at owes; simp [owes]
    have same : ({ b.view id with slot := none } : Outbox Nat Verdict) = b.view id := by
      simp only [view, owes]
    rw [nothing, same, Option.map_none, ← empty, keep_self]
  | some status =>
    obtain ⟨r, found, pending⟩ := Option.bind_eq_some_iff.mp owes
    rw [found, Option.bind_some, pending, Option.map_some, Option.map_some, ← Store.seq_of_row found]
    exact ReflTransGen.single (.take i status empty owes)

/-- Posting the latest verdict of a run delivers it if it reached the commit, and touches no other run. -/
theorem posted_view {w : Worker} {post : Post} {seq : Nat} {h : Held Verdict}
    (given : post.seq = some seq)
    (held : (b.view post.job).hand i = some h) (unsent : h.sent = false) (note : h.note = post.status)
    (number : h.number = seq) (current : b.store.currentSeq post.job = seq)
    (after : w.inHand post.job = some { h with sent := reached })
    (other : ∀ id, post.job ≠ id → w.inHand id = (b.view id).hand i) :
    ReflTransGen Outbox.Step (b.view id) (((b.sent reached post).become i w).view id) := by
  rw [view_become]
  by_cases here : post.job = id
  · subst here
    cases reached with
    | true =>
      rw [sent_view_self given, after, ← note, ← number]
      exact ReflTransGen.single (.deliver i h held (number.trans current.symm))
    | false =>
      have same : { h with sent := false } = h := by rw [← unsent]
      rw [sent_view (fun _ _ _ => rfl), after, same, ← held, keep_self]
  · rw [sent_view (fun _ equal => absurd equal here), other id here, keep_self]

theorem become_twice (w w' : Worker) (lock : Option Nat) (lost : Note → Prop) :
    ({ b.become i w with lock := lock, lost := lost } : Broker).become i w' =
      ({ b with lock := lock, lost := lost } : Broker).become i w' := by
  simp only [become, Function.update_idem]

/-- A handler that has answered lets go of what it posted, and loses what it did not. -/
theorem report_done (id : String) {job : Job} {status : Verdict} {seq : Nat} (lost : Note → Prop)
    (at_ : b.workers i = .owing job status seq reached)
    (gone : ∀ note, lost note ↔ b.lost note ∨ (reached = false ∧ note = Note.mk job.id status seq)) :
    ReflTransGen Outbox.Step (b.view id)
    (({ b with lock := none, lost := lost }.become i .idle).view id) := by
  rw [view_become]
  by_cases here : job.id = id
  · subst here
    have held : (b.view job.id).hand i = some ⟨status, seq, reached, false⟩ := by
      simp only [view, at_, Worker.inHand, if_true]
    cases reached with
    | true =>
      have same : ({ b with lock := none, lost := lost } : Broker).view job.id = b.view job.id := by
        simp [view, gone]
      rw [same]
      exact ReflTransGen.single (.drop i _ held (Or.inl rfl))
    | false =>
      have same : ({ b with lock := none, lost := lost } : Broker).view job.id =
          { b.view job.id with lost := insert (status, seq) (b.view job.id).lost } := by
        simp only [view, gone, true_and]
        congr 1
        ext p
        simp only [Set.mem_ofPred_eq, Set.mem_insert_iff, Note.mk.injEq, true_and, Prod.ext_iff]
        exact or_comm
      rw [same]
      exact ReflTransGen.single (.abandon i _ held rfl)
  · have same : ({ b with lock := none, lost := lost } : Broker).view id = b.view id := by
      have apart : ∀ p : Verdict × Nat, Note.mk id p.1 p.2 ≠ Note.mk job.id status seq :=
        fun p equal => here (congrArg Note.job equal).symm
      simp [view, gone, apart]
    have hand : Worker.idle.inHand id = (b.view id).hand i := by
      simp only [view, at_, Worker.inHand, if_neg here]
    rw [same, hand, keep_self]

theorem heldIn_cons (owed : Owed) (todo : List Owed) :
    heldIn id (owed :: todo) = heldFirst id owed todo false := by
  by_cases here : owed.job.id = id <;> simp [heldIn, heldFirst, here]

/-- A drain lets go of a verdict it has posted, or that is no longer the latest. -/
theorem passed_view {owed : Owed} {todo : List Owed} {w : Worker} {sent : Bool} (at_ : b.workers i = w)
    (first : ∀ id, w.inHand id = heldFirst id owed todo sent)
    (distinct : ((owed :: todo).map fun o => o.job.id).Nodup)
    (done : sent = true ∨ b.store.currentSeq owed.job.id ≠ owed.seq) :
    ReflTransGen Outbox.Step (b.view id) ((b.become i (proceed todo)).view id) := by
  by_cases here : owed.job.id = id
  · subst here
    rw [view_become, proceed_self distinct]
    refine ReflTransGen.single (.drop i _ (hand_self at_ first) ?_)
    exact done.imp_right Ne.symm
  · rw [view_become_same (hand_other at_ (first id) here)]

theorem report_posted (locked : Locked b) {job : Job} {status : Verdict} {seq : Nat}
    (at_ : b.workers i = .reporting job status seq) :
    ReflTransGen Outbox.Step (b.view id)
      (((b.sent reached (reportPost job status seq)).become i (.owing job status seq reached)).view
      id) := by
  have current : (b.workers i).Current b.store := locked.current i
  rw [at_] at current
  refine posted_view (h := ⟨status, seq, false, false⟩) rfl ?_ rfl rfl rfl current ?_
    fun other apart => ?_
  · simp only [view, at_, Worker.inHand, reportPost, if_true]
  · simp only [Worker.inHand, reportPost, if_true]
  · simp only [view, at_, Worker.inHand, if_neg (show ¬job.id = other from apart)]

theorem drain_posted (reached : Bool) (locked : Locked b) {owed : Owed} {todo : List Owed} {w : Worker}
    (at_ : b.workers i = .posting owed todo)
    (after : ∀ id, w.inHand id = heldFirst id owed todo reached) :
    ReflTransGen Outbox.Step (b.view id) (((b.sent reached (Owed.post owed)).become i w).view id) := by
  have current : (b.workers i).Current b.store := locked.current i
  rw [at_] at current
  refine posted_view (h := ⟨owed.status, owed.seq, false, true⟩) rfl (hand_self at_ fun _ => rfl)
    rfl rfl rfl current
    ((after _).trans (heldFirst_self ..)) fun other apart => ?_
  rw [after, heldFirst_other todo reached apart]
  simp only [view, at_, Worker.inHand, heldFirst_other todo false apart]

/-- Every step but a stop is, for each run, a few steps of its outbox. -/
theorem moved_view (locked : Locked b) (sound : (b.view id).Sound) (moved : Moved b a c)
    (live : a ≠ .stop) :
    ReflTransGen Outbox.Step (b.view id) (c.view id) := by
  have list {i : Nat} {w : Worker} (at_ : b.workers i = w) : (w.todo.map fun o => o.job.id).Nodup :=
    at_ ▸ locked.distinct i
  cases moved with
  | stay _ => exact .refl
  | enqueued at_ done =>
    rw [view_become_same (by simp only [at_]; rfl), view_store (Store.enqueue_ledger done)]
  | @postedQueued i reached job repository commit at_ =>
    rw [view_become_same (by rw [sent_workers, at_]; rfl), sent_view (by rintro seq - given; cases given)]
  | claimed => rw [view_store claim_seq]
  | renewed => rw [view_store renew_seq]
  | heard => rw [view_store heartbeat_seq]
  | reclaimed free made => exact reclaimed_view made
  | received at_ _ | admitted at_ => rw [view_become_same (by rw [at_]; rfl)]
  | dismissed _ at_ =>
    obtain ⟨job, reported, at_ | ⟨status, at_⟩⟩ := at_ <;> rw [view_become_same (by rw [at_]; rfl)]
  | settled at_ free landed found =>
    exact settled_view (Store.row?_some found).2 (fun _ => by rw [at_]; rfl) landed
  | @reportAccepted i job status seq at_ =>
    have done := report_done (b := (b.sent true (reportPost job status seq)).become i
      (.owing job status seq true)) id
      (b.sent true (reportPost job status seq)).lost (workers_become _) (by simp [become])
    rw [become_twice] at done
    exact (report_posted locked at_).trans done
  | reportRefused at_ => exact report_posted locked at_
  | @reportRaised i reached job status seq at_ =>
    have done := report_done (b := (b.sent reached (reportPost job status seq)).become i
      (.owing job status seq reached)) id _ (workers_become _) (fun _ => Iff.rfl)
    rw [become_twice] at done
    exact (report_posted locked at_).trans done
  | owed at_ => exact owed_view sound at_
  | drained at_ free => exact drained_view at_
  | checkedCurrent at_ free current =>
    rw [view_become_same (b := { b with lock := _ }) (by rw [at_]; exact (heldIn_cons ..).symm)]
    exact .refl
  | checkedStale at_ stale => exact passed_view at_ (fun _ => heldIn_cons ..) (list at_ :) (Or.inr stale)
  | postAccepted at_ => exact drain_posted true locked at_ fun _ => rfl
  | postFailed _ at_ _ => exact drain_posted _ locked at_ fun _ => rfl
  | restored at_ => exact restored_view (b := b) sound at_ (fun _ => rfl) (list at_ :)
  | closed at_ => exact passed_view at_ (fun _ => rfl) (list at_ :) (Or.inl rfl)
  | unclosed at_ => rw [view_become_same (by rw [at_]; rfl)]
  | putBack at_ free => exact restored_view sound at_ (fun _ => rfl) (list at_ :)
  | stopped => exact absurd rfl live

theorem stopped_view : b.stopped.view id = (b.view id).crash := by
  simp only [view, stopped, Outbox.crash, Worker.inHand, Outbox.mk.injEq, true_and]
  ext p
  simp only [Set.mem_ofPred_eq, Set.mem_union, Worker.Unsent]
  refine or_congr_right (exists_congr fun i => exists_congr fun h => and_congr_right fun _ =>
    and_congr_right fun _ => ?_)
  rw [Prod.ext_iff]
  exact and_congr eq_comm eq_comm

theorem start_view : start.view id = Outbox.empty := by
  simp [start, view, Outbox.empty, Store.currentSeq, Store.slot, Store.row?, Store.empty,
    Worker.inHand, notesOf, postsOf]

/-- What holds of the broker in every state it can reach. -/
structure Steady (b : Broker) : Prop where
  locked : Locked b
  sound : ∀ id, (b.view id).Sound
  accounted : ∀ id, (b.view id).Accounted

theorem start_steady : Steady start :=
  ⟨start_locked, fun _ => start_view ▸ Outbox.empty_whole.sound, fun _ =>
  start_view ▸ Outbox.empty_whole.accounted⟩

theorem step_steady (h : Steady b) (taken : b.step a = some c) : Steady c := by
  have moved := step_moved taken
  by_cases live : a = .stop
  · subst live
    obtain rfl := Option.some.inj taken
    exact ⟨moved_locked h.locked moved, fun id => stopped_view ▸ Outbox.crash_sound (h.sound id),
      fun id => stopped_view ▸ Outbox.crash_accounted (h.sound id) (h.accounted id)⟩
  · have steps := fun id => moved_view h.locked (h.sound id) moved live
    exact ⟨moved_locked h.locked moved, fun id => Outbox.steps_sound (steps id) (h.sound id),
      fun id => (Outbox.steps_accounted (steps id) (h.sound id) (h.accounted id)).2⟩

theorem run_steady {actions : List Action} (h : run step start actions = some b) : Steady b :=
  run_invariant (fun _ _ _ steady taken => step_steady steady taken) start_steady h

end Broker
end Cindral.Status

import Mathlib.Data.Set.Insert
import Mathlib.Data.List.Basic
import Mathlib.Logic.Function.Basic
import Mathlib.Logic.Relation

/-! An outbox of numbered notes. The latest note waits in one slot; senders take it, send it if it is still
the latest, and put it back if the send failed. -/

namespace Cindral.Base
open Relation (ReflTransGen)

/-- A note a sender has in hand: whether it was sent already, and whether it came out of the slot. -/
structure Held (ν : Type) where
  note : ν
  number : Nat
  sent : Bool
  taken : Bool

structure Outbox (ι ν : Type) where
  seq : Nat
  slot : Option ν
  hand : ι → Option (Held ν)
  posted : List (ν × Nat)
  /-- Ghost: the notes that were put in the slot when they were made. -/
  owed : List (ν × Nat)
  /-- Ghost: every note that was made. -/
  written : List (ν × Nat)
  /-- Ghost: the notes a sender gave up or lost in a crash. -/
  lost : Set (ν × Nat)

namespace Outbox
variable {ι ν : Type} [DecidableEq ι] {o o' : Outbox ι ν}

def empty : Outbox ι ν := ⟨0, none, fun _ => none, [], [], [], ∅⟩

def keep (o : Outbox ι ν) (i : ι) (h : Option (Held ν)) : Outbox ι ν :=
  { o with hand := Function.update o.hand i h }

/-- A new note in the slot. It takes the place of the one that was there. -/
def owe (o : Outbox ι ν) (note : ν) : Outbox ι ν :=
  { o with
    seq := o.seq + 1, slot := some note
    owed := o.owed ++ [(note, o.seq + 1)], written := o.written ++ [(note, o.seq + 1)] }

/-- A new note its maker sends itself. It voids the one in the slot. -/
def announce (o : Outbox ι ν) (note : ν) : Outbox ι ν :=
  { o with seq := o.seq + 1, slot := none, written := o.written ++ [(note, o.seq + 1)] }

inductive Step (o : Outbox ι ν) : Outbox ι ν → Prop where
  | owe (note : ν) : Step o (o.owe note)
  | announce (i : ι) (note : ν) : o.hand i = none →
      Step o ((o.announce note).keep i (some ⟨note, o.seq + 1, false, false⟩))
  | fallBack (i : ι) (h : Held ν) : o.hand i = some h → Step o ((o.owe h.note).keep i none)
  | take (i : ι) (note : ν) : o.hand i = none → o.slot = some note →
      Step o ({ o with slot := none }.keep i (some ⟨note, o.seq, false, true⟩))
  | deliver (i : ι) (h : Held ν) : o.hand i = some h → h.number = o.seq →
      Step o ({ o with posted := o.posted ++ [(h.note, h.number)] }.keep i (some { h with sent := true }))
  | drop (i : ι) (h : Held ν) : o.hand i = some h → h.sent = true ∨ h.number ≠ o.seq →
      Step o (o.keep i none)
  | restore (i : ι) (h : Held ν) : o.hand i = some h → h.taken = true → o.slot = none → h.number = o.seq →
      Step o ({ o with slot := some h.note }.keep i none)
  | abandon (i : ι) (h : Held ν) : o.hand i = some h → h.taken = false →
      Step o ({ o with lost := insert (h.note, h.number) o.lost }.keep i none)

/-- Every sender forgets what it had in hand. -/
def crash (o : Outbox ι ν) : Outbox ι ν :=
  { o with
    hand := fun _ => none
    lost := o.lost ∪ { p | ∃ i h, o.hand i = some h ∧ h.sent = false ∧ p = (h.note, h.number) } }

structure Sound (o : Outbox ι ν) : Prop where
  hand_pos : ∀ i h, o.hand i = some h → 0 < h.number
  hand_written : ∀ i h, o.hand i = some h → (h.note, h.number) ∈ o.written
  slot_pos : o.slot.isSome → 0 < o.seq
  slot_owed : ∀ note, o.slot = some note → (note, o.seq) ∈ o.owed
  slot_free : ∀ i h, o.hand i = some h → h.number = o.seq → o.slot = none
  hand_inj : ∀ i j h h', o.hand i = some h → o.hand j = some h' → h.number = h'.number → i = j
  posted_written : ∀ p ∈ o.posted, p ∈ o.written
  posted_sorted : o.posted.Pairwise fun p q => p.2 ≤ q.2
  sent_posted : ∀ i h, o.hand i = some h → h.sent = true → (h.note, h.number) ∈ o.posted
  owed_written : ∀ p ∈ o.owed, p ∈ o.written
  written_le : ∀ p ∈ o.written, p.2 ≤ o.seq
  lost_le : ∀ p ∈ o.lost, p.2 ≤ o.seq
  taken_owed : ∀ i h, o.hand i = some h → h.taken = true → (h.note, h.number) ∈ o.owed
  owed_taken : ∀ p ∈ o.owed, ∀ i h, o.hand i = some h → h.number = p.2 → h.taken = true
  latest : 0 < o.seq → ∃ note, (note, o.seq) ∈ o.written

/-- Where a note is: in the slot, in one hand, posted, replaced by a later one, or lost. -/
inductive Whereabouts (o : Outbox ι ν) (p : ν × Nat) : Prop where
  | waiting : o.slot = some p.1 → o.seq = p.2 → Whereabouts o p
  | inHand (i : ι) (h : Held ν) : o.hand i = some h → h.note = p.1 → h.number = p.2 → Whereabouts o p
  | posted : p ∈ o.posted → Whereabouts o p
  | replaced : p.2 < o.seq → Whereabouts o p
  | lost : p ∈ o.lost → Whereabouts o p

def Accounted (o : Outbox ι ν) : Prop := ∀ p ∈ o.written, o.Whereabouts p

/-- No note that waited in the slot is lost. -/
def Kept (o : Outbox ι ν) : Prop := ∀ p ∈ o.owed, p ∉ o.lost

omit [DecidableEq ι] in
theorem Sound.hand_le (sound : Sound o) (i : ι) (h : Held ν) (held : o.hand i = some h) :
    h.number ≤ o.seq :=
  sound.written_le _ (sound.hand_written i h held)

omit [DecidableEq ι] in
theorem Sound.posted_le (sound : Sound o) (p : ν × Nat) (member : p ∈ o.posted) : p.2 ≤ o.seq :=
  sound.written_le p (sound.posted_written p member)

theorem keep_hand {i j : ι} {h : Held ν} {x : Option (Held ν)} (held : (o.keep i x).hand j = some h) :
    (j = i ∧ x = some h) ∨ (j ≠ i ∧ o.hand j = some h) := by
  by_cases same : j = i
  · subst same
    exact Or.inl ⟨rfl, by simpa [keep] using held⟩
  · exact Or.inr ⟨same, by simpa [keep, same] using held⟩

/-- Letting go of a note keeps the outbox sound. -/
theorem sound_release (sound : Sound o) (i : ι) : Sound (o.keep i none) := by
  have old {j : ι} {h : Held ν} (held : (o.keep i none).hand j = some h) : o.hand j = some h := by
    rcases keep_hand held with ⟨-, absent⟩ | ⟨-, held⟩
    · cases absent
    · exact held
  exact ⟨fun j h held => sound.hand_pos j h (old held), fun j h held => sound.hand_written j h
    (old held), sound.slot_pos,
    sound.slot_owed, fun j h held => sound.slot_free j h (old held),
    fun j k h h' held held' => sound.hand_inj j k h h' (old held) (old held'), sound.posted_written,
    sound.posted_sorted,
    fun j h held => sound.sent_posted j h (old held), sound.owed_written, sound.written_le, sound.lost_le,
    fun j h held => sound.taken_owed j h (old held),
    fun p member j h held => sound.owed_taken p member j h (old held), sound.latest⟩

omit [DecidableEq ι] in
theorem sound_owe (sound : Sound o) (note : ν) : Sound (o.owe note) := by
  have past : ∀ p ∈ o.written, p.2 ≤ o.seq + 1 :=
    fun p member => (sound.written_le p member).trans (Nat.le_succ _)
  refine ⟨sound.hand_pos, fun i h held => List.mem_append_left _ (sound.hand_written i h held),
    fun _ => Nat.succ_pos _,
    ?_, ?_, sound.hand_inj, fun p member => List.mem_append_left _ (sound.posted_written p member),
    sound.posted_sorted,
    sound.sent_posted, ?_, ?_, fun p member => (sound.lost_le p member).trans (Nat.le_succ _),
    fun i h held taken => List.mem_append_left _ (sound.taken_owed i h held taken), ?_,
    fun _ => ⟨note, List.mem_append_right _ (List.mem_singleton_self _)⟩⟩
  · intro x there
    obtain rfl := Option.some.inj there
    exact List.mem_append_right _ (List.mem_singleton_self _)
  · intro i h held same
    exact absurd (sound.hand_le i h held) (by rw [same]; exact Nat.not_succ_le_self _)
  · intro p member
    rcases List.mem_append.mp member with old | new
    · exact List.mem_append_left _ (sound.owed_written p old)
    · exact List.mem_append_right _ new
  · intro p member
    rcases List.mem_append.mp member with old | new
    · exact past p old
    · rw [List.mem_singleton.mp new]; exact le_refl _
  · intro p member i h held same
    rcases List.mem_append.mp member with old | new
    · exact sound.owed_taken p old i h held same
    · -- the new number is above every number in hand
      rw [List.mem_singleton.mp new] at same
      exact absurd (sound.hand_le i h held) (by rw [same]; exact Nat.not_succ_le_self _)

/-- Taking a note in hand keeps the outbox sound when no other hand has its number. -/
theorem sound_gain (sound : Sound o) {i : ι} {h : Held ν} (positive : 0 < h.number)
    (made : (h.note, h.number) ∈ o.written) (free : h.number = o.seq → o.slot = none)
    (alone : ∀ j x, j ≠ i → o.hand j = some x → x.number ≠ h.number)
    (sent : h.sent = true → (h.note, h.number) ∈ o.posted)
    (owed : h.taken = true → (h.note, h.number) ∈ o.owed)
    (taken : ∀ p ∈ o.owed, h.number = p.2 → h.taken = true) : Sound (o.keep i (some h)) := by
  refine ⟨?_, ?_, sound.slot_pos, sound.slot_owed, ?_, ?_, sound.posted_written,
    sound.posted_sorted, ?_, sound.owed_written,
    sound.written_le, sound.lost_le, ?_, ?_, sound.latest⟩
  · intro j x held
    rcases keep_hand held with ⟨-, same⟩ | ⟨-, old⟩
    · rw [← Option.some.inj same]; exact positive
    · exact sound.hand_pos j x old
  · intro j x held
    rcases keep_hand held with ⟨-, same⟩ | ⟨-, old⟩
    · rw [← Option.some.inj same]; exact made
    · exact sound.hand_written j x old
  · intro j x held
    rcases keep_hand held with ⟨-, same⟩ | ⟨-, old⟩
    · rw [← Option.some.inj same]; exact free
    · exact sound.slot_free j x old
  · intro j k x y held held' same
    rcases keep_hand held with ⟨rfl, new⟩ | ⟨apart, old⟩ <;> rcases keep_hand
      held' with ⟨rfl, new'⟩ | ⟨apart', old'⟩
    · rfl
    · obtain rfl := Option.some.inj new
      exact absurd same.symm (alone k y apart' old')
    · obtain rfl := Option.some.inj new'
      exact absurd same (alone j x apart old)
    · exact sound.hand_inj j k x y old old' same
  · intro j x held
    rcases keep_hand held with ⟨-, same⟩ | ⟨-, old⟩
    · rw [← Option.some.inj same]; exact sent
    · exact sound.sent_posted j x old
  · intro j x held
    rcases keep_hand held with ⟨-, same⟩ | ⟨-, old⟩
    · rw [← Option.some.inj same]; exact owed
    · exact sound.taken_owed j x old
  · intro p member j x held
    rcases keep_hand held with ⟨-, same⟩ | ⟨-, old⟩
    · rw [← Option.some.inj same]; exact taken p member
    · exact sound.owed_taken p member j x old

omit [DecidableEq ι] in
theorem sound_announce (sound : Sound o) (note : ν) : Sound (o.announce note) :=
  have owed := sound_owe sound note
  ⟨sound.hand_pos, owed.hand_written, fun absent => (nomatch absent), fun _ absent =>
    (nomatch absent), fun _ _ _ _ => rfl,
    sound.hand_inj, owed.posted_written, sound.posted_sorted, sound.sent_posted,
    fun p member => List.mem_append_left _ (sound.owed_written p member), owed.written_le, owed.lost_le,
    sound.taken_owed, sound.owed_taken, owed.latest⟩

omit [DecidableEq ι] in
theorem sound_clear (sound : Sound o) : Sound { o with slot := none } :=
  ⟨sound.hand_pos, sound.hand_written, fun absent => (nomatch absent), fun _ absent =>
    (nomatch absent), fun _ _ _ _ => rfl,
    sound.hand_inj, sound.posted_written, sound.posted_sorted, sound.sent_posted,
    sound.owed_written, sound.written_le,
    sound.lost_le, sound.taken_owed, sound.owed_taken, sound.latest⟩

omit [DecidableEq ι] in
/-- Posting the latest number keeps the posts in order. -/
theorem sound_post (sound : Sound o) (note : ν) (made : (note, o.seq) ∈ o.written) :
    Sound { o with posted := o.posted ++ [(note, o.seq)] } := by
  refine ⟨sound.hand_pos, sound.hand_written, sound.slot_pos, sound.slot_owed, sound.slot_free,
    sound.hand_inj, ?_, ?_,
    fun i h held sent => List.mem_append_left _ (sound.sent_posted i h held sent), sound.owed_written,
    sound.written_le, sound.lost_le, sound.taken_owed, sound.owed_taken, sound.latest⟩
  · intro p member
    rcases List.mem_append.mp member with old | new
    · exact sound.posted_written p old
    · rw [List.mem_singleton.mp new]; exact made
  · refine List.pairwise_append.mpr ⟨sound.posted_sorted, List.pairwise_singleton _ _, ?_⟩
    intro p old q new
    rw [List.mem_singleton.mp new]
    exact sound.posted_le p old

theorem step_sound (step : Step o o') (sound : Sound o) : Sound o' := by
  cases step with
  | owe note => exact sound_owe sound note
  | announce i note free =>
    refine sound_gain (sound_announce sound note) (Nat.succ_pos _)
      (List.mem_append_right _ (List.mem_singleton_self _))
      (fun _ => rfl) ?_ (fun sent => (nomatch sent)) (fun taken => (nomatch taken)) ?_
    · intro j x _ held same
      exact absurd (sound.hand_le j x held) (by rw [same]; exact Nat.not_succ_le_self _)
    · intro p member same
      exact absurd (sound.written_le p (sound.owed_written p member))
        (by rw [← same]; exact Nat.not_succ_le_self _)
  | fallBack i h held => exact sound_release (sound_owe sound h.note) i
  | take i note free waiting =>
    refine sound_gain (sound_clear sound) (sound.slot_pos (by simp [waiting]))
      (sound.owed_written _ (sound.slot_owed note waiting)) (fun _ => rfl) ?_
      (fun sent => (nomatch sent)) (fun _ => sound.slot_owed note waiting) (fun _ _ _ => rfl)
    intro j x _ held same
    -- while the slot is full nobody has its number in hand
    have empty := sound.slot_free j x held same
    rw [waiting] at empty
    cases empty
  | deliver i h held current =>
    have made := sound.hand_written i h held
    refine sound_gain (h := { h with sent := true }) (current ▸ sound_post sound h.note (current ▸ made))
      (sound.hand_pos i h held) made (sound.slot_free i h held) ?_
      (fun _ => List.mem_append_right _ (List.mem_singleton_self _))
      (sound.taken_owed i h held) (fun p member => sound.owed_taken p member i h held)
    intro j x apart other same
    exact apart (sound.hand_inj j i x h other held same)
  | drop i h held _ => exact sound_release sound i
  | restore i h held own free current =>
    have released := sound_release sound i
    refine ⟨released.hand_pos, released.hand_written, fun _ => current ▸ sound.hand_pos i h held,
      ?_, ?_, released.hand_inj,
      released.posted_written, released.posted_sorted, released.sent_posted, released.owed_written,
      released.written_le,
      released.lost_le, released.taken_owed, released.owed_taken, released.latest⟩
    · intro note there
      obtain rfl := Option.some.inj there
      exact current ▸ sound.taken_owed i h held own
    intro j x other same
    rcases keep_hand other with ⟨-, absent⟩ | ⟨apart, other⟩
    · cases absent
    · exact absurd (sound.hand_inj j i x h other held (same.trans current.symm)) apart
  | abandon i h held own =>
    have released := sound_release sound i
    refine ⟨released.hand_pos, released.hand_written, released.slot_pos, released.slot_owed,
      released.slot_free,
      released.hand_inj, released.posted_written, released.posted_sorted, released.sent_posted,
      released.owed_written,
      released.written_le, ?_, released.taken_owed, released.owed_taken, released.latest⟩
    intro p member
    rcases member with rfl | old
    · exact sound.hand_le i h held
    · exact sound.lost_le p old

theorem steps_sound (steps : ReflTransGen Step o o') (sound : Sound o) : Sound o' := by
  induction steps with
  | refl => exact sound
  | tail _ step ih => exact step_sound step ih

omit [DecidableEq ι] in
theorem crash_sound (sound : Sound o) : Sound o.crash := by
  refine ⟨fun _ _ held => (nomatch held), fun _ _ held => (nomatch held), sound.slot_pos, sound.slot_owed,
    fun _ _ held => (nomatch held), fun _ _ _ _ held => (nomatch held), sound.posted_written,
    sound.posted_sorted,
    fun _ _ held => (nomatch held), sound.owed_written, sound.written_le, ?_, fun _ _ held =>
    (nomatch held),
    fun _ _ _ _ held => (nomatch held), sound.latest⟩
  intro p member
  rcases member with old | ⟨i, h, held, -, rfl⟩
  · exact sound.lost_le p old
  · exact sound.hand_le i h held

/-- Where a note is does not depend on who else lets go of another. -/
theorem whereabouts_keep {p : ν × Nat} {i : ι} {h : Held ν} {x : Option (Held ν)}
    (held : o.hand i = some h)
    (at_ : o.Whereabouts p) (own : (h.note, h.number) = p → (o.keep i x).Whereabouts p) :
    (o.keep i x).Whereabouts p := by
  cases at_ with
  | waiting slot seq => exact .waiting slot seq
  | inHand j y other note number =>
    by_cases same : j = i
    · subst same
      obtain rfl := Option.some.inj (other.symm.trans held)
      exact own (Prod.ext note number)
    · exact .inHand j y (by simpa [keep, same] using other) note number
  | posted member => exact .posted member
  | replaced less => exact .replaced less
  | lost member => exact .lost member

omit [DecidableEq ι] in
theorem accounted_owe (sound : Sound o) (note : ν) : Accounted (o.owe note) := by
  intro p member
  rcases List.mem_append.mp member with old | new
  · exact .replaced (Nat.lt_succ_of_le (sound.written_le p old))
  · rw [List.mem_singleton.mp new]
    exact .waiting rfl rfl

theorem step_accounted (step : Step o o') (sound : Sound o) (accounted : Accounted o) : Accounted o' := by
  cases step with
  | owe note => exact accounted_owe sound note
  | announce i note free =>
    intro p member
    rcases List.mem_append.mp member with old | new
    · exact .replaced (Nat.lt_succ_of_le (sound.written_le p old))
    · rw [List.mem_singleton.mp new]
      exact .inHand i ⟨note, o.seq + 1, false, false⟩ (by simp [keep]) rfl rfl
  | fallBack i h held =>
    intro p member
    cases accounted_owe sound h.note p member with
    | waiting slot seq => exact .waiting slot seq
    | inHand j y other note number =>
      exact .replaced (number ▸ Nat.lt_succ_of_le (sound.hand_le j y other))
    | posted member => exact .posted member
    | replaced less => exact .replaced less
    | lost member => exact .lost member
  | take i note free waiting =>
    intro p member
    cases accounted p member with
    | waiting slot seq => exact .inHand i ⟨note, o.seq, false, true⟩ (by simp [keep]) (Option.some.inj (waiting.symm.trans slot)) seq
    | inHand j y other same number =>
      have apart : j ≠ i := by rintro rfl; rw [free] at other; cases other
      exact .inHand j y (by simpa [keep, apart] using other) same number
    | posted member => exact .posted member
    | replaced less => exact .replaced less
    | lost member => exact .lost member
  | deliver i h held current =>
    intro p member
    refine whereabouts_keep (o := { o with posted := o.posted ++ [(h.note, h.number)] }) held ?_
      fun same => ?_
    · cases accounted p member with
      | waiting slot seq => exact .waiting slot seq
      | inHand j y other note number => exact .inHand j y other note number
      | posted member => exact .posted (List.mem_append_left _ member)
      | replaced less => exact .replaced less
      | lost member => exact .lost member
    · exact .posted (same ▸ List.mem_append_right _ (List.mem_singleton_self _))
  | drop i h held done =>
    intro p member
    refine whereabouts_keep held (accounted p member) fun same => ?_
    rcases done with sent | stale
    · exact .posted (same ▸ sound.sent_posted i h held sent)
    · exact .replaced (same ▸ lt_of_le_of_ne (sound.hand_le i h held) stale)
  | restore i h held own free current =>
    intro p member
    have before : ({ o with slot := some h.note }.keep i none).Whereabouts p := by
      refine whereabouts_keep (o := { o with slot := some h.note }) held ?_ fun same => ?_
      · cases accounted p member with
        | waiting slot seq => rw [free] at slot; cases slot
        | inHand j y other note number => exact .inHand j y other note number
        | posted member => exact .posted member
        | replaced less => exact .replaced less
        | lost member => exact .lost member
      · exact .waiting (by rw [← same]; rfl) (by rw [← same]; exact current.symm)
    exact before
  | abandon i h held own =>
    intro p member
    refine whereabouts_keep (o := { o with lost := insert (h.note, h.number) o.lost }) held ?_
      fun same => ?_
    · cases accounted p member with
      | waiting slot seq => exact .waiting slot seq
      | inHand j y other note number => exact .inHand j y other note number
      | posted member => exact .posted member
      | replaced less => exact .replaced less
      | lost member => exact .lost (Set.mem_insert_of_mem _ member)
    · exact .lost (same ▸ Set.mem_insert _ _)

omit [DecidableEq ι] in
theorem crash_accounted (sound : Sound o) (accounted : Accounted o) : Accounted o.crash := by
  intro p member
  cases accounted p member with
  | waiting slot seq => exact .waiting slot seq
  | inHand i h held note number =>
    have same : p = (h.note, h.number) := (Prod.ext note number).symm
    cases sent : h.sent with
    | true => exact .posted (same ▸ sound.sent_posted i h held sent)
    | false => exact .lost (Or.inr ⟨i, h, held, sent, same⟩)
  | posted member => exact .posted member
  | replaced less => exact .replaced less
  | lost member => exact .lost (Or.inl member)

/-- Without a crash only notes their own maker held are lost, and those never waited in the slot. -/
theorem step_kept (step : Step o o') (sound : Sound o) (kept : Kept o) : Kept o' := by
  have owed {note : ν} : ∀ p ∈ o.owed ++ [(note, o.seq + 1)], p ∉ o.lost := by
    intro p member
    rcases List.mem_append.mp member with old | new
    · exact kept p old
    · intro lost
      have low := sound.lost_le p lost
      rw [List.mem_singleton.mp new] at low
      exact Nat.not_succ_le_self _ low
  cases step with
  | owe note => exact owed
  | fallBack i h held => exact owed
  | announce | take | deliver | drop | restore => exact kept
  | abandon i h held own =>
    intro p member lost
    rcases lost with same | old
    · have taken := sound.owed_taken p member i h held (congrArg Prod.snd same).symm
      rw [own] at taken
      cases taken
    · exact kept p member old

/-- The facts that hold of an outbox as long as nothing crashes. -/
structure Whole (o : Outbox ι ν) : Prop where
  sound : Sound o
  accounted : Accounted o
  kept : Kept o

theorem steps_whole (steps : ReflTransGen Step o o') (whole : Whole o) : Whole o' := by
  induction steps with
  | refl => exact whole
  | tail _ step ih =>
    exact ⟨step_sound step ih.sound, step_accounted step ih.sound ih.accounted,
      step_kept step ih.sound ih.kept⟩

theorem steps_accounted (steps : ReflTransGen Step o o') (sound : Sound o) (accounted : Accounted o) :
    Sound o' ∧ Accounted o' := by
  induction steps with
  | refl => exact ⟨sound, accounted⟩
  | tail _ step ih => exact ⟨step_sound step ih.1, step_accounted step ih.1 ih.2⟩

omit [DecidableEq ι] in
theorem empty_whole : Whole (empty : Outbox ι ν) := by
  refine ⟨⟨?_, ?_, ?_, ?_, ?_, ?_, ?_, ?_, ?_, ?_, ?_, ?_, ?_, ?_, ?_⟩, ?_, ?_⟩
    <;> simp [empty, Accounted, Kept]

end Outbox
end Cindral.Base

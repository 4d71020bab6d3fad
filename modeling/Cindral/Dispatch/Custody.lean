import Cindral.Dispatch.Discipline

/-!
# A rejected delivery in hand

Rejecting a delivery and queueing its device job are two commits. Between them the push is in the
hand of one thread and nowhere else. Every handler that rejects a delivery goes on to queue it.
-/

namespace Cindral.Dispatch
open Base Routing Script

/-- One delivery to follow: its key, the commit it was recorded with, and the body each digest
belongs to. -/
structure Parcel where
  key : String × String
  sha : String
  body : String → Option Json

/-- Whether a thread has the delivery in hand after a call, and had it before. -/
def Parcel.holds (key : String × String) (held : Bool) : (c : Call) → Except Raised (Ans c) → Bool
  | .rejectReady repository delivery _, .ok true => held || (lower repository, delivery) = key
  | .finish repository delivery .rejected _, .ok _ => held || (lower repository, delivery) = key
  | .enqueue _, _ | .send _ _, _ => false
  | _, _ => held

/-- What a thread has learnt of the delivery. `sound` says that the rows it has read are as the
ledger keeps them. -/
structure Hand where
  held : Bool := false
  asked : Bool := false
  sound : Prop := True

namespace Parcel
variable (t : Parcel)

/-- A row that agrees with the delivery, if it is the delivery's. -/
def Matches (d : Delivery) : Prop :=
  d.key = t.key → d.sha = t.sha ∧ ∀ event, parsePushEvent (t.body d.fingerprint) = .ok event →
  event.after = t.sha

/-- A row as it is kept: under a lowered name. -/
def Kept (d : Delivery) : Prop := lower d.repository = d.repository ∧ t.Matches d

def sound (g : Hand) : (c : Call) → Except Raised (Ans c) → Prop
  | .getDelivery repository delivery, .ok (some d) => g.sound ∧ t.Kept d ∧
      d.key = (lower repository, delivery)
  | .register repository delivery _ _ _ _ _, .ok d => g.sound ∧ t.Kept d ∧
      d.key = (lower repository, delivery)
  | .pending, .ok rows => g.sound ∧ ∀ d ∈ rows, t.Kept d
  -- nothing in these can fail
  | .lockCapacity, .error _ | .unlockCapacity, .error _ | .dropReservation _ _, .error _ => False
  | _, _ => g.sound

def asked (g : Hand) : (c : Call) → Except Raised (Ans c) → Bool
  | .dispatch request, .ok _ => g.asked || request.delivery = some t.key
  | _, _ => g.asked

def note (g : Hand) (c : Call) (r : Except Raised (Ans c)) : Hand :=
  ⟨holds t.key g.held c r, t.asked g c r, t.sound g c r⟩

/-- What a thread may call: with the delivery in hand, no job but the delivery's, and no answer
unless the broker cannot queue at all. -/
def may (agentToken : Bool) (g : Hand) : Call → Prop
  | .register _ _ fingerprint _ _ _ sha => ∀ event, parsePushEvent (t.body fingerprint) = .ok
      event → event.after = sha
  | .finish repository delivery .accepted _ => g.sound → (lower repository, delivery) = t.key →
      g.asked = true
  | .enqueue request => g.sound → g.held = true →
      lower request.repository = t.key.1 ∧ request.sha = t.sha ∧ ∀ id ∈ request.delivery, id = t.key.2
  | .send _ _ => g.sound → g.held = true → agentToken = false
  | _ => True

def custody (agentToken : Bool) : Protocol Call Ans Raised Hand := ⟨t.may agentToken, t.note⟩

end Parcel

def Hand.Empty (g : Hand) : Prop := g.sound → g.held = false

section Quiet
variable {t : Parcel} {token : Bool} {g : Hand} {α : Type}

theorem mute_keeps {c : Call} (h : c.mute) :
    (t.custody token).may g c ∧ ∀ r, (t.custody token).note g c r = g := by
  cases c with
  | release _ | attributeHold _ _ _ _ => exact ⟨trivial, fun _ => rfl⟩
  | _ => exact h.elim

theorem follows_mute {s : Program α} {post : Hand → Except Raised α → Prop}
    (only : s.Only Call.mute) (h : ∀ r, post g r) :
    s.Follows (t.custody token) post g :=
  follows_of_only (fun _ free => mute_keeps free) only h

theorem note_sound (c : Call) (r : Except Raised (Ans c)) (h : (t.note g c r).sound) : g.sound := by
  simp only [Parcel.note, Parcel.sound] at h
  split at h
  · exact h.1
  · exact h.1
  · exact h.1
  · exact h.elim
  · exact h.elim
  · exact h.elim
  · exact h

/-- Nothing a thread has taken for granted is taken back. -/
theorem follows_sound {s : Program α} {post : Hand → Except Raised α → Prop}
    (h : s.Follows (t.custody token) post g) :
    s.Follows (t.custody token) (fun g' r => post g' r ∧ (g'.sound → g.sound)) g := by
  have grown : ∀ g₀ : Hand, (g₀.sound → g.sound) → s.Follows (t.custody token) post g₀ →
      s.Follows (t.custody token) (fun g' r => post g' r ∧ (g'.sound → g.sound)) g₀ := by
    clear h
    induction s with
    | done a => exact fun _ kept h => ⟨h, kept⟩
    | fail e => exact fun _ kept h => ⟨h, kept⟩
    | ask c next ih => exact fun g₀ kept h =>
        ⟨h.1, fun r => ih r _ (fun sound => kept (note_sound c r sound)) (h.2 r)⟩
  exact grown g id h

/-- With nothing in hand, what is outside the ledger is free. -/
theorem empties_unledgered {s : Program α} (only : s.Only Call.unledgered) (empty : g.Empty) :
    s.Follows (t.custody token) (fun g' _ => g'.Empty) g := by
  induction s generalizing g with
  | done a => exact empty
  | fail e => exact empty
  | ask c next ih =>
    have free : (t.custody token).may g c ∧ ∀ r, ((t.custody token).note g c r).Empty := by
      cases c with
      | getDelivery _ _ | register _ _ _ _ _ _ _ | claimDelivery _ _ | finish _ _ _ _ | rejectReady _ _ _ | pending =>
        exact only.1.elim
      | enqueue request =>
        exact ⟨fun sound held => absurd held (by rw [empty sound]; exact Bool.false_ne_true),
          fun r _ => rfl⟩
      | send status body =>
        exact ⟨fun sound held => absurd held (by rw [empty sound]; exact Bool.false_ne_true),
          fun r _ => rfl⟩
      | _ => exact ⟨trivial, fun r sound => empty (note_sound _ r sound)⟩
    exact ⟨free.1, fun r => ih r (only.2 r) (free.2 r)⟩

theorem empties_sideline {s : Program α} (only : s.Only Call.sideline) (empty : g.Empty) :
    s.Follows (t.custody token) (fun g' _ => g'.Empty) g :=
  empties_unledgered (off only) empty

theorem empties_aside {s : Program α} (only : s.Only Call.aside) (empty : g.Empty) :
    s.Follows (t.custody token) (fun g' _ => g'.Empty) g :=
  empties_sideline (only_mono only fun _ => And.left) empty

/-- Giving a runner back changes nothing in hand, and does not fail. -/
theorem follows_dropRunner (reservation : Option (String × Nat)) :
    (dropRunner reservation).Follows (t.custody token)
    (fun g' r => g'.sound → g' = g ∧ r = .ok ()) g := by
  unfold dropRunner
  split
  · exact fun _ => ⟨rfl, rfl⟩
  · refine follows_bind (follows_call trivial fun locked => ?_)
    cases locked with
    | error e => exact False.elim
    | ok _ =>
      refine follows_bind (follows_attempt (follows_call trivial fun dropped => ?_))
      refine follows_bind (follows_call trivial fun unlocked => ?_)
      cases unlocked with
      | error e => exact False.elim
      | ok _ =>
        cases dropped with
        | error e => exact follows_lift False.elim
        | ok _ => exact follows_lift fun _ => ⟨rfl, rfl⟩

end Quiet

/-- What an attempt leaves: the delivery in hand only if the attempt was its own, and it was refused. -/
def Offered (t : Parcel) (record : Delivery) (g : Hand) (r : Except Raised (Handled × String)) : Prop :=
  g.sound → g.held = true → record.key = t.key ∧ ∃ text, r = .ok (.state .rejected, text)

section Record
variable {t : Parcel} {token : Bool} {g : Hand} {record : Delivery}

theorem offered_empty {r : Except Raised (Handled × String)} (empty : g.Empty) : Offered t record g r :=
  fun sound held => absurd held (by rw [empty sound]; exact Bool.false_ne_true)

theorem offers_finishRecord {state : DeliveryState} {error : String} (empty : g.Empty)
    (kept : g.sound → t.Kept record)
    (paid : state = .accepted → g.sound → record.key = t.key → g.asked = true) :
    (finishRecord record state error).Follows (t.custody token)
      (fun g' r => Offered t record g' r ∧ (state ≠ .rejected → g'.Empty)) g := by
  have named : g.sound → (lower record.repository, record.delivery) = record.key := by
    intro sound
    rw [(kept sound).1]
    rfl
  have allowed : (t.custody token).may g (.finish record.repository record.delivery state error) := by
    cases state with
    | accepted => exact fun sound key => paid rfl sound ((named sound).symm.trans key)
    | _ => trivial
  refine follows_bind (follows_attempt (follows_call allowed fun r => ?_))
  cases r with
  | error e =>
    have still : (t.custody token).note g (.finish record.repository record.delivery state error)
        (.error e) = g := by
      cases state <;> rfl
    rw [still]
    simp only [before]
    split
    · exact ⟨offered_empty empty, fun _ => empty⟩
    · exact ⟨offered_empty empty, fun _ => empty⟩
    · exact ⟨offered_empty empty, fun _ => empty⟩
    · exact ⟨offered_empty empty, fun _ => empty⟩
  | ok _ =>
    cases state with
    | rejected =>
      refine ⟨fun sound held => ⟨?_, error, rfl⟩, fun other => absurd rfl other⟩
      have now : (g.held || decide ((lower record.repository, record.delivery) = t.key)) = true := held
      rw [empty sound, Bool.false_or, decide_eq_true_eq] at now
      exact (named sound).symm.trans now
    | _ => exact ⟨offered_empty empty, fun _ => empty⟩

theorem offers_recordOutcome {ledger : Bool} {reservation : Option Nat}
    {outcome : Except Raised Unit} (empty : g.Empty)
    (kept : g.sound → t.Kept record) (paid : outcome = .ok () → g.sound → record.key = t.key →
    g.asked = true) :
    (recordOutcome record ledger reservation outcome).Follows (t.custody token) (Offered t record) g := by
  unfold recordOutcome
  split
  · refine follows_bind (follows_mute (only_releaseIf (fun _ h => h) _ _ _) fun r => ?_)
    cases r with
    | error e => exact offered_empty empty
    | ok _ =>
      refine follows_mono (offers_finishRecord empty kept fun same => ?_) fun _ _ => And.left
      split at same
      · cases same
      · cases same
  · have unclear : DeliveryState.uncertain ≠ .rejected := by decide
    refine follows_bind (follows_mono (offers_finishRecord empty kept ?_) fun g' r finished => ?_)
    · rintro ⟨⟩
    · cases r with
      | error e => exact finished.1
      | ok handled =>
        refine follows_bind (follows_mute (only_releaseIf (fun _ h => h) _ _ _) fun r => ?_)
        cases r with
        | error e => exact offered_empty (finished.2 unclear)
        | ok _ => exact offered_empty (finished.2 unclear)
  · refine follows_bind (follows_mute (only_nameHold (fun _ h => h) _ _ _ _ _) fun r => ?_)
    cases r with
    | error e => exact offered_empty empty
    | ok _ => exact follows_mono (offers_finishRecord empty kept fun _ => paid rfl) fun _ _ => And.left

/-- `dispatch_record` leaves the delivery in hand where it says that it was refused, and nowhere else. -/
theorem offers_dispatchRecord {ledger : Bool} {reservation : Option Nat} (empty : g.Empty)
    (kept : g.sound → t.Kept record) :
    (dispatchRecord record ledger reservation).Follows (t.custody token) (Offered t record) g := by
  refine follows_bind (follows_call trivial fun claimed => ?_)
  have still : (t.custody token).note g (.claimDelivery record.repository record.delivery)
      claimed = g := by
    cases claimed <;> rfl
  rw [still]
  cases claimed with
  | error e => exact offered_empty empty
  | ok won =>
    cases won with
    | true =>
      refine follows_bind (follows_attempt (follows_call trivial fun outcome => ?_))
      refine offers_recordOutcome ?_ ?_ fun done _ key => ?_
      · cases outcome <;> exact empty
      · cases outcome <;> exact kept
      · rw [done]
        show (g.asked || decide ((requestOf record).delivery = some t.key)) = true
        rw [requestOf, key, decide_eq_true rfl, Bool.or_true]
    | false =>
      refine follows_bind (follows_mute (only_releaseReservation (fun _ h => h) _ _) fun r => ?_)
      cases r with
      | error e => exact offered_empty empty
      | ok _ =>
        refine follows_bind (follows_call trivial fun current => ?_)
        have heldnot : ((t.custody token).note g (.getDelivery record.repository record.delivery)
            current).Empty := by
          intro sound
          exact empty (note_sound _ _ sound)
        cases current with
        | error e => exact offered_empty heldnot
        | ok found =>
          simp only [before]
          split
          · exact offered_empty heldnot
          · split
            · exact offered_empty heldnot
            · exact offered_empty heldnot

end Record

/-- Nothing is in hand where the script stops. -/
abbrev Empties {α : Type} (t : Parcel) (token : Bool) (s : Program α) (g : Hand) : Prop :=
  s.Follows (t.custody token) (fun g' _ => g'.Empty) g

section Replay
variable {t : Parcel} {token : Bool} {g : Hand} {server : Server} {record : Delivery}

theorem empties_bind {α β : Type} {s : Program α} {f : α → Program β} (first : Empties t token s g)
    (next : ∀ a g', g'.Empty → (g'.sound → g.sound) → Empties t token (f a) g') :
    Empties t token (s.bind f) g := by
  refine follows_bind (follows_mono (follows_sound first) fun g' r settled => ?_)
  cases r with
  | ok a => exact next a g' settled.1 settled.2
  | error e => exact settled.1

theorem empties_attempt {α β : Type} {s : Program α} {f : Except Raised α → Program β}
    (first : Empties t token s g)
    (next : ∀ r g', g'.Empty → (g'.sound → g.sound) → Empties t token (f r) g') :
    Empties t token (s.attempt.bind f) g :=
  empties_bind (follows_attempt first) next

variable (serves : server.policy.permitsDevice t.key.1 = true) (db : server.jobsDb = true)
    (commit : t.sha ≠ "")
include serves db commit

theorem empties_handOff (kept : g.sound → t.Kept record)
    (mine : g.sound → g.held = true → record.key = t.key) :
    Empties t token (handOff server record) g := by
  by_cases empty : g.Empty
  · exact empties_unledgered (only_handOff trivial) empty
  · obtain ⟨sound, held⟩ := not_forall.mp empty
    have key := mine sound (by simpa using held)
    obtain ⟨lowered, sha, _⟩ := And.imp_right (fun matches_ => matches_ key) (kept sound)
    have repository : record.repository = t.key.1 := congrArg Prod.fst key
    unfold handOff
    rw [repository, serves, db, sha]
    simp only [Bool.not_true, Bool.false_eq_true, if_false, if_neg commit]
    refine follows_bind (follows_call (fun _ _ => ⟨?_, rfl, ?_⟩) fun r => ?_)
    · rw [← repository, lowered]
    · rintro id ⟨⟩
    · cases r with
      | error e => exact fun _ => rfl
      | ok _ => exact fun _ => rfl

theorem empties_rejectAndHandOff (empty : g.Empty) (kept : g.sound → t.Kept record) (reason : String) :
    Empties t token (rejectAndHandOff server record reason) g := by
  refine follows_bind (follows_call trivial fun rejected => ?_)
  cases rejected with
  | error e => exact empty
  | ok rejected =>
    cases rejected with
    | false => exact empty
    | true =>
      refine empties_handOff serves db commit kept fun sound held => ?_
      have now : (g.held || decide ((lower record.repository, record.delivery) = t.key)) = true := held
      rw [empty sound, Bool.false_or, decide_eq_true_eq, (kept sound).1] at now
      exact now

theorem empties_replayHold (empty : g.Empty) (kept : g.sound → t.Kept record) :
    Empties t token (replayHold server record) g := by
  have refused (reason : String) : Empties t token (do rejectAndHandOff server record reason; pure none :
      Program (Option (Option Nat))) g :=
    empties_bind (empties_rejectAndHandOff serves db commit empty kept reason) fun _ _ empty _ => empty
  unfold replayHold
  split
  · exact refused _
  · refine empties_bind (empties_sideline (only_call trivial) empty) fun found g' empty' sound => ?_
    split
    · exact empties_bind (empties_sideline (only_reserveFor _ _) empty') fun _ _ empty _ => empty
    · exact empties_bind (empties_rejectAndHandOff serves db commit empty' (fun s => kept (sound s))
        _) fun _ _ empty _ => empty

theorem empties_replayRecord (empty : g.Empty) (kept : g.sound → t.Kept record) :
    Empties t token (replayRecord server record) g := by
  refine empties_attempt (empties_replayHold serves db commit empty kept) fun begun g' empty' sound => ?_
  split
  · exact empty'
  · exact empty'
  · refine empties_attempt ?_ fun outcome g'' empty'' _ => ?_
    · refine follows_bind
        (follows_mono (follows_sound (offers_dispatchRecord empty' fun s => kept (sound s))) ?_)
      rintro g₂ r ⟨offered, sound'⟩
      cases r with
      | error e =>
        intro s
        by_contra held
        obtain ⟨-, text, same⟩ := offered s (by simpa using held)
        cases same
      | ok handled =>
        obtain ⟨handled, error⟩ := handled
        simp only [before]
        split
        · exact empties_handOff serves db commit (fun s => kept (sound (sound' s))) fun s held =>
            (offered s held).1
        · rename_i settled
          intro s
          by_contra held
          obtain ⟨-, text, same⟩ := offered s (by simpa using held)
          obtain ⟨rfl, -⟩ := Prod.mk.inj (Except.ok.inj same)
          exact settled rfl
    · split
      · exact empty''
      · exact empties_aside (only_releaseReservation mute_aside _ _) empty''

theorem empties_recoverReady (empty : g.Empty) : Empties t token (recoverReady server) g := by
  unfold recoverReady
  split
  · exact empty
  · refine follows_bind (follows_call trivial fun pending => ?_)
    cases pending with
    | error e => exact empty
    | ok records =>
      refine follows_forEach (I := fun g' => g'.Empty ∧ (g'.sound → ∀ d ∈ records, t.Kept d)) ?_
        (fun _ _ h => h.1) ?_
      · rintro record member g' ⟨empty', kept⟩
        refine follows_mono (follows_sound (empties_replayRecord serves db commit empty' fun s =>
          kept s record member)) ?_
        exact fun g'' _ settled => ⟨settled.1, fun s => kept (settled.2 s)⟩
      · exact ⟨fun s => empty s.1, And.right⟩

end Replay

section Webhook
variable {t : Parcel} {server : Server} {g : Hand} {event : PushEvent} {delivery : String}

/-- What a thread may have in hand is the push it serves. -/
def Mine (t : Parcel) (event : PushEvent) (delivery : String) (g : Hand) : Prop :=
  g.sound → g.held = true → (lower event.repository, delivery) = t.key ∧ event.after = t.sha

/-- The device lane a push was given empties the hand, and the delivery that is followed was given one. -/
structure Backed (t : Parcel) (server : Server) (event : PushEvent) (delivery : String)
    (fallback : Option (Program Unit)) : Prop where
  spare : ∀ enqueue ∈ fallback, ∀ g, Mine t event delivery g → Empties t server.agentToken enqueue g
  offered : (lower event.repository, delivery) = t.key →
    server.policy.permitsDevice event.repository = true ∧ fallback.isSome = true

theorem mine_empty (empty : g.Empty) : Mine t event delivery g :=
  fun sound held => absurd held (by rw [empty sound]; exact Bool.false_ne_true)

theorem empties_enqueueDirect {header : Option String} (fingerprint : String)
    (db : server.jobsDb = true ∨ g.Empty)
    (mine : Mine t event (deliveryId header fingerprint) g) :
    Empties t server.agentToken (enqueueDirect server header event.repository event.after
    event.branch none []) g := by
  unfold enqueueDirect
  split
  · rename_i missing
    refine follows_call (fun _ _ => by simpa using missing) fun r => ?_
    exact fun _ => rfl
  · split
    · rename_i missing
      refine db.resolve_left fun present => ?_
      rw [present] at missing
      cases missing
    · refine follows_bind (follows_call (fun sound held => ?_) fun r => ?_)
      · obtain ⟨key, after⟩ := mine sound held
        refine ⟨congrArg Prod.fst key, after, fun id member => ?_⟩
        obtain ⟨header', rfl, given⟩ := Option.bind_eq_some_iff.mp (Option.mem_def.mp member)
        split at given
        · cases given
        · rename_i nonempty
          obtain rfl := Option.some.inj given
          rw [← congrArg Prod.snd key, deliveryId, Option.getD_some, if_neg nonempty]
      · have empty : ((t.custody server.agentToken).note g (.enqueue
            (directJob server header event.repository event.after event.branch none)) r).Empty :=
            fun _ => rfl
        cases r with
        | error e => exact empty
        | ok job =>
          refine empties_bind (empties_sideline ?_ empty) fun _ g' empty' _ => ?_
          · unfold publishQuietly
            split
            · exact only_call trivial
            · trivial
          · exact empties_bind (empties_aside (only_postIf _ _ _ _ _) empty') fun _ g'' empty'' _ =>
              empties_aside (only_send _ _) empty''

theorem empties_giveBack (empty : g.Empty) (decision : RouteDecision)
    (reservation : Option (String × Nat)) {status : Nat}
    {text : String} : Empties t server.agentToken
    (do giveBack server decision reservation; sendError status text) g :=
  empties_bind (empties_sideline (only_bind (only_dropRunner _) fun _ =>
    only_mono (only_releaseReservation mute_aside _ _) fun _ => And.left) empty) fun _ _ empty _ =>
      empties_aside (only_sendError _ _) empty

variable {fallback : Option (Program Unit)} (backed : Backed t server event delivery fallback)
include backed

theorem empties_adapterAbsent (mine : Mine t event delivery g) (workflow reason : String) :
    Empties t server.agentToken (adapterAbsent server event workflow reason fallback) g := by
  unfold adapterAbsent
  simp only
  split
  · rename_i enqueue chosen
    split at chosen
    · exact backed.spare enqueue chosen g mine
    · cases chosen
  · rename_i missing
    have empty : g.Empty := by
      intro sound
      by_contra held
      obtain ⟨permits, given⟩ := backed.offered (mine sound (by simpa using held)).1
      rw [permits, if_pos rfl] at missing
      rw [missing] at given
      cases given
    exact empties_bind (empties_aside (only_postIf _ _ _ _ _) empty) fun _ g' empty' _ =>
      empties_aside (only_send _ _) empty'

theorem empties_checkAdapter {existing : Delivery} (empty : g.Empty)
    (agrees : g.sound → (lower event.repository, delivery) = t.key → event.after = t.sha) :
    Empties t server.agentToken (checkAdapter server event existing delivery fallback) g := by
  refine empties_bind (empties_sideline (only_call trivial) empty) fun found g' empty' sound => ?_
  split
  · exact empty'
  · refine follows_bind (follows_call trivial fun rejected => ?_)
    cases rejected with
    | error e => exact empty'
    | ok rejected =>
      cases rejected with
      | false => exact empty'
      | true =>
        refine empties_bind (empties_adapterAbsent backed (fun s held => ?_) _ _) fun _ _ empty _ => empty
        have now : (g'.held || decide ((lower event.repository, delivery) = t.key)) = true := held
        rw [empty' s, Bool.false_or, decide_eq_true_eq] at now
        exact ⟨now, agrees (sound s) now⟩

omit backed in
theorem offered_mine {record : Delivery} {r : Except Raised (Handled × String)}
    (offered : Offered t record g r)
    (own : g.sound → record.key = (lower event.repository, delivery))
    (agrees : g.sound → (lower event.repository, delivery) = t.key → event.after = t.sha) :
    Mine t event delivery g := by
  intro sound held
  have key := (own sound).symm.trans (offered sound held).1
  exact ⟨key, agrees sound key⟩

/-- An attempt that the device lane does not take over leaves nothing in hand. -/
theorem offered_left {record : Delivery} {handled : Handled} {error : String}
    (offered : Offered t record g (.ok (handled, error)))
    (own : g.sound → record.key = (lower event.repository, delivery))
    (missing : shouldFallback handled = true → server.policy.permitsDevice event.repository = true →
    fallback = none) :
    g.Empty := by
  intro sound
  by_contra held
  obtain ⟨key, text, same⟩ := offered sound (by simpa using held)
  obtain ⟨rfl, -⟩ := Prod.mk.inj (Except.ok.inj same)
  obtain ⟨permitted, given⟩ := backed.offered ((own sound).symm.trans key)
  rw [missing rfl permitted] at given
  cases given

theorem empties_dispatchExisting {existing : Delivery} (empty : g.Empty)
    (known : g.sound → t.Kept existing ∧ existing.key = (lower event.repository, delivery))
    (agrees : g.sound → (lower event.repository, delivery) = t.key → event.after = t.sha) :
    Empties t server.agentToken (dispatchExisting server event existing delivery fallback) g := by
  refine empties_bind (empties_sideline (only_reserveFor _ _) empty)
    fun ⟨hold, refusal⟩ g' empty' sound => ?_
  simp only
  split
  · exact empties_aside (only_send _ _) empty'
  · refine follows_bind (follows_attempt (follows_mono (follows_sound (offers_dispatchRecord empty'
      fun s => (known (sound s)).1)) ?_))
    rintro g₂ r ⟨offered, sound'⟩
    have own : g₂.sound → existing.key = (lower event.repository, delivery) :=
      fun s => (known (sound (sound' s))).2
    simp only [before]
    split
    · have none_held : g₂.Empty := by
        intro s
        by_contra held
        obtain ⟨-, text, same⟩ := offered s (by simpa using held)
        cases same
      exact empties_bind (empties_aside (only_releaseReservation mute_aside _ _) none_held)
          fun _ _ empty _ =>
        empties_aside (only_sendError _ _) empty
    · intro s
      by_contra held
      obtain ⟨-, text, same⟩ := offered s (by simpa using held)
      cases same
    · split
      · rename_i enqueue chosen
        split at chosen
        · exact backed.spare enqueue chosen _
            (offered_mine offered own fun s => agrees (sound (sound' s)))
        · cases chosen
      · rename_i missing
        refine empties_aside (only_send _ _) (offered_left backed offered own fun refused permitted => ?_)
        rwa [refused, permitted, Bool.and_true, if_pos rfl] at missing

theorem empties_redeliver {existing : Delivery} (empty : g.Empty)
    (known : g.sound → t.Kept existing ∧ existing.key = (lower event.repository, delivery))
    (agrees : g.sound → (lower event.repository, delivery) = t.key → event.after = t.sha) :
    Empties t server.agentToken (redeliver server event existing delivery fallback) g := by
  refine empties_attempt (empties_checkAdapter backed empty agrees) fun checked g' empty' sound => ?_
  split
  · exact empties_aside (only_sendError _ _) empty'
  · exact empties_aside (only_sendError _ _) empty'
  · exact empty'
  · exact empty'
  · exact empties_dispatchExisting backed empty' (fun s => known (sound s)) fun s => agrees (sound s)

theorem empties_answerPush {header : Option String} {branch : String} {decision : RouteDecision}
    {reservation : Option (String × Nat)} {record : Delivery} {handled : Handled × String}
    (offered : Offered t record g (.ok handled))
    (own : g.sound → record.key = (lower event.repository, delivery))
    (agrees : g.sound → (lower event.repository, delivery) = t.key → event.after = t.sha) :
    Empties t server.agentToken (answerPush server header event branch delivery fallback decision
    reservation record handled) g := by
  have settled (other : handled.1 ≠ .state .rejected) : g.Empty := by
    intro sound
    by_contra held
    obtain ⟨-, text, same⟩ := offered sound (by simpa using held)
    exact other (congrArg Prod.fst (Except.ok.inj same))
  unfold answerPush
  split
  · have empty := settled (by rintro ⟨⟩)
    refine empties_bind (empties_sideline (only_bind (only_dropRunner _) fun _ =>
      only_mono (only_releaseReservation mute_aside _ _) fun _ => And.left) empty)
        fun _ _ empty _ => empties_aside (only_send _ _) empty
  · have empty := settled (by rintro ⟨⟩)
    split
    · exact empties_bind (empties_sideline (only_dropRunner _) empty) fun _ _ empty _ =>
        empties_aside (only_send _ _) empty
    · exact empties_aside (only_send _ _) empty
  · refine follows_bind (follows_mono (follows_sound (follows_dropRunner _)) ?_)
    rintro g' r ⟨same, sound⟩
    cases r with
    | error e =>
      intro s
      cases (same s).2
    | ok _ =>
      have offered : Offered t record g' _ := fun s => by
        rw [(same s).1]
        exact offered (sound s)
      simp only [before]
      split
      · rename_i enqueue chosen
        split at chosen
        · exact backed.spare enqueue chosen _
            (offered_mine offered (fun s => own (sound s)) fun s => agrees (sound s))
        · cases chosen
      · rename_i missing
        refine empties_aside (only_send _ _)
          (offered_left backed offered (fun s => own (sound s)) fun refused _ => ?_)
        rwa [if_pos refused] at missing

theorem empties_registerPush {header : Option String} {fingerprint branch : String}
    (parsed : parsePushEvent (t.body fingerprint) = .ok event) (empty : g.Empty)
    (decision : RouteDecision)
    (reservation : Option (String × Nat)) :
    Empties t server.agentToken (registerPush server header fingerprint event branch delivery
      fallback decision reservation)
      g := by
  have allowed : (t.custody server.agentToken).may g
      (.register event.repository delivery fingerprint server.workflowFile
      branch (pushInputs decision) event.after) := by
    intro event' same
    rw [parsed] at same
    rw [Except.ok.inj same]
  refine follows_bind (follows_attempt (follows_call allowed fun registered => ?_))
  simp only [before]
  split
  · exact empties_giveBack empty _ _
  · exact empty
  · rename_i record
    have empty₁ : ((t.custody server.agentToken).note g (.register event.repository delivery fingerprint
        server.workflowFile branch (pushInputs decision) event.after) (.ok record)).Empty :=
        fun s => empty s.1
    split
    · exact empties_giveBack empty₁ _ _
    · rename_i same
      rw [not_not] at same
      refine follows_bind (follows_attempt
        (follows_mono (follows_sound (offers_dispatchRecord empty₁ fun s => s.2.1)) ?_))
      rintro g' r ⟨offered, sound⟩
      have settled (failed : ∀ handled, r ≠ .ok handled) : g'.Empty := by
        intro s
        by_contra held
        obtain ⟨-, text, done⟩ := offered s (by simpa using held)
        exact failed _ done
      simp only [before]
      split
      · exact empties_giveBack (settled (by rintro _ ⟨⟩)) _ _
      · exact settled (by rintro _ ⟨⟩)
      · refine empties_answerPush backed offered (fun s => (sound s).2.2) fun s key => ?_
        exact ((sound s).2.1.2 ((sound s).2.2.trans key)).2 event (by rw [same, parsed])

theorem empties_firstDelivery {header : Option String} {fingerprint branch : String}
    (parsed : parsePushEvent (t.body fingerprint) = .ok event) (empty : g.Empty) :
    Empties t server.agentToken (firstDelivery server header fingerprint event branch delivery
    fallback) g := by
  unfold firstDelivery
  split
  · exact empties_aside (only_sendError _ _) empty
  · have decides : Empties t server.agentToken (decidePush server event fallback) g := by
      refine empties_bind (empties_sideline (only_call trivial) empty) fun found g' empty' _ => ?_
      split
      · exact empties_bind (empties_sideline (only_dispatchDecision _ _ _ _) empty')
          fun _ _ empty _ => empty
      · exact empties_bind (empties_adapterAbsent backed (mine_empty empty') _ _) fun _ _ empty _ => empty
    refine empties_attempt decides fun decided g' empty' _ => ?_
    split
    · exact empties_aside (only_sendError _ _) empty'
    · exact empties_aside (only_sendError _ _) empty'
    · exact empty'
    · exact empty'
    · exact empties_registerPush backed parsed empty' _ _

omit backed in
theorem empties_dispatchPush {header : Option String} {fingerprint branch : String}
    (parsed : parsePushEvent (t.body fingerprint) = .ok event)
    (backed : server.jobsDb = true → Backed t server event (deliveryId header fingerprint) fallback)
    (empty : g.Empty) :
    Empties t server.agentToken (dispatchPush server header fingerprint event branch fallback) g := by
  unfold dispatchPush
  split
  · exact empties_aside (only_sendError _ _) empty
  · rename_i db
    have backed := backed (by simpa using db)
    split
    · exact empties_aside (only_sendError _ _) empty
    · refine follows_bind (follows_attempt (follows_call trivial fun known => ?_))
      have empty' : ((t.custody server.agentToken).note g
          (.getDelivery event.repository (deliveryId header fingerprint)) known).Empty :=
        fun s => empty (note_sound _ _ s)
      simp only [before]
      unfold answerLookup
      split
      · exact empties_aside (only_sendError _ _) empty'
      · exact empty'
      · rename_i existing
        unfold answerKnown
        simp only
        split
        · exact empties_firstDelivery backed parsed empty'
        · rename_i record
          split
          · exact empties_aside (only_sendError _ _) empty'
          · rename_i same
            rw [not_not] at same
            split
            · exact empties_redeliver backed empty' And.right fun s key =>
                (s.2.1.2 (s.2.2.trans key)).2 event (by rw [same, parsed])
            · split
              · exact empties_aside (only_send _ _) empty'
              · exact empties_firstDelivery backed parsed empty'

end Webhook

theorem permitsDevice_lower (p : Policy) (repository : String) :
    p.permitsDevice (lower repository) = p.permitsDevice repository := by
  simp only [Policy.permitsDevice, Policy.targetFor, lower_lower]

/-- A push has a lane to fall back to exactly where a device may take it. -/
theorem permits_lane (p : Policy) (repository : String) (permits : p.permitsDevice repository = true) :
    p.pushLane repository ≠ none := by
  unfold Policy.permitsDevice at permits
  unfold Policy.pushLane
  cases named : p.targetFor repository with
  | none =>
    rw [named] at permits
    cases permits
  | some target =>
    rw [named] at permits
    have executes : target.executesOnDevice = true := permits
    simp only [executes, Bool.not_true, Bool.false_eq_true, if_false]
    split
    · exact Option.some_ne_none _
    · exact Option.some_ne_none _

section Start
variable {t : Parcel} {server : Server} {g : Hand} (serves : server.policy.permitsDevice t.key.1 = true)
include serves

theorem empties_handlePush {header : Option String} {fingerprint : String} {event : PushEvent}
    (parsed : parsePushEvent (t.body fingerprint) = .ok event) (empty : g.Empty) :
    Empties t server.agentToken (handlePush server header fingerprint event) g := by
  have permits (key : (lower event.repository, deliveryId header fingerprint) = t.key) :
      server.policy.permitsDevice event.repository = true := by
    have named : lower event.repository = t.key.1 := congrArg Prod.fst key
    rw [← permitsDevice_lower, named, serves]
  unfold handlePush
  simp only
  split
  · exact empties_enqueueDirect fingerprint (Or.inr empty) (mine_empty empty)
  · refine empties_dispatchPush parsed (fun db => ⟨?_, fun key => ⟨permits key, rfl⟩⟩) empty
    rintro enqueue member g' mine
    obtain rfl := Option.some.inj member
    exact empties_enqueueDirect fingerprint (Or.inl db) mine
  · rename_i lane
    refine empties_dispatchPush parsed (fun db => ⟨?_, fun key => ?_⟩) empty
    · rintro enqueue ⟨⟩
    · rw [if_pos db] at lane
      exact absurd lane (permits_lane _ _ (permits key))

theorem empties_webhook {request : WebhookRequest}
    (genuine : request.payload = t.body request.fingerprint) (empty : g.Empty) :
    Empties t server.agentToken (webhook server request) g := by
  unfold webhook
  split
  · exact empties_aside (only_sendError _ _) empty
  · split
    · exact empties_aside (only_sendError _ _) empty
    · split
      · exact empties_aside (only_sendError _ _) empty
      · split
        · exact empties_unledgered (only_pullRequestWebhook _ _) empty
        · split
          · unfold pushWebhook
            rw [genuine]
            split
            · exact empties_aside (only_sendError _ _) empty
            · rename_i event parsed
              split
              · exact empties_aside (only_sendError _ _) empty
              · split
                · exact empties_aside (only_send _ _) empty
                · split
                  · exact empties_aside (only_send _ _) empty
                  · exact empties_handlePush serves parsed empty
          · exact empties_aside (only_send _ _) empty

end Start

namespace Site

theorem empties_started {t : Parcel} {server : Server} {g : Hand} {program : Program Unit}
    (serves : server.policy.permitsDevice t.key.1 = true) (commit : t.sha ≠ "")
    (h : (∃ request, program = Dispatch.webhook server request ∧
      request.payload = t.body request.fingerprint) ∨
      (∃ request, program = dispatchEndpoint server request) ∨
      (program = recoverReady server ∧ server.jobsDb = true))
    (empty : g.Empty) : Empties t server.agentToken program g := by
  rcases h with ⟨request, rfl, genuine⟩ | ⟨request, rfl⟩ | ⟨rfl, db⟩
  · exact empties_webhook serves genuine empty
  · exact empties_unledgered (only_dispatchEndpoint request) empty
  · exact empties_recoverReady serves db commit empty

end Site
end Cindral.Dispatch

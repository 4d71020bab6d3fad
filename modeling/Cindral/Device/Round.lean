import Cindral.Device.Loop

/-!
# What a round of a slot keeps to

Whatever the broker, the executor and the files answer, a slot runs only what the broker handed it,
says of a run what its executor said, once and while it may think the run its own, and leaves no
archive and no heartbeat behind.
-/

namespace Cindral.Device
open Base Script
open Agent (Conversions)
open Workflow (JobSpec)

/-- What a slot has learnt and done since it last looked whether to stop. -/
structure Round where
  /-- The claim that is out. -/
  ticket : Option Nat := none
  spec : Option JobSpec := none
  ran : Option (Except Failure Executed) := none
  beating : Bool := false
  /-- The archive the run left and nobody has tried to remove. -/
  archive : String := ""
  lost : Bool := false
  verdicts : Nat := 0
  /-- An event or a counter failed to answer, which they do not. -/
  broken : Bool := false

def Call.infallible : Call → Bool
  | .behindNote | .setBehindNote _ | .stopHeartbeat _ | .lost _ | .stopping | .wait | .post _ => true
  | _ => false

/-- What a slot has done once a message is out. -/
def Round.sent (g : Round) (m : Message) (ticket : Nat) : Round :=
  match m with
  | .claim .. => { g with ticket := some ticket, spec := none }
  | .report .. | .reportLost .. => { g with verdicts := g.verdicts + 1 }
  | _ => g

def Round.record (py : Conversions) (g : Round) : (c : Call) → Except Failure (Reads c) → Round
  | .stopping, .ok _ => { broken := g.broken }
  | .await _, .ok answer =>
    match claimed py answer.2 with
    | .ok (some spec) => if g.ran.isNone then { g with spec := some spec } else g
    | _ => g
  | .startHeartbeat _, .ok _ => { g with beating := true }
  | .stopHeartbeat _, .ok _ => { g with beating := false }
  | .execute _ _, r => { g with ran := some r, archive := (outcome r).1.artifacts }
  | .lost _, .ok true => { g with lost := true }
  | .unlink archive, _ => if archive = g.archive then { g with archive := "" } else g
  | .post m, .ok ticket => g.sent m ticket
  | c, .error _ => if c.infallible then { g with broken := true } else g
  | _, .ok _ => g

/-- The slot holds a run of its own that nobody has been told about. -/
structure Round.Holds (g : Round) (spec : JobSpec) (result : Except Failure Executed) : Prop where
  spec : g.spec = some spec
  ran : g.ran = some result
  beating : g.beating = true
  lost : g.lost = false
  verdicts : g.verdicts = 0

def Round.sends (agent : PullAgent) (g : Round) : Message → Prop
  | .claim device labels leaseSeconds =>
    device = agent.device ∧ labels = agent.labels ∧ leaseSeconds = agent.leaseSeconds ∧
      g.beating = false ∧ g.archive = "" ∧ g.ran = none
  | .report jobId device exitCode log steps =>
    ∃ spec executed, g.Holds spec (.ok executed) ∧ g.archive = "" ∧ jobId = spec.id ∧
      device = agent.device ∧
      exitCode = executed.run.exitCode ∧ log = executed.run.log ∧ steps = executed.run.steps
  | .reportLost jobId device error log steps =>
    ∃ spec e, g.Holds spec (.error e) ∧ g.archive = "" ∧ jobId = spec.id ∧ device = agent.device ∧
      error = deviceError e ∧ log = "" ∧ steps = []
  | .upload jobId device _ =>
    ∃ spec executed, g.Holds spec (.ok executed) ∧ jobId = spec.id ∧ device = agent.device
  | .renew .. | .heartbeat .. => False

/-- What a slot of an agent may do. -/
def careful (py : Conversions) (agent : PullAgent) : Protocol Call Reads Failure Round where
  may g c := g.broken = true ∨ match c with
    | .post m => g.sends agent m
    | .await ticket => g.ran = none → g.ticket = some ticket
    | .execute device spec => device = agent.device ∧ g.spec = some spec ∧ g.beating = true ∧ g.ran = none
    | .stopping => g.beating = false ∧ g.archive = ""
    | _ => True
  note := Round.record py

def Round.Idle (g : Round) : Prop := g.broken = true ∨ g.beating = false ∧ g.archive = ""

/-! ## The device's own error -/

theorem mem_intersperse {α : Type} {a sep : α} {items : List α} (member : a ∈ items) :
    a ∈ items.intersperse sep := by
  induction items with
  | nil => cases member
  | cons x rest ih =>
    cases rest with
    | nil => exact member
    | cons y rest =>
      rw [List.intersperse_cons_cons]
      rcases List.mem_cons.mp member with rfl | later
      · exact List.mem_cons_self
      · exact List.mem_cons_of_mem _ (List.mem_cons_of_mem _ (ih later))

/-- An executor that raised has something to say. -/
theorem deviceError_ne (e : Failure) : deviceError e ≠ "" := by
  have colon : ':' ∈ (s!"{e.typeName}: {e.text}").toList := by
    have spelled : s!"{e.typeName}: {e.text}" = e.typeName ++ ": " ++ e.text := rfl
    rw [spelled, String.toList_append, String.toList_append]
    simp
  obtain ⟨piece, inside, there⟩ := mem_splitOnP colon (by decide : isSpace ':' = false)
  have kept : piece ∈ ((s!"{e.typeName}: {e.text}").toList.splitOnP isSpace).filter (· ≠ []) := by
    refine List.mem_filter.mpr ⟨inside, ?_⟩
    simpa using List.ne_nil_of_mem there
  have said : ':' ∈ (oneLine s!"{e.typeName}: {e.text}").toList := by
    rw [oneLine, String.toList_ofList]
    exact List.mem_flatten.mpr ⟨piece, mem_intersperse kept, there⟩
  intro empty
  have short : (oneLine s!"{e.typeName}: {e.text}").toList.take Queue.maxErrorChars = [] :=
    (String.toList_ofList (l := _)).symm.trans (congrArg String.toList empty)
  rw [List.take_eq_nil_iff] at short
  rcases short with zero | none
  · exact absurd zero (by decide)
  · rw [none] at said
    cases said

/-! ## The parts of a round -/

section Parts
variable {py : Conversions} {agent : PullAgent} {g : Round} {spec : JobSpec}
    {result : Except Failure Executed}

theorem record_broken (c : Call) (r : Except Failure (Reads c)) (broken : g.broken = true) :
    (g.record py c r).broken = true := by
  unfold Round.record
  split
  · exact broken
  · split
    · split <;> exact broken
    · exact broken
  · exact broken
  · exact broken
  · exact broken
  · exact broken
  · split <;> exact broken
  · unfold Round.sent
    split <;> exact broken
  · split
    · rfl
    · exact broken
  · exact broken

/-- Once a part of the interpreter has failed nothing is promised. -/
theorem careful_voided : Voided (careful py agent) fun g => g.broken = true :=
  ⟨fun _ _ => Or.inl, fun _ c r => record_broken c r⟩

theorem follows_broken {α : Type} (s : Slot α) (broken : g.broken = true) :
    s.Follows (careful py agent) (fun g _ => g.broken = true) g := follows_void careful_voided s broken

theorem record_await (ran : g.ran = some result) (ticket : Nat)
    (r : Except Failure (Nat × List (String × Json))) :
    g.record py (.await ticket) r = g := by
  cases r with
  | error e => rfl
  | ok answer =>
    simp only [Round.record, ran]
    split <;> rfl

theorem record_unlink (archive : String) (r : Except Failure Unit) :
    g.record py (.unlink archive) r = if archive = g.archive then { g with archive := "" } else g := by
  cases r <;> rfl

theorem sent_ran (m : Message) (ticket : Nat) : (g.sent m ticket).ran = g.ran := by
  cases m <;> rfl

theorem request_follows {m : Message} {post : Round → Except Failure (Nat × List (String × Json)) → Prop}
    (may : g.sends agent m) (ran : g.ran = some result) (after : ∀ ticket r, post (g.sent m ticket) r)
    (broken : ∀ g r, g.broken = true → post g r) : (request m).Follows (careful py agent) post g := by
  apply follows_seq
  apply follows_call (Or.inr may)
  intro r
  cases r with
  | error e => exact broken _ _ rfl
  | ok ticket =>
    have still : (g.sent m ticket).ran = some result := (sent_ran m ticket).trans ran
    have past : (g.sent m ticket).ran = none → (g.sent m ticket).ticket = some ticket := by
      rw [still]
      exact nofun
    apply follows_call (Or.inr past)
    intro r
    change post ((g.sent m ticket).record py (.await ticket) r) r
    rw [record_await still]
    exact after ticket r

/-- A run that is settled leaves no archive, and was told or taken away. -/
def Round.Told (g : Round) (r : Except Failure Bool) : Prop :=
  g.broken = true ∨ g.archive = "" ∧ ∀ b, r = .ok b → b = true ∧ (g.verdicts = 1 ∨ g.lost = true)

theorem told_error {e : Failure} (clean : g.archive = "") : g.Told (.error e) :=
  Or.inr ⟨clean, fun _ ok => nomatch ok⟩

theorem reportRun_follows (holds : g.Holds spec result) (clean : g.archive = "") :
    (reportRun agent spec (outcome result).1 (outcome result).2).Follows (careful py agent)
    Round.Told g := by
  have told (m : Message) (counted : ∀ ticket, g.sent m ticket = { g with verdicts := g.verdicts + 1 })
      (may : g.sends agent m) : ((request m).bind fun _ => .done true : Slot Bool).Follows
      (careful py agent) Round.Told g := by
    apply follows_seq
    apply request_follows may holds.ran
    · intro ticket r
      rw [counted]
      cases r with
      | error e => exact told_error clean
      | ok answer =>
        refine Or.inr ⟨clean, fun b ok => ⟨(Except.ok.inj ok).symm, Or.inl ?_⟩⟩
        change g.verdicts + 1 = 1
        rw [holds.verdicts]
    · intro g r broken
      cases r with
      | error e => exact Or.inl broken
      | ok answer => exact Or.inl broken
  unfold reportRun
  cases result with
  | error e =>
    rw [if_pos (show (outcome (.error e)).2 ≠ "" from deviceError_ne e)]
    apply follows_seq
    apply follows_call (Or.inr trivial)
    intro r
    cases r with
    | error e => exact told_error clean
    | ok _ => exact told _ (fun _ => rfl) ⟨spec, e, holds, clean, rfl, rfl, rfl, rfl, rfl⟩
  | ok executed =>
    rw [if_neg (show ¬(outcome (.ok executed)).2 ≠ "" from not_not.mpr rfl)]
    exact told _ (fun _ => rfl) ⟨spec, executed, holds, clean, rfl, rfl, rfl, rfl, rfl⟩

/-- However it ends, an archive that was to go is gone, or was tried. -/
theorem discardArchive_follows {archive : String} (left : g.archive = archive) :
    (discardArchive archive).Follows (careful py agent)
    (fun g' _ => g' = { g with archive := "" }) g := by
  have gone (r : Except Failure Unit) : g.record py (.unlink archive) r = { g with archive := "" } := by
    rw [record_unlink, if_pos left.symm]
  apply follows_catch
  apply follows_call (Or.inr trivial)
  intro r
  change Follows _ _ _ (g.record py (.unlink archive) r)
  rw [gone]
  cases r with
  | ok _ => rfl
  | error e =>
    cases e <;> rfl

theorem uploadArtifacts_follows {executed : Executed} (holds : g.Holds spec (.ok executed))
    (archive : String) :
    (uploadArtifacts spec.id agent.device archive).Follows (careful py agent)
    (fun g' _ => g'.broken = true ∨ g' = g) g := by
  apply follows_seq
  apply follows_call (Or.inr trivial)
  intro r
  cases r with
  | error e => exact Or.inr rfl
  | ok length =>
    dsimp only
    split
    · exact Or.inr rfl
    apply follows_seq
    apply follows_call (Or.inr trivial)
    intro r
    cases r with
    | error e => exact Or.inr rfl
    | ok body =>
      have may : g.sends agent (.upload spec.id agent.device body) := ⟨spec, executed, holds, rfl, rfl⟩
      apply follows_catch
      apply request_follows may holds.ran
      · intro ticket r
        cases r with
        | error e => cases e <;> exact Or.inr rfl
        | ok answer =>
          dsimp only
          split <;> exact Or.inr rfl
      · intro g r broken
        cases r with
        | error e => cases e <;> exact Or.inl broken
        | ok answer =>
          dsimp only
          split <;> exact Or.inl broken

theorem uploadArchive_follows {executed : Executed} (holds : g.Holds spec (.ok executed))
    {archive : String} (left : g.archive = archive) :
    (uploadArchive agent.device spec.id archive).Follows (careful py agent)
      (fun g' _ => g'.broken = true ∨ g' = { g with archive := "" }) g := by
  have cleaned (g' : Round) (same : g'.broken = true ∨ g' = g) :
      (discardArchive archive).Follows (careful py agent)
        (fun g' _ => g'.broken = true ∨ g' = { g with archive := "" }) g' := by
    rcases same with broken | rfl
    · exact follows_mono (follows_broken _ broken) fun _ _ => Or.inl
    · exact follows_mono (discardArchive_follows left) fun _ _ => Or.inr
  apply follows_ensure
  apply follows_catch
  apply follows_mono (uploadArtifacts_follows holds archive)
  intro g' r same
  cases r with
  | ok _ => exact cleaned g' same
  | error e =>
    cases e with
    | other type text => exact cleaned g' same
    | _ =>
      apply follows_call (Or.inr trivial)
      intro r
      cases r <;> exact cleaned g' same

theorem settleRun_follows (holds : g.Holds spec result)
    (left : g.archive = (outcome result).1.artifacts) :
    (settleRun agent spec (outcome result).1 (outcome result).2).Follows (careful py agent)
    Round.Told g := by
  apply follows_seq
  apply follows_call (Or.inr trivial)
  intro r
  cases r with
  | error e => exact Or.inl rfl
  | ok lost =>
    cases lost with
    | true =>
      dsimp only
      rw [if_pos rfl]
      have away : (g.record py (.lost spec.id) (.ok true)).archive = (outcome result).1.artifacts := left
      split
      · apply follows_seq
        apply follows_mono (discardArchive_follows away)
        intro g' r gone
        subst gone
        cases r with
        | error e => exact told_error rfl
        | ok _ => exact Or.inr ⟨rfl, fun b ok => ⟨(Except.ok.inj ok).symm, Or.inr rfl⟩⟩
      · rename_i none
        exact Or.inr ⟨away.trans (not_not.mp none), fun b ok => ⟨(Except.ok.inj ok).symm, Or.inr rfl⟩⟩
    | false =>
      dsimp only
      rw [if_neg Bool.false_ne_true]
      split
      · rename_i some_
        cases result with
        | error e => exact absurd rfl some_
        | ok executed =>
          apply follows_seq
          apply follows_mono (uploadArchive_follows holds left)
          intro g' r sent
          rcases sent with broken | rfl
          · cases r with
            | error e => exact Or.inl broken
            | ok _ => exact follows_mono (follows_broken _ broken) fun _ _ => Or.inl
          cases r with
          | error e => exact told_error rfl
          | ok _ =>
            apply follows_seq
            apply follows_call (Or.inr trivial)
            intro r
            cases r with
            | error e => exact Or.inl rfl
            | ok lost =>
              cases lost with
              | true => exact Or.inr ⟨rfl, fun b ok => ⟨(Except.ok.inj ok).symm, Or.inr rfl⟩⟩
              | false =>
                have still : ({ g with archive := "" } : Round).Holds spec (.ok executed) :=
                  ⟨holds.spec, holds.ran, holds.beating, holds.lost, holds.verdicts⟩
                exact reportRun_follows still rfl
      · rename_i none
        exact reportRun_follows holds (left.trans (not_not.mp none))

/-- What a round leaves: no heartbeat and no archive, and a run it took was told or taken away. -/
def Round.Ended (g : Round) (r : Except Failure Bool) : Prop :=
  g.broken = true ∨ g.beating = false ∧ g.archive = "" ∧
    (r = .ok true → g.verdicts = 1 ∨ g.lost = true) ∧ (r = .ok false → g.ran = none)

/-- The slot has been handed a job and has done nothing about it. -/
structure Round.Fresh (g : Round) : Prop where
  ran : g.ran = none
  beating : g.beating = false
  archive : g.archive = ""
  lost : g.lost = false
  verdicts : g.verdicts = 0

theorem execute_follows (fresh : g.Fresh) (handed : g.spec = some spec) :
    (execute agent spec).Follows (careful py agent) Round.Ended g := by
  apply follows_seq
  apply follows_call (Or.inr trivial)
  intro r
  cases r with
  | error e => exact Or.inr ⟨fresh.beating, fresh.archive, nofun, nofun⟩
  | ok _ =>
    apply follows_ensure
    apply follows_catch
    apply follows_call (Or.inr ⟨rfl, handed, rfl, fresh.ran⟩)
    intro result
    have holds : (({ g with beating := true } : Round).record py (.execute agent.device spec)
        result).Holds spec result := by
      cases result <;> exact ⟨handed, rfl, rfl, fresh.lost, fresh.verdicts⟩
    have left : (({ g with beating := true } : Round).record py (.execute agent.device spec)
        result).archive =
        (outcome result).1.artifacts := by
      cases result <;> rfl
    apply follows_mono (settleRun_follows holds left)
    intro g' r told
    apply follows_call (Or.inr trivial)
    intro stopped
    cases stopped with
    | error e => exact Or.inl rfl
    | ok _ =>
      rcases told with broken | ⟨clean, done⟩
      · exact Or.inl broken
      refine Or.inr ⟨rfl, clean, fun ok => (done true ok).2, fun ok => ?_⟩
      exact absurd (done false ok).1 Bool.false_ne_true

theorem stayBehind_follows (behind : String) :
    (stayBehind behind).Follows (careful py agent) (fun g' _ => g'.broken = true ∨ g' = g) g := by
  apply follows_seq
  apply follows_call (Or.inr trivial)
  intro r
  cases r with
  | error e => exact Or.inl rfl
  | ok said =>
    dsimp only
    split
    · apply follows_seq
      apply follows_call (Or.inr trivial)
      intro r
      cases r with
      | error e => exact Or.inl rfl
      | ok _ =>
        apply follows_call (Or.inr trivial)
        intro r
        cases r <;> exact Or.inr rfl
    · exact Or.inr rfl

theorem claim_round (fresh : g.Fresh) :
    (claim py agent).Follows (careful py agent)
      (fun g' r => g'.broken = true ∨ g'.Fresh ∧ ∀ spec, r = .ok (some spec) → g'.spec = some spec)
      g := by
  have may : g.sends agent (.claim agent.device agent.labels agent.leaseSeconds) :=
    ⟨rfl, rfl, rfl, fresh.beating, fresh.archive, fresh.ran⟩
  apply follows_seq
  apply follows_seq
  apply follows_call (Or.inr may)
  intro r
  cases r with
  | error e => exact Or.inl rfl
  | ok ticket =>
    have asked : ({ g with ticket := some ticket, spec := none } : Round).Fresh :=
      ⟨fresh.ran, fresh.beating, fresh.archive, fresh.lost, fresh.verdicts⟩
    apply follows_call (Or.inr fun _ => rfl)
    intro r
    cases r with
    | error e => exact Or.inr ⟨asked, nofun⟩
    | ok answer =>
      apply follows_lift
      have next : (careful py agent).note
          ((careful py agent).note g (.post (.claim agent.device agent.labels agent.leaseSeconds))
          (.ok ticket)) (.await ticket) (.ok answer) =
          ({ g with ticket := some ticket, spec := none } : Round).record py (.await ticket)
          (.ok answer) := rfl
      rw [next]
      clear fresh next may
      generalize ({ g with ticket := some ticket, spec := none } : Round) = g at asked
      cases read : claimed py answer.2 with
      | error e =>
        have same : g.record py (.await ticket) (.ok answer) = g := by simp only [Round.record, read]
        rw [same]
        exact Or.inr ⟨asked, nofun⟩
      | ok job =>
        cases job with
        | none =>
          have same : g.record py (.await ticket) (.ok answer) = g := by simp only [Round.record, read]
          rw [same]
          exact Or.inr ⟨asked, nofun⟩
        | some spec =>
          have taken : g.record py (.await ticket) (.ok answer) = { g with spec := some spec } := by
            simp only [Round.record, read, asked.ran, Option.isNone_none, if_true]
          rw [taken]
          refine Or.inr ⟨⟨asked.ran, asked.beating, asked.archive, asked.lost, asked.verdicts⟩,
            fun spec' ok => ?_⟩
          exact Except.ok.inj ok

/-- A round keeps to what a slot may do, and leaves nothing behind. -/
theorem runOnce_follows (fresh : g.Fresh) :
    (runOnce py agent).Follows (careful py agent) Round.Ended g := by
  have idle (r : Except Failure Bool) (no : r ≠ .ok true) : g.Ended r :=
    Or.inr ⟨fresh.beating, fresh.archive, fun ok => absurd ok no, fun _ => fresh.ran⟩
  apply follows_seq
  apply follows_call (Or.inr trivial)
  intro r
  cases r with
  | error e => exact idle _ nofun
  | ok able =>
    cases able with
    | false => exact idle _ nofun
    | true =>
      apply follows_seq
      apply follows_call (Or.inr trivial)
      intro r
      cases r with
      | error e => exact idle _ nofun
      | ok behind =>
        cases behind with
        | some behind =>
          apply follows_seq
          apply follows_mono (stayBehind_follows behind)
          intro g' r same
          rcases same with broken | rfl
          · cases r <;> exact Or.inl broken
          · cases r <;> exact idle _ nofun
        | none =>
          apply follows_seq
          apply follows_call (Or.inr trivial)
          intro r
          cases r with
          | error e => exact Or.inl rfl
          | ok _ =>
            apply follows_seq
            apply follows_mono (claim_round fresh)
            intro g' r told
            rcases told with broken | ⟨fresh', handed⟩
            · cases r with
              | error e => exact Or.inl broken
              | ok job =>
                cases job with
                | none => exact Or.inl broken
                | some spec => exact follows_mono (follows_broken _ broken) fun _ _ => Or.inl
            · cases r with
              | error e => exact Or.inr ⟨fresh'.beating, fresh'.archive, nofun, nofun⟩
              | ok job =>
                cases job with
                | none => exact Or.inr ⟨fresh'.beating, fresh'.archive, nofun, fun _ => fresh'.ran⟩
                | some spec => exact execute_follows fresh' (handed spec rfl)

end Parts

/-! ## The loop -/

section Rounds
variable {py : Conversions} {agent : PullAgent} {g : Round}

/-- A slot that looks whether to stop starts a round afresh. -/
theorem fresh_round : (({ broken := g.broken } : Round)).Fresh := ⟨rfl, rfl, rfl, rfl, rfl⟩

theorem pollForever_follows (fuel : Nat) (idle : g.Idle) :
    (pollForever py agent fuel).Follows (careful py agent) (fun g _ => g.Idle) g := by
  induction fuel generalizing g with
  | zero => exact idle
  | succ fuel ih =>
    apply follows_seq
    apply follows_call idle
    intro r
    cases r with
    | error e => exact Or.inl rfl
    | ok stopping =>
      cases stopping with
      | true => exact Or.inr ⟨rfl, rfl⟩
      | false =>
        apply follows_catch
        apply follows_mono (runOnce_follows fresh_round)
        intro g' r ended
        have idle' : g'.Idle := ended.imp id fun ended => ⟨ended.1, ended.2.1⟩
        have waits : ((ask .wait).bind fun _ => pollForever py agent fuel).Follows
            (careful py agent) (fun g _ => g.Idle) g' := by
          apply follows_seq
          apply follows_call (Or.inr trivial)
          intro r
          cases r with
          | error e => exact Or.inl rfl
          | ok _ => exact ih idle'
        cases r with
        | error e =>
          cases e with
          | cindralError text status => exact waits
          | _ => exact idle'
        | ok claimed =>
          cases claimed with
          | true => exact ih idle'
          | false => exact waits

/-- A slot keeps to what it may do for as long as it runs, and leaves no archive and no heartbeat
behind. -/
theorem runSlot_follows (rounds fuel : Nat) (idle : g.Idle) :
    (runSlot py agent rounds fuel).Follows (careful py agent) (fun g _ => g.Idle) g := by
  induction fuel generalizing g with
  | zero => exact idle
  | succ fuel ih =>
    apply follows_seq
    apply follows_call idle
    intro r
    cases r with
    | error e => exact Or.inl rfl
    | ok stopping =>
      cases stopping with
      | true => exact Or.inr ⟨rfl, rfl⟩
      | false =>
        apply follows_catch
        apply follows_mono (pollForever_follows rounds (Or.inr ⟨rfl, rfl⟩))
        intro g' r idle'
        cases r with
        | ok _ => exact ih idle'
        | error e =>
          apply follows_seq
          apply follows_call (Or.inr trivial)
          intro r
          cases r with
          | error e => exact idle'
          | ok _ =>
            apply follows_seq
            apply follows_call (Or.inr trivial)
            intro r
            cases r with
            | error e => exact Or.inl rfl
            | ok _ => exact ih idle'

end Rounds

/-- Whatever its calls are answered, a slot executes only what it was handed, says of a run what its
executor said, once, with the heartbeat running, the archive gone and the lease not seen lost; and
each round ends without heartbeat or archive. -/
theorem slot_careful (py : Conversions) (agent : PullAgent) (rounds fuel : Nat) :
    (runOnce py agent).Follows (careful py agent) Round.Ended {} ∧
      (runSlot py agent rounds fuel).Follows (careful py agent) (fun g _ => g.Idle) {} :=
  ⟨runOnce_follows ⟨rfl, rfl, rfl, rfl, rfl⟩, runSlot_follows rounds fuel (Or.inr ⟨rfl, rfl⟩)⟩

end Cindral.Device

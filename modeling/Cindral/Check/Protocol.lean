import Cindral.Check.Publisher

/-! What a publish is told of the check it works on, call by call, and the rule its calls keep to. -/

namespace Cindral.Check
open Base Queue

inductive Stage where
  | fresh
  /-- So many pages of the listing have been read without finding the check. -/
  | searching (pages : Nat)
  | absent
  | found (held : Held)
  | holds (held : Held)
  | wrote (held : Held)
  | failed
  | closed

/-- `openSeen` stays once the check was seen unfinished, or not seen at all. -/
structure Told where
  job : Job
  name : String
  stage : Stage
  openSeen : Bool

namespace Told

def key (g : Told) : Key := keyOf g.job g.name
def sha (g : Told) : String := headShaFor g.job.sha g.job.statusSha

/-- A body made of the record. One without a conclusion needs the check to have been seen unfinished. -/
structure Writes (g : Told) (payload : CheckPayload) : Prop where
  body : payload = payloadFor g.job (verdictFor g.job) g.name payload.annotated
  annotated : payload.annotated = true → conclusionFor g.job ≠ none
  open_ : conclusionFor g.job = none → g.openSeen = true

def may (g : Told) : Call → Prop
  | .opened key => key = g.key ∧ g.stage = .fresh
  | .remember key held => key = g.key ∧ (g.stage = .found held ∨ g.stage = .wrote held)
  | .forget key => key = g.key ∧ g.stage = .failed
  | .page repository sha name page =>
    repository = g.job.repository ∧ sha = g.sha ∧ name = g.name ∧ ∃ pages, g.stage = .searching
      pages ∧ page = pages + 1
  | .create repository sha payload =>
    repository = g.job.repository ∧ sha = g.sha ∧ g.stage = .absent ∧ g.Writes payload
  | .update repository number payload =>
    repository = g.job.repository ∧ g.Writes payload ∧
      ∃ held, g.stage = .holds held ∧ held.number = number ∧
      (payload.annotated = true → held.finished = false)

def written (g : Told) (number : Nat) : Told :=
  { g with
    stage := .wrote ⟨number, (conclusionFor g.job).isSome⟩
    openSeen := g.openSeen && (conclusionFor g.job).isNone }

def note (g : Told) : (c : Call) → Except Raised (Ans c) → Told
  | .opened _, .ok none => { g with stage := .searching 0 }
  | .opened _, .ok (some held) =>
      { g with stage := .holds held, openSeen := g.openSeen || !held.finished }
  | .remember _ held, .ok _ =>
    match g.stage with
    | .found _ => { g with stage := .holds held }
    | _ => { g with stage := .closed }
  | .forget _, .ok _ => { g with stage := .fresh }
  | .page _ _ _ page, .ok runs =>
    match runs.find? (·.externalId = g.job.id) with
    | some run =>
      { g with stage := .found ⟨run.number, run.status = .completed⟩, openSeen := g.openSeen ||
          run.status ≠ .completed }
    | none => if runs.length < perPage then { g with stage := .absent, openSeen := true } else {
        g with stage := .searching page }
  | .create .., .ok number => g.written number
  | .update _ number _, .ok _ => g.written number
  | _, .error _ => { g with stage := .failed }

end Told

def publishing : Protocol Call Ans Raised Told := ⟨Told.may, Told.note⟩

/-- The same publish, which forgets no unfinished check it has seen unless it finishes it. -/
structure Told.Since (g g' : Told) : Prop where
  job : g'.job = g.job
  name : g'.name = g.name
  open_ : conclusionFor g.job = none → g.openSeen = true → g'.openSeen = true

theorem Told.Since.trans {g₁ g₂ g₃ : Told} (h : g₁.Since g₂) (h' : g₂.Since g₃) : g₁.Since g₃ :=
  ⟨h'.job.trans h.job, h'.name.trans h.name, fun open_ seen => h'.open_ (h.job ▸ open_)
  (h.open_ open_ seen)⟩

/-- A publish does not end between a write and the note it makes of it. -/
def Told.Settled (g : Told) : Prop := ∀ held, g.stage ≠ .wrote held

/-- What `find` leaves its publish with. -/
def Told.Looked (stage : Held → Stage) (g : Told) (g' : Told) : Except Raised (Option Held) → Prop
  | .ok none => g.Since g' ∧ g'.stage = .absent ∧ g'.openSeen = true
  | .ok (some held) => g.Since g' ∧ g'.stage = stage held ∧ (held.finished = false → g'.openSeen = true)
  | .error _ => g'.Settled

variable {g : Told}

theorem settled_of_stage {stage : Stage} (at_ : g.stage = stage)
    (other : ∀ held, stage ≠ .wrote held) : g.Settled :=
  fun held wrote => other held (at_.symm.trans wrote)

theorem failed_settled (at_ : g.stage = .failed) : g.Settled := settled_of_stage at_ (by simp)

theorem looked_mono {stage : Held → Stage} {g' g₁ : Told} {r : Except Raised (Option Held)}
    (h : g.Since g₁)
    (looked : g₁.Looked stage g' r) : g.Looked stage g' r := by
  cases r with
  | error e => exact looked
  | ok held =>
    cases held with
    | none => exact ⟨h.trans looked.1, looked.2⟩
    | some held => exact ⟨h.trans looked.1, looked.2⟩

theorem find_follows {pages left : Nat} (at_ : g.stage = .searching pages) :
    (find g.job.repository g.sha g.name g.job.id (pages + 1) left).Follows publishing
    (g.Looked .found) g := by
  induction left generalizing g pages with
  | zero => exact settled_of_stage at_ (by simp)
  | succ left ih =>
    refine Script.follows_bind (Script.follows_call ⟨rfl, rfl, rfl, pages, at_, rfl⟩ fun r => ?_)
    cases r with
    | error e => exact failed_settled rfl
    | ok runs =>
      change List CheckRun at runs
      show Script.Follows publishing _ _
        (g.note (.page g.job.repository g.sha g.name (pages + 1)) (.ok runs))
      cases seen : runs.find? (·.externalId = g.job.id) with
      | some run =>
        simp only [Told.note, seen]
        refine ⟨⟨rfl, rfl, fun _ seen => by simp [seen]⟩, rfl, fun unfinished => ?_⟩
        simp only [decide_eq_false_iff_not] at unfinished
        simp [unfinished]
      | none =>
        by_cases last : runs.length < perPage
        · simp only [Told.note, seen, last, if_true]
          exact ⟨⟨rfl, rfl, fun _ _ => rfl⟩, rfl, rfl⟩
        · simp only [Told.note, seen, last, if_false]
          have later := ih (g := { g with stage := .searching (pages + 1) }) rfl
          have on : g.Since { g with stage := .searching (pages + 1) } := ⟨rfl, rfl, fun _ seen => seen⟩
          exact Script.follows_mono later fun g' r looked => looked_mono on looked

/-- The lookup of a publish that has just started, or that lost the check it held. -/
theorem held_follows (at_ : g.stage = .fresh) :
    (held g.job g.sha g.name).Follows publishing (g.Looked .holds) g := by
  refine Script.follows_bind (Script.follows_call ⟨rfl, at_⟩ fun r => ?_)
  cases r with
  | error e => exact failed_settled rfl
  | ok known =>
    cases known with
    | some held => exact ⟨⟨rfl, rfl, fun _ seen => by simp [publishing, Told.note, seen]⟩, rfl,
        fun unfinished => by
        simp [publishing, Told.note, unfinished]⟩
    | none =>
      refine Script.follows_bind ?_
      have found : (find _ _ _ _ _ maxFindPages).Follows _ _ _ :=
        find_follows (g := { g with stage := .searching 0 }) rfl
      refine Script.follows_mono found fun g₁ r looked => ?_
      cases r with
      | error e => exact looked
      | ok found =>
        cases found with
        | none =>
          obtain ⟨since, stage, seen⟩ := looked
          exact ⟨⟨since.job, since.name, since.open_⟩, stage, seen⟩
        | some held =>
          obtain ⟨since, stage, seen⟩ := looked
          have key : keyOf g.job g.name = g₁.key := by rw [Told.key, since.job, since.name]
          refine Script.follows_bind (Script.follows_call ⟨key, Or.inl stage⟩ fun r => ?_)
          cases r with
          | error e => exact failed_settled rfl
          | ok _ =>
            simp only [publishing, Told.note, stage]
            exact ⟨⟨since.job, since.name, since.open_⟩, rfl, seen⟩

/-- What a write ends in. -/
def Told.Wrote (g g' : Told) : Except Raised PublishedCheck → Prop
  | .ok _ => g'.stage = .closed
  | .error _ => g.Since g' ∧ g'.stage = .failed

theorem write_follows {opened : Option Held} (at_ : g.stage = opened.elim .absent .holds)
    (seen : conclusionFor g.job = none → g.openSeen = true) :
    (write g.job g.sha g.name opened (verdictFor g.job)).Follows publishing g.Wrote g := by
  have annotates : ((verdictFor g.job).annotated && !opened.any (·.finished)) = true →
      conclusionFor g.job ≠ none ∧ opened.any (·.finished) = false := by
    intro both
    obtain ⟨left, right⟩ := Bool.and_eq_true_iff.mp both
    refine ⟨fun absent => ?_, by simpa using right⟩
    simp [verdictFor, absent] at left
  have writes : g.Writes (payloadFor g.job (verdictFor g.job) g.name
      ((verdictFor g.job).annotated && !opened.any (·.finished))) := by
    refine ⟨by rw [payloadFor_annotated], fun annotated => ?_, seen⟩
    rw [payloadFor_annotated] at annotated
    exact (annotates annotated).1
  have remembered (g₁ : Told) (number : Nat) (same : g₁ = g.written number) (created : Bool) :
      ((ask (.remember (keyOf g.job g.name) ⟨number, (verdictFor g.job).conclusion.isSome⟩)).bind fun _ =>
        (.done (⟨number, created⟩ : PublishedCheck) : Program PublishedCheck)).Follows publishing
          g.Wrote g₁ := by
    subst same
    refine Script.follows_bind (Script.follows_call ⟨rfl, Or.inr rfl⟩ fun r => ?_)
    cases r with
    | error e =>
        exact ⟨⟨rfl, rfl, fun open_ seen => by simp [publishing, Told.note, Told.written, open_,
        seen]⟩, rfl⟩
    | ok _ => rfl
  unfold write
  cases opened with
  | none =>
    refine Script.follows_bind (Script.follows_call ⟨rfl, rfl, at_, writes⟩ fun r => ?_)
    cases r with
    | error e => exact ⟨⟨rfl, rfl, fun _ seen => seen⟩, rfl⟩
    | ok number => exact remembered _ number rfl true
  | some opened =>
    refine Script.follows_bind
      (Script.follows_call ⟨rfl, writes, opened, at_, rfl, fun annotated => ?_⟩ fun r => ?_)
    · rw [payloadFor_annotated] at annotated
      simpa using (annotates annotated).2
    · cases r with
      | error e => exact ⟨⟨rfl, rfl, fun _ seen => seen⟩, rfl⟩
      | ok _ => exact remembered _ opened.number rfl false

theorem wrote_settled {g' : Told} {r : Except Raised PublishedCheck} (h : g.Wrote g' r) : g'.Settled := by
  intro held stage
  cases r with
  | ok _ =>
    rw [show g'.stage = .closed from h] at stage
    cases stage
  | error _ =>
    rw [h.2] at stage
    cases stage

theorem recover_follows {opened : Option Held} (at_ : g.stage = opened.elim .absent .holds)
    (seen : conclusionFor g.job = none → g.openSeen = true) :
    (publish.recover g.job g.sha g.name (verdictFor g.job)
      (write g.job g.sha g.name opened (verdictFor g.job))).Follows publishing
      (fun g' _ => g'.Settled) g := by
  refine Script.follows_bind
    (Script.follows_attempt (Script.follows_mono (write_follows at_ seen) fun g₁ r wrote => ?_))
  have stop : g₁.Settled := wrote_settled wrote
  cases r with
  | ok published => exact stop
  | error e =>
    obtain ⟨since, failed⟩ := wrote
    simp only [Script.before]
    split
    · rename_i published same
      cases same
    · -- the check was not there: the lookup starts over, and what it saw before still counts
      obtain ⟨job, name, stage, openSeen⟩ := g₁
      obtain rfl : job = g.job := since.job
      obtain rfl : name = g.name := since.name
      refine Script.follows_bind (Script.follows_call ⟨rfl, failed⟩ fun r => ?_)
      cases r with
      | error e => exact fun held stage => by cases stage
      | ok _ =>
        have again := held_follows (g := ⟨g.job, g.name, .fresh, openSeen⟩) rfl
        refine Script.follows_bind (Script.follows_mono again fun g₂ r looked => ?_)
        cases r with
        | error e => exact looked
        | ok opened =>
          obtain ⟨since₂, stage₂⟩ : Told.Since ⟨g.job, g.name, .fresh, openSeen⟩ g₂ ∧
              g₂.stage = opened.elim .absent .holds := by
            cases opened <;> exact ⟨looked.1, looked.2.1⟩
          obtain ⟨job, name, stage, openSeen₂⟩ := g₂
          obtain rfl : job = g.job := since₂.job
          obtain rfl : name = g.name := since₂.name
          have wrote := write_follows (g := ⟨g.job, g.name, stage, openSeen₂⟩) stage₂ fun open_ =>
            since₂.open_ open_ (since.open_ open_ (seen open_))
          exact Script.follows_mono wrote fun g₃ r wrote => wrote_settled wrote
    · exact stop

theorem publish_follows (job : Job) (name : String) :
    ((publishCheckRunQuietly job name).bind fun _ => .done ()).Follows publishing (fun g _ => g.Settled)
      ⟨job, name, .fresh, false⟩ := by
  have fresh : Told.Settled ⟨job, name, .fresh, false⟩ := settled_of_stage rfl (by simp)
  have body : (publish job name).Follows publishing (fun g _ => g.Settled)
      ⟨job, name, .fresh, false⟩ := by
    unfold publish
    split
    · exact fresh
    · simp only
      split
      · exact fresh
      · have look := held_follows (g := ⟨job, name, .fresh, false⟩) rfl
        refine Script.follows_bind (Script.follows_mono look fun g r looked => ?_)
        cases r with
        | error e => exact looked
        | ok opened =>
          obtain ⟨since, stage, seen⟩ : Told.Since ⟨job, name, .fresh, false⟩ g ∧
              g.stage = opened.elim .absent .holds ∧
              (opened.any (·.finished) = false → g.openSeen = true) := by
            cases opened with
            | none => exact ⟨looked.1, looked.2.1, fun _ => looked.2.2⟩
            | some held => exact ⟨looked.1, looked.2.1, fun unfinished => looked.2.2 unfinished⟩
          obtain rfl : g.job = job := since.job
          obtain rfl : g.name = name := since.name
          have go (unfinished : conclusionFor g.job = none → opened.any (·.finished) = false) :=
            recover_follows (g := g) stage fun open_ => seen (unfinished open_)
          rcases opened with _ | ⟨number, _ | _⟩
          · exact go fun _ => rfl
          · exact go fun _ => rfl
          · cases conclusion : (verdictFor g.job).conclusion with
            | none =>
              simp only [Script.before]
              exact settled_of_stage stage (by simp)
            | some _ =>
              simp only [Script.before]
              refine go fun open_ => ?_
              rw [show conclusionFor g.job = some _ from conclusion] at open_
              cases open_
  refine Script.follows_bind
    (Script.follows_bind (Script.follows_attempt (Script.follows_mono body fun g r settled => ?_)))
  cases r <;> exact settled

/-! ## What a turn does -/

/-- A call of a publish that knows `g`: what becomes of the desk, and what the publish knows then. -/
inductive Turned (d : Desk) (g : Told) : Answer → Desk → Told → Prop where
  | missed {answer} : g.stage = .fresh → d.opened g.key = none →
      Turned d g answer d { g with stage := .searching 0 }
  | recalled {answer held} : g.stage = .fresh → d.opened g.key = some held →
      Turned d g answer d { g with stage := .holds held, openSeen := g.openSeen || !held.finished }
  | kept {answer held} : g.stage = .found held →
      Turned d g answer (d.recording g.key (some held)) { g with stage := .holds held }
  | closed {answer held} : g.stage = .wrote held → Turned d g answer (d.recording g.key (some held))
      { g with stage := .closed }
  | forgot {answer} : g.stage = .failed → Turned d g answer (d.recording g.key none)
      { g with stage := .fresh }
  | found {pages run} : g.stage = .searching pages →
      (d.github.page g.job.repository g.sha g.name (pages + 1)).find? (·.externalId = g.job.id) =
      some run →
      Turned d g .accepted d { g with
        stage := .found ⟨run.number, run.status = .completed⟩, openSeen :=
        g.openSeen || run.status ≠ .completed }
  | absent {pages} : g.stage = .searching pages →
      (d.github.page g.job.repository g.sha g.name (pages + 1)).find? (·.externalId = g.job.id) = none →
      (d.github.page g.job.repository g.sha g.name (pages + 1)).length < perPage →
      Turned d g .accepted d { g with stage := .absent, openSeen := true }
  | paged {pages} : g.stage = .searching pages →
      (d.github.page g.job.repository g.sha g.name (pages + 1)).find? (·.externalId = g.job.id) = none →
      Turned d g .accepted d { g with stage := .searching (pages + 1) }
  | created {payload} : g.stage = .absent → g.Writes payload →
      Turned d g .accepted { d with github := d.github.create g.job.repository g.sha payload }
      (g.written d.github.next)
  | createLost {payload} : g.stage = .absent → g.Writes payload →
      Turned d g .lost { d with github := d.github.create g.job.repository g.sha payload }
      { g with stage := .failed }
  | updated {payload held} : g.stage = .holds held → g.Writes payload →
      (payload.annotated = true → held.finished = false) →
      Turned d g .accepted { d with github := d.github.update g.job.repository held.number payload }
      (g.written held.number)
  | updateLost {payload held} : g.stage = .holds held → g.Writes payload →
      Turned d g .lost { d with github := d.github.update g.job.repository held.number payload }
      { g with stage := .failed }
  | refused {answer} : g.Settled → Turned d g answer d { g with stage := .failed }

theorem turned_of_perform {c : Call} {answer : Answer} {d d' : Desk} {r : Except Raised (Ans c)}
    (may : g.may c)
    (performed : perform answer d c = some (r, d')) : Turned d g answer d' (g.note c r) := by
  cases c with
  | opened key =>
    obtain ⟨rfl, at_⟩ := may
    obtain ⟨rfl, rfl⟩ := Prod.mk.inj (Option.some.inj performed)
    cases known : d.opened g.key with
    | none => exact .missed at_ known
    | some held => exact .recalled at_ known
  | remember key held =>
    obtain ⟨rfl, at_⟩ := may
    obtain ⟨rfl, rfl⟩ := Prod.mk.inj (Option.some.inj performed)
    rcases at_ with found | wrote
    · simp only [Told.note, found]
      exact .kept found
    · simp only [Told.note, wrote]
      exact .closed wrote
  | forget key =>
    obtain ⟨rfl, at_⟩ := may
    obtain ⟨rfl, rfl⟩ := Prod.mk.inj (Option.some.inj performed)
    exact .forgot at_
  | page repository sha name page =>
    obtain ⟨rfl, rfl, rfl, pages, at_, rfl⟩ := may
    cases answer with
    | accepted =>
      obtain ⟨rfl, rfl⟩ := Prod.mk.inj (Option.some.inj performed)
      simp only [Told.note]
      split
      · rename_i run seen
        exact .found at_ seen
      · rename_i unseen
        split
        · rename_i last
          exact .absent at_ unseen last
        · exact .paged at_ unseen
    | refused code | lost =>
      obtain ⟨rfl, rfl⟩ := Prod.mk.inj (Option.some.inj performed)
      exact .refused (settled_of_stage at_ (by simp))
  | create repository sha payload =>
    obtain ⟨rfl, rfl, at_, writes⟩ := may
    cases answer with
    | accepted =>
      obtain ⟨rfl, rfl⟩ := Prod.mk.inj (Option.some.inj performed)
      exact .created at_ writes
    | refused code =>
      obtain ⟨rfl, rfl⟩ := Prod.mk.inj (Option.some.inj performed)
      exact .refused (settled_of_stage at_ (by simp))
    | lost =>
      obtain ⟨rfl, rfl⟩ := Prod.mk.inj (Option.some.inj performed)
      exact .createLost at_ writes
  | update repository number payload =>
    obtain ⟨rfl, writes, held, at_, rfl, unannotated⟩ := may
    change (if d.github.has g.job.repository held.number then _ else _) = _ at performed
    split at performed
    · cases answer with
      | accepted =>
        obtain ⟨rfl, rfl⟩ := Prod.mk.inj (Option.some.inj performed)
        exact .updated at_ writes unannotated
      | refused code =>
        obtain ⟨rfl, rfl⟩ := Prod.mk.inj (Option.some.inj performed)
        exact .refused (settled_of_stage at_ (by simp))
      | lost =>
        obtain ⟨rfl, rfl⟩ := Prod.mk.inj (Option.some.inj performed)
        exact .updateLost at_ writes
    · obtain ⟨rfl, rfl⟩ := Prod.mk.inj (Option.some.inj performed)
      exact .refused (settled_of_stage at_ (by simp))

end Cindral.Check

import Cindral.Dispatch.Preview

/-!
# The course of a hold

A hold is taken before the lane of a request is known. What a request meets from there on is written
down as it runs, and where it stands with its hold follows from that: whether it is still in hand, how
GitHub answered the dispatch, and whether an exception or a failing ledger got in the way.
-/

namespace Cindral.Dispatch
open Base Routing Script

/-- A 5xx may have started a run, and so may an answer that was lost. -/
def DispatchOutcome.provesNoRun : DispatchOutcome → Bool
  | refused statusCode _ => statusCode < 500
  | unreachable _ => true
  | accepted | lost _ => false

/-- The hold is one of those a month's count is made of. -/
def Charged (ledger : MeteredLedger) (hold : Nat) : Prop :=
  ∃ r ∈ ledger.rows, r.id = hold ∧ r.lane = hostedLane

/-- What a request met on its way, as far as its holds go. -/
structure Course where
  taken : List Nat := []
  inHand : Option Nat := none
  /-- GitHub's answer to the hosted dispatch that went out while the hold was in hand. -/
  answer : Option DispatchOutcome := none
  /-- An exception that is not the GitHub client's own met the request with the hold in hand, and no
  dispatch out. -/
  stopped : Bool := false
  /-- The ledger failed when it was last asked to take the hold back. -/
  stuck : Bool := false

def Course.note (t : Course) (k : Choice) : (c : Call) → Except Raised (Ans c) → Course
  | .reserve _ _, .ok id => { t with taken := id :: t.taken, inHand := some id, stuck := false }
  | .release id, .ok _ => if t.inHand = some id then { t with inHand := none, stuck := false } else t
  | .release id, .error _ => if t.inHand = some id then { t with stuck := true } else t
  | .dispatch request, _ =>
    if t.inHand.isSome ∧ request.inputs.lookup "cindral_lane" = some hostedLane then
      match k.raised with
      | none => { t with answer := some k.outcome }
      | some _ => { t with stopped := true }
    else t
  | .postStatus _ _ _ _, .error (.other _) =>
    if t.inHand.isSome ∧ t.answer = none then { t with stopped := true } else t
  | _, _ => t

/-- Only GitHub's answer to a hosted request is noted as one. -/
theorem Course.note_answer (t : Course) (k : Choice) (c : Call) (r : Except Raised (Ans c)) :
    (t.note k c r).answer = t.answer ∨ ∃ request, c = .dispatch request ∧ k.raised = none ∧
      request.inputs.lookup "cindral_lane" = some hostedLane ∧
      (t.note k c r).answer = some k.outcome := by
  cases c with
  | dispatch request =>
    simp only [Course.note]
    split
    · rename_i hosted
      split
      · rename_i calm
        exact Or.inr ⟨request, rfl, calm, hosted.2, rfl⟩
      · exact Or.inl rfl
    · exact Or.inl rfl
  | reserve _ _ => cases r <;> exact Or.inl rfl
  | release _ =>
    cases r <;> (simp only [Course.note]; split <;> exact Or.inl rfl)
  | postStatus _ _ _ _ =>
    cases r with
    | ok _ => exact Or.inl rfl
    | error e =>
      cases e with
      | other _ =>
        simp only [Course.note]
        split <;> exact Or.inl rfl
      | _ => exact Or.inl rfl
  | _ => exact Or.inl rfl

/-! ## Where a request stands -/

section Phases
variable (l : MeteredLedger)

/-- The hold is in the ledger, and nothing else is new there. -/
def Holding (ledger : MeteredLedger) : Prop := ledger.release l.nextId = l ∧ Charged ledger l.nextId

/-- A request that began with the ledger `l`: whether its hold is in hand, and what it has met. -/
structure Phase (held : Bool) (answer : Option DispatchOutcome) (stopped stuck : Bool)
    (s : World × Course) : Prop where
  ledger : if held then Holding l s.1.metered else s.1.metered = l
  course : ∃ taken, s.2 = ⟨taken, if held then some l.nextId else none, answer, stopped, stuck⟩ ∧
    ∀ id ∈ taken, id = l.nextId

abbrev Clear : World × Course → Prop := Phase l false none false false

/-- With a hold, in such a phase; without one, clear. -/
def Bears (hold : Option Nat) (held : Bool) (answer : Option DispatchOutcome) (stopped stuck : Bool)
    (s : World × Course) : Prop :=
  hold = none ∧ Clear l s ∨ hold = some l.nextId ∧ Phase l held answer stopped stuck s

end Phases

/-- A call that tells a request nothing of its hold, where it stands. -/
def Call.still (held steady : Prop) : Call → Prop
  | .reserve _ _ | .release _ | .attributeHold _ _ _ _ => False
  | .dispatch _ => ¬held
  | .postStatus _ _ _ _ => steady
  | _ => True

abbrev Noted {α : Type} (s : Program α) (start : World × Course)
    (post : Except Raised α → World × Course → Prop) : Prop :=
  Ensures (noting perform Course.note) s start post

section Steps
variable {l : MeteredLedger} {hold : Option Nat} {held : Bool} {answer : Option DispatchOutcome}
  {stopped stuck : Bool} {s s' : World × Course} {α : Type} {program : Program α} {k : Choice} {c : Call}
  {r : Except Raised (Ans c)}

theorem unmetered_still {c : Call} (h : c.unmetered) : c.still False True := by
  cases c with
  | reserve _ _ | release _ | attributeHold _ _ _ _ => exact h.elim
  | dispatch _ => exact not_false
  | _ => trivial

theorem telling_still {held steady : Prop} (h : steady) {c : Call} (tells : c.telling) :
    c.still held steady := by
  cases c with
  | postStatus _ _ _ _ => exact h
  | publishCheckRun _ | send _ _ => trivial
  | _ => exact tells.elim

/-- A status stops a request only by an exception that is not the client's own, with the hold in hand
and no dispatch out. -/
theorem status_phase {repository sha description : String} {state : Queue.CommitState}
    {r : Except Raised Unit} (h : Phase l held answer stopped stuck s)
    (performed : noting perform Course.note k s (.postStatus repository sha state description) =
      some (r, s')) :
    (r = .ok () ∨ ∃ text, r = .error (.githubApiError text)) ∧ Phase l held answer stopped stuck s' ∨
      (∃ text, r = .error (.other text)) ∧
        Phase l held answer (stopped || held && answer.isNone) stuck s' := by
  obtain ⟨performed, noted⟩ := noting_eq performed
  obtain ⟨taken, course, own⟩ := h.course
  have ledger := unmetered_keeps performed trivial
  rcases perform_cases performed with ⟨e, -, possible, rfl, -⟩ | ⟨-, answered⟩
  · cases e with
    | githubApiError text =>
      exact Or.inl ⟨Or.inr ⟨text, rfl⟩, ledger ▸ h.ledger, taken, noted.trans course, own⟩
    | other text =>
      refine Or.inr ⟨⟨text, rfl⟩, ledger ▸ h.ledger, taken, ?_, own⟩
      rw [noted, course]
      cases held <;> cases answer <;> cases stopped <;> rfl
    | _ => cases possible
  · obtain ⟨rfl, -⟩ := Prod.mk.inj (Option.some.inj answered)
    exact Or.inl ⟨Or.inl rfl, ledger ▸ h.ledger, taken, noted.trans course, own⟩

theorem still_phase (steady : Prop) (quiet : steady → held = false ∨ answer ≠ none ∨ stopped = true)
    (h : Phase l held answer stopped stuck s)
    (performed : noting perform Course.note k s c = some (r, s'))
    (still : c.still (held = true) steady) :
    Phase l held answer stopped stuck s' := by
  cases c with
  | reserve _ _ | release _ | attributeHold _ _ _ _ => exact still.elim
  | postStatus repository sha state description =>
    rcases status_phase h performed with ⟨-, same⟩ | ⟨-, noted⟩
    · exact same
    · have settled : (stopped || held && answer.isNone) = stopped := by
        rcases quiet still with rfl | sent | rfl
        · simp
        · simp [Option.isNone_eq_false_iff.mpr (Option.isSome_iff_ne_none.mpr sent)]
        · simp
      rw [settled] at noted
      exact noted
  | dispatch request =>
    obtain ⟨performed, noted⟩ := noting_eq performed
    obtain ⟨taken, course, own⟩ := h.course
    refine ⟨unmetered_keeps performed trivial ▸ h.ledger, taken, ?_, own⟩
    rw [noted, course, Bool.eq_false_of_not_eq_true still]
    rfl
  | _ =>
    obtain ⟨performed, noted⟩ := noting_eq performed
    obtain ⟨taken, course, own⟩ := h.course
    exact ⟨unmetered_keeps performed trivial ▸ h.ledger, taken, noted.trans course, own⟩

theorem noted_still (steady : Prop) (quiet : steady → held = false ∨ answer ≠ none ∨ stopped = true)
    (only : program.Only (Call.still (held = true) steady)) (h : Phase l held answer stopped stuck s) :
    Noted program s fun _ s' => Phase l held answer stopped stuck s' :=
  ensures_only (I := Phase l held answer stopped stuck)
    (fun _ _ _ _ _ still now performed => still_phase steady quiet now performed still) only h

/-- Nothing that leaves the count alone moves a request with no hold. -/
theorem noted_clear (only : program.Only Call.unmetered) (h : Clear l s) :
    Noted program s fun _ s' => Clear l s' :=
  noted_still True (fun _ => Or.inl rfl)
    (only_mono only fun _ un => by simpa using unmetered_still un) h

/-! ## The ledger -/

theorem reserve_holding (l : MeteredLedger) (now : ℚ) :
    Holding l (l.reserve repositoryUnknown hostedLane "" "" now).2 := by
  refine ⟨release_reserve _ _ _ _ _ _, ⟨l.nextId, lower repositoryUnknown, hostedLane, "", "", now⟩, ?_,
    rfl, rfl⟩
  exact List.mem_append_right _ (List.mem_singleton_self _)

/-- Naming a hold moves no other row, and not its lane. -/
theorem holding_attribute {ledger : MeteredLedger} (h : Holding l ledger)
    (repository workflow ref : String) :
    Holding l (ledger.attributeHold l.nextId repository workflow ref) := by
  obtain ⟨back, row, member, own, lane⟩ := h
  let edit := (Hold.named repository workflow ref).only (·.id = l.nextId)
  have moved (r : Hold) : (edit r).lane = r.lane := by
    simp only [edit, Edit.only_apply]
    split <;> rfl
  refine ⟨?_, edit row, List.mem_map_of_mem member, (edit.keeps row).trans own, (moved row).trans lane⟩
  refine (Table.eq_of_rows ?_).trans back
  show (ledger.rows.map edit).filter (fun r => decide (r.id ≠ l.nextId)) = ledger.rows.filter _
  rw [List.filter_map]
  have same : (fun r : Hold => decide (r.id ≠ l.nextId)) ∘ edit = fun r => decide (r.id ≠ l.nextId) :=
    funext fun r => congrArg (fun id => decide (id ≠ l.nextId)) (edit.keeps r)
  rw [same]
  refine (List.map_congr_left fun r kept => ?_).trans (List.map_id _)
  have other : r.id ≠ l.nextId := of_decide_eq_true (List.mem_filter.mp kept).2
  simp [edit, other]

theorem not_charged (l : MeteredLedger) : ¬Charged l l.nextId := by
  rintro ⟨row, member, own, -⟩
  exact Nat.lt_irrefl _ (own ▸ MeteredLedger.id_lt_nextId member)

theorem release_self (l : MeteredLedger) : l.release l.nextId = l := by
  refine Table.eq_of_rows (List.filter_eq_self.mpr fun row member => decide_eq_true ?_)
  exact Nat.ne_of_lt (MeteredLedger.id_lt_nextId member)

/-! ## The calls that move a hold -/

theorem reserve_phase {r : Except Raised Nat} (h : Clear l s)
    (performed : noting perform Course.note k s (.reserve repositoryUnknown hostedLane) = some (r, s')) :
    r = .ok l.nextId ∧ Phase l true none false false s' ∨ (∃ e, r = .error e) ∧ Clear l s' := by
  obtain ⟨performed, noted⟩ := noting_eq performed
  obtain ⟨taken, course, own⟩ := h.course
  have ledger : s.1.metered = l := h.ledger
  rcases perform_cases performed with ⟨e, -, -, rfl, same⟩ | ⟨-, answered⟩
  · refine Or.inr ⟨⟨e, rfl⟩, ?_, taken, noted.trans course, own⟩
    rw [same]
    exact h.ledger
  · obtain ⟨rfl, world⟩ := Prod.mk.inj (Option.some.inj answered)
    have first : (s.1.metered.reserve repositoryUnknown hostedLane "" "" k.now).1 = l.nextId := by
      rw [ledger]
      rfl
    refine Or.inl ⟨congrArg _ first, ?_, l.nextId :: taken, ?_, List.forall_mem_cons.mpr ⟨rfl, own⟩⟩
    · show Holding l s'.1.metered
      rw [← world, ledger]
      exact reserve_holding l k.now
    · rw [noted, first, course]
      rfl

theorem release_phase {r : Except Raised Unit} (h : Phase l held answer stopped stuck s)
    (fresh : held = false → stuck = false)
    (performed : noting perform Course.note k s (.release l.nextId) = some (r, s')) :
    r = .ok () ∧ Phase l false answer stopped false s' ∨
      (∃ text, r = .error (.sqliteError text)) ∧ Phase l held answer stopped held s' := by
  obtain ⟨performed, noted⟩ := noting_eq performed
  obtain ⟨taken, course, own⟩ := h.course
  rcases perform_cases performed with ⟨e, -, possible, rfl, same⟩ | ⟨-, answered⟩
  · have text : ∃ text, e = .sqliteError text := by
      cases e with
      | sqliteError text => exact ⟨text, rfl⟩
      | _ => cases possible
    obtain ⟨text, rfl⟩ := text
    refine Or.inr ⟨⟨text, rfl⟩, ?_, taken, ?_, own⟩
    · rw [same]
      exact h.ledger
    · rw [noted, course]
      cases held with
      | true => simp [Course.note]
      | false => simp [Course.note, fresh]
  · obtain ⟨rfl, world⟩ := Prod.mk.inj (Option.some.inj answered)
    refine Or.inl ⟨rfl, ?_, taken, ?_, own⟩
    · show s'.1.metered = l
      rw [← world]
      show s.1.metered.release l.nextId = l
      have ledger := h.ledger
      cases held with
      | true => exact ledger.1
      | false =>
        rw [show s.1.metered = l from ledger]
        exact release_self l
    · rw [noted, course]
      cases held with
      | true => simp [Course.note]
      | false => simp [Course.note, fresh]

theorem attribute_phase {r : Except Raised Unit} {repository workflow ref : String}
    (h : Phase l true answer stopped stuck s)
    (performed : noting perform Course.note k s (.attributeHold l.nextId repository workflow ref) =
      some (r, s')) :
    Phase l true answer stopped stuck s' := by
  obtain ⟨performed, noted⟩ := noting_eq performed
  obtain ⟨taken, course, own⟩ := h.course
  refine ⟨?_, taken, noted.trans course, own⟩
  rcases perform_cases performed with ⟨e, -, -, rfl, same⟩ | ⟨-, answered⟩
  · rw [same]
    exact h.ledger
  · obtain ⟨-, world⟩ := Prod.mk.inj (Option.some.inj answered)
    rw [← world]
    exact holding_attribute h.ledger repository workflow ref

/-- A hosted dispatch with the hold in hand stops before it goes out, or GitHub answers it. -/
theorem dispatch_phase {r : Except Raised Unit} {request : Request}
    (h : Phase l true none false false s)
    (hosted : request.inputs.lookup "cindral_lane" = some hostedLane)
    (performed : noting perform Course.note k s (.dispatch request) = some (r, s')) :
    Phase l true none true false s' ∧ (∃ text, r = .error (.other text)) ∨
      ∃ outcome, Phase l true (some outcome) false false s' ∧
        r = outcome.raised.elim (.ok ()) .error := by
  obtain ⟨performed, noted⟩ := noting_eq performed
  obtain ⟨taken, course, own⟩ := h.course
  rcases perform_cases performed with ⟨e, raised, possible, rfl, same⟩ | ⟨calm, answered⟩
  · have text : ∃ text, e = .other text := by
      cases e with
      | other text => exact ⟨text, rfl⟩
      | _ => cases possible
    obtain ⟨text, rfl⟩ := text
    refine Or.inl ⟨⟨?_, taken, ?_, own⟩, text, rfl⟩
    · rw [same]
      exact h.ledger
    · rw [noted, course]
      simp [Course.note, hosted, raised]
  · obtain ⟨rfl, world⟩ := Prod.mk.inj (Option.some.inj answered)
    refine Or.inr ⟨k.outcome, ⟨?_, taken, ?_, own⟩, rfl⟩
    · rw [← world]
      exact h.ledger
    · rw [noted, course]
      simp [Course.note, hosted, calm]

/-! ## With a hold or without -/

theorem clear_bears (free : hold = none) (h : Clear l s) : Bears l hold held answer stopped stuck s :=
  Or.inl ⟨free, h⟩

theorem noted_releaseReservation {ledger : Bool} (given : hold.isSome → ledger = true)
    (h : Bears l hold held answer stopped stuck s) (fresh : held = false → stuck = false) :
    Noted (releaseReservation ledger hold) s fun r s' => r = .ok () ∧
      (Bears l hold false answer stopped false s' ∨ Bears l hold held answer stopped held s') := by
  rcases h with ⟨rfl, clear⟩ | ⟨rfl, phase⟩
  · exact ensures_done ⟨rfl, Or.inl (clear_bears rfl clear)⟩
  · rw [given rfl]
    refine ensures_try (ensures_call fun k r s' performed => ensures_done ⟨rfl, ?_⟩)
    rcases release_phase phase fresh performed with ⟨-, back⟩ | ⟨-, failed⟩
    · exact Or.inl (Or.inr ⟨rfl, back⟩)
    · exact Or.inr (Or.inr ⟨rfl, failed⟩)

theorem noted_nameHold {ledger : Bool} (given : hold.isSome → ledger = true)
    (h : Bears l hold true answer stopped stuck s) (repository workflow ref : String) :
    Noted (nameHold ledger hold repository workflow ref) s fun r s' =>
      r = .ok () ∧ Bears l hold true answer stopped stuck s' := by
  rcases h with ⟨rfl, clear⟩ | ⟨rfl, phase⟩
  · exact ensures_done ⟨rfl, clear_bears rfl clear⟩
  · rw [given rfl]
    refine ensures_try (ensures_call fun k r s' performed => ensures_done ⟨rfl, ?_⟩)
    exact Or.inr ⟨rfl, attribute_phase phase performed⟩

theorem noted_dispatch {request : Request}
    (hosted : hold.isSome → request.inputs.lookup "cindral_lane" = some hostedLane)
    (h : Bears l hold true none false false s) : Noted (ask (.dispatch request)) s fun r s' =>
      Bears l hold true none true false s' ∧ (∃ text, r = .error (.other text)) ∨
        ∃ outcome, Bears l hold true (some outcome) false false s' ∧
          r = outcome.raised.elim (.ok ()) .error := by
  refine ensures_call fun k r s' performed => ?_
  rcases h with ⟨rfl, clear⟩ | ⟨rfl, phase⟩
  · have clear' : Clear l s' :=
      still_phase True (fun _ => Or.inl rfl) clear performed (by simp [Call.still])
    obtain ⟨performed, -⟩ := noting_eq performed
    rcases perform_cases performed with ⟨e, -, possible, rfl, -⟩ | ⟨-, answered⟩
    · have text : ∃ text, e = .other text := by
        cases e with
        | other text => exact ⟨text, rfl⟩
        | _ => cases possible
      obtain ⟨text, rfl⟩ := text
      exact Or.inl ⟨clear_bears rfl clear', text, rfl⟩
    · obtain ⟨rfl, -⟩ := Prod.mk.inj (Option.some.inj answered)
      exact Or.inr ⟨_, clear_bears rfl clear', rfl⟩
  · rcases dispatch_phase phase (hosted rfl) performed with ⟨stopped, failed⟩ | ⟨outcome, sent, told⟩
    · exact Or.inl ⟨Or.inr ⟨rfl, stopped⟩, failed⟩
    · exact Or.inr ⟨outcome, Or.inr ⟨rfl, sent⟩, told⟩

theorem bears_still (steady : Prop) (quiet : steady → held = false ∨ answer ≠ none ∨ stopped = true)
    (h : Bears l hold held answer stopped stuck s)
    (performed : noting perform Course.note k s c = some (r, s')) (still : c.still True steady) :
    Bears l hold held answer stopped stuck s' := by
  have weaker (b : Bool) : c.still (b = true) steady := by
    cases c with
    | dispatch _ => exact absurd trivial still
    | _ => exact still
  exact h.imp (And.imp_right fun clear => still_phase steady (fun _ => Or.inl rfl) clear performed
    (weaker false))
    (And.imp_right fun phase => still_phase steady quiet phase performed (weaker held))

theorem noted_bears (steady : Prop) (quiet : steady → held = false ∨ answer ≠ none ∨ stopped = true)
    (only : program.Only (Call.still True steady)) (h : Bears l hold held answer stopped stuck s) :
    Noted program s fun _ s' => Bears l hold held answer stopped stuck s' :=
  ensures_only (I := Bears l hold held answer stopped stuck)
    (fun _ _ _ _ _ still now performed => bears_still steady quiet now performed still) only h

end Steps

/-! ## The choice of a lane -/

/-- A call that nothing can fail. -/
def Call.sure : Call → Prop
  | .quotaReading | .lockBudget | .unlockBudget | .lockCapacity | .unlockCapacity | .monotonic
  | .monotonicNs | .expireReservations _ _ | .reservations _ | .reserveRunner _
  | .dropReservation _ _ => True
  | _ => False

section Sure
variable {l : MeteredLedger} {s s' : World × Course} {k : Choice} {c : Call} {r : Except Raised (Ans c)}
  {hold : Option Nat} {held stopped stuck : Bool} {answer : Option DispatchOutcome}

theorem sure_keeps (sure : c.sure) (performed : noting perform Course.note k s c = some (r, s')) :
    (∃ a, r = .ok a) ∧ s'.1.metered = s.1.metered ∧ s'.2 = s.2 := by
  obtain ⟨performed, noted⟩ := noting_eq performed
  have unmetered : c.unmetered := by
    cases c with
    | reserve _ _ | release _ | attributeHold _ _ _ _ => exact sure.elim
    | _ => trivial
  refine ⟨?_, unmetered_keeps performed unmetered, ?_⟩
  · rcases perform_cases performed with ⟨e, -, possible, -, -⟩ | ⟨-, answered⟩
    · cases c with
      | quotaReading | lockBudget | unlockBudget | lockCapacity | unlockCapacity | monotonic | monotonicNs
      | expireReservations _ _ | reservations _ | reserveRunner _ | dropReservation _ _ => cases possible
      | _ => exact sure.elim
    · cases c with
      | lockBudget | lockCapacity =>
        simp only [answer, take] at answered
        split at answered
        · cases answered
        · exact ⟨(), (Prod.mk.inj (Option.some.inj answered)).1.symm⟩
      | quotaReading | unlockBudget | unlockCapacity | monotonic | monotonicNs | expireReservations _ _
      | reservations _ | reserveRunner _ | dropReservation _ _ =>
        exact ⟨_, (Prod.mk.inj (Option.some.inj answered)).1.symm⟩
      | _ => exact sure.elim
  · rw [noted]
    cases c with
    | quotaReading | lockBudget | unlockBudget | lockCapacity | unlockCapacity | monotonic | monotonicNs
    | expireReservations _ _ | reservations _ | reserveRunner _ | dropReservation _ _ => rfl
    | _ => exact sure.elim

theorem bears_same (h : Bears l hold held answer stopped stuck s) (ledger : s'.1.metered = s.1.metered)
    (course : s'.2 = s.2) : Bears l hold held answer stopped stuck s' := by
  have same {held : Bool} {answer : Option DispatchOutcome} {stopped stuck : Bool}
      (phase : Phase l held answer stopped stuck s) : Phase l held answer stopped stuck s' :=
    ⟨ledger ▸ phase.ledger, course ▸ phase.course⟩
  exact h.imp (And.imp_right same) (And.imp_right same)

/-- A body under a lock, where what it leaves is not a matter of the lock. -/
theorem noted_holding {α : Type} {body : Program α} {lock unlock : Call}
    {post : Except Raised α → World × Course → Prop} (taken : lock.sure) (given : unlock.sure)
    (stable : ∀ r s s', post r s → s'.1.metered = s.1.metered → s'.2 = s.2 → post r s')
    (h : ∀ s₁ : World × Course, s₁.1.metered = s.1.metered → s₁.2 = s.2 → Noted body s₁ post) :
    Noted (holding lock unlock body) s post := by
  refine ensures_bind (ensures_call fun k r s₁ locked => ?_)
  obtain ⟨⟨a, rfl⟩, ledger, course⟩ := sure_keeps taken locked
  refine ensures_try (ensures_mono (h s₁ ledger course) fun r s₂ left => ?_)
  refine ensures_bind (ensures_call fun k r' s₃ unlocked => ?_)
  obtain ⟨⟨a', rfl⟩, ledger', course'⟩ := sure_keeps given unlocked
  exact ensures_lift (stable r s₂ s₃ left ledger' course')

theorem sure_clear {c : Call} (sure : c.sure) (h : Clear l s)
    {post : Except Raised (Ans c) → World × Course → Prop}
    (next : ∀ a s', Clear l s' → post (.ok a) s') : Noted (ask c) s post := by
  refine ensures_call fun k r s' performed => ?_
  obtain ⟨⟨a, rfl⟩, ledger, course⟩ := sure_keeps sure performed
  exact next a s' ⟨ledger ▸ h.ledger, course ▸ h.course⟩

end Sure

theorem firstLocal_unreserved {p : Policy} {request : RouteRequest} {runners : List Runner}
    {reason : String} {d : RouteDecision} (h : p.firstLocal request runners reason = .ok d) :
    d.reservation = none := by
  unfold Policy.firstLocal at h
  split at h
  · obtain rfl := Except.ok.inj h
    rfl
  · cases h

theorem chooseLane_unreserved {p : Policy} {request : RouteRequest} {runners : List Runner}
    {d : RouteDecision} (h : p.chooseLane request runners = .ok d) : d.reservation = none := by
  have hosted {reason : String} (h : Except.ok (ε := Raised) (p.hosted reason) = .ok d) :
      d.reservation = none := by
    obtain rfl := Except.ok.inj h
    rfl
  unfold Policy.chooseLane at h
  split at h
  · exact hosted h
  split at h
  · simp only [Policy.explicitLane] at h
    split at h
    · cases h
    · split_ifs at h
      all_goals
        split at h
        · cases h
        · obtain rfl := Except.ok.inj h
          rfl
  split at h
  · exact hosted h
  split at h
  · exact hosted h
  split at h
  · exact firstLocal_unreserved h
  split at h
  · exact firstLocal_unreserved h
  split at h
  · cases h
  · exact firstLocal_unreserved h

/-- What `attach_budget` leaves: a ceiling has its ledger, and what takes a hold can give it back. -/
def Attached (server : Server) : Prop :=
  server.policy.minuteBudget ≠ none → server.policy.releaseMeteredMinutes = true ∧ server.jobsDb = true

theorem attached_of {q : Policy} {server : Server}
    (attached : q.attachBudget server.jobsDb = .ok server.policy) : Attached server := by
  intro ceiling
  cases budget : q.minuteBudget with
  | none =>
    rw [Policy.attachBudget, budget] at attached
    obtain rfl := Except.ok.inj attached
    exact absurd budget ceiling
  | some minutes =>
    refine ⟨(counted_gives attached budget).2, ?_⟩
    cases ledger : server.jobsDb with
    | true => rfl
    | false =>
      rw [Policy.attachBudget, budget, ledger] at attached
      cases attached

section Choice
variable {l : MeteredLedger} {p : Policy} {s s' : World × Course} {hold : Option Nat}

/-- The ceiling is set, so what takes a hold can also give it back. -/
def Gives (p : Policy) : Prop := p.minuteBudget ≠ none → p.releaseMeteredMinutes = true

/-- A hold is taken only for a ceiling, and not with a refusal. -/
def Reserved (p : Policy) (l : MeteredLedger) :
    Except Raised (Option Nat × Option String) → World × Course → Prop
  | .ok (hold, refusal), s => Bears l hold true none false false s ∧
      (hold.isSome → refusal = none ∧ p.minuteBudget ≠ none)
  | .error _, s => Clear l s

/-- Where there is no decision the hold went back, or the ledger failed to take it back. -/
def Undecided (l : MeteredLedger) (e : Raised) (s : World × Course) : Prop :=
  Clear l s ∨ (∃ text, e = .sqliteError text) ∧ Phase l true none false true s

/-- A decision bears the hold that was taken for it, and then it is for the hosted lane. -/
def Decided (p : Policy) (l : MeteredLedger) : Except Raised RouteDecision → World × Course → Prop
  | .ok d, s => Bears l d.reservation true none false false s ∧
      (d.reservation.isSome → d.lane = hostedLane ∧ p.minuteBudget ≠ none)
  | .error e, s => Undecided l e s

/-- An exception other than the ledger's own ends a request that has no hold. -/
theorem undecided_clear {e : Raised} (other : ∀ text, e ≠ .sqliteError text) (h : Undecided l e s) :
    Clear l s := h.resolve_right fun failed => failed.1.elim other

theorem unreserved_decided {d : RouteDecision} (free : d.reservation = none) (h : Clear l s) :
    Decided p l (.ok d) s :=
  ⟨clear_bears free h, fun some => by rw [free] at some; cases some⟩

/-- Where the ceiling turns a request away, no hold was taken. -/
theorem reserved_refused {reason : String} (h : Reserved p l (.ok (hold, some reason)) s) :
    Clear l s := by
  rcases h.1 with ⟨-, clear⟩ | ⟨own, -⟩
  · exact clear
  · have refused := (h.2 (own ▸ rfl)).1
    cases refused

theorem noted_reserveMetered (estimated : Double) (h : Clear l s) :
    Noted (reserveMetered p estimated) s (Reserved p l) := by
  have without {refusal : Option String} {s : World × Course} (clear : Clear l s) :
      Reserved p l (.ok (none, refusal)) s := ⟨clear_bears rfl clear, fun some => nomatch some⟩
  unfold reserveMetered
  split
  · exact ensures_done (without h)
  rename_i budget ceiling
  split
  · exact ensures_done (without h)
  split
  · refine ensures_bind (ensures_mono (noted_clear (only_budgetRefusal _ _) h) fun r s' clear => ?_)
    cases r with
    | error e => exact clear
    | ok refusal => exact ensures_done (without clear)
  refine noted_holding trivial trivial (fun r s s' left ledger course => ?_) fun s₁ ledger course => ?_
  · cases r with
    | error e => exact ⟨ledger ▸ left.ledger, course ▸ left.course⟩
    | ok reserved => exact ⟨bears_same left.1 ledger course, left.2⟩
  · have clear : Clear l s₁ := ⟨ledger ▸ h.ledger, course ▸ h.course⟩
    have counts : (spentMinutes p).Only Call.unmetered := only_bind (only_call trivial) fun _ => trivial
    refine ensures_bind (ensures_mono (noted_clear counts clear) fun r s₂ clear => ?_)
    cases r with
    | error e => exact clear
    | ok used =>
      simp only [onward]
      split
      · exact ensures_done (without clear)
      · refine ensures_bind (ensures_call fun k r s₃ performed => ?_)
        rcases reserve_phase clear performed with ⟨rfl, phase⟩ | ⟨⟨e, rfl⟩, clear⟩
        · refine ensures_done ⟨Or.inr ⟨rfl, phase⟩, fun _ => ⟨rfl, ?_⟩⟩
          rw [ceiling]
          exact Option.some_ne_none budget
        · exact clear

/-- The hold went back, or the ledger failed to take it. -/
def Back (l : MeteredLedger) : Except Raised Unit → World × Course → Prop
  | .ok _, s => Clear l s
  | .error e, s => (∃ text, e = .sqliteError text) ∧ Phase l true none false true s

theorem noted_releaseHold (gives : hold.isSome → p.releaseMeteredMinutes = true)
    (h : Bears l hold true none false false s) : Noted (releaseHold p hold) s (Back l) := by
  rcases h with ⟨rfl, clear⟩ | ⟨rfl, phase⟩
  · exact ensures_done clear
  · simp only [releaseHold, gives rfl, if_true]
    refine ensures_call fun k r s' performed => ?_
    rcases release_phase phase (absurd · (by decide)) performed with
      ⟨rfl, back⟩ | ⟨⟨text, rfl⟩, failed⟩
    · exact back
    · exact ⟨⟨text, rfl⟩, failed⟩

theorem noted_chooseHeld (gives : Gives p) (request : RouteRequest) (runners : List Runner)
    (h : Clear l s) :
    Noted (chooseHeld p request runners) s (Decided p l) := by
  refine ensures_bind (ensures_mono (noted_reserveMetered _ h) fun r s' reserved => ?_)
  cases r with
  | error e => exact Or.inl reserved
  | ok taken =>
    obtain ⟨hold, refusal⟩ := taken
    have back := noted_releaseHold (p := p) (fun some => gives (reserved.2 some).2) reserved.1
    simp only [onward]
    split
    · rename_i reason
      have clear := reserved_refused reserved
      refine ensures_lift ?_
      cases lane : p.firstLocal request runners reason with
      | error e => exact Or.inl clear
      | ok d => exact unreserved_decided (firstLocal_unreserved lane) clear
    · split
      · refine ensures_bind (ensures_mono back fun r s₂ left => ?_)
        cases r with
        | error e' => exact Or.inr left
        | ok _ => exact ensures_fail (Or.inl left)
      · rename_i d lane
        have none_held := chooseLane_unreserved lane
        split
        · rename_i kept
          exact ensures_done ⟨reserved.1, fun some => ⟨kept.2, (reserved.2 some).2⟩⟩
        · refine ensures_bind (ensures_mono back fun r s₂ left => ?_)
          cases r with
          | error e' => exact Or.inr left
          | ok _ => exact ensures_done (unreserved_decided none_held left)

theorem decided_same {r : Except Raised RouteDecision} (h : Decided p l r s)
    (ledger : s'.1.metered = s.1.metered) (course : s'.2 = s.2) : Decided p l r s' := by
  cases r with
  | ok d => exact ⟨bears_same h.1 ledger course, h.2⟩
  | error e =>
    exact h.imp (fun clear => ⟨ledger ▸ clear.ledger, course ▸ clear.course⟩)
      (And.imp_right fun phase => ⟨ledger ▸ phase.ledger, course ▸ phase.course⟩)

variable (gives : Gives p) (request : RouteRequest) (runners : List Runner)
include gives

theorem noted_choose (h : Clear l s) : Noted (choose p request runners) s (Decided p l) := by
  unfold choose
  split
  · exact ensures_bind (sure_clear (c := .quotaReading) trivial h fun reading s' clear =>
      noted_chooseHeld gives _ runners clear)
  · exact noted_chooseHeld gives request runners h

/-- A decision whose reason or capacity is filled in is decided as it was. -/
theorem noted_chooseWebhookLane (allowBusy : Bool) (h : Clear l s) :
    Noted (chooseWebhookLane p request runners allowBusy) s (Decided p l) := by
  refine ensures_try (ensures_mono (noted_choose gives request runners h) fun r s' decided => ?_)
  split
  · exact ensures_done decided
  · have clear : Clear l s' := undecided_clear (by rintro _ ⟨⟩) decided
    split
    · exact ensures_fail (Or.inl clear)
    · refine ensures_bind (ensures_mono (noted_choose gives request _ clear) fun r s₂ decided => ?_)
      cases r with
      | error e => exact decided
      | ok d => exact ensures_done decided
  · exact ensures_fail decided

end Choice

section Decision
variable {l : MeteredLedger} {server : Server} {s : World × Course}

/-- A decision with the runner that was held for it. -/
abbrev DecidedPair (p : Policy) (l : MeteredLedger)
    (r : Except Raised (RouteDecision × Option (String × Nat))) : World × Course → Prop :=
  Decided p l (r.map Prod.fst)

theorem noted_decideUnderCapacity (gives : Gives server.policy) (request : RouteRequest)
    (repository : String) (allowBusy : Bool) (runners : List RepositoryRunner) (now : ℚ)
    (h : Clear l s) :
    Noted (decideUnderCapacity server request repository allowBusy runners now) s
      (DecidedPair server.policy l) := by
  refine ensures_bind (sure_clear (c := .expireReservations repository now) trivial h
    fun _ s₁ clear => ?_)
  refine ensures_bind (ensures_mono (noted_chooseWebhookLane gives request _ allowBusy clear)
    fun r s₂ decided => ?_)
  cases r with
  | error e => exact decided
  | ok d =>
    refine ensures_bind (ensures_call fun k r s₃ performed => ?_)
    obtain ⟨⟨reserved, rfl⟩, ledger, course⟩ :=
      sure_keeps (c := .reservations repository) trivial performed
    have decided := decided_same decided ledger course
    simp only [onward]
    split
    · rename_i elsewhere
      have free : d.reservation = none := by
        by_contra some
        exact elsewhere.1 (decided.2 (Option.isSome_iff_ne_none.mpr some)).1
      refine ensures_fail (Or.inl ?_)
      rcases decided.1 with ⟨-, clear⟩ | ⟨same, -⟩
      · exact clear
      · rw [free] at same
        cases same
    · split
      · refine ensures_bind (ensures_call fun k r s₄ performed => ?_)
        obtain ⟨⟨id, rfl⟩, ledger, course⟩ := sure_keeps (c := .monotonicNs) trivial performed
        have decided := decided_same decided ledger course
        refine ensures_bind (ensures_call fun k r s₅ performed => ?_)
        obtain ⟨⟨_, rfl⟩, ledger, course⟩ := sure_keeps (c := .reserveRunner _) trivial performed
        exact ensures_done (decided_same decided ledger course)
      · exact ensures_done decided

theorem noted_dispatchDecision (gives : Gives server.policy) (request : RouteRequest)
    (repository : String) (allowBusy : Bool) (h : Clear l s) :
    Noted (dispatchDecision server request repository allowBusy) s (DecidedPair server.policy l) := by
  refine ensures_try (ensures_mono (noted_choose gives request [] h) fun r s₁ decided => ?_)
  split
  · exact ensures_done decided
  · have clear : Clear l s₁ := undecided_clear (by rintro _ ⟨⟩) decided
    split
    · exact ensures_fail (Or.inl clear)
    · refine ensures_bind (ensures_mono (noted_clear (only_call trivial) clear) fun r s₂ clear => ?_)
      cases r with
      | error e => exact Or.inl clear
      | ok runners =>
        refine ensures_bind (sure_clear (c := .monotonic) trivial clear fun now s₃ clear => ?_)
        refine noted_holding trivial trivial (fun r s s' => decided_same) fun s₄ ledger course => ?_
        exact noted_decideUnderCapacity gives request repository allowBusy runners now
          ⟨ledger ▸ clear.ledger, course ▸ clear.course⟩
  · exact ensures_fail decided

end Decision

end Cindral.Dispatch

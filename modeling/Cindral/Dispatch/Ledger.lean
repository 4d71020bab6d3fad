import Cindral.Dispatch.Frame
import Mathlib.Logic.Relation

/-! What the statements on the delivery ledger do to a row: it never goes, and its state only moves forward. -/

namespace Cindral.Dispatch
open Base Routing

inductive DeliveryState.Moves : DeliveryState → DeliveryState → Prop
  | claim : Moves .ready .attempting
  | settle {state : DeliveryState} : state.terminal → Moves .attempting state
  | reject : Moves .ready .rejected

/-- What every reader of a row can count on later. -/
structure Delivery.Evolved (d d' : Delivery) : Prop where
  key : d'.key = d.key
  registered : d'.registered = d.registered
  state : d.state = d'.state ∨ d.state.Moves d'.state

/-- The ledger after a statement: every row has evolved, and a new one is ready under a lowered name. -/
structure Deliveries.Evolves (t t' : Deliveries) : Prop where
  kept : ∀ k d, t.find? k = some d → ∃ d', t'.find? k = some d' ∧ d.Evolved d'
  born : ∀ k d', t.find? k = none → t'.find? k = some d' → d'.state = .ready ∧
    lower d'.repository = d'.repository

namespace Deliveries
variable {t : Deliveries}

theorem Evolves.refl (t : Deliveries) : t.Evolves t :=
  ⟨fun _ d found => ⟨d, found, rfl, rfl, Or.inl rfl⟩,
  fun _ _ none found => by rw [none] at found; cases found⟩

theorem register_find (t : Deliveries) (repository delivery fingerprint workflow ref : String)
    (inputs : List (String × String)) (sha : String) (now : ℚ) :
    (t.register repository delivery fingerprint workflow ref inputs sha now).2.find?
      (lower repository, delivery) =
      some (t.register repository delivery fingerprint workflow ref inputs sha now).1 := by
  unfold register
  simp only [Delivery.key]
  split
  · rename_i existing found; exact found
  · simp only [Table.find?_replace, Delivery.key, if_true]

theorem register_evolves (t : Deliveries) (repository delivery fingerprint workflow ref : String)
    (inputs : List (String × String)) (sha : String) (now : ℚ) :
    t.Evolves (t.register repository delivery fingerprint workflow ref inputs sha now).2 := by
  unfold register
  simp only [Delivery.key]
  split
  · exact Evolves.refl t
  · rename_i absent
    refine ⟨fun k d found => ⟨d, ?_, rfl, rfl, Or.inl rfl⟩, fun k d' none found => ?_⟩
    · rw [Table.find?_replace, if_neg, found]
      rintro rfl
      rw [Delivery.key, absent] at found
      cases found
    · rw [Table.find?_replace] at found
      split at found
      · obtain rfl := Option.some.inj found
        exact ⟨rfl, lower_lower repository⟩
      · rw [none] at found; cases found

/-- A rewrite of the rows that match, each by a move. -/
theorem update_evolves {p : Delivery → Bool} {e : Edit Delivery.key}
    (moves : ∀ d, p d → (e d).registered = d.registered ∧ d.state.Moves (e d).state) :
    t.Evolves (t.update (e.only p)) := by
  refine ⟨fun k d found => ⟨e.only p d, ?_, (e.only p).keeps d, ?_, ?_⟩, fun k d' none found => ?_⟩
  · rw [Table.find?_update, found, Option.map_some]
  · rw [Edit.only_apply]
    split
    · rename_i hit; exact (moves d hit).1
    · rfl
  · rw [Edit.only_apply]
    split
    · rename_i hit; exact Or.inr (moves d hit).2
    · exact Or.inl rfl
  · rw [Table.find?_update, none] at found; cases found

theorem move_evolves {source target : DeliveryState} (allowed : source.Moves target) (t : Deliveries)
    (repository delivery : String) (error : Option String) (now : ℚ) :
    t.Evolves (t.move repository delivery source target error now).2 := by
  refine update_evolves fun d hit => ⟨rfl, ?_⟩
  simp only [Bool.and_eq_true, decide_eq_true_eq] at hit
  rw [hit.2]
  exact allowed

theorem recover_evolves (t : Deliveries) (now : ℚ) : t.Evolves (t.recover now) := by
  refine update_evolves fun d hit => ⟨rfl, ?_⟩
  rw [of_decide_eq_true hit]
  exact .settle rfl

theorem evolves_of_recovered {t' : Deliveries} (h : t' = t ∨ ∃ now, t' = t.recover now) :
    t.Evolves t' := by
  rcases h with rfl | ⟨now, rfl⟩
  · exact Evolves.refl _
  · exact recover_evolves t now

theorem recovered_absent {t' : Deliveries} (h : t' = t ∨ ∃ now, t' = t.recover now)
    {key : String × String}
    (absent : t.find? key = none) : t'.find? key = none := by
  rcases h with rfl | ⟨now, rfl⟩
  · exact absent
  · rw [recover, Table.find?_update, absent, Option.map_none]

/-- A move that was taken found its row in the state it expects. -/
theorem move_taken {repository delivery : String} {source target : DeliveryState}
    {error : Option String} {now : ℚ}
    (taken : (t.move repository delivery source target error now).1 = true) :
    (∃ d, t.find? (lower repository, delivery) = some d ∧ d.state = source) ∧
      ∃ d', (t.move repository delivery source target error now).2.find?
        (lower repository, delivery) = some d' ∧
        d'.state = target := by
  have one := of_decide_eq_true taken
  obtain ⟨d, member, hit⟩ := List.countP_pos_iff.mp (by rw [one]; exact Nat.one_pos)
  have same := hit
  simp only [Bool.and_eq_true, decide_eq_true_eq] at same
  have found := Table.find?_of_mem member
  rw [same.1] at found
  refine ⟨⟨d, found, same.2⟩, Delivery.moved target error now d, ?_, rfl⟩
  simp only [move, Table.find?_update, found, Option.map_some, Edit.only_apply, hit, if_true]

theorem move_state {repository delivery : String} {source target : DeliveryState}
    {error : Option String} {now : ℚ} {key : String × String} {d' : Delivery}
    (found : (t.move repository delivery source target error now).2.find? key = some d') :
    ∃ d, t.find? key = some d ∧
      (d'.state = d.state ∨ key = (lower repository, delivery) ∧ d.state = source ∧
      d'.state = target) := by
  rw [move, Table.find?_update] at found
  obtain ⟨d, before, rfl⟩ := Option.map_eq_some_iff.mp found
  refine ⟨d, before, ?_⟩
  rw [Edit.only_apply]
  split
  · rename_i hit
    simp only [Bool.and_eq_true, decide_eq_true_eq] at hit
    exact Or.inr ⟨(Table.find?_some before).2.symm.trans hit.1, hit.2, rfl⟩
  · exact Or.inl rfl

theorem register_row {repository delivery fingerprint workflow ref sha : String}
    {inputs : List (String × String)} {now : ℚ} {key : String × String} {d' : Delivery}
    (found : (t.register repository delivery fingerprint workflow ref inputs sha now).2.find?
    key = some d') :
    t.find? key = some d' ∨ d'.state = .ready := by
  simp only [register, Delivery.key] at found
  split at found
  · exact Or.inl found
  · rw [Table.find?_replace] at found
    split at found
    · obtain rfl := Option.some.inj found
      exact Or.inr rfl
    · exact Or.inl found

/-- A move that finds its row in the state it expects is taken. -/
theorem move_hits {repository delivery : String} {source target : DeliveryState}
    {error : Option String} {now : ℚ} {d : Delivery}
    (found : t.find? (lower repository, delivery) = some d) (state : d.state = source) :
    (t.move repository delivery source target error now).1 = true := by
  obtain ⟨member, key⟩ := Table.find?_some found
  refine decide_eq_true (Nat.le_antisymm ?_ (List.countP_pos_iff.mpr ⟨d, member, by simp [key, state]⟩))
  have once := Table.countP_le_succ (t := t) (p := fun _ => false)
    (q := fun d : Delivery => d.key = (lower repository, delivery) && d.state = source)
    (lower repository, delivery)
    (fun r _ hit => by
      simp only [Bool.and_eq_true, decide_eq_true_eq] at hit
      exact Or.inr hit.1)
  simpa using once

end Deliveries

theorem DeliveryState.Moves.not_ready {s s' : DeliveryState} (h : s.Moves s') : s' ≠ .ready := by
  cases h with
  | claim => exact nofun
  | settle terminal => rintro rfl; cases terminal
  | reject => exact nofun

theorem DeliveryState.Moves.not_terminal {s s' : DeliveryState} (h : s.Moves s') :
    s.terminal = false := by
  cases h with
  | claim => rfl
  | settle _ => rfl
  | reject => rfl

variable {k : Choice} {w w' : World} {c : Call} {r : Except Raised (Ans c)}

/-- The only ways a call writes the ledger: a registration, or one move of one row. -/
theorem perform_ledger (h : perform k w c = some (r, w')) :
    w'.deliveries = w.deliveries ∨
    (∃ repository delivery fingerprint workflow ref inputs sha,
      c = .register repository delivery fingerprint workflow ref inputs sha ∧
        w'.deliveries = (w.deliveries.register repository delivery fingerprint workflow ref inputs
        sha k.now).2) ∨
    ∃ repository delivery source target error, source.Moves target ∧
      w'.deliveries = (w.deliveries.move repository delivery source target error k.now).2 := by
  rcases perform_cases h with ⟨e, _, _, _, rfl⟩ | ⟨_, answered⟩
  · exact Or.inl rfl
  · cases c with
    | register repository delivery fingerprint workflow ref inputs sha =>
      obtain ⟨-, rfl⟩ := Prod.mk.inj (Option.some.inj answered)
      exact Or.inr (Or.inl ⟨_, _, _, _, _, _, _, rfl, rfl⟩)
    | claimDelivery repository delivery =>
      obtain ⟨-, rfl⟩ := Prod.mk.inj (Option.some.inj answered)
      exact Or.inr (Or.inr ⟨_, _, _, _, _, .claim, rfl⟩)
    | finish repository delivery state error =>
      simp only [answer] at answered
      split at answered
      · obtain ⟨-, rfl⟩ := Prod.mk.inj (Option.some.inj answered)
        exact Or.inl rfl
      · rename_i terminal
        obtain ⟨-, rfl⟩ := Prod.mk.inj (Option.some.inj answered)
        exact Or.inr (Or.inr ⟨_, _, _, _, _, .settle (by simpa using terminal), rfl⟩)
    | rejectReady repository delivery reason =>
      obtain ⟨-, rfl⟩ := Prod.mk.inj (Option.some.inj answered)
      exact Or.inr (Or.inr ⟨_, _, _, _, _, .reject, rfl⟩)
    | enqueue request =>
      simp only [answer] at answered
      split at answered
      · obtain ⟨-, rfl⟩ := Prod.mk.inj (Option.some.inj answered)
        exact Or.inl rfl
      · obtain ⟨-, rfl⟩ := Prod.mk.inj (Option.some.inj answered)
        exact Or.inl rfl
    | dispatch _ | getDelivery _ _ | pending =>
      obtain ⟨-, rfl⟩ := Prod.mk.inj (Option.some.inj answered)
      exact Or.inl rfl
    | _ => exact Or.inl (sideline_keeps h trivial).2.2

theorem perform_evolves (h : perform k w c = some (r, w')) : w.deliveries.Evolves w'.deliveries := by
  rcases perform_ledger h with same | ⟨_, _, _, _, _, _, _, _, same⟩ | ⟨_, _, _, _, _, moves, same⟩
  · rw [same]; exact Deliveries.Evolves.refl _
  · rw [same]; exact Deliveries.register_evolves _ _ _ _ _ _ _ _ _
  · rw [same]; exact Deliveries.move_evolves moves _ _ _ _ _

/-- A row is born of a registration, and holds what it was registered with. -/
theorem perform_born (h : perform k w c = some (r, w')) {key : String × String} {d : Delivery}
    (absent : w.deliveries.find? key = none) (found : w'.deliveries.find? key = some d) :
    ∃ repository delivery fingerprint workflow ref inputs sha,
      c = .register repository delivery fingerprint workflow ref inputs sha ∧
        key = (lower repository, delivery) ∧
        d.registered = (fingerprint, workflow, ref, inputs, sha) := by
  rcases perform_ledger h with same | ⟨repository, delivery, fingerprint, workflow, ref, inputs,
    sha, asked, same⟩ |
    ⟨_, _, _, _, _, _, same⟩
  · rw [same, absent] at found
    cases found
  · refine ⟨repository, delivery, fingerprint, workflow, ref, inputs, sha, asked, ?_⟩
    rw [same] at found
    simp only [Deliveries.register, Delivery.key] at found
    split at found
    · rw [absent] at found
      cases found
    · rw [Table.find?_replace] at found
      split at found
      · rename_i key
        obtain rfl := Option.some.inj found
        exact ⟨key.symm, rfl⟩
      · rw [absent] at found
        cases found
  · rw [same, Deliveries.move, Table.find?_update, absent] at found
    cases found

end Cindral.Dispatch

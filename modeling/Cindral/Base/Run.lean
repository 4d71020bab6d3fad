import Mathlib.Data.List.Basic

/-! Runs of a partial step function, and the rules that carry a fact along one. -/

namespace Cindral.Base
variable {σ α : Type}

/-- The state a list of actions leads to, or nothing once one of them is not enabled. -/
def run (step : σ → α → Option σ) : σ → List α → Option σ
  | s, [] => some s
  | s, a :: rest => (step s a).bind fun t => run step t rest

/-- Every action of a run is taken in a state that meets the guard. -/
def Along (step : σ → α → Option σ) (guard : σ → α → Prop) : σ → List α → Prop
  | _, [] => True
  | s, a :: rest => guard s a ∧ ∀ t, step s a = some t → Along step guard t rest

variable {step : σ → α → Option σ}

theorem run_cons {s u : σ} {a : α} {rest : List α} (h : run step s (a :: rest) = some u) :
    ∃ t, step s a = some t ∧ run step t rest = some u :=
  Option.bind_eq_some_iff.mp h

theorem run_append {s t u : σ} {first second : List α}
    (h₁ : run step s first = some t) (h₂ : run step t second = some u) :
    run step s (first ++ second) = some u := by
  induction first generalizing s with
  | nil => obtain rfl := Option.some.inj h₁; exact h₂
  | cons a rest ih =>
    obtain ⟨x, taken, tail⟩ := run_cons h₁
    simp only [List.cons_append, run, taken, Option.bind_some]
    exact ih tail

theorem run_split {s u : σ} {first second : List α}
    (h : run step s (first ++ second) = some u) :
    ∃ t, run step s first = some t ∧ run step t second = some u := by
  induction first generalizing s with
  | nil => exact ⟨s, rfl, h⟩
  | cons a rest ih =>
    obtain ⟨x, taken, tail⟩ := run_cons h
    obtain ⟨t, left, right⟩ := ih tail
    exact ⟨t, by simp only [run, taken, Option.bind_some]; exact left, right⟩

/-- What is written down beside the state changes no run. -/
theorem run_map {τ : Type} {noted : τ → α → Option τ} {state : τ → σ}
    (each : ∀ w a, (noted w a).map state = step (state w) a) (w : τ) (actions : List α) :
    (run noted w actions).map state = run step (state w) actions := by
  induction actions generalizing w with
  | nil => rfl
  | cons a rest ih =>
    have moved := each w a
    rw [run, run, ← moved]
    cases noted w a with
    | none => rfl
    | some v => exact ih v

/-- A fact that each guarded step keeps holds where a guarded run ends. -/
theorem along_invariant {guard : σ → α → Prop} {P : σ → Prop}
    (keep : ∀ s a t, P s → guard s a → step s a = some t → P t) {s t : σ} {actions : List α}
    (along : Along step guard s actions) (start : P s) (h : run step s actions = some t) : P t := by
  induction actions generalizing s with
  | nil => obtain rfl := Option.some.inj h; exact start
  | cons a rest ih =>
    obtain ⟨x, taken, tail⟩ := run_cons h
    exact ih (along.2 x taken) (keep s a x start along.1 taken) tail

theorem along_trivial (s : σ) (actions : List α) : Along step (fun _ _ => True) s actions := by
  induction actions generalizing s with
  | nil => trivial
  | cons a rest ih => exact ⟨trivial, fun t _ => ih t⟩

theorem along_mono {guard guard' : σ → α → Prop} (weaker : ∀ s a, guard s a → guard' s a) {s : σ}
    {actions : List α}
    (h : Along step guard s actions) : Along step guard' s actions := by
  induction actions generalizing s with
  | nil => trivial
  | cons a rest ih => exact ⟨weaker s a h.1, fun t taken => ih (h.2 t taken)⟩

theorem along_and {guard guard' : σ → α → Prop} {s : σ} {actions : List α}
    (h : Along step guard s actions)
    (h' : Along step guard' s actions) : Along step (fun s a => guard s a ∧ guard' s a) s actions := by
  induction actions generalizing s with
  | nil => trivial
  | cons a rest ih => exact ⟨⟨h.1, h'.1⟩, fun t taken => ih (h.2 t taken) (h'.2 t taken)⟩

theorem along_split {guard : σ → α → Prop} {s t : σ} {first second : List α}
    (h : Along step guard s (first ++ second))
    (ran : run step s first = some t) : Along step guard s first ∧ Along step guard t second := by
  induction first generalizing s with
  | nil =>
    obtain rfl := Option.some.inj ran
    exact ⟨trivial, h⟩
  | cons a rest ih =>
    obtain ⟨x, taken, tail⟩ := run_cons ran
    have later := ih (h.2 x taken) tail
    refine ⟨⟨h.1, fun u taken' => ?_⟩, later.2⟩
    obtain rfl := Option.some.inj (taken.symm.trans taken')
    exact later.1

/-- A guard that holds wherever a fact does, if the guarded steps keep the fact. -/
theorem along_derives {guard guard' : σ → α → Prop} {P : σ → Prop}
    (keep : ∀ s a t, P s → guard s a → step s a = some t → P t)
    (gives : ∀ s a, P s → guard s a → guard' s a) {s : σ} {actions : List α}
    (along : Along step guard s actions) (start : P s) : Along step guard' s actions := by
  induction actions generalizing s with
  | nil => trivial
  | cons a rest ih =>
    exact ⟨gives s a start along.1, fun t taken => ih (along.2 t taken) (keep s a t start along.1 taken)⟩

/-- Where each step keeps a fact exactly when the guard holds, a guarded run is one whose every
state has the fact. -/
theorem along_iff {guard : σ → α → Prop} {P : σ → Prop}
    (exact_ : ∀ s a t, P s → step s a = some t → (P t ↔ guard s a))
    (idle : ∀ s a, step s a = none → guard s a) {s : σ} {actions : List α} (start : P s) :
    Along step guard s actions ↔ ∀ first rest t, first ++ rest = actions →
    run step s first = some t → P t := by
  constructor
  · rintro along first rest t rfl ran
    have guarded : Along step guard s first := by
      clear ran
      induction first generalizing s with
      | nil => trivial
      | cons a first ih =>
        refine ⟨along.1, fun u taken => ih ((exact_ s a u start taken).mpr along.1) (along.2 u taken)⟩
    exact along_invariant (fun s a t holds ok taken => (exact_ s a t holds taken).mpr ok) guarded
      start ran
  · intro holds
    induction actions generalizing s with
    | nil => trivial
    | cons a rest ih =>
      cases taken : step s a with
      | none => exact ⟨idle s a taken, fun t taken' => by rw [taken] at taken'; cases taken'⟩
      | some u =>
        have one : run step s [a] = some u := by simp [run, taken]
        have next : P u := holds [a] rest u rfl one
        refine ⟨(exact_ s a u start taken).mp next, fun t taken' => ?_⟩
        obtain rfl := Option.some.inj (taken.symm.trans taken')
        refine ih next fun first later t split ran => ?_
        exact holds (a :: first) later t (by rw [List.cons_append, split]) (run_append one ran)

/-- A guard that reads the action alone is a condition on the list of actions. -/
theorem along_of_forall (ok : α → Prop) {s : σ} {actions : List α} (h : ∀ a ∈ actions, ok a) :
    Along step (fun _ a => ok a) s actions := by
  induction actions generalizing s with
  | nil => trivial
  | cons a rest ih =>
    exact ⟨h a List.mem_cons_self, fun t _ => ih fun b member => h b (List.mem_cons_of_mem a member)⟩

/-- A fact that each step keeps holds in every state a run reaches. -/
theorem run_invariant {P : σ → Prop} (keep : ∀ s a t, P s → step s a = some t → P t)
    {s t : σ} {actions : List α} (start : P s) (h : run step s actions = some t) : P t :=
  along_invariant (fun s a t holds _ taken => keep s a t holds taken) (along_trivial s actions) start h

theorem along_reaches {s u : σ} {actions : List α} (h : run step s actions = some u) :
    Along step (fun s a => ∀ t, step s a = some t → ∃ rest, run step t rest = some u) s actions := by
  induction actions generalizing s with
  | nil => trivial
  | cons a rest ih =>
    refine ⟨fun t taken => ⟨rest, ?_⟩, fun t taken => ih ?_⟩
    · rwa [run, taken] at h
    · rwa [run, taken] at h

/-- Whether a run stays guarded can be seen by taking it. -/
instance decidableAlong {guard : σ → α → Prop} [∀ s a, Decidable (guard s a)] :
    (s : σ) → (actions : List α) → Decidable (Along step guard s actions)
  | _, [] => isTrue trivial
  | s, a :: rest =>
    match taken : step s a with
    | none => decidable_of_iff (guard s a)
      ⟨fun holds => ⟨holds, fun t taken' => by rw [taken] at taken'; cases taken'⟩, And.left⟩
    | some t =>
      have : Decidable (Along step guard t rest) := decidableAlong t rest
      decidable_of_iff (guard s a ∧ Along step guard t rest)
        ⟨fun h => ⟨h.1, fun u taken' => by rw [taken] at taken'; exact Option.some.inj taken' ▸ h.2⟩,
          fun h => ⟨h.1, h.2 t taken⟩⟩

end Cindral.Base

import Mathlib.Data.List.Forall2
import Mathlib.Data.List.Count
import Mathlib.Data.List.Nodup
import Mathlib.Data.List.Perm.Subperm

/-!
# Matchings

Claims on places, where each claim fits some of them. A set of claims stays assignable when a claim joins
that fits more places than there are claims which could sit in one of those.
-/

namespace Cindral.Base
variable {α ι : Type} {fits : α → ι → Prop} {xs ys : List α} {places : List ι}

/-- Each claim has a place of its own that it fits. -/
def Assignable (fits : α → ι → Prop) (xs : List α) : Prop :=
  ∃ places : List ι, places.Nodup ∧ List.Forall₂ fits xs places

theorem assignable_nil : Assignable fits [] := ⟨[], List.nodup_nil, .nil⟩

theorem forall₂_sublist (below : xs.Sublist ys) (h : List.Forall₂ fits ys places) :
    ∃ fewer, fewer.Sublist places ∧ List.Forall₂ fits xs fewer := by
  induction below generalizing places with
  | slnil => exact ⟨[], List.nil_sublist _, .nil⟩
  | cons y _ ih =>
    obtain ⟨i, rest, -, tail, rfl⟩ := List.forall₂_cons_left_iff.mp h
    obtain ⟨fewer, within, fitted⟩ := ih tail
    exact ⟨fewer, within.cons i, fitted⟩
  | cons_cons y _ ih =>
    obtain ⟨i, rest, head, tail, rfl⟩ := List.forall₂_cons_left_iff.mp h
    obtain ⟨fewer, within, fitted⟩ := ih tail
    exact ⟨i :: fewer, within.cons_cons i, .cons head fitted⟩

theorem assignable_sublist (below : xs.Sublist ys) (h : Assignable fits ys) : Assignable fits xs := by
  obtain ⟨places, distinct, fitted⟩ := h
  obtain ⟨fewer, within, fitted⟩ := forall₂_sublist below fitted
  exact ⟨fewer, distinct.sublist within, fitted⟩

/-- Places that are taken among some options, against the claims that could sit in one. -/
theorem countP_places_le {option : ι → Bool} {rival : α → Bool}
    (sits : ∀ x ∈ xs, ∀ i, fits x i → option i → rival x)
    (h : List.Forall₂ fits xs places) : places.countP option ≤ xs.countP rival := by
  induction h with
  | nil => exact Nat.le_refl _
  | @cons x i xs places head tail ih =>
    have rest := ih fun y member => sits y (List.mem_cons_of_mem x member)
    have first : (if option i then 1 else 0) ≤ (if rival x then 1 else 0) := by
      by_cases open_place : option i
      · have contested := sits x List.mem_cons_self i head open_place
        simp only [open_place, contested, if_true, Nat.le_refl]
      · rw [if_neg open_place]
        exact Nat.zero_le _
    rw [List.countP_cons, List.countP_cons]
    exact Nat.add_le_add rest first

/-- One more claim. -/
theorem assignable_concat [DecidableEq ι] {x : α} {options : List ι} {rival : α → Bool}
    (h : Assignable fits xs)
    (distinct : options.Nodup) (fit : ∀ i ∈ options, fits x i)
    (sits : ∀ y ∈ xs, ∀ i ∈ options, fits y i → rival y) (free : xs.countP rival < options.length) :
    Assignable fits (xs ++ [x]) := by
  obtain ⟨places, apart, fitted⟩ := h
  have taken : places.countP (· ∈ options) ≤ xs.countP rival :=
    countP_places_le (fun y member i fitting inside => sits y member i (by simpa using inside)
    fitting) fitted
  obtain ⟨i, inside, unused⟩ : ∃ i ∈ options, i ∉ places := by
    by_contra full
    push Not at full
    have within : options ⊆ places.filter (· ∈ options) := fun i inside =>
      List.mem_filter.mpr ⟨full i inside, by simpa using inside⟩
    have few := (List.subperm_of_subset distinct within).length_le
    rw [← List.countP_eq_length_filter] at few
    omega
  refine ⟨places ++ [i], ?_, List.rel_append fitted (.cons (fit i inside) .nil)⟩
  rw [List.nodup_append]
  refine ⟨apart, List.nodup_singleton i, fun j member k last => ?_⟩
  obtain rfl := List.mem_singleton.mp last
  rintro rfl
  exact unused member

end Cindral.Base

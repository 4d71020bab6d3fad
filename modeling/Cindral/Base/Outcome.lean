import Mathlib.Data.List.Forall2

/-! Computations that may fail. -/

namespace Cindral.Base
variable {ε α β : Type}

/-- A computation that ends well has done so at each of its steps. -/
theorem bind_ok {first : Except ε α} {next : α → Except ε β} {result : β}
    (h : first >>= next = .ok result) : ∃ value, first = .ok value ∧ next value = .ok result := by
  cases first with
  | error e => cases h
  | ok value => exact ⟨value, rfl, h⟩

theorem map_ok {f : α → β} {first : Except ε α} {result : β} (h : first.map f = .ok result) :
    ∃ value, first = .ok value ∧ f value = result := by
  cases first with
  | error e => cases h
  | ok value => exact ⟨value, rfl, Except.ok.inj h⟩

theorem mapM_ok_iff {f : α → Except ε β} {xs : List α} {ys : List β} :
    xs.mapM f = .ok ys ↔ List.Forall₂ (fun x y => f x = .ok y) xs ys := by
  induction xs generalizing ys with
  | nil =>
    rw [List.forall₂_nil_left_iff, List.mapM_nil]
    exact ⟨fun h => (Except.ok.inj h).symm, fun h => congrArg Except.ok h.symm⟩
  | cons x rest ih =>
    rw [List.mapM_cons, List.forall₂_cons_left_iff]
    constructor
    · intro h
      obtain ⟨y, first, h⟩ := bind_ok h
      obtain ⟨others, later, h⟩ := bind_ok h
      exact ⟨y, others, first, ih.mp later, (Except.ok.inj h).symm⟩
    · rintro ⟨y, others, first, later, rfl⟩
      rw [first, ih.mpr later]
      rfl

theorem mem_of_mapM_ok {f : α → Except ε β} {xs : List α} {ys : List β} {y : β} (h : xs.mapM f = .ok ys)
    (member : y ∈ ys) : ∃ x ∈ xs, f x = .ok y := by
  induction mapM_ok_iff.mp h with
  | nil => cases member
  | cons first later ih =>
    rcases List.mem_cons.mp member with rfl | member
    · exact ⟨_, List.mem_cons_self, first⟩
    · obtain ⟨x, inside, same⟩ := ih (mapM_ok_iff.mpr later) member
      exact ⟨x, List.mem_cons_of_mem _ inside, same⟩

theorem mapM_ok_of_mem {f : α → Except ε β} {xs : List α} {ys : List β} {x : α} (h : xs.mapM f = .ok ys)
    (member : x ∈ xs) : ∃ y ∈ ys, f x = .ok y := by
  induction mapM_ok_iff.mp h with
  | nil => cases member
  | cons first later ih =>
    rcases List.mem_cons.mp member with rfl | member
    · exact ⟨_, List.mem_cons_self, first⟩
    · obtain ⟨y, inside, same⟩ := ih (mapM_ok_iff.mpr later) member
      exact ⟨y, List.mem_cons_of_mem _ inside, same⟩

theorem mapError_ok {ε' : Type} {f : ε → ε'} {r : Except ε α} {value : α}
    (h : r.mapError f = .ok value) : r = .ok value := by
  cases r with
  | error e => cases h
  | ok value' => exact congrArg Except.ok (Except.ok.inj h)

theorem forM_ok {f : α → Except ε Unit} {xs : List α} {u : Unit} (h : xs.forM f = .ok u) :
    ∀ x ∈ xs, f x = .ok () := by
  induction xs with
  | nil => exact fun _ member => absurd member List.not_mem_nil
  | cons x rest ih =>
    obtain ⟨⟨⟩, first, later⟩ := bind_ok h
    intro y member
    rcases List.mem_cons.mp member with rfl | inside
    · exact first
    · exact ih later y inside

theorem ok_of_isOk {r : Except ε α} (h : r.isOk = true) : ∃ a, r = .ok a := by
  cases r with
  | error e => cases h
  | ok a => exact ⟨a, rfl⟩

end Cindral.Base

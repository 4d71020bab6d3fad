import Mathlib.Data.List.Nodup
import Mathlib.Data.List.Count

/-! Tables: rows kept under distinct keys, and what an insert, an update or a delete does to a lookup. -/

namespace Cindral.Base
variable {κ ρ : Type}

structure Table (key : ρ → κ) where
  rows : List ρ
  nodup : (rows.map key).Nodup

/-- A rewrite of a row that leaves its key alone. -/
structure Edit (key : ρ → κ) where
  set : ρ → ρ
  keeps : ∀ r, key (set r) = key r

namespace Edit
variable {key : ρ → κ}

instance : CoeFun (Edit key) fun _ => ρ → ρ := ⟨Edit.set⟩

/-- The same rewrite on the rows that match, and no other. -/
def only (p : ρ → Bool) (e : Edit key) : Edit key :=
  ⟨fun r => if p r then e r else r, fun r => by
    split
    · exact e.keeps r
    · rfl⟩

/-- A rewrite chosen by the row it meets. -/
def each (e : ρ → Edit key) : Edit key := ⟨fun r => e r r, fun r => (e r).keeps r⟩

def comp (second first : Edit key) : Edit key :=
  ⟨fun r => second (first r), fun r => (second.keeps (first r)).trans (first.keeps r)⟩

@[simp] theorem each_apply (e : ρ → Edit key) (r : ρ) : each e r = e r r := rfl

@[simp] theorem comp_apply (second first : Edit key) (r : ρ) :
    second.comp first r = second (first r) := rfl

@[simp] theorem only_apply (p : ρ → Bool) (e : Edit key) (r : ρ) :
    e.only p r = if p r then e r else r := rfl

end Edit

namespace Table
variable {key : ρ → κ}

def empty : Table key := ⟨[], List.nodup_nil⟩

def update (t : Table key) (e : Edit key) : Table key :=
  ⟨t.rows.map e, by
    have same : key ∘ e = key := funext e.keeps
    rw [List.map_map, same]
    exact t.nodup⟩

def filter (t : Table key) (p : ρ → Bool) : Table key :=
  ⟨t.rows.filter p, t.nodup.sublist (List.filter_sublist.map key)⟩

variable [DecidableEq κ]

def find? (t : Table key) (k : κ) : Option ρ := t.rows.find? fun r => key r = k

/-- Add a row under a key the table does not hold. -/
def insert? (t : Table key) (r : ρ) : Option (Table key) :=
  if fresh : key r ∉ t.rows.map key then
    some ⟨t.rows ++ [r], by
      rw [List.map_append, List.map_singleton]
      exact List.nodup_append.mpr ⟨t.nodup, List.nodup_singleton _, fun a left b right same =>
        fresh (by rw [← List.mem_singleton.mp right, ← same]; exact left)⟩⟩
  else none

/-- Add a row, dropping the one its key held. -/
def replace (t : Table key) (r : ρ) : Table key :=
  ⟨(t.rows.filter fun x => key x ≠ key r) ++ [r], by
    rw [List.map_append, List.map_singleton]
    refine List.nodup_append.mpr
      ⟨t.nodup.sublist (List.filter_sublist.map key), List.nodup_singleton _, ?_⟩
    intro a left b right same
    obtain ⟨x, member, rfl⟩ := List.mem_map.mp left
    have different := (List.mem_filter.mp member).2
    simp only [ne_eq, decide_not, Bool.not_eq_eq_eq_not, Bool.not_true,
      decide_eq_false_iff_not] at different
    exact different (same.trans (List.mem_singleton.mp right))⟩

omit [DecidableEq κ] in
theorem eq_of_rows {t u : Table key} (same : t.rows = u.rows) : t = u := by
  obtain ⟨rows, nodup⟩ := t
  obtain rfl : rows = u.rows := same
  rfl

theorem find?_some {t : Table key} {k : κ} {r : ρ} (h : t.find? k = some r) : r ∈ t.rows ∧ key r = k :=
  ⟨List.mem_of_find?_eq_some h, by simpa using List.find?_some h⟩

omit [DecidableEq κ] in
theorem eq_of_key {t : Table key} {r x : ρ} (hr : r ∈ t.rows) (hx : x ∈ t.rows)
    (same : key r = key x) : r = x :=
  List.inj_on_of_nodup_map t.nodup hr hx same

theorem find?_of_mem {t : Table key} {r : ρ} (h : r ∈ t.rows) : t.find? (key r) = some r := by
  cases found : t.find? (key r) with
  | none =>
    have absent := List.find?_eq_none.mp found r h
    simp at absent
  | some x =>
    obtain ⟨member, same⟩ := find?_some found
    rw [eq_of_key h member same.symm]

omit [DecidableEq κ] in
theorem count_of_mem [DecidableEq ρ] {t : Table key} {r : ρ} (h : r ∈ t.rows) :
    t.rows.countP (· == r) = 1 := by
  have once := List.count_eq_one_of_mem (List.Nodup.of_map key t.nodup) h
  rwa [List.count_eq_countP] at once

omit [DecidableEq κ] in
/-- A count grows by one at most when only one key can newly match. -/
theorem countP_le_succ {t : Table key} {p q : ρ → Bool} (k : κ)
    (grows : ∀ r ∈ t.rows, q r = true → p r = true ∨ key r = k) :
    t.rows.countP q ≤ t.rows.countP p + 1 := by
  obtain ⟨rows, nodup⟩ := t
  simp only at grows ⊢
  induction rows with
  | nil => simp
  | cons r rest ih =>
    obtain ⟨absent, distinct⟩ := List.nodup_cons.mp nodup
    have tail := ih distinct fun x member => grows x (List.mem_cons_of_mem r member)
    rw [List.countP_cons, List.countP_cons]
    by_cases same : key r = k
    · -- no later row has the key, so the rest does not grow
      have rest_le : rest.countP q ≤ rest.countP p := by
        refine List.countP_mono_left fun x member hit => ?_
        refine (grows x (List.mem_cons_of_mem r member) hit).resolve_right fun again => absent ?_
        exact List.mem_map.mpr ⟨x, member, again.trans same.symm⟩
      split <;> omega
    · have head : q r = true → p r = true :=
        fun hit => (grows r List.mem_cons_self hit).resolve_right same
      by_cases hit : q r = true
      · simp only [hit, head hit, if_true]; omega
      · simp only [hit, Bool.false_eq_true, if_false]; omega

@[simp] theorem find?_empty (k : κ) : (empty : Table key).find? k = none := rfl

@[simp] theorem find?_update (t : Table key) (e : Edit key) (k : κ) :
    (t.update e).find? k = (t.find? k).map e := by
  simp only [find?, update, List.find?_map]
  congr 2
  funext r
  simp [e.keeps r]

theorem find?_insert {t u : Table key} {r : ρ} (h : t.insert? r = some u) (k : κ) :
    u.find? k = if key r = k then some r else t.find? k := by
  unfold insert? at h
  split at h
  · rename_i fresh
    obtain rfl := Option.some.inj h
    simp only [find?, List.find?_append, List.find?_singleton]
    by_cases same : key r = k
    · have absent : t.rows.find? (fun x => key x = k) = none := by
        apply List.find?_eq_none.mpr
        intro x member
        simp only [decide_eq_true_eq]
        intro equal
        exact fresh (List.mem_map.mpr ⟨x, member, equal.trans same.symm⟩)
      simp [same, absent]
    · simp [same]
  · cases h

theorem find?_replace (t : Table key) (r : ρ) (k : κ) :
    (t.replace r).find? k = if key r = k then some r else t.find? k := by
  simp only [find?, replace, List.find?_append, List.find?_singleton, List.find?_filter]
  by_cases same : key r = k
  · -- every row under the key was dropped
    have absent : t.rows.find? (fun _ => false) = none :=
      List.find?_eq_none.mpr fun x _ => Bool.false_ne_true
    simp [same, absent]
  · have other : ∀ x, (key x ≠ key r ∧ key x = k) ↔ key x = k :=
      fun x => ⟨And.right, fun hit => ⟨fun again => same (again.symm.trans hit), hit⟩⟩
    simp [same, other]

theorem rows_insert {t u : Table key} {r : ρ} (h : t.insert? r = some u) : u.rows = t.rows ++ [r] := by
  unfold insert? at h
  split at h
  · obtain rfl := Option.some.inj h; rfl
  · cases h

theorem find?_fresh {t u : Table key} {r : ρ} (h : t.insert? r = some u) : t.find? (key r) = none := by
  unfold insert? at h
  split at h
  · rename_i fresh
    refine List.find?_eq_none.mpr fun x member same => fresh ?_
    exact List.mem_map.mpr ⟨x, member, of_decide_eq_true same⟩
  · cases h

theorem insert?_of_fresh {t : Table key} {r : ρ} (h : t.find? (key r) = none) :
    ∃ u, t.insert? r = some u := by
  have fresh : key r ∉ t.rows.map key := by
    intro member
    obtain ⟨x, present, same⟩ := List.mem_map.mp member
    have found := find?_of_mem present
    rw [same, h] at found
    cases found
  exact ⟨_, dif_pos fresh⟩

end Table
end Cindral.Base

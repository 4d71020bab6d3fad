import Cindral.Base.Table
import Mathlib.Data.List.MinMax

/-! Eviction: the least rows of a scope are dropped, one after the other, until the rest fits a quota. -/

namespace Cindral.Base

/-- The rows a quota counts, what it counts of them, and the order they go in. -/
structure Eviction (ρ ω : Type) where
  scope : ρ → Bool
  weight : List ρ → Nat
  rank : ρ → ω
  quota : Nat

namespace Table
variable {κ ρ ω : Type} {key : ρ → κ} [DecidableEq κ]

def remove (t : Table key) (k : κ) : Table key := t.filter fun r => key r ≠ k

theorem mem_remove {t : Table key} {k : κ} {r : ρ} : r ∈ (t.remove k).rows ↔ r ∈ t.rows ∧ key r ≠ k := by
  simp [remove, filter]

theorem remove_shorter {t : Table key} {r : ρ} (h : r ∈ t.rows) :
    (t.remove (key r)).rows.length < t.rows.length :=
  List.length_filter_lt_length_iff_exists.mpr ⟨r, h, by simp⟩

variable [LinearOrder ω]

/-- The rows that stay and those that go, the oldest first. -/
def evict (e : Eviction ρ ω) : Nat → Table key → Table key × List ρ
  | 0, t => (t, [])
  | fuel + 1, t =>
    if e.weight (t.rows.filter e.scope) ≤ e.quota then (t, [])
    else match (t.rows.filter e.scope).argmin e.rank with
      | none => (t, [])
      | some oldest =>
        let (kept, gone) := evict e fuel (t.remove (key oldest))
        (kept, oldest :: gone)

/-- What the loop does, a row at a time. -/
inductive Evicts (e : Eviction ρ ω) : Table key → Table key → List ρ → Prop where
  | fits (t : Table key) : e.weight (t.rows.filter e.scope) ≤ e.quota → Evicts e t t []
  | drop (t u : Table key) (oldest : ρ) (gone : List ρ) : e.quota < e.weight (t.rows.filter e.scope) →
      (t.rows.filter e.scope).argmin e.rank = some oldest → Evicts e (t.remove (key oldest)) u gone →
      Evicts e t u (oldest :: gone)

variable {e : Eviction ρ ω} {t u : Table key} {gone : List ρ} {r x : ρ}

/-- Where nothing weighs nothing, a pass as long as the table stops because the rest fits. -/
theorem evicts_evict (light : e.weight [] ≤ e.quota) {fuel : Nat} (enough : t.rows.length ≤ fuel) :
    Evicts e t (t.evict e fuel).1 (t.evict e fuel).2 := by
  induction fuel generalizing t with
  | zero =>
    refine .fits t ?_
    rw [List.length_eq_zero_iff.mp (Nat.le_zero.mp enough)]
    exact light
  | succ fuel ih =>
    rw [evict]
    split
    · rename_i fits
      exact .fits t fits
    · rename_i heavy
      split
      · rename_i nothing
        refine absurd ?_ heavy
        rw [List.argmin_eq_none.mp nothing]
        exact light
      · rename_i oldest chosen
        have member := (List.mem_filter.mp (List.argmin_mem (Option.mem_def.mpr chosen))).1
        have shorter := remove_shorter member
        exact .drop t _ oldest _ (Nat.lt_of_not_le heavy) chosen (ih (by omega))

omit [DecidableEq κ] in
theorem oldest_mem {oldest : ρ} (chosen : (t.rows.filter e.scope).argmin e.rank = some oldest) :
    oldest ∈ t.rows ∧ e.scope oldest = true :=
  List.mem_filter.mp (List.argmin_mem (Option.mem_def.mpr chosen))

omit [DecidableEq κ] in
theorem oldest_le {oldest : ρ} (chosen : (t.rows.filter e.scope).argmin e.rank = some oldest)
    (there : x ∈ t.rows)
    (inside : e.scope x = true) : e.rank oldest ≤ e.rank x :=
  List.le_of_mem_argmin (List.mem_filter.mpr ⟨there, inside⟩) (Option.mem_def.mpr chosen)

theorem mem_remove_of_ne {oldest : ρ} (there : oldest ∈ t.rows) (h : r ∈ t.rows) (other : r ≠ oldest) :
    r ∈ (t.remove (key oldest)).rows :=
  mem_remove.mpr ⟨h, fun same => other (eq_of_key h there same)⟩

theorem mem_of_evicts (h : Evicts e t u gone) (kept : r ∈ u.rows) : r ∈ t.rows := by
  induction h with
  | fits => exact kept
  | drop t u oldest gone heavy chosen rest ih => exact (mem_remove.mp (ih kept)).1

theorem rows_of_evicts (h : Evicts e t u gone) : ∃ p : ρ → Bool, u.rows = t.rows.filter p := by
  induction h with
  | fits t => exact ⟨fun _ => true, (List.filter_true t.rows).symm⟩
  | drop t u oldest gone heavy chosen rest ih =>
    obtain ⟨p, rows⟩ := ih
    exact ⟨fun r => key r ≠ key oldest && p
      r, by rw [rows, remove, filter, List.filter_filter]; simp [Bool.and_comm]⟩

/-- A part of the table that stays whole is the same part of what is left. -/
theorem filter_of_evicts (h : Evicts e t u gone) {p : ρ → Bool}
    (whole : ∀ r ∈ t.rows, p r = true → r ∈ u.rows) :
    u.rows.filter p = t.rows.filter p := by
  obtain ⟨q, rows⟩ := rows_of_evicts h
  rw [rows, List.filter_filter]
  refine List.filter_congr fun r there => ?_
  by_cases hit : p r = true
  · have kept := whole r there hit
    rw [rows] at kept
    rw [hit, (List.mem_filter.mp kept).2, Bool.and_self]
  · simp [hit]

theorem evicts_fits (h : Evicts e t u gone) : e.weight (u.rows.filter e.scope) ≤ e.quota := by
  induction h with
  | fits t fits => exact fits
  | drop t u oldest gone heavy chosen rest ih => exact ih

theorem mem_gone (h : Evicts e t u gone) : r ∈ gone ↔ r ∈ t.rows ∧ r ∉ u.rows := by
  induction h with
  | fits t => simp
  | drop t u oldest gone heavy chosen rest ih =>
    obtain ⟨member, inside⟩ := oldest_mem chosen
    rw [List.mem_cons, ih, mem_remove]
    constructor
    · rintro (rfl | ⟨⟨there, -⟩, dropped⟩)
      · exact ⟨member, fun kept => (mem_remove.mp (mem_of_evicts rest kept)).2 rfl⟩
      · exact ⟨there, dropped⟩
    · rintro ⟨there, dropped⟩
      by_cases same : r = oldest
      · exact Or.inl same
      · exact Or.inr ⟨⟨there, fun equal => same (eq_of_key there member equal)⟩, dropped⟩

/-- A row that goes is in the scope, and no row that stays there comes before it. -/
theorem evicts_oldest_first (h : Evicts e t u gone) (there : r ∈ t.rows) (dropped : r ∉ u.rows) :
    e.scope r = true ∧ ∀ x ∈ u.rows, e.scope x = true → e.rank r ≤ e.rank x := by
  induction h with
  | fits => exact absurd there dropped
  | drop t u oldest gone heavy chosen rest ih =>
    by_cases same : r = oldest
    · subst same
      refine ⟨(oldest_mem chosen).2, fun x kept inside => oldest_le chosen ?_ inside⟩
      exact (mem_remove.mp (mem_of_evicts rest kept)).1
    · exact ih (mem_remove_of_ne (oldest_mem chosen).1 there same) dropped

omit [DecidableEq κ] in
theorem filter_oldest (chosen : (t.rows.filter e.scope).argmin e.rank = some r) :
    (t.rows.filter e.scope).filter (fun x => e.rank r ≤ e.rank x) = t.rows.filter e.scope := by
  refine List.filter_eq_self.mpr fun x kept => ?_
  obtain ⟨there, inside⟩ := List.mem_filter.mp kept
  simpa using oldest_le chosen there inside

/-- A row that goes is over the quota together with those that do not come before it. -/
theorem evicts_needed (mono : ∀ xs ys : List ρ, xs.Sublist ys → e.weight xs ≤ e.weight ys)
    (h : Evicts e t u gone)
    (there : r ∈ t.rows) (dropped : r ∉ u.rows) :
    e.quota < e.weight ((t.rows.filter e.scope).filter fun x => e.rank r ≤ e.rank x) := by
  induction h with
  | fits => exact absurd there dropped
  | drop t u oldest gone heavy chosen rest ih =>
    by_cases same : r = oldest
    · subst same
      rw [filter_oldest chosen]
      exact heavy
    · refine (ih (mem_remove_of_ne (oldest_mem chosen).1 there same) dropped).trans_le (mono _ _ ?_)
      exact (List.filter_sublist.filter e.scope).filter _

/-- Where no two rows share a rank, a row stays if it fits together with those that come after it. -/
theorem mem_evicts_iff (mono : ∀ xs ys : List ρ, xs.Sublist ys → e.weight xs ≤ e.weight ys)
    (distinct : ∀ x ∈ t.rows, ∀ y ∈ t.rows, e.rank x = e.rank y → x = y) (h : Evicts e t u gone)
    (there : r ∈ t.rows)
    (inside : e.scope r = true) :
    r ∈ u.rows ↔ e.weight ((t.rows.filter e.scope).filter fun x => e.rank r ≤ e.rank x) ≤ e.quota := by
  induction h with
  | fits t fits => exact ⟨fun _ => (mono _ _ List.filter_sublist).trans fits, fun _ => there⟩
  | drop t u oldest gone heavy chosen rest ih =>
    obtain ⟨member, oldestInside⟩ := oldest_mem chosen
    by_cases same : r = oldest
    · subst same
      rw [filter_oldest chosen]
      exact ⟨fun kept => absurd rfl (mem_remove.mp (mem_of_evicts rest kept)).2, fun fits => by omega⟩
    · have younger : e.rank oldest < e.rank r :=
        lt_of_le_of_ne (oldest_le chosen there inside) fun equal =>
        same (distinct _ there _ member equal.symm)
      have rows : ((t.remove (key oldest)).rows.filter e.scope).filter (fun x => e.rank r ≤ e.rank x) =
          (t.rows.filter e.scope).filter fun x => e.rank r ≤ e.rank x := by
        simp only [remove, filter, List.filter_filter]
        refine List.filter_congr fun x kept => ?_
        by_cases after : e.rank r ≤ e.rank x
        · have other : key x ≠ key oldest := fun equal => by
            obtain rfl := eq_of_key kept member equal
            exact absurd younger (not_lt.mpr after)
          simp [after, other]
        · simp [after]
      rw [ih (fun x left y right => distinct x (mem_remove.mp left).1 y (mem_remove.mp right).1)
        (mem_remove_of_ne member there same), rows]

/-- The loop stops in one way only. -/
theorem evicts_unique {v : Table key} {went : List ρ} (h : Evicts e t u gone)
    (other : Evicts e t v went) : u = v ∧ gone = went := by
  induction h generalizing v went with
  | fits t fits =>
    cases other with
    | fits => exact ⟨rfl, rfl⟩
    | drop _ _ oldest gone heavy => exact absurd fits (Nat.not_le.mpr heavy)
  | drop t u oldest gone heavy chosen rest ih =>
    cases other with
    | fits _ fits => exact absurd fits (Nat.not_le.mpr heavy)
    | drop _ _ oldest' gone' _ chosen' rest' =>
      obtain rfl := Option.some.inj (chosen.symm.trans chosen')
      obtain ⟨same, went⟩ := ih rest'
      exact ⟨same, congrArg _ went⟩

/-- A pass as long as the table is as good as any longer one. -/
theorem evict_stable (light : e.weight [] ≤ e.quota) {fuel : Nat} (enough : t.rows.length ≤ fuel) :
    t.evict e fuel = t.evict e t.rows.length := by
  obtain ⟨kept, went⟩ := evicts_unique (evicts_evict light enough)
    (evicts_evict light (Nat.le_refl t.rows.length))
  exact Prod.ext kept went

/-- Of the rows a quota counts, the shortest part from the least rank on without which the rest fits. -/
structure ShortestFirst (e : Eviction ρ ω) (counted gone rest : List ρ) : Prop where
  all : (gone ++ rest).Perm counted
  ordered : (gone ++ rest).Pairwise fun r x => e.rank r < e.rank x
  fits : e.weight rest ≤ e.quota
  needed : ∀ k < gone.length, e.quota < e.weight ((gone ++ rest).drop k)

theorem exists_ordered {rows : List ρ} (nodup : rows.Nodup)
    (distinct : ∀ x ∈ rows, ∀ y ∈ rows, e.rank x = e.rank y → x = y) :
    ∃ ordered : List ρ, ordered.Perm rows ∧ ordered.Pairwise fun r x => e.rank r < e.rank x := by
  let before (r x : ρ) : Bool := decide (e.rank r ≤ e.rank x)
  have sorted : (rows.mergeSort before).Pairwise fun r x => before r x = true := by
    apply List.pairwise_mergeSort
    · intro r x y first second
      exact decide_eq_true ((of_decide_eq_true first).trans (of_decide_eq_true second))
    · intro r x
      rw [Bool.or_eq_true, decide_eq_true_eq, decide_eq_true_eq]
      exact le_total (e.rank r) (e.rank x)
  have perm : (rows.mergeSort before).Perm rows := List.mergeSort_perm rows before
  have apart : (rows.mergeSort before).Pairwise (· ≠ ·) := perm.nodup_iff.mpr nodup
  refine ⟨rows.mergeSort before, perm, (sorted.and apart).imp_of_mem ?_⟩
  rintro r x first second ⟨low, different⟩
  exact lt_of_le_of_ne (of_decide_eq_true low) fun same =>
    different (distinct r (perm.mem_iff.mp first) x (perm.mem_iff.mp second) same)

omit [LinearOrder ω] in
/-- The rows counted before a row goes are that row and those counted after. -/
theorem perm_remove (member : r ∈ t.rows) (inside : e.scope r = true) :
    (t.rows.filter e.scope).Perm (r :: (t.remove (key r)).rows.filter e.scope) := by
  have nodup : (t.rows.filter e.scope).Nodup := t.nodup.of_map.filter e.scope
  have fresh : r ∉ (t.remove (key r)).rows.filter e.scope :=
    fun again => (mem_remove.mp (List.mem_filter.mp again).1).2 rfl
  have nodup' : ((t.remove (key r)).rows.filter e.scope).Nodup :=
    (t.remove (key r)).nodup.of_map.filter e.scope
  refine (List.perm_ext_iff_of_nodup nodup (List.nodup_cons.mpr ⟨fresh, nodup'⟩)).mpr fun x => ?_
  rw [List.mem_cons, List.mem_filter, List.mem_filter, mem_remove]
  constructor
  · rintro ⟨there, counted⟩
    by_cases same : x = r
    · exact Or.inl same
    · exact Or.inr ⟨⟨there, fun equal => same (eq_of_key there member equal)⟩, counted⟩
  · rintro (rfl | ⟨⟨there, -⟩, counted⟩)
    · exact ⟨member, inside⟩
    · exact ⟨there, counted⟩

/-- What goes is the shortest part from the least rank on. -/
theorem evicts_shortest (weighs : ∀ xs ys : List ρ, xs.Perm ys → e.weight xs = e.weight ys)
    (distinct : ∀ x ∈ t.rows, ∀ y ∈ t.rows, e.rank x = e.rank y → x = y) (h : Evicts e t u gone) :
    ∃ rest, rest.Perm (u.rows.filter e.scope) ∧ ShortestFirst e (t.rows.filter e.scope) gone rest := by
  induction h with
  | fits t fits =>
    have nodup : (t.rows.filter e.scope).Nodup := t.nodup.of_map.filter e.scope
    obtain ⟨ordered, perm, sorted⟩ := exists_ordered nodup fun x left y right =>
      distinct x (List.mem_filter.mp left).1 y (List.mem_filter.mp right).1
    refine ⟨ordered, perm, perm, sorted, ?_, fun k early => absurd early (Nat.not_lt_zero k)⟩
    rw [weighs _ _ perm]
    exact fits
  | drop t u oldest gone heavy chosen rest ih =>
    obtain ⟨member, inside⟩ := oldest_mem chosen
    obtain ⟨left, kept, shortest⟩ := ih fun x first y second =>
      distinct x (mem_remove.mp first).1 y (mem_remove.mp second).1
    have split := perm_remove member inside
    have all : (oldest :: gone ++ left).Perm (t.rows.filter e.scope) :=
      (shortest.all.cons oldest).trans split.symm
    refine ⟨left, kept, all, List.pairwise_cons.mpr ⟨fun x later => ?_, shortest.ordered⟩,
      shortest.fits, fun k early => ?_⟩
    · obtain ⟨there, counted⟩ := List.mem_filter.mp (shortest.all.mem_iff.mp later)
      obtain ⟨there, different⟩ := mem_remove.mp there
      refine lt_of_le_of_ne (oldest_le chosen there counted) fun same => different ?_
      rw [distinct oldest member x there same]
    · cases k with
      | zero =>
        rw [List.drop_zero, weighs _ _ all]
        exact heavy
      | succ k => exact shortest.needed k (Nat.lt_of_succ_lt_succ early)

end Table
end Cindral.Base

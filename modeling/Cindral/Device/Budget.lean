import Cindral.Device.Steps

/-!
# The records a report keeps

The budget keeps the last step, names cut, and of the earlier ones as many from the front as fit.
`withinBudget_room` says which, and `withinBudget_bounded` that they do fit.
-/

namespace Cindral.Device
open Base Queue

/-- What a log says of a step is bounded by itself, and counts no others. -/
structure Fresh (step : StepRecord) : Prop where
  output : step.output.length ≤ maxStepChars
  dropped : step.dropped = 0

def chars (steps : List StepRecord) : Nat := (steps.map stepChars).sum

/-- `records` are `steps` but for some before the last, which the last counts. None is missing where
all fit. -/
def Keeps (steps records : List StepRecord) : Prop :=
  (steps = [] ∧ records = []) ∨ ∃ kept omitted final, steps = kept ++ (omitted ++ [final]) ∧
    records = kept ++ [{ final with dropped := omitted.length }] ∧
    (steps.length ≤ maxSteps → chars steps ≤ maxTotalChars → omitted = [])

theorem length_bound_le (text : String) : (bound text).1.length ≤ maxStepChars := by
  unfold bound
  split
  · assumption
  · exact length_sliceLast_le _ _

theorem stepRecord_fresh (log nonce : List Char) (finished : List Nat) (index : Nat) (mark : Found)
    (following : Nat) (last : Bool) :
    Fresh (stepRecord log nonce finished index mark following last) :=
  ⟨length_bound_le _, rfl⟩

theorem stepRecords_fresh (log nonce : List Char) (finished : List Nat) (marks : List (Nat × Found)) :
    ∀ step ∈ stepRecords log nonce finished marks, Fresh step := by
  fun_induction stepRecords log nonce finished marks with
  | case1 => exact fun _ member => absurd member List.not_mem_nil
  | case2 index mark =>
    intro step member
    obtain rfl := List.mem_singleton.mp member
    exact stepRecord_fresh _ _ _ _ _ _ _
  | case3 index mark next marks ih =>
    intro step member
    rcases List.mem_cons.mp member with rfl | inside
    · exact stepRecord_fresh _ _ _ _ _ _ _
    · exact ih step inside

theorem Fresh.boundName {step : StepRecord} (fresh : Fresh step) : Fresh (boundName step) := by
  unfold Device.boundName
  split
  · exact fresh
  · exact ⟨fresh.output, fresh.dropped⟩

theorem boundName_output (step : StepRecord) : (boundName step).output = step.output := by
  unfold boundName
  split <;> rfl

theorem boundName_name (step : StepRecord) : (boundName step).name.length ≤ maxStepNameChars := by
  unfold boundName
  split
  · assumption
  · exact length_sliceTo_le _ _

theorem boundFinal_fresh {step : StepRecord} (fresh : Fresh step) : boundFinal step = step := by
  have short : ¬step.output.length > maxStepChars := Nat.not_lt.mpr fresh.output
  rw [boundFinal, sliceTo_of_length_le fresh.output, decide_eq_false short, Bool.or_false]

theorem addDropped_fresh {step : StepRecord} (fresh : Fresh step) (count : Nat) :
    addDropped count step = { step with dropped := count } := by
  rw [addDropped, fresh.dropped, Nat.zero_add]

theorem chars_append (steps others : List StepRecord) :
    chars (steps ++ others) = chars steps + chars others := by
  simp only [chars, List.map_append, List.sum_append]

theorem chars_singleton (step : StepRecord) : chars [step] = stepChars step := Nat.add_zero _

/-! ## How many fit -/

/-- How many of the earlier steps a report has room for beside the last one. -/
def room (earlier : List StepRecord) (final : StepRecord) : Nat :=
  Nat.findGreatest (fun k => stepChars final + chars (earlier.take k) ≤ maxTotalChars)
  (min (maxSteps - 1) earlier.length)

/-- The first `k` of the earlier steps fit beside the last one, and no more of them do. -/
structure Fits (earlier : List StepRecord) (spent k : Nat) : Prop where
  within : k ≤ earlier.length
  small : spent + chars (earlier.take k) ≤ maxTotalChars
  most : ∀ n, k < n → n ≤ earlier.length → maxTotalChars < spent + chars (earlier.take n)

theorem affordable_take {spent : Nat} (within : spent ≤ maxTotalChars) (steps : List StepRecord) :
    ∃ k, affordable spent steps = steps.take k ∧ Fits steps spent k := by
  induction steps generalizing spent with
  | nil => exact ⟨0, rfl, Nat.le_refl _, within, fun n more few => absurd more (Nat.not_lt.mpr few)⟩
  | cons step steps ih =>
    have chars_cons (n : Nat) : chars ((step :: steps).take (n + 1)) = stepChars step + chars
      (steps.take n) := rfl
    rw [affordable]
    split
    · rename_i costly
      refine ⟨0, rfl, Nat.zero_le _, within, fun n more _ => ?_⟩
      obtain ⟨n, rfl⟩ := Nat.exists_eq_succ_of_ne_zero (Nat.ne_of_gt more)
      rw [Nat.succ_eq_add_one, chars_cons]
      omega
    · rename_i fits
      obtain ⟨k, kept, few, small, most⟩ := ih (Nat.not_lt.mp fits)
      refine ⟨k + 1, by rw [kept, List.take_succ_cons], Nat.succ_le_succ few, ?_, fun n more least => ?_⟩
      · rw [chars_cons]
        omega
      · obtain ⟨n, rfl⟩ := Nat.exists_eq_succ_of_ne_zero
          (Nat.ne_of_gt (Nat.lt_of_le_of_lt (Nat.zero_le _) more))
        have costly := most n (Nat.lt_of_succ_lt_succ more) (Nat.le_of_succ_le_succ least)
        rw [Nat.succ_eq_add_one, chars_cons]
        omega

theorem withinTotal_take (dropped : Nat) (earlier : List StepRecord) {final : StepRecord}
    (fresh : Fresh final)
    (small : stepChars final ≤ maxTotalChars) : ∃ k, Fits earlier (stepChars final) k ∧
      withinTotal dropped earlier final =
      earlier.take k ++ [{ final with dropped := dropped + (earlier.length - k) }] := by
  have whole (fits : stepChars final + chars earlier ≤ maxTotalChars) :
      Fits earlier (stepChars final) earlier.length :=
    ⟨Nat.le_refl
    _, by rw [List.take_length]; exact fits, fun n more few => absurd more (Nat.not_lt.mpr few)⟩
  unfold withinTotal
  split
  · rename_i none_earlier
    subst none_earlier
    exact ⟨0, whole small, by rw [addDropped_fresh fresh]; rfl⟩
  · split
    · rename_i fits
      rw [List.map_append, List.sum_append, List.map_singleton, List.sum_singleton, Nat.add_comm] at fits
      refine ⟨earlier.length, whole fits, ?_⟩
      rw [addDropped_fresh fresh, List.take_length, Nat.sub_self, Nat.add_zero]
    · obtain ⟨k, kept, fits⟩ := affordable_take small earlier
      refine ⟨k, fits, ?_⟩
      dsimp only
      rw [kept, boundFinal_fresh fresh, addDropped_fresh fresh, List.length_take,
        Nat.min_eq_left fits.within]

theorem Fits.room {earlier : List StepRecord} {final : StepRecord} {k : Nat}
    (fits : Fits (earlier.take (maxSteps - 1)) (stepChars final) k) : k = room earlier final := by
  have few := fits.within
  rw [List.length_take] at few
  symm
  rw [Device.room, Nat.findGreatest_eq_iff]
  refine ⟨few, fun _ => ?_, fun n more least small => ?_⟩
  · have small := fits.small
    rwa [List.take_take, Nat.min_eq_left (Nat.le_trans few (Nat.min_le_left _ _))] at small
  · have much := fits.most n more (by rwa [List.length_take])
    rw [List.take_take, Nat.min_eq_left (Nat.le_trans least (Nat.min_le_left _ _))] at much
    omega

theorem final_fits {steps earlier : List StepRecord} {final : StepRecord}
    (fresh : ∀ step ∈ steps, Fresh step)
    (named : steps.map boundName = earlier ++ [final]) :
    Fresh final ∧ stepChars final ≤ maxTotalChars := by
  have member : final ∈ steps.map boundName := by rw [named]; simp
  obtain ⟨step, inside, rfl⟩ := List.mem_map.mp member
  have name := boundName_name step
  have output := (fresh step inside).boundName.output
  refine ⟨(fresh step inside).boundName, ?_⟩
  simp only [stepChars, maxStepChars, maxStepNameChars, maxTotalChars] at output name ⊢
  omega

/-- The budget keeps the last step and as many of the others, from the front, as there is room for. -/
theorem withinBudget_room {steps earlier : List StepRecord} {final : StepRecord}
    (fresh : ∀ step ∈ steps, Fresh step)
    (named : steps.map boundName = earlier ++ [final]) : withinBudget steps =
      earlier.take (room earlier final) ++
      [{ final with dropped := earlier.length - room earlier final }] := by
  obtain ⟨final_fresh, small⟩ := final_fits fresh named
  unfold withinBudget
  rw [named]
  simp only [List.getLast?_append, List.getLast?_singleton, Option.some_or, List.length_append,
    List.length_singleton]
  split
  · rename_i many
    have short : maxSteps - 1 ≤ earlier.length := by omega
    obtain ⟨k, fits, records⟩ := withinTotal_take (earlier.length + 1 - maxSteps)
      (earlier.take (maxSteps - 1)) final_fresh small
    have few := fits.within
    rw [List.take_append_of_le_length short, records, ← fits.room, List.take_take]
    rw [List.length_take, Nat.min_eq_left short] at *
    have count : earlier.length + 1 - maxSteps + (maxSteps - 1 - k) = earlier.length - k := by
      simp only [maxSteps] at *
      omega
    rw [count, Nat.min_eq_left few]
  · rename_i few
    have whole : earlier.take (maxSteps - 1) = earlier := List.take_of_length_le (by omega)
    obtain ⟨k, fits, records⟩ := withinTotal_take 0 earlier final_fresh small
    rw [List.dropLast_concat, records, Nat.zero_add]
    rw [← whole] at fits
    rw [← fits.room]

theorem room_le (earlier : List StepRecord) (final : StepRecord) :
    room earlier final ≤ maxSteps - 1 ∧ room earlier final ≤ earlier.length := by
  have least : room earlier final ≤ min (maxSteps - 1) earlier.length := Nat.findGreatest_le _
  exact ⟨Nat.le_trans least (Nat.min_le_left _ _), Nat.le_trans least (Nat.min_le_right _ _)⟩

theorem withinBudget_nil {steps : List StepRecord} (none_named : steps.map boundName = []) :
    withinBudget steps = [] := by
  rw [withinBudget, none_named]
  rfl

theorem withinBudget_keeps {steps : List StepRecord} (fresh : ∀ step ∈ steps, Fresh step) :
    Keeps (steps.map boundName) (withinBudget steps) := by
  rcases List.eq_nil_or_concat (steps.map boundName) with none_named | ⟨earlier, final, named⟩
  · exact Or.inl ⟨none_named, withinBudget_nil none_named⟩
  rw [List.concat_eq_append] at named
  refine Or.inr ⟨earlier.take (room earlier final), earlier.drop (room earlier final), final, ?_,
    ?_, fun few fits => ?_⟩
  · rw [named, ← List.append_assoc, List.take_append_drop]
  · rw [withinBudget_room fresh named, List.length_drop]
  · rw [named, chars_append, chars_singleton, Nat.add_comm] at fits
    rw [named, List.length_append, List.length_singleton] at few
    have all : earlier.length ≤ room earlier final := by
      apply Nat.le_findGreatest (by omega)
      rw [List.take_length]
      exact fits
    exact List.drop_eq_nil_of_le all

/-- Where all the records fit none is left out. -/
theorem withinBudget_all {steps : List StepRecord} (fresh : ∀ step ∈ steps, Fresh step)
    (few : steps.length ≤ maxSteps)
    (small : chars (steps.map boundName) ≤ maxTotalChars) : withinBudget steps = steps.map boundName := by
  rcases withinBudget_keeps fresh with ⟨none_named, none_kept⟩ |
    ⟨kept, omitted, final, named, records, all⟩
  · rw [none_named, none_kept]
  · obtain rfl := all (by rwa [List.length_map]) small
    have member : final ∈ steps.map boundName := by rw [named]; simp
    obtain ⟨step, inside, rfl⟩ := List.mem_map.mp member
    have uncounted : ({ boundName step with dropped := 0 } : StepRecord) = boundName step := by
      rw [← (fresh step inside).boundName.dropped]
    rw [records, named, List.length_nil, uncounted, List.nil_append]

theorem withinBudget_bounded {steps : List StepRecord} (fresh : ∀ step ∈ steps, Fresh step) :
    (withinBudget steps).length ≤ maxSteps ∧ chars (withinBudget steps) ≤ maxTotalChars := by
  rcases List.eq_nil_or_concat (steps.map boundName) with none_named | ⟨earlier, final, named⟩
  · rw [withinBudget_nil none_named]
    exact ⟨Nat.zero_le _, Nat.zero_le _⟩
  rw [List.concat_eq_append] at named
  have few := (room_le earlier final).1
  have fits : stepChars final + chars (earlier.take (room earlier final)) ≤ maxTotalChars :=
    Nat.findGreatest_spec (P := fun k => stepChars final + chars (earlier.take k) ≤ maxTotalChars)
      (Nat.zero_le _)
      (final_fits fresh named).2
  have last (count : Nat) : chars [{ final with dropped := count }] = stepChars final := chars_singleton _
  rw [withinBudget_room fresh named, chars_append, last, List.length_append, List.length_take,
    List.length_singleton]
  simp only [maxSteps] at few ⊢
  omega

end Cindral.Device

import Cindral.Device.Storage

/-!
# What a report loses is counted

Validation keeps a first part of the valid records of a report. What it leaves out goes into the
dropped count of the last record kept, on top of the count the report stated itself.
-/

namespace Cindral.Device
open Base Queue

/-! ## What a report says -/

/-- The dropped count the last valid record of a report states. -/
def statedLast (entries : List Json) : Nat :=
  ((entries.filter isStep).getLast?.map fun entry => Queue.statedDropped (entry.get "dropped")).getD 0

/-- Only the last valid record states a dropped count. -/
def StatesLast (entries : List Json) : Prop :=
  ∀ entry ∈ (entries.filter isStep).dropLast, Queue.statedDropped (entry.get "dropped") = 0

theorem reportedTotal_statesLast {entries : List Json} (h : StatesLast entries) :
    reportedTotal entries = entries.countP isStep + statedLast entries := by
  unfold reportedTotal statedLast
  unfold StatesLast at h
  rw [List.filter_reverse]
  rcases List.eq_nil_or_concat (entries.filter isStep) with absent | ⟨early, last, valid⟩
  · rw [absent]
    rfl
  · rw [List.concat_eq_append] at valid
    rw [valid, List.dropLast_concat] at h
    rw [valid, List.reverse_concat, List.find?_cons, List.getLast?_concat]
    by_cases stated : 0 < Queue.statedDropped (last.get "dropped")
    · simp only [stated, decide_true, Option.map_some, Option.getD_some]
    · have silent : early.reverse.find?
        (fun entry => decide (0 < Queue.statedDropped (entry.get "dropped"))) = none := by
        rw [List.find?_eq_none]
        intro entry member
        rw [h entry (List.mem_reverse.mp member)]
        decide
      simp only [stated, decide_false, silent, Option.map_some, Option.getD_some]
      omega

/-! ## What the loop keeps -/

/-- The loop takes every valid record, or stops at one past the budget with the rest counted on the
last one taken. -/
theorem encodeLoop_takes (value entries : List Json) (taken : List StepRecord) (total : Nat) :
    encodeLoop value entries taken total = taken ++ (entries.filter isStep).map encodeEntry ∨
    ∃ kept rest, entries.filter isStep = kept ++ rest ∧ encodeLoop value entries taken total =
      setLastDropped (reportedTotal value - (taken ++ kept.map encodeEntry).length)
      (taken ++ kept.map encodeEntry) := by
  induction entries generalizing taken total with
  | nil =>
    left
    exact (List.append_nil taken).symm
  | cons entry entries ih =>
    rw [encodeLoop]
    split
    · rename_i valid
      rw [List.filter_cons_of_pos valid]
      dsimp only
      split
      · right
        refine ⟨[], entry :: entries.filter isStep, rfl, ?_⟩
        rw [List.map_nil, List.append_nil]
      · have grown (records : List Json) :
            taken ++ [encodeEntry entry] ++ records.map encodeEntry = taken ++
            (entry :: records).map encodeEntry := by
          rw [List.map_cons, List.append_assoc]
          rfl
        rcases ih (taken ++ [encodeEntry entry])
          (total + (encodeEntry entry).output.length + (encodeEntry entry).name.length)
          with all | ⟨kept, rest, split, stopped⟩
        · left
          rw [all, grown]
        · right
          refine ⟨entry :: kept, rest, by rw [split, List.cons_append], ?_⟩
          rw [stopped, grown]
    · rename_i invalid
      rw [List.filter_cons_of_neg invalid]
      exact ih taken total

/-- The first valid record is within the budget whatever it holds. -/
theorem encodeEntry_fits (entry : Json) :
    (encodeEntry entry).output.length + (encodeEntry entry).name.length ≤ maxTotalChars := by
  have bounded := encodeEntry_bounded entry
  unfold maxStepChars maxStepNameChars at bounded
  unfold maxTotalChars
  omega

theorem setLastDropped_concat (count : Nat) (early : List StepRecord) (last : StepRecord) :
    setLastDropped count (early ++ [last]) = early ++ [{ last with dropped := count }] := by
  induction early with
  | nil => rfl
  | cons first early ih =>
    rw [List.cons_append, setLastDropped, ih]
    · rfl
    · intro empty
      exact absurd (congrArg List.length empty) (by simp)

theorem length_setLastDropped (count : Nat) (steps : List StepRecord) :
    (setLastDropped count steps).length = steps.length := by
  have same := congrArg List.length (setLastDropped_texts count steps)
  rwa [List.length_map, List.length_map] at same

theorem encodeLoop_ne_nil (value entries : List Json) {taken : List StepRecord} {total : Nat}
    (h : taken ≠ [] ∨ total = 0 ∧ ∃ entry ∈ entries, isStep entry = true) :
    encodeLoop value entries taken total ≠ [] := by
  induction entries generalizing taken total with
  | nil =>
    rcases h with some_taken | ⟨-, entry, member, -⟩
    · exact some_taken
    · exact absurd member List.not_mem_nil
  | cons entry entries ih =>
    rw [encodeLoop]
    split
    · dsimp only
      split
      · rename_i over_budget
        rcases h with some_taken | ⟨rfl, -⟩
        · intro empty
          have length := congrArg List.length empty
          rw [length_setLastDropped] at length
          exact some_taken (List.length_eq_zero_iff.mp length)
        · have fits := encodeEntry_fits entry
          omega
      · apply ih
        left
        exact List.append_ne_nil_of_right_ne_nil taken (List.cons_ne_nil _ _)
    · rename_i invalid
      apply ih
      rcases h with some_taken | ⟨fresh, found, member, valid⟩
      · exact Or.inl some_taken
      · rcases List.mem_cons.mp member with rfl | later
        · exact absurd valid invalid
        · exact Or.inr ⟨fresh, found, later, valid⟩

/-! ## The count -/

/-- The records of a set with what it says is missing add up to a number, and only its last record
says so. -/
structure Accounts (total : Nat) (steps : List StepRecord) : Prop where
  sum : steps.length + statedDropped steps = total
  quiet : ∀ step ∈ steps.dropLast, step.dropped = 0

/-- Setting the count of a non-empty set that was quiet but for its last record accounts for the whole. -/
theorem accounts_setLastDropped {steps : List StepRecord} {total : Nat} (some_kept : steps ≠ [])
    (few : steps.length ≤ total)
    (quiet : ∀ step ∈ steps.dropLast, step.dropped = 0) :
    Accounts total (setLastDropped (total - steps.length) steps) := by
  rcases List.eq_nil_or_concat steps with empty | ⟨early, last, rfl⟩
  · exact absurd empty some_kept
  · rw [List.concat_eq_append] at *
    rw [List.dropLast_concat] at quiet
    rw [setLastDropped_concat]
    refine ⟨?_, by rwa [List.dropLast_concat]⟩
    rw [statedDropped, List.getLast?_concat]
    simp only [List.length_append, List.length_singleton, Option.map_some, Option.getD_some] at few ⊢
    omega

theorem sum_dropped {steps : List StepRecord} (quiet : ∀ step ∈ steps.dropLast, step.dropped = 0) :
    (steps.map StepRecord.dropped).sum = statedDropped steps := by
  rcases List.eq_nil_or_concat steps with rfl | ⟨early, last, rfl⟩
  · rfl
  · rw [List.concat_eq_append] at *
    rw [List.dropLast_concat] at quiet
    have none_early : (early.map StepRecord.dropped).sum = 0 := by
      apply List.sum_eq_zero
      intro count member
      obtain ⟨step, early_one, rfl⟩ := List.mem_map.mp member
      exact quiet step early_one
    rw [List.map_append, List.sum_append, none_early, statedDropped, List.getLast?_concat]
    exact Nat.zero_add _

theorem quiet_encodeEntry {entries kept rest : List Json} (h : StatesLast entries)
    (split : entries.filter isStep = kept ++ rest) :
    ∀ step ∈ (kept.map encodeEntry).dropLast, step.dropped = 0 := by
  unfold StatesLast at h
  rw [split] at h
  intro step member
  rw [← List.map_dropLast] at member
  obtain ⟨entry, early, rfl⟩ := List.mem_map.mp member
  apply h entry
  rcases List.eq_nil_or_concat rest with rfl | ⟨front, final, rfl⟩
  · rwa [List.append_nil]
  · rw [List.concat_eq_append, ← List.append_assoc, List.dropLast_concat]
    exact List.mem_append_left front ((List.dropLast_sublist kept).mem early)

/-- A loop that took every valid record of the report stated what the report does. -/
theorem accounts_whole {entries : List Json} (h : StatesLast entries) :
    Accounts (reportedTotal entries) ((entries.filter isStep).map encodeEntry) := by
  refine ⟨?_, quiet_encodeEntry h (List.append_nil _).symm⟩
  rw [reportedTotal_statesLast h, List.length_map, List.countP_eq_length_filter, statedDropped,
    statedLast, List.getLast?_map,
    Option.map_map]
  rfl

theorem length_kept_le {entries kept rest : List Json}
    (split : entries.filter isStep = kept ++ rest) (h : StatesLast entries) :
    (kept.map encodeEntry).length ≤ reportedTotal entries := by
  have length := congrArg List.length split
  rw [← List.countP_eq_length_filter, List.length_append] at length
  rw [reportedTotal_statesLast h, List.length_map]
  omega

/-- What the loop leaves is quiet and no longer than what was reported, and it accounts for a report
that was not cut before the loop. -/
theorem accounts_encodeLoop {entries : List Json} (h : StatesLast entries)
    (some_valid : ∃ entry ∈ entries.take maxSteps, isStep entry = true) :
    let steps := encodeLoop entries (entries.take maxSteps) [] 0
    (∀ step ∈ steps.dropLast, step.dropped = 0) ∧ steps.length ≤ reportedTotal entries ∧
    (entries.length ≤ maxSteps → Accounts (reportedTotal entries) steps) := by
  have filtered : entries.filter isStep = (entries.take maxSteps).filter
      isStep ++ (entries.drop maxSteps).filter isStep := by
    rw [← List.filter_append, List.take_append_drop]
  have kept_some : encodeLoop entries (entries.take maxSteps) [] 0 ≠ [] :=
    encodeLoop_ne_nil entries _ (Or.inr ⟨rfl, some_valid⟩)
  intro steps
  rcases encodeLoop_takes entries (entries.take maxSteps) [] 0 with all | ⟨kept, rest, split, stopped⟩
  · have whole : steps = ((entries.take maxSteps).filter isStep).map encodeEntry := all
    rw [whole]
    refine ⟨quiet_encodeEntry h filtered, length_kept_le filtered h, fun few => ?_⟩
    rw [List.take_of_length_le few]
    exact accounts_whole h
  · have cut : entries.filter isStep = kept ++ (rest ++ (entries.drop maxSteps).filter isStep) := by
      rw [filtered, split, List.append_assoc]
    have marked : steps = setLastDropped (reportedTotal entries - (kept.map encodeEntry).length)
      (kept.map encodeEntry) := stopped
    have some_taken : kept.map encodeEntry ≠ [] := by
      intro empty
      rw [stopped, List.nil_append, empty] at kept_some
      exact kept_some rfl
    have counted := accounts_setLastDropped some_taken (length_kept_le cut h) (quiet_encodeEntry h cut)
    rw [marked]
    exact ⟨counted.quiet, by rw [length_setLastDropped]; exact length_kept_le cut h, fun _ => counted⟩

theorem accounts_encodeSteps {entries : List Json} (h : StatesLast entries)
    (some_valid : ∃ entry ∈ entries.take maxSteps, isStep entry = true) :
    Accounts (reportedTotal entries) (encodeSteps (.arr entries)) := by
  obtain ⟨quiet, few, whole⟩ := accounts_encodeLoop h some_valid
  rw [encodeSteps]
  split
  · exact accounts_setLastDropped (encodeLoop_ne_nil entries _ (Or.inr ⟨rfl, some_valid⟩)) few quiet
  · rename_i short
    exact whole (Nat.not_lt.mp short)

/-- Validation keeps a report within every bound, and what it leaves out is counted on the last
record it keeps. -/
theorem encodeSteps_conserves (entries : List Json)
    (last_states : ∀ entry ∈ (entries.filter isStep).dropLast, Queue.statedDropped
    (entry.get "dropped") = 0)
    (some_valid : ∃ entry ∈ entries.take 64, isStep entry = true) :
    (encodeSteps (.arr entries)).length ≤ 64 ∧
    (∀ step ∈ encodeSteps (.arr entries), step.name.length ≤ 500 ∧ step.output.length ≤ 16384) ∧
    ((encodeSteps (.arr entries)).map fun step => step.output.length + step.name.length).sum ≤ 65536 ∧
    (∀ step ∈ (encodeSteps (.arr entries)).dropLast, step.dropped = 0) ∧
    (encodeSteps (.arr entries)).length + ((encodeSteps (.arr entries)).map StepRecord.dropped).sum =
      entries.countP isStep + statedLast entries := by
  have storable := encodeSteps_storable (.arr entries)
  have counted := accounts_encodeSteps last_states some_valid
  refine ⟨storable.count, fun step member =>
    ⟨storable.name step member, storable.output step member⟩, storable.total,
    counted.quiet, ?_⟩
  rw [← reportedTotal_statesLast last_states, ← counted.sum, sum_dropped counted.quiet]

/-- A report with an entry that is no record, whose last record says two more went before it was sent. -/
def shortReport : List Json :=
  [.obj [("index", .int 1), ("name", .str "build")], .str "lost",
    .obj [("index", .int 4), ("name", .str "test"), ("output", .str "failed"), ("dropped", .int 2)]]

theorem shortReport_conserved : (encodeSteps (.arr shortReport)).length ≤ 64 ∧
    (encodeSteps (.arr shortReport)).length +
    ((encodeSteps (.arr shortReport)).map StepRecord.dropped).sum = 4 := by
  have conserved := encodeSteps_conserves shortReport (by decide) (by decide)
  exact ⟨conserved.1, conserved.2.2.2.2⟩

end Cindral.Device

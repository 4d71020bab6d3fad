import Cindral.Device.Report
import Cindral.Status.Broker

/-!
# The records the broker stores

The broker bounds the records of a report once more. A set within its bounds is left as it is, and
both what a device builds and what the broker has stored are within them.
-/

namespace Cindral.Device
open Base Queue

/-- Within the bounds `encode_steps` applies. -/
structure Storable (steps : List StepRecord) : Prop where
  count : steps.length ≤ maxSteps
  total : chars steps ≤ maxTotalChars
  output : ∀ step ∈ steps, step.output.length ≤ maxStepChars
  name : ∀ step ∈ steps, step.name.length ≤ maxStepNameChars

/-- Records in the form a report carries them in. -/
def asReport (steps : List StepRecord) : Json := .arr (steps.map StepRecord.asDict)

theorem chars_concat (steps : List StepRecord) (step : StepRecord) :
    chars (steps ++ [step]) = chars steps + stepChars step := by
  rw [chars_append, chars_singleton]

/-! ## What a set within the bounds becomes -/

theorem isStep_asDict (step : StepRecord) : isStep step.asDict = true := rfl

theorem encodeEntry_asDict {step : StepRecord} (output : step.output.length ≤ maxStepChars)
    (name : step.name.length ≤ maxStepNameChars) : encodeEntry step.asDict = step := by
  have fields : encodeEntry step.asDict =
      { index := step.index, name := sliceTo step.name maxStepNameChars, output := (bound step.output).1
        completed := step.completed, truncated := (bound step.output).2 || step.truncated
        dropped := (step.dropped : Int).toNat } := rfl
  rw [fields, sliceTo_of_length_le name, bound, if_pos output, Bool.false_or, Int.toNat_natCast]

/-- The loop takes every record of a set that fits. -/
theorem encodeLoop_asDict (value : List Json) {steps taken : List StepRecord}
    (total : chars taken + chars steps ≤ maxTotalChars)
    (output : ∀ step ∈ steps, step.output.length ≤ maxStepChars)
    (name : ∀ step ∈ steps, step.name.length ≤ maxStepNameChars) :
    encodeLoop value (steps.map StepRecord.asDict) taken (chars taken) = taken ++ steps := by
  induction steps generalizing taken with
  | nil => exact (List.append_nil taken).symm
  | cons step steps ih =>
    have whole := encodeEntry_asDict (output step List.mem_cons_self) (name step List.mem_cons_self)
    have cost : chars taken + step.output.length + step.name.length = chars (taken ++ [step]) := by
      rw [chars_concat]
      exact Nat.add_assoc _ _ _
    have grown : chars (taken ++ [step]) + chars steps ≤ maxTotalChars := by
      rw [chars_append, Nat.add_assoc, ← chars_append]
      exact total
    rw [List.map_cons, encodeLoop, if_pos (isStep_asDict step)]
    simp only [whole]
    rw [cost, if_neg (Nat.not_lt.mpr (Nat.le_trans (Nat.le_add_right _ _) grown)),
      ih grown (fun x member => output x (List.mem_cons_of_mem _ member)) fun x member =>
      name x (List.mem_cons_of_mem _ member),
      List.append_assoc]
    rfl

theorem encodeSteps_asReport {steps : List StepRecord} (h : Storable steps) :
    encodeSteps (asReport steps) = steps := by
  have few : (steps.map StepRecord.asDict).length ≤ maxSteps := by
    rw [List.length_map]
    exact h.count
  have total : chars [] + chars steps ≤ maxTotalChars := by
    rw [← chars_append]
    exact h.total
  have all := encodeLoop_asDict (steps.map StepRecord.asDict) total h.output h.name
  rw [asReport, encodeSteps]
  simp only [List.take_of_length_le few, if_neg (Nat.not_lt.mpr few)]
  exact all

/-! ## What is within the bounds -/

/-- What the bounds are about. -/
def texts (step : StepRecord) : String × String := (step.name, step.output)

theorem Storable.congr {steps others : List StepRecord} (h : Storable steps)
    (same : others.map texts = steps.map texts) :
    Storable others := by
  have measured (records : List StepRecord) :
      chars records = ((records.map texts).map fun text => text.2.length + text.1.length).sum := by
    rw [List.map_map]
    rfl
  have found {step : StepRecord} (member : step ∈ others) : ∃ kept ∈ steps, texts kept = texts step := by
    have inside := List.mem_map_of_mem (f := texts) member
    rw [same] at inside
    exact List.mem_map.mp inside
  refine ⟨?_, ?_, fun step member => ?_, fun step member => ?_⟩
  · have length := congrArg List.length same
    rw [List.length_map, List.length_map] at length
    rw [length]
    exact h.count
  · rw [measured, same, ← measured]
    exact h.total
  · obtain ⟨kept, inside, text⟩ := found member
    rw [← show kept.output = step.output from congrArg Prod.snd text]
    exact h.output kept inside
  · obtain ⟨kept, inside, text⟩ := found member
    rw [← show kept.name = step.name from congrArg Prod.fst text]
    exact h.name kept inside

theorem Storable.concat {steps : List StepRecord} {step : StepRecord} (h : Storable steps)
    (room : steps.length < maxSteps)
    (fits : chars steps + stepChars step ≤ maxTotalChars) (output : step.output.length ≤ maxStepChars)
    (name : step.name.length ≤ maxStepNameChars) : Storable (steps ++ [step]) := by
  refine ⟨by rw [List.length_append]; exact room, ?_, fun x member => ?_, fun x member => ?_⟩
  · rw [chars_concat]
    exact fits
  · rcases List.mem_append.mp member with before | last
    · exact h.output x before
    · rw [List.mem_singleton.mp last]
      exact output
  · rcases List.mem_append.mp member with before | last
    · exact h.name x before
    · rw [List.mem_singleton.mp last]
      exact name

theorem storable_nil : Storable [] :=
  ⟨Nat.zero_le _, Nat.zero_le _, fun _ member => absurd member List.not_mem_nil, fun _ member =>
  absurd member List.not_mem_nil⟩

theorem setLastDropped_texts (count : Nat) (steps : List StepRecord) :
    (setLastDropped count steps).map texts = steps.map texts := by
  fun_induction setLastDropped count steps with
  | case1 => rfl
  | case2 last => rfl
  | case3 step rest _ ih => rw [List.map_cons, ih, List.map_cons]

theorem encodeEntry_bounded (entry : Json) :
    (encodeEntry entry).output.length ≤ maxStepChars ∧
    (encodeEntry entry).name.length ≤ maxStepNameChars := by
  unfold encodeEntry
  exact ⟨length_bound_le _, length_sliceTo_le _ _⟩

theorem encodeLoop_storable (value : List Json) {entries : List Json} {taken : List StepRecord}
    (h : Storable taken)
    (room : taken.length + entries.length ≤ maxSteps) :
    Storable (encodeLoop value entries taken (chars taken)) := by
  induction entries generalizing taken with
  | nil => exact h
  | cons entry entries ih =>
    rw [List.length_cons] at room
    have cost : chars taken + (encodeEntry entry).output.length + (encodeEntry entry).name.length =
        chars taken + stepChars (encodeEntry entry) := Nat.add_assoc _ _ _
    rw [encodeLoop]
    split
    · simp only [cost]
      split
      · exact h.congr (setLastDropped_texts _ _)
      · rename_i fits
        have one : Storable (taken ++ [encodeEntry entry]) :=
          h.concat (by omega) (Nat.not_lt.mp fits) (encodeEntry_bounded entry).1
          (encodeEntry_bounded entry).2
        rw [← chars_concat]
        refine ih one ?_
        rw [List.length_append, List.length_singleton]
        omega
    · exact ih h (by omega)

theorem encodeSteps_storable (value : Json) : Storable (encodeSteps value) := by
  cases value with
  | arr entries =>
    have loop : Storable (encodeLoop entries (entries.take maxSteps) [] 0) := by
      refine encodeLoop_storable entries storable_nil ?_
      rw [List.length_nil, List.length_take, Nat.zero_add]
      exact Nat.min_le_left _ _
    rw [encodeSteps]
    split
    · exact loop.congr (setLastDropped_texts _ _)
    · exact loop
  | _ => exact storable_nil

theorem withinBudget_storable {steps : List StepRecord} (fresh : ∀ step ∈ steps, Fresh step) :
    Storable (withinBudget steps) := by
  have named (step : StepRecord) (member : step ∈ withinBudget steps) :
      step.output.length ≤ maxStepChars ∧ step.name.length ≤ maxStepNameChars := by
    have cut (record : StepRecord) (inside : record ∈ steps.map boundName) :
        record.output.length ≤ maxStepChars ∧ record.name.length ≤ maxStepNameChars := by
      obtain ⟨original, present, rfl⟩ := List.mem_map.mp inside
      exact ⟨(fresh original present).boundName.output, boundName_name original⟩
    rcases withinBudget_keeps fresh with ⟨-, none_kept⟩ | ⟨kept, omitted, final, all, records, -⟩
    · rw [none_kept] at member
      exact absurd member List.not_mem_nil
    · rw [records] at member
      rcases List.mem_append.mp member with early | last
      · exact cut step (by rw [all]; exact List.mem_append_left _ early)
      · obtain rfl := List.mem_singleton.mp last
        exact cut final (by rw [all]; simp)
  exact ⟨(withinBudget_bounded fresh).1, (withinBudget_bounded fresh).2, fun step member =>
    (named step member).1,
    fun step member => (named step member).2⟩

theorem parseSteps_storable {log nonce : String} {records : List StepRecord}
    (read : parseSteps log nonce = .ok records) :
    Storable records := by
  obtain ⟨steps, fresh, rfl⟩ := parseSteps_fresh read
  exact withinBudget_storable fresh

/-! ## What is kept of a log -/

/-- The dropped count a set states, on its last record. -/
def statedDropped (records : List StepRecord) : Nat := (records.getLast?.map StepRecord.dropped).getD 0

/-- Records within every bound of a report. They are the first of the steps and the last one, and
count what is missing. -/
structure Bounded (steps records : List StepRecord) : Prop where
  count : records.length ≤ 64
  name : ∀ record ∈ records, record.name.length ≤ 500
  output : ∀ record ∈ records, record.output.length ≤ 16384
  total : (records.map fun record => record.output.length + record.name.length).sum ≤ 65536
  kept : (steps = [] ∧ records = []) ∨ ∃ kept omitted final, steps = kept ++ (omitted ++ [final]) ∧
    records = kept ++ [{ final with dropped := omitted.length }]

theorem Keeps.counted {steps records : List StepRecord} (keeps : Keeps steps records) :
    records.length + statedDropped records = steps.length := by
  rcases keeps with ⟨rfl, rfl⟩ | ⟨kept, omitted, final, rfl, rfl, -⟩
  · rfl
  · rw [statedDropped, List.getLast?_concat]
    simp only [Option.map_some, Option.getD_some, List.length_append, List.length_singleton]
    omega

theorem Keeps.bounded {steps records : List StepRecord} (keeps : Keeps steps records)
    (storable : Storable records) :
    Bounded steps records := by
  refine ⟨storable.count, storable.name, storable.output, storable.total, ?_⟩
  rcases keeps with none_kept | ⟨kept, omitted, final, all, records, -⟩
  · exact Or.inl none_kept
  · exact Or.inr ⟨kept, omitted, final, all, records⟩

/-- Every log announces steps. Its records are within the bounds of a report, and with the stated
count as many as the steps, where the interpreter reads the numbers of the markers. -/
theorem parseSteps_bounds (log nonce : String) : (∃ lead parts, Announces nonce log lead parts) ∧
    ∀ lead parts, Announces nonce log lead parts →
      ((∃ records, parseSteps log nonce = .ok records ∧ Bounded (recordsOf parts) records ∧
        records.length + statedDropped records = parts.length) ↔ Readable nonce log) := by
  refine ⟨announces_exists nonce log, fun lead parts announces =>
    ⟨fun ⟨records, read, _⟩ => ?_, fun readable => ?_⟩⟩
  · exact (parseSteps_ok_iff nonce log).mp ⟨records, read⟩
  · obtain ⟨steps, read, fresh, said⟩ := parseSteps_announced announces readable
    have keeps := withinBudget_keeps fresh
    rw [said] at keeps
    exact ⟨_, read, keeps.bounded (withinBudget_storable fresh), by rw [keeps.counted, length_recordsOf]⟩

/-- A start marker with a number of one digit more than `int` reads. -/
def longMarker : List Char := startOf zeros (List.replicate 4301 '1') "make".toList

theorem longMarker_unread : ¬∃ records, parseSteps (.ofList longMarker) zeros = .ok records := by
  rw [parseSteps_ok_iff]
  rintro ⟨short, -⟩
  have single : '\n' ∉ longMarker := by
    unfold longMarker startOf
    simp only [List.mem_append, List.mem_cons, not_or, List.mem_replicate]
    exact ⟨by decide, by decide, by decide, nonce_single zeros_nonce, by decide, by decide⟩
  have starts : Starts zeros longMarker (List.replicate 4301 '1') "make".toList :=
    ⟨zeros_nonce, ⟨List.ne_nil_of_length_pos (by rw [List.length_replicate]; decide),
    fun c member => by rw [List.eq_of_mem_replicate member]; decide⟩, rfl⟩
  have lines : linesOf (.ofList longMarker) = [longMarker] := by
    rw [linesOf, String.toList_ofList, List.splitOn_eq_singleton single]
  have small := short longMarker (by rw [lines]; exact List.mem_singleton_self _) _ _ starts
  rw [List.length_replicate] at small
  exact absurd small (by decide)

/-! ## From the device to the row -/

/-- What a client that leaves out an empty set sends. -/
def sentSteps (steps : List StepRecord) : Json := if steps.isEmpty then .null else asReport steps

theorem encodeSteps_sentSteps {steps : List StepRecord} (h : Storable steps) :
    encodeSteps (sentSteps steps) = steps := by
  cases steps with
  | nil => rfl
  | cons step steps => exact encodeSteps_asReport h

theorem reported_read {payload : Status.Payload} {reported : Status.Reported}
    (read : payload.reported? = some reported) :
    reported.steps = encodeSteps payload.steps ∧ reported.log = payload.log := by
  simp only [Status.Payload.reported?] at read
  split at read
  · obtain rfl := Option.some.inj read
    exact ⟨rfl, rfl⟩
  · obtain ⟨code, -, rfl⟩ := Option.map_eq_some_iff.mp read
    exact ⟨rfl, rfl⟩

/-- The job read back after an accepted verdict has the records the report was read as. -/
theorem report_steps {s t : Store} {jobId device : String} {reported : Status.Reported} {code : Int}
    {now : ℚ} {job : Job}
    (ending : reported.ending = .exit code) (storable : Storable reported.steps)
    (accepted : s.report jobId device reported.report now = .ok (some job, t)) :
    job.steps = reported.steps := by
  obtain ⟨row, -, -, -, ⟨failed, -⟩ | ⟨exitCode, -, -, rfl⟩⟩ := Store.report_job accepted
  · rw [Status.Reported.report, ending] at failed
    exact absurd rfl failed
  · have steps : reported.report.steps = asReport reported.steps := by
      rw [Status.Reported.report, ending]
      rfl
    have stored : (Row.settled exitCode reported.report.log reported.report.steps row).job.steps =
        (if reported.report.steps.truthy then some (encodeSteps reported.report.steps) else
        none).getD [] := rfl
    rw [stored, steps, encodeSteps_asReport storable]
    cases reported.steps with
    | nil => rfl
    | cons step steps => rfl

/-- The log of a job read back after an accepted verdict. -/
theorem report_log {s t : Store} {jobId device : String} {reported : Status.Reported} {code : Int}
    {now : ℚ} {job : Job}
    (ending : reported.ending = .exit code)
    (accepted : s.report jobId device reported.report now = .ok (some job, t)) :
    job.log = sliceTo reported.log 65536 := by
  have sent : reported.report.log = reported.log := by rw [Status.Reported.report, ending]
  obtain ⟨row, -, -, -, ⟨failed, -⟩ | ⟨exitCode, -, -, rfl⟩⟩ := Store.report_job accepted
  · rw [Status.Reported.report, ending] at failed
    exact absurd rfl failed
  · have stored : (Row.settled exitCode reported.report.log reported.report.steps row).job.log =
        (if reported.report.log = "" then none else some (sliceTo reported.report.log 65536)).getD
        "" := rfl
    rw [stored, sent]
    split
    · rename_i empty
      rw [empty]
      rfl
    · rfl

/-- The broker stores the records a device built, whatever the log, and validating stored records
changes none. -/
theorem records_stored_as_built :
    (∀ log nonce records, parseSteps log nonce = .ok records → encodeSteps (asReport records) = records) ∧
    (∀ value, encodeSteps (asReport (encodeSteps value)) = encodeSteps value) ∧
    ∀ (log nonce : String) (records : List StepRecord) (payload : Status.Payload)
      (reported : Status.Reported) (code : Int)
      (s t : Store) (jobId device : String) (now : ℚ) (job : Job), parseSteps log nonce = .ok records →
      payload.steps = sentSteps records → payload.reported? = some reported →
      reported.ending = .exit code →
      s.report jobId device reported.report now = .ok (some job, t) → job.steps = records := by
  refine ⟨fun log nonce records built => encodeSteps_asReport (parseSteps_storable built),
    fun value => encodeSteps_asReport (encodeSteps_storable value),
    fun log nonce records payload reported code s t jobId device now job built sent read ending
    accepted => ?_⟩
  have steps : reported.steps = records := by
    rw [(reported_read read).1, sent, encodeSteps_sentSteps (parseSteps_storable built)]
  rw [report_steps ending (by rw [steps]; exact parseSteps_storable built) accepted, steps]

end Cindral.Device

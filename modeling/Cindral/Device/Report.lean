import Cindral.Base.JsonText
import Cindral.Device.Transcript

/-!
# The size of a report

The device bounds the characters of a report and the broker its bytes. `report_accepted_iff` is when
they agree.
-/

namespace Cindral.Device
open Base Queue

def maxLogChars : Nat := 64 * 1024

def maxBody : Nat := 1 <<< 20

def tail (text : String) : String :=
  if text.length ≤ maxLogChars then text else "...(truncated)...\n" ++ sliceLast text maxLogChars

def truncationMark : String := "...(truncated)...\n"

theorem tail_of_le {text : String} (short : text.length ≤ 65536) : tail text = text := if_pos short

theorem tail_of_lt {text : String} (long : 65536 < text.length) :
    tail text = truncationMark ++ sliceLast text 65536 :=
  if_neg (Nat.not_le.mpr long)

structure ExecutionResult where
  exitCode : Int
  log : String
  steps : List Json
  artifacts : String

def resultFor (exitCode : Int) (log nonce archive : String) : Except String ExecutionResult := do
  let steps ← parseSteps log nonce
  pure { exitCode, log := tail log, steps := steps.map StepRecord.asDict, artifacts := archive }

def reportBody (device : String) (exitCode : Int) (log : String) (steps : List Json) : Json :=
  .obj ([("device", .str device), ("exit_code", .int exitCode)] ++
    (if log = "" then [] else [("log", .str log)]) ++
    (if steps.isEmpty then [] else [("steps", .arr steps)]))

section
variable (float : ℚ → List Char)

/-- What a slot posts for a run it finished. -/
def reportData (device : String) (result : ExecutionResult) : List UInt8 :=
  encode (Json.dumps float (reportBody device result.exitCode result.log result.steps))

def payloadTooLarge (data : List UInt8) : Bool := data.length > maxBody

end

/-! ## What the characters cost -/

def isPaired (c : Char) : Bool := (Json.shortEscapes.lookup c).isSome

def isAstral (c : Char) : Bool := 0x10000 ≤ c.toNat

/-- Other characters that are not printable ASCII. -/
def isWide (c : Char) : Bool := !isPaired c && !isAstral c && !(' ' ≤ c && c ≤ '~')

/-- One byte for each character, and what its escape adds. -/
def bytesOf (text : List Char) : Nat :=
  text.length + text.countP isPaired + 5 * text.countP isWide + 11 * text.countP isAstral

def reported (device log : String) (steps : List StepRecord) : List Char :=
  device.toList ++ log.toList ++ steps.flatMap fun step => step.name.toList ++ step.output.toList

def flagSize (flag : Bool) : Nat := if flag then 4 else 5

/-- The keys, the punctuation, the numbers and the flags of a record, and of a report. -/
def recordFrame (step : StepRecord) : Nat :=
  82 + Json.digits step.index + Json.digits step.dropped + flagSize step.completed + flagSize
  step.truncated

def frame (exitCode : Int) (log : String) (steps : List StepRecord) : Nat :=
  29 + Json.digits exitCode + (if log = "" then 0 else 11) +
    (if steps.isEmpty then 0 else 11 + (steps.map recordFrame).sum)

theorem paired_basic {c : Char} (paired : isPaired c) : isAstral c = false := by
  have table : ∀ entry ∈ Json.shortEscapes, isAstral entry.1 = false := by decide
  obtain ⟨letter, found⟩ := Option.isSome_iff_exists.mp paired
  obtain ⟨before, after, split, -⟩ := List.lookup_eq_some_iff.mp found
  exact table (c, letter) (by rw [split]; simp)

theorem printable_basic {c : Char} (printable : ' ' ≤ c ∧ c ≤ '~') : isAstral c = false :=
  decide_eq_false (Nat.not_le.mpr (Nat.lt_of_le_of_lt printable.2 (by decide)))

theorem escapedSize_eq (c : Char) : Json.escapedSize c =
    1 + (if isPaired c then 1 else 0) + 5 * (if isWide c then 1 else 0) + 11 *
    (if isAstral c then 1 else 0) := by
  have lookup : (Json.shortEscapes.lookup c).isSome = isPaired c := rfl
  rw [Json.escapedSize, lookup, isWide]
  by_cases paired : isPaired c
  · simp only [paired, paired_basic paired, if_true, Bool.not_true, Bool.false_and,
      Bool.false_eq_true, if_false]
  simp only [paired, if_false, Bool.not_false, Bool.true_and, Bool.false_eq_true]
  by_cases printable : ' ' ≤ c ∧ c ≤ '~'
  · simp only [printable, printable_basic printable, and_self, if_true, decide_true, Bool.and_self,
      Bool.not_true,
      Bool.and_false, Bool.false_eq_true, if_false]
  have outside : (decide (' ' ≤ c) && decide (c ≤ '~')) = false := by
    rwa [← Bool.decide_and, decide_eq_false_iff_not]
  by_cases basic : c.toNat < 0x10000
  · have astral : isAstral c = false := decide_eq_false (Nat.not_le.mpr basic)
    simp only [printable, basic, astral, outside, if_true, if_false, Bool.not_false, Bool.and_self,
      Bool.false_eq_true]
  · have astral : isAstral c = true := decide_eq_true (Nat.not_lt.mp basic)
    simp only [printable, basic, astral, if_true, if_false, Bool.not_true, Bool.false_and,
      Bool.false_eq_true]

theorem textSize_eq (text : List Char) : Json.textSize text = bytesOf text := by
  unfold bytesOf
  induction text with
  | nil => rfl
  | cons c text ih =>
    rw [Json.textSize, List.map_cons, List.sum_cons, ← Json.textSize, ih, escapedSize_eq,
      List.length_cons, List.countP_cons,
      List.countP_cons, List.countP_cons]
    omega

variable {float : ℚ → List Char}

theorem size_asDict (step : StepRecord) : Json.size float step.asDict + 2 =
    recordFrame step + Json.textSize step.name.toList + Json.textSize step.output.toList := by
  have index : Json.textSize "index".toList = 5 := by decide
  have name : Json.textSize "name".toList = 4 := by decide
  have output : Json.textSize "output".toList = 6 := by decide
  have completed : Json.textSize "completed".toList = 9 := by decide
  have truncated : Json.textSize "truncated".toList = 9 := by decide
  have dropped : Json.textSize "dropped".toList = 7 := by decide
  simp only [StepRecord.asDict, Json.size, Json.fieldsSize, index, name, output, completed,
    truncated, dropped,
    recordFrame, flagSize, List.length_cons, List.length_nil]
  omega

theorem itemsSize_records (steps : List StepRecord) :
    Json.itemsSize float (steps.map StepRecord.asDict) + 2 * steps.length = (steps.map recordFrame).sum +
      Json.textSize (steps.flatMap fun step => step.name.toList ++ step.output.toList) := by
  induction steps with
  | nil => rfl
  | cons step steps ih =>
    have head := @size_asDict float step
    simp only [List.map_cons, Json.itemsSize, List.length_cons, List.sum_cons, List.flatMap_cons,
      Json.textSize_append]
    omega

theorem size_optional {lead : List (String × Json)} (nonempty : 0 < lead.length) (absent : Prop)
    [Decidable absent]
    (key : String) (value : Json) : Json.size float
      (.obj (lead ++ if absent then [] else [(key, value)])) =
      Json.size float (.obj lead) + if absent then 0 else 6 + Json.textSize key.toList + Json.size
      float value := by
  by_cases none : absent
  · rw [if_pos none, if_pos none, List.append_nil, Nat.add_zero]
  · rw [if_neg none, if_neg none]
    simp only [Json.size, Json.fieldsSize_append, Json.fieldsSize, List.length_append,
      List.length_singleton]
    omega

theorem size_log (log : String) :
    (if log = "" then 0 else 6 + Json.textSize "log".toList + Json.size float (.str log)) =
    Json.textSize log.toList + if log = "" then 0 else 11 := by
  have key : Json.textSize "log".toList = 3 := by decide
  by_cases quiet : log = ""
  · rw [if_pos quiet, if_pos quiet, quiet]
    rfl
  · rw [if_neg quiet, if_neg quiet, key, Json.size]
    omega

theorem size_steps (steps : List StepRecord) : (if (steps.map StepRecord.asDict).isEmpty then 0 else
      6 + Json.textSize "steps".toList + Json.size float (.arr (steps.map StepRecord.asDict))) =
    Json.textSize (steps.flatMap fun step => step.name.toList ++ step.output.toList) +
      if steps.isEmpty then 0 else 11 + (steps.map recordFrame).sum := by
  have key : Json.textSize "steps".toList = 5 := by decide
  have records := @itemsSize_records float steps
  cases steps with
  | nil => rfl
  | cons step steps =>
    rw [List.map_cons, List.isEmpty_cons, List.isEmpty_cons, if_neg Bool.false_ne_true,
      if_neg Bool.false_ne_true,
      ← List.map_cons, key, Json.size, List.length_map]
    rw [List.length_cons] at records ⊢
    omega

theorem length_reportData (device : String) (exitCode : Int) (log : String)
    (steps : List StepRecord) (archive : String) :
    (reportData float device ⟨exitCode, log, steps.map StepRecord.asDict, archive⟩).length =
      Json.textSize (reported device log steps) + frame exitCode log steps := by
  have deviceKey : Json.textSize "device".toList = 6 := by decide
  have codeKey : Json.textSize "exit_code".toList = 9 := by decide
  have lead : Json.size float (.obj [("device", .str device), ("exit_code", .int exitCode)]) =
      29 + Json.textSize device.toList + Json.digits exitCode := by
    simp only [Json.size, Json.fieldsSize, deviceKey, codeKey, List.length_cons, List.length_nil]
    omega
  rw [reportData, Json.length_encode_dumps, reportBody, size_optional (by simp),
    size_optional (by simp), lead, size_log,
    size_steps, reported, Json.textSize_append, Json.textSize_append, frame]
  dsimp only
  omega

/-! ## What a log costs -/

/-- The last characters of a log, and the mark in front of them where it has more. -/
def logBytes (log : String) : Nat :=
  if log = "" then 0
  else 11 + bytesOf (log.toList.drop (log.length - 65536)) + if 65536 < log.length then 19 else 0

def stepBytes (step : StepRecord) : Nat :=
  recordFrame step + bytesOf step.name.toList + bytesOf step.output.toList

/-- The steps a report has room for, of which the last one counts the others. -/
def stepsBytes (steps : List StepRecord) : Nat :=
  match steps.getLast? with
  | none => 0
  | some final =>
    let kept := room steps.dropLast final
    11 + ((steps.dropLast.take kept).map stepBytes).sum + stepBytes
    { final with dropped := steps.length - 1 - kept }

def runBytes (device : String) (exitCode : Int) (log : String) (steps : List StepRecord) : Nat :=
  29 + Json.digits exitCode + bytesOf device.toList + logBytes log + stepsBytes steps

theorem bytesOf_append (text more : List Char) :
    bytesOf (text ++ more) = bytesOf text + bytesOf more := by
  rw [← textSize_eq, Json.textSize_append, textSize_eq, textSize_eq]

theorem bytesOf_tail (log : String) :
    (bytesOf (tail log).toList + if tail log = "" then 0 else 11) = logBytes log := by
  have mark : bytesOf truncationMark.toList = 19 := by decide
  unfold logBytes
  by_cases short : log.length ≤ 65536
  · rw [tail_of_le short, if_neg (Nat.not_lt.mpr short), Nat.sub_eq_zero_of_le short, List.drop_zero]
    split
    · rename_i empty
      rw [empty]
      rfl
    · omega
  · have long := Nat.not_le.mp short
    have filled : log ≠ "" := fun empty => short (by rw [empty]; decide)
    have marked : truncationMark ++ sliceLast log 65536 ≠ "" := fun empty => by
      have none := congrArg String.length empty
      have size : truncationMark.length = 18 := by decide
      rw [String.length_append, size, String.length_empty] at none
      omega
    rw [tail_of_lt long, if_neg filled, if_neg marked, if_pos long, String.toList_append,
      bytesOf_append, mark, sliceLast,
      String.toList_ofList]
    omega

theorem stepsBytes_eq {steps said : List StepRecord} (fresh : ∀ step ∈ steps, Fresh step)
    (named : steps.map boundName = said) :
    (if (withinBudget steps).isEmpty then 0 else 11 + ((withinBudget steps).map stepBytes).sum) =
    stepsBytes said := by
  rcases List.eq_nil_or_concat said with rfl | ⟨earlier, final, rfl⟩
  · rw [withinBudget_nil named]
    rfl
  · rw [List.concat_eq_append] at named ⊢
    have some_kept : (withinBudget steps).isEmpty = false := by simp [withinBudget_room fresh named]
    rw [some_kept, withinBudget_room fresh named, stepsBytes, List.getLast?_concat]
    simp only [List.dropLast_concat, List.length_append, List.length_singleton, Nat.add_sub_cancel,
      List.map_append, List.sum_append,
      List.map_singleton, List.sum_singleton, Bool.false_eq_true, if_false, Nat.add_assoc]

theorem bytesOf_records (records : List StepRecord) :
    bytesOf (records.flatMap fun step => step.name.toList ++ step.output.toList) +
      (records.map recordFrame).sum =
      (records.map stepBytes).sum := by
  induction records with
  | nil => rfl
  | cons step records ih =>
    rw [List.flatMap_cons, bytesOf_append, bytesOf_append, List.map_cons, List.sum_cons,
      List.map_cons, List.sum_cons, ← ih, stepBytes]
    omega

/-- The size of the report of a run, from its log. -/
theorem length_runData {steps said : List StepRecord} (fresh : ∀ step ∈ steps, Fresh step)
    (named : steps.map boundName = said)
    (device : String) (exitCode : Int) (log archive : String) :
    (reportData float device ⟨exitCode, tail log, (withinBudget steps).map StepRecord.asDict,
      archive⟩).length =
      runBytes device exitCode log said := by
  have records := bytesOf_records (withinBudget steps)
  rw [length_reportData, textSize_eq, reported, bytesOf_append, bytesOf_append, frame, runBytes,
    ← bytesOf_tail, ← stepsBytes_eq fresh named]
  cases kept : (withinBudget steps).isEmpty with
  | true =>
    rw [List.isEmpty_iff.mp kept] at records ⊢
    simp only [List.flatMap_nil, List.map_nil, List.sum_nil, if_true] at records ⊢
    omega
  | false =>
    simp only [Bool.false_eq_true, if_false]
    omega

/-- The report of a run is accepted where what the end of its log and the steps it announces cost
leaves room for the rest of the body, and where there is none. -/
theorem report_accepted_iff (float : ℚ → List Char) (device : String) (exitCode : Int)
    (log nonce archive : String) :
    (∀ result, resultFor exitCode log nonce archive = .ok result →
      payloadTooLarge (reportData float device result) = false) ↔
      (Readable nonce log → ∀ lead parts, Announces nonce log lead parts →
        runBytes device exitCode log (recordsOf parts) ≤ 1048576) := by
  have fits (data : List UInt8) : payloadTooLarge data = false ↔ data.length ≤ 1048576 := by
    rw [payloadTooLarge, decide_eq_false_iff_not]
    exact Nat.not_lt
  constructor
  · intro accepted readable lead parts announces
    obtain ⟨steps, read, fresh, said⟩ := parseSteps_announced announces readable
    have whole := accepted _ (by rw [resultFor, read]; rfl)
    rwa [fits, length_runData fresh said] at whole
  · intro small result built
    obtain ⟨records, read, same⟩ := bind_ok built
    obtain rfl := Except.ok.inj same
    have readable := (parseSteps_ok_iff nonce log).mp ⟨records, read⟩
    obtain ⟨lead, parts, announces⟩ := announces_exists nonce log
    obtain ⟨steps, again, fresh, said⟩ := parseSteps_announced announces readable
    obtain rfl := Except.ok.inj (read.symm.trans again)
    rw [fits, length_runData fresh said]
    exact small readable lead parts announces

/-! ## Which runs fit -/

theorem length_tail_le (text : String) : (tail text).length ≤ 18 + maxLogChars := by
  unfold tail
  split
  · omega
  · rw [String.length_append]
    exact Nat.add_le_add (by decide) (length_sliceLast_le _ _)

theorem length_reported (device log : String) (steps : List StepRecord) :
    (reported device log steps).length = device.length + log.length + chars steps := by
  have records : (steps.map fun step => (step.name.toList ++ step.output.toList).length) = steps.map
      stepChars :=
    List.map_congr_left fun step _ => by
      rw [List.length_append, String.length_toList, String.length_toList, stepChars, Nat.add_comm]
  rw [reported, List.length_append, List.length_append, List.length_flatMap, records,
    String.length_toList,
    String.length_toList, chars]

theorem textSize_le (text : List Char) :
    Json.textSize text ≤ 6 * (text.length + text.countP isAstral) := by
  induction text with
  | nil => exact Nat.zero_le _
  | cons c text ih =>
    have cost : Json.escapedSize c ≤ 6 + 6 * (if isAstral c then 1 else 0) := by
      unfold Json.escapedSize
      by_cases astral : isAstral c
      · rw [if_pos astral]
        split_ifs <;> omega
      · have basic : c.toNat < 0x10000 := by simpa [isAstral] using astral
        rw [if_neg astral, if_pos basic]
        split_ifs <;> omega
    rw [Json.textSize, List.map_cons, List.sum_cons, ← Json.textSize, List.length_cons, List.countP_cons]
    omega

/-- Whatever its log, the report of a run fits when few of its characters are astral. -/
theorem report_accepted (float : ℚ → List Char) (device : String) (exitCode : Int)
    (log archive : String) {nonce : String}
    {records : List StepRecord} (read : parseSteps log nonce = .ok records)
    (few : 6 * (device.length + (reported device (tail log) records).countP
      isAstral + (18 + maxLogChars) + maxTotalChars) +
      frame exitCode (tail log) records ≤ maxBody) :
    payloadTooLarge (reportData float device
    ⟨exitCode, tail log, records.map StepRecord.asDict, archive⟩) = false := by
  have texts := textSize_le (reported device (tail log) records)
  have kept : chars records ≤ maxTotalChars := by
    obtain ⟨steps, fresh, rfl⟩ := parseSteps_fresh read
    exact (withinBudget_bounded fresh).2
  have ending := length_tail_le log
  rw [length_reported] at texts
  rw [payloadTooLarge, decide_eq_false_iff_not, Nat.not_lt, length_reportData]
  omega

/-! ## A run that does not -/

theorem countP_drop_ge (p : Char → Bool) (text : List Char) (count : Nat) :
    text.length ≤ (text.drop count).countP p + count + text.countP (fun c => ¬p c) := by
  have total := List.length_eq_countP_add_countP p (l := text.drop count)
  have fewer := (List.drop_sublist count text).countP_le (p := fun c => ¬p c)
  rw [List.length_drop] at total
  omega

theorem textSize_ge (text : List Char) : 12 * text.countP isAstral ≤ Json.textSize text := by
  have fewer := List.countP_le_length (p := isAstral) (l := text)
  rw [textSize_eq, bytesOf]
  omega

theorem countP_basic_le (piece : List Char) : piece.countP (fun c => ¬isAstral c) ≤ piece.length :=
  List.countP_le_length

def zeros : String := "00000000000000000000000000000000"

theorem zeros_nonce : IsNonce zeros := by
  unfold IsNonce
  decide +kernel

/-- The log of two steps that print the same. -/
def twiceLog (output : String) : List Char :=
  scriptLog zeros 1 [⟨"make", output⟩, ⟨"make test", output⟩] none

theorem twiceLog_eq : ∃ a b c d : List Char,
    (a.length ≤ 100 ∧ b.length ≤ 100 ∧ c.length ≤ 100 ∧ d.length ≤ 100) ∧
    ∀ output : String, twiceLog output = a ++ (output.toList ++ (b ++ (c ++ (output.toList ++ d)))) := by
  refine ⟨printf (startFormat zeros 1).toList "make".toList, printf (endFormat zeros 1).toList [],
    printf (startFormat zeros 2).toList "make test".toList, printf (endFormat zeros 2).toList
    [], by decide +kernel, ?_⟩
  intro output
  rw [twiceLog, scriptLog, scriptLog, scriptLog, Option.map_none, Option.getD_none, List.append_nil]

theorem countP_basic_eq_zero {text : List Char} (astral : ∀ c ∈ text, isAstral c) :
    text.countP (fun c => ¬isAstral c) = 0 := by
  rw [List.countP_eq_zero]
  intro c member
  simpa using astral c member

section Astral
variable {output : String} (long : 40000 ≤ output.length) (astral : ∀ c ∈ output.toList, isAstral c)
include long astral

theorem tail_twiceLog_ge : maxLogChars ≤ (tail (.ofList (twiceLog output))).toList.countP
    isAstral + 400 := by
  obtain ⟨a, b, c, d, short, text⟩ := twiceLog_eq
  have size : (twiceLog output).length = (String.ofList (twiceLog output)).length := by
    rw [← String.length_toList, String.toList_ofList]
  have total := congrArg List.length (text output)
  have few := congrArg (List.countP fun c => ¬isAstral c) (text output)
  have fewA := countP_basic_le a
  have fewB := countP_basic_le b
  have fewC := countP_basic_le c
  have fewD := countP_basic_le d
  have most := countP_drop_ge isAstral (twiceLog output) ((twiceLog output).length - maxLogChars)
  simp only [List.length_append, List.countP_append, countP_basic_eq_zero astral,
    String.length_toList] at total few
  have kept : (sliceLast (.ofList (twiceLog output)) maxLogChars).toList =
      (twiceLog output).drop ((twiceLog output).length - maxLogChars) := by
    rw [sliceLast, String.toList_ofList, String.toList_ofList, size]
  rw [tail, if_neg (by simp only [maxLogChars]; omega), String.toList_append, List.countP_append, kept]
  simp only [maxLogChars] at most ⊢
  omega

theorem bound_output_ge (text : String) (whole : text.toList = '\n' :: (output.toList ++ ['\n'])) :
    maxStepChars ≤ (bound text).1.toList.countP isAstral + 2 := by
  have size : text.length = output.length + 2 := by
    rw [← String.length_toList, whole, List.length_cons, List.length_append, String.length_toList,
      List.length_singleton]
  have most := countP_drop_ge isAstral text.toList (text.length - maxStepChars)
  have few : text.toList.countP (fun c => ¬isAstral c) ≤ 2 := by
    rw [whole, List.countP_cons, List.countP_append, countP_basic_eq_zero astral]
    decide
  have kept : (sliceLast text maxStepChars).toList = text.toList.drop
    (text.length - maxStepChars) := String.toList_ofList
  rw [bound, if_neg (by simp only [maxStepChars]; omega), kept]
  rw [String.length_toList] at most
  simp only [maxStepChars] at most ⊢
  omega

theorem parseSteps_twiceLog : ∃ first second : StepRecord, parseSteps (.ofList (twiceLog output))
    zeros = .ok [first, second] ∧
    maxStepChars ≤ first.output.toList.countP isAstral + 2 ∧
    maxStepChars ≤ second.output.toList.countP isAstral + 2 := by
  have foreign : ¬zeros.toList <:+: output.toList := fun inside =>
    absurd (astral '0' (inside.subset (by decide +kernel))) (by decide)
  have silent : Silent zeros "".toList := silent_of_absent (by decide +kernel)
  have parsed : parseSteps (.ofList ("".toList ++ twiceLog output)) zeros =
      .ok (withinBudget (announcedSteps 1 [⟨"make", output⟩, ⟨"make test", output⟩] none)) := by
    refine parseSteps_scriptLog zeros_nonce silent ?_ ?_ (lt_ten_pow (show 2 ≤ 4300 by decide))
    · intro ran member
      simp only [Option.toList_none, List.append_nil, List.mem_cons, List.not_mem_nil, or_false] at member
      rcases member with rfl | rfl
      · exact show '\n' ∉ "make".toList by decide +kernel
      · exact show '\n' ∉ "make test".toList by decide +kernel
    · intro ran member
      simp only [Option.toList_none, List.append_nil, List.mem_cons, List.not_mem_nil, or_false] at member
      rcases member with rfl | rfl
      · exact foreign
      · exact foreign
  have fits (step : StepRecord) (fresh : Fresh step) :
      stepChars (boundName step) ≤ maxStepChars + maxStepNameChars :=
    Nat.add_le_add fresh.boundName.output (boundName_name step)
  have records : announcedSteps 1 [⟨"make", output⟩, ⟨"make test", output⟩] none =
      [announced 1 "make" ('\n' :: (output.toList ++ ['\n'])) true,
        announced 2 "make test" ('\n' :: (output.toList ++ ['\n'])) true] := rfl
  have first_fits := fits (announced 1 "make" ('\n' :: (output.toList ++ ['\n'])) true)
    (announced_fresh _ _ _ _)
  have second_fits := fits (announced 2 "make test" ('\n' :: (output.toList ++ ['\n'])) true)
    (announced_fresh _ _ _ _)
  rw [withinBudget_all announcedSteps_fresh, records] at parsed
  · have large := bound_output_ge long astral (.ofList ('\n' :: (output.toList ++ ['\n'])))
      String.toList_ofList
    refine ⟨_, _, parsed, ?_, ?_⟩
    · rw [boundName_output, announced]
      exact large
    · rw [boundName_output, announced]
      exact large
  · exact show 2 ≤ 64 by decide
  · rw [records]
    simp only [chars, List.map_cons, List.map_nil, List.sum_cons, List.sum_nil, maxTotalChars,
      maxStepChars,
      maxStepNameChars] at first_fits second_fits ⊢
    omega

/-- The report of a run is refused where two of its steps print forty thousand astral characters. -/
theorem twiceReport_refused (float : ℚ → List Char) (device : String) (exitCode : Int)
    (archive : String) :
    ∃ result, resultFor exitCode (.ofList (twiceLog output)) zeros archive = .ok result ∧
      payloadTooLarge (reportData float device result) = true := by
  obtain ⟨first, second, parsed, some, more⟩ := parseSteps_twiceLog long astral
  have ending := tail_twiceLog_ge long astral
  have cost := textSize_ge (reported device (tail (.ofList (twiceLog output))) [first, second])
  simp only [reported, List.countP_append, List.flatMap_cons, List.flatMap_nil, List.append_nil] at cost
  refine ⟨_, by rw [resultFor, parsed]; rfl, ?_⟩
  rw [payloadTooLarge, decide_eq_true_eq, length_reportData]
  simp only [reported, List.flatMap_cons, List.flatMap_nil, List.append_nil, maxLogChars,
    maxStepChars, maxBody] at *
  omega

end Astral

/-- Such a run. -/
theorem crabs_refused : ∃ result, resultFor 0
    (.ofList (twiceLog (.ofList (List.replicate 40000 '🦀')))) zeros "" = .ok result ∧
    payloadTooLarge (reportData (fun _ => []) "device" result) = true := by
  refine twiceReport_refused ?_ ?_ _ _ _ _
  · rw [← String.length_toList, String.toList_ofList, List.length_replicate]
  · intro c member
    rw [String.toList_ofList] at member
    obtain rfl := List.eq_of_mem_replicate member
    decide

end Cindral.Device

import Cindral.Check.Leftovers
import Cindral.Check.LogText
import Cindral.Check.Publisher

/-!
# What one run publishes

`verdict_for` redacts the record once and builds every field of the check from what is left.
-/

namespace Cindral.Check.Output
open Base Queue

def maxAnnotationTitle : Nat := 255
def maxAnnotationDetails : Nat := 64 * 1024

structure Annotation where
  path : String
  startLine : Nat := 1
  endLine : Nat := 1
  annotationLevel : String := "failure"
  title : String
  message : String
  rawDetails : String

structure CheckVerdict where
  state : CommitState
  conclusion : Option Conclusion
  title : String
  summary : String
  text : String
  annotations : List Annotation

/-! ## The summary -/

def joined (separator : String) (parts : List String) : String := separator.intercalate parts

def cell (name : String) : String :=
  let words := (name.toList.splitOnP isSpace).filter fun word => !word.isEmpty
  .ofList ((([' '].intercalate words).map fun c => if c = '`' then '\'' else c).flatMap fun c =>
  if c = '|' then ['\\', '|'] else [c])

def failedStep (job : Job) : Option StepRecord :=
  if stateFor job = .failure then unfinishedStep job.steps else none

def runningStep (job : Job) : Option StepRecord :=
  if job.status = .running then job.steps.find? fun step => !step.completed else none

def ended (job : Job) : String := if conclusionFor job = some .failure then "failed" else "did not finish"

def lastError (job : Job) : String := job.lastError.getD ""

def headline (job : Job) : String :=
  if stateFor job = .failure then
    match failedStep job with
    | none => "The run failed without a step record."
    | some step => s!"Step {step.index} {ended job}: `{cell step.name}`."
  else if lastError job ≠ "" then s!"The run did not finish: {lastError job}"
  else
    match runningStep job with
    | some step => s!"Step {step.index} is running: `{cell step.name}`."
    | none => if job.status = .success then "Every step passed." else "Waiting for a device."

def tree (job : Job) : String :=
  let head := job.statusSha.getD ""
  joined ", " (s!"built `{job.sha}`" :: if head ≠ "" ∧ head ≠ job.sha then [s!"head `{head}`"] else [])

def whereRun (job : Job) : String :=
  let device := job.device.getD ""
  joined ", "
    ([s!"`{job.ref}`", tree job, if device ≠ "" then s!"on `{device}`" else "not claimed yet"] ++
    (if job.attempts ≠ 0 then [s!"attempt {job.attempts}"] else []) ++
    (if job.steps ≠
    [] then [s!"{job.steps.countP (·.completed)} of {job.steps.length} steps finished"] else []))

def stepResult (job : Job) (step : StepRecord) : String :=
  if step.completed then "passed"
  else if (failedStep job).any fun failed => step.index = failed.index then s!"**{ended job}**"
  else if (runningStep job).any fun running => step.index = running.index then "running"
  else "not finished"

def stepTable (job : Job) : List String :=
  ["| # | Step | Result |", "| - | ---- | ------ |"] ++
    job.steps.map fun step => s!"| {step.index} | `{cell step.name}` | {stepResult job step} |"

def noSteps (job : Job) : String :=
  if job.status = .pending ∧ lastError job =
    "" then "The run has not started yet: it is waiting for a device."
  else if job.status =
  .running then "No step has started: a device has the run and has not announced one yet."
  else "No step ran."

def disclosed (job : Job) : List String :=
  let dropped := (job.steps.map StepRecord.dropped).sum
  (if dropped ≠ 0 then [s!"{dropped} earlier steps were not kept in this record."] else []) ++
    (if job.steps.any (·.truncated) then
    [s!"Some step output was cut to its last {maxStepChars} characters."] else []) ++
    (if lastError job = "" then []
    else if parked
    job.attempts then [s!"Out of attempts after {maxAttempts}: this run will not be retried."]
    else [s!"Waiting for attempt {job.attempts + 1} of {maxAttempts}."])

def cutMarker : String := "\nThe rest of this summary was cut to fit GitHub's size limit.\n"

def bounded (text : String) : String :=
  if text.length ≤ maxOutputChars then text
  else .ofList (rstrip (text.toList.take (maxOutputChars - cutMarker.length)) ++ cutMarker.toList)

def summaryFor (job : Job) : String :=
  let lines := [headline job, "", whereRun job, ""] ++
    (if job.steps ≠ [] then stepTable job ++ [""] else [noSteps job]) ++
    disclosed job
  bounded (.ofList (rstrip (joined "\n" lines).toList) ++ "\n")

/-! ## The annotation and the whole -/

section
variable (isWord : Char → Bool)

def annotationsFor (job : Job) (path : String) : List Annotation :=
  if conclusionFor job = none ∨ conclusionFor job = some .success then []
  else
    let step := failedStep job
    let title := (step.map fun step => s!"cindral: step {step.index} {ended job}").getD
      "cindral: the run did not pass"
    -- `job.log or job.last_error or ""`
    let details := (step.map StepRecord.output).getD (if job.log ≠ "" then job.log else lastError job)
    [{ path, title := sliceTo title maxAnnotationTitle, message := redact isWord (titleFor job)
       rawDetails := sliceLast (redact isWord details) maxAnnotationDetails }]

def verdictFor (job : Job) (path : String) : CheckVerdict :=
  let conclusion := conclusionFor job
  let record := redactedJob isWord job
  { state := stateFor job, conclusion, title := titleFor record, summary := summaryFor record
    text := if conclusion ≠ none ∧ conclusion ≠ some .success then logText isWord record.log else ""
    annotations := if conclusion ≠ none then annotationsFor isWord record path else [] }

end

theorem stateFor_redactedJob (isWord : Char → Bool) (job : Job) :
    stateFor (redactedJob isWord job) = stateFor job := by
  have status : (redactedJob isWord job).status = job.status := by rw [redactedJob]
  have attempts : (redactedJob isWord job).attempts = job.attempts := by rw [redactedJob]
  rw [stateFor, stateFor, status, attempts]

theorem annotationsFor_eq_nil {isWord : Char → Bool} {job : Job} {path : String} :
    annotationsFor isWord job path = [] ↔ conclusionFor job = none ∨
    conclusionFor job = some .success := by
  unfold annotationsFor
  split
  · rename_i unfailed
    exact iff_of_true rfl unfailed
  · rename_i failed
    exact iff_of_false (List.cons_ne_nil _ _) failed

/-- What the client that posts a check reads of it. -/
theorem verdictFor_read (isWord : Char → Bool) (job : Job) (path : String) :
    (verdictFor isWord job path).state = (Check.verdictFor job).state ∧
    (verdictFor isWord job path).conclusion = (Check.verdictFor job).conclusion ∧
    ((verdictFor isWord job path).annotations ≠ [] ↔ (Check.verdictFor job).annotated = true) := by
  have open_alike : conclusionFor (redactedJob isWord job) = none ↔ conclusionFor job = none := by
    rw [conclusionFor_none_iff, conclusionFor_none_iff, stateFor_redactedJob]
  have passed_alike : conclusionFor (redactedJob isWord job) = some .success ↔
      conclusionFor job = some .success := by
    rw [conclusionFor_success_iff, conclusionFor_success_iff, stateFor_redactedJob]
  refine ⟨rfl, rfl, ?_⟩
  have annotated : (Check.verdictFor job).annotated = (conclusionFor job).any (· ≠ .success) := rfl
  have annotations : (verdictFor isWord job path).annotations =
      if conclusionFor job ≠ none then annotationsFor isWord (redactedJob isWord job) path else [] := rfl
  have listed : annotationsFor isWord (redactedJob isWord job) path = [] ↔
      conclusionFor job = none ∨ conclusionFor job = some .success := by
    rw [annotationsFor_eq_nil, open_alike, passed_alike]
  rw [annotated, annotations]
  cases concluded : conclusionFor job with
  | none => simp
  | some conclusion =>
    rw [if_pos (Option.some_ne_none conclusion), ne_eq, listed, concluded]
    simp

/-! ## The note on credentials -/

/-- The text starts with the note where the log it is made of still matches a pattern. -/
theorem removedNote_prefix_iff {scrubbed : Bool} {log : List Char} :
    removedNote.toList.isPrefixOf (logPanel scrubbed log).text = true ↔ scrubbed = true := by
  have front : (logPanel scrubbed log).notes = (noted scrubbed log).1 := rfl
  rw [List.isPrefixOf_iff_prefix]
  cases scrubbed with
  | true =>
    refine iff_of_true ?_ rfl
    have note : ∃ rest, (noted true log).1 = removedNote.toList ++ rest := by
      unfold noted
      dsimp only
      split
      · exact ⟨hiddenNote.toList, rfl⟩
      · exact ⟨[], rfl⟩
    obtain ⟨rest, notes⟩ := note
    rw [LogPanel.text, front, notes]
    simp only [List.append_assoc]
    exact List.prefix_append _ _
  | false =>
    refine iff_of_false ?_ Bool.false_ne_true
    have notes : (noted false log).1 = [] ∨ (noted false log).1 = hiddenNote.toList := by
      unfold noted
      dsimp only
      split
      · exact Or.inr rfl
      · exact Or.inl rfl
    intro starts
    rw [LogPanel.text, front] at starts
    rcases notes with plain | hidden
    · have ticks : (logPanel false log).fence = '`' :: List.replicate
        (max 3 (longestRun (noted false log).2 + 1) - 1) '`' := by
        have length : max 3 (longestRun (noted false log).2 + 1) = max 3
          (longestRun (noted false log).2 + 1) - 1 + 1 := by omega
        rw [← List.replicate_succ, ← length]
        rfl
      rw [plain, ticks] at starts
      obtain ⟨rest, same⟩ := starts
      exact absurd (List.cons.inj same).1 (by decide)
    · rw [hidden] at starts
      simp only [List.append_assoc] at starts
      have opening := congrArg (List.take 12) (List.prefix_iff_eq_take.mp starts)
      rw [List.take_take, show min 12 removedNote.toList.length = 12 by decide,
        List.take_append_of_le_length (by decide)] at opening
      exact absurd opening (by decide)

theorem verdictFor_text {isWord : Char → Bool} {job : Job} {path : String}
    (failed : conclusionFor job ≠ none)
    (not_passed : conclusionFor job ≠ some .success) :
    (verdictFor isWord job path).text = logText isWord (redact isWord job.log) :=
    if_pos ⟨failed, not_passed⟩

/-- The note is decided on the log as it is after one pass. -/
theorem note_iff {isWord : Char → Bool} {job : Job} {path : String} (failed : conclusionFor job ≠ none)
    (not_passed : conclusionFor job ≠ some .success) :
    hasPrefix (verdictFor isWord job path).text removedNote = true ↔
    scrubbed isWord (redact isWord job.log) = true := by
  rw [verdictFor_text failed not_passed]
  by_cases empty : job.log = ""
  · rw [empty, redact_empty, scrubbed_empty]
    refine iff_of_false ?_ Bool.false_ne_true
    rw [logText, redact_empty, if_pos rfl]
    decide
  · rw [logText, if_neg (redact_ne_empty (redact_ne_empty empty)), hasPrefix, String.toList_ofList]
    exact removedNote_prefix_iff

/-- The note says whether the log was changed exactly for the logs that no pattern matches, and for
those that are changed when a pattern that keeps what it knows its match by leaves a match. -/
theorem credentials_note_iff {isWord : Char → Bool} (words : WordClass isWord) (job : Job) (path : String)
    (failed : conclusionFor job ≠ none) (not_passed : conclusionFor job ≠ some .success) :
    (hasPrefix (verdictFor isWord job path).text removedNote = true ↔ redact isWord job.log ≠ job.log) ↔
      (∀ entry ∈ patterns, found isWord entry job.log = false) ∨
        redact isWord job.log ≠ job.log ∧ ∃ front entry back, Leaves isWord front entry back job.log := by
  rw [note_iff failed not_passed, ← scrubbed_redact_iff words]
  have unscrubbed : scrubbed isWord job.log = false ↔ ∀ entry ∈ patterns, found isWord entry
      job.log = false := by
    simp only [scrubbed, List.any_eq_false, Bool.not_eq_true, found]
  rw [← unscrubbed]
  by_cases changed : redact isWord job.log = job.log
  · rw [changed]
    simp
  · have matched : scrubbed isWord job.log = true := by
      by_contra plain
      exact changed (redact_of_not_scrubbed (by simpa using plain))
    simp [changed, matched]

def tokenJob (log : String) : Job :=
  { id := "job", repository := "acme/app", sha := "c0ffee", ref := "main", labels := [],
      timeout := 600, createdAt := 0
    status := .failure, exitCode := some 1, log }

theorem settingJob_noted : hasPrefix (verdictFor asciiWord (tokenJob "token=x") "cindral.toml").text
    removedNote = true := by
  have changed : redact asciiWord "token=x" ≠ "token=x" := by decide +kernel
  have leaves : Leaves asciiWord (pemBlock :: tokens ++ [authorization, bearer]) setting [userinfo]
      "token=x" := by
    refine ⟨rfl, rfl, by decide +kernel, fun passed later rest split hidden => ?_⟩
    obtain ⟨rfl, last⟩ | ⟨_, rfl, last⟩ := List.cons_eq_append_iff.mp split
    · obtain ⟨rfl, rfl⟩ := List.cons.inj last
      exact absurd hidden.2 (by decide +kernel)
    · exact absurd last (by simp)
  exact ((credentials_note_iff asciiWord_class (tokenJob "token=x") "cindral.toml" (by decide)
    (by decide)).mpr
    (Or.inr ⟨changed, _, _, _, leaves⟩)).mpr changed

theorem bareToken_unnoted :
    ¬∀ job path, conclusionFor job ≠ none → conclusionFor job ≠ some .success →
      (hasPrefix (verdictFor asciiWord job path).text removedNote = true ↔
      redact asciiWord job.log ≠ job.log) := by
  intro noted
  have job := noted (tokenJob "ghp_bbbbbbbbbbbbbbbb") "cindral.toml" (by decide) (by decide)
  rw [note_iff (by decide) (by decide)] at job
  have changed : redact asciiWord "ghp_bbbbbbbbbbbbbbbb" ≠ "ghp_bbbbbbbbbbbbbbbb" := by decide +kernel
  exact absurd (job.mpr changed) (by decide +kernel)

end Cindral.Check.Output

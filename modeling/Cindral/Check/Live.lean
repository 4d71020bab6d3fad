import Cindral.Check.Verdict
import Cindral.Queue.Lifecycle

/-!
# Whether a check calls a run dead

A check reads the loss of a run from the error and the attempts its row keeps. A claim counts the
attempt and leaves the error of the one before, so a run on its last attempt reads as one that is
out of attempts.
-/

namespace Cindral.Check.Output
open Base Queue

/-! ## The text at the ends of a check -/

/-- A text that starts with one of two words, neither of which starts with the other, does not start
with the other. -/
theorem not_hasPrefix {s start other : String} (h : other.toList <+: s.toList)
    (apart : ¬ start.toList <+: other.toList ∧ ¬ other.toList <+: start.toList) :
    hasPrefix s start = false := by
  rw [Bool.eq_false_iff]
  intro starts
  rcases List.prefix_or_prefix_of_prefix (List.isPrefixOf_iff_prefix.mp starts) h with first | second
  · exact apart.1 first
  · exact apart.2 second

theorem prefix_sliceTo {s start : String} {n : Nat} (h : start.toList <+: s.toList)
    (fits : start.toList.length ≤ n) :
    start.toList <+: (sliceTo s n).toList := by
  rw [toList_sliceTo]
  exact List.prefix_take_iff.mpr ⟨h, fits⟩

theorem prefix_append (s t : String) : s.toList <+: (s ++ t).toList := by
  rw [String.toList_append]
  exact List.prefix_append _ _

theorem suffix_append (s t : String) : t.toList <:+ (s ++ t).toList := by
  rw [String.toList_append]
  exact List.suffix_append _ _

/-- `rstrip` keeps a text whose last character is no white space. -/
theorem rstrip_append (x : List Char) {y : List Char} {c : Char} (solid : isSpace c = false) :
    rstrip (x ++ (y ++ [c])) = x ++ (y ++ [c]) := by
  rw [rstrip, ← List.append_assoc, List.reverse_append, List.reverse_singleton, List.singleton_append,
    List.dropWhile_cons_of_neg (by simp [solid]), List.reverse_cons, List.reverse_reverse]

theorem rstrip_newline (x : List Char) : rstrip (x ++ ['\n']) = rstrip x := by
  rw [rstrip, List.reverse_append, List.reverse_singleton, List.singleton_append,
    List.dropWhile_cons_of_pos (by decide)]
  rfl

theorem prefix_rstrip {x y : List Char} {c : Char} (solid : isSpace c = false) :
    x ++ [c] <+: rstrip (x ++ [c] ++ y) := by
  have kept : rstrip (x ++ [c]) = x ++ [c] := rstrip_append [] (y := x) solid
  rw [rstrip, List.reverse_append, List.dropWhile_append]
  split
  · exact ⟨[], (List.append_nil _).trans kept.symm⟩
  · rw [List.reverse_append, List.reverse_reverse]
    exact List.prefix_append _ _

/-! ## The title -/

def lossTitle : String := "device pool run lost after "
def retryTitle : String := "device pool run lost, retry "

/-- Whether the text speaks of a loss that no attempt is left for. -/
def OutOfAttempts (job : Job) : Prop := lastError job ≠ "" ∧ parked job.attempts = true

theorem lossTitle_of_parked {job : Job} (error : String) (out : parked job.attempts = true) :
    lossTitle.toList <+: (lostDescription job error).description.toList := by
  rw [lostDescription, if_pos out]
  refine prefix_sliceTo ?_ (by decide)
  rw [String.append_assoc, String.append_assoc]
  exact prefix_append _ _

theorem retryTitle_of_left {job : Job} (error : String) (left : ¬ parked job.attempts = true) :
    retryTitle.toList <+: (lostDescription job error).description.toList := by
  rw [lostDescription, if_neg left]
  refine prefix_sliceTo ?_ (by decide)
  rw [String.append_assoc, String.append_assoc, String.append_assoc, String.append_assoc]
  exact prefix_append _ _

theorem failedTitle (exitCode : Int) (log : String) (steps : List StepRecord) :
    "device pool run failed (exit ".toList <+: (failureDescription exitCode log steps).toList := by
  have summary (rest : String) : "device pool run failed (exit ".toList <+:
      (s!"device pool run failed (exit {exitCode})" ++ rest).toList := by
    rw [String.append_assoc, String.append_assoc]
    exact prefix_append _ _
  unfold failureDescription
  dsimp only
  split
  · refine prefix_sliceTo ?_ (by decide)
    have whole := summary (": " ++ failureDetail log steps)
    rwa [← String.append_assoc] at whole
  · have whole := summary ""
    rwa [String.append_empty] at whole

theorem lossTitle_iff {job : Job} (error : String) :
    hasPrefix (lostDescription job error).description lossTitle = true ↔ parked job.attempts = true := by
  by_cases out : parked job.attempts = true
  · exact iff_of_true (List.isPrefixOf_iff_prefix.mpr (lossTitle_of_parked error out)) out
  · refine iff_of_false ?_ out
    rw [not_hasPrefix (retryTitle_of_left error out) (by decide)]
    exact Bool.false_ne_true

theorem titleFor_dead_iff (job : Job) : hasPrefix (titleFor job) lossTitle = true ↔
    job.status = .dead ∧ parked job.attempts = true ∨
      (job.status = .pending ∨ job.status = .running) ∧ OutOfAttempts job := by
  have quiet : hasPrefix queuedDescription lossTitle = false ∧ hasPrefix runningDescription
      lossTitle = false ∧
      hasPrefix passedDescription lossTitle = false := by decide
  have open_ (h : job.status = .pending ∨ job.status = .running) :
      hasPrefix (titleFor job) lossTitle = true ↔ OutOfAttempts job := by
    have title : titleFor job = if lastError
        job ≠ "" then (lostDescription job (lastError job)).description
        else if job.status = .running then runningDescription else queuedDescription := by
      rcases h with status | status <;> simp only [titleFor, status, lastError]
    rw [title, OutOfAttempts]
    split
    · rename_i failed
      rw [lossTitle_iff, and_iff_right failed]
    · rename_i none
      refine iff_of_false ?_ fun out => none out.1
      split
      · rw [quiet.2.1]
        exact Bool.false_ne_true
      · rw [quiet.1]
        exact Bool.false_ne_true
  cases status : job.status with
  | pending => simpa only [status, reduceCtorEq, false_and, false_or, true_or, true_and] using open_ (Or.inl status)
  | running => simpa only [status, reduceCtorEq, false_and, false_or, or_true, true_and] using open_ (Or.inr status)
  | dead => simp only [titleFor, status, lossTitle_iff, reduceCtorEq, or_self, false_and, or_false,
      true_and]
  | success => simp only [titleFor, status, quiet.2.2, reduceCtorEq, or_self, false_and,
      Bool.false_eq_true]
  | failure =>
    have other : hasPrefix (failureDescription (job.exitCode.getD 1) job.log job.steps) lossTitle =
        false :=
      not_hasPrefix (failedTitle _ _ _) (by decide)
    simp only [titleFor, status, other, reduceCtorEq, or_self, false_and, Bool.false_eq_true]

/-- Of a run that is open, the title says that it is queued, that it runs, or that another attempt
follows. -/
theorem titleFor_open {job : Job} (h : job.status = .pending ∨ job.status = .running)
    (left : ¬ OutOfAttempts job) :
    titleFor job = queuedDescription ∨ titleFor job = runningDescription ∨
    hasPrefix (titleFor job) retryTitle = true := by
  by_cases failed : lastError job = ""
  · rcases h with status | status
    · exact Or.inl (by simp only [titleFor, status, show job.lastError.getD "" = "" from failed]; rfl)
    · exact Or.inr
        (Or.inl (by simp only [titleFor, status, show job.lastError.getD "" = "" from failed]; rfl))
  · refine Or.inr (Or.inr ?_)
    have title : titleFor job = (lostDescription job (lastError job)).description := by
      rcases h with status | status <;> exact (by simp only [titleFor, status]; exact if_pos failed)
    rw [title]
    exact List.isPrefixOf_iff_prefix.mpr (retryTitle_of_left _ fun out => left ⟨failed, out⟩)

/-! ## The summary -/

def lines (job : Job) : List String :=
  [headline job, "", whereRun job, ""] ++
  (if job.steps ≠ [] then stepTable job ++ [""] else [noSteps job]) ++ disclosed job

/-- The summary before it is cut, without the line end it closes with. -/
def body (job : Job) : List Char := rstrip (joined "\n" (lines job)).toList

theorem summaryFor_eq (job : Job) : summaryFor job = bounded (.ofList (body job) ++ "\n") := rfl

theorem closed_toList (job : Job) : (String.ofList (body job) ++ "\n").toList = body
    job ++ "\n".toList := by
  rw [String.toList_append, String.toList_ofList]

theorem summary_ends {job : Job} {tail : String} (h : tail.toList <:+ body job) :
    (tail ++ "\n").toList <:+ (summaryFor job).toList ∨ cutMarker.toList <:+ (summaryFor job).toList := by
  rw [summaryFor_eq, bounded]
  split
  · left
    obtain ⟨front, same⟩ := h
    rw [String.toList_append, closed_toList, ← same, List.append_assoc]
    exact List.suffix_append _ _
  · right
    rw [String.toList_ofList]
    exact List.suffix_append _ _

theorem summary_starts {job : Job} {start : List Char} {c : Char} (solid : isSpace c = false)
    (h : start ++ [c] <+: body job)
    (fits : (start ++ [c]).length ≤ maxOutputChars - cutMarker.length) :
    start ++ [c] <+: (summaryFor job).toList := by
  have whole : start ++ [c] <+: (String.ofList (body job) ++ "\n").toList := by
    rw [closed_toList]
    exact h.trans (List.prefix_append _ _)
  rw [summaryFor_eq, bounded]
  split
  · exact whole
  · obtain ⟨rest, same⟩ := List.prefix_take_iff.mpr ⟨whole, fits⟩
    rw [String.toList_ofList, ← same]
    exact (prefix_rstrip solid).trans (List.prefix_append _ _)

theorem joined_last {front : List String} (some_ : front ≠ []) (last : String) :
    (joined "\n" (front ++ [last])).toList = (joined "\n" front).toList ++ '\n' :: last.toList := by
  rw [joined, String.intercalate_append_of_ne_nil some_ (List.cons_ne_nil _ _),
    String.intercalate_singleton,
    String.toList_append, String.toList_append, List.append_assoc]
  rfl

theorem joined_first (first : String) {rest : List String} (some_ : rest ≠ []) :
    (joined "\n" (first :: rest)).toList = first.toList ++ '\n' :: (joined "\n" rest).toList := by
  rw [joined, String.intercalate_cons_of_ne_nil some_, String.toList_append, String.toList_append,
    List.append_assoc]
  rfl

/-- The last line of the summary ends the body, when it ends in no white space. -/
theorem body_ends {job : Job} {front : List String} {last tail : String}
    (shape : lines job = front ++ [last])
    (some_ : front ≠ []) (h : tail.toList <:+ last.toList) {y : List Char} {c : Char}
    (ends : tail.toList = y ++ [c])
    (solid : isSpace c = false) : tail.toList <:+ body job := by
  obtain ⟨x, same⟩ := h
  rw [body, shape, joined_last some_, ← same, ends, ← List.cons_append, ← List.append_assoc,
    rstrip_append _ solid]
  exact List.suffix_append _ _

def waitingNote (job : Job) : String := s!"Waiting for attempt {job.attempts + 1} of {maxAttempts}."

/-- How the last line of a summary ends when it is no note on a run out of attempts. -/
def quietTails : List String := ["|", "device.", "yet.", "ran.", "record.", "characters.", "of 3."]

theorem waitingNote_tail (job : Job) : "of 3.".toList <:+ (waitingNote job).toList := by
  have number : (toString maxAttempts).toList = ['3'] := by decide
  unfold waitingNote
  generalize toString maxAttempts = limit at number
  generalize toString (job.attempts + 1) = next
  have whole : (toString "Waiting for attempt " ++ next ++ toString " of " ++ limit ++ toString
      ".").toList =
      "Waiting for attempt ".toList ++ next.toList ++ " ".toList ++ "of 3.".toList := by
    rw [String.toList_append, String.toList_append, String.toList_append, String.toList_append, number]
    simp only [List.append_assoc]
    rfl
  rw [whole]
  exact List.suffix_append _ _

theorem quietTails_solid : ∀ tail ∈ quietTails, ∃ y c, tail.toList = y ++ [c] ∧ isSpace c = false := by
  have solid : ∀ tail ∈ quietTails, tail.toList ≠ [] ∧ isSpace (tail.toList.getLast?.getD ' ') =
    false := by decide
  intro tail listed
  obtain ⟨some_, last⟩ := solid tail listed
  rw [List.getLast?_eq_some_getLast some_, Option.getD_some] at last
  exact ⟨tail.toList.dropLast, tail.toList.getLast some_, (List.dropLast_concat_getLast some_).symm, last⟩

/-- A text that ends as a quiet line does. -/
def EndsQuiet (text : List Char) : Prop := ∃ tail ∈ quietTails, tail.toList <:+ text

theorem body_endsQuiet {job : Job} {front : List String} {last : String}
    (shape : lines job = front ++ [last])
    (some_ : front ≠ []) (quiet : EndsQuiet last.toList) : EndsQuiet (body job) := by
  obtain ⟨tail, listed, ends⟩ := quiet
  obtain ⟨y, c, split_, solid⟩ := quietTails_solid tail listed
  exact ⟨tail, listed, body_ends shape some_ ends split_ solid⟩

theorem noSteps_quiet (job : Job) : EndsQuiet (noSteps job).toList := by
  unfold noSteps
  split
  · exact ⟨"device.", by decide, by decide⟩
  · split
    · exact ⟨"yet.", by decide, by decide⟩
    · exact ⟨"ran.", by decide, by decide⟩

/-- Notes of which the last, when there is one, ends as a quiet line does. -/
def QuietNotes (notes : List String) : Prop :=
  notes = [] ∨ ∃ front last, notes = front ++ [last] ∧ EndsQuiet last.toList

theorem quietNotes_append {first second : List String} (h : QuietNotes first) (h' : QuietNotes second) :
    QuietNotes (first ++ second) := by
  rcases h' with rfl | ⟨front, last, rfl, quiet⟩
  · rwa [List.append_nil]
  · exact Or.inr ⟨first ++ front, last, (List.append_assoc _ _ _).symm, quiet⟩

theorem quietNotes_if {p : Prop} [Decidable p] {note tail : String} (listed : tail ∈ quietTails)
    (ends : tail.toList <:+ note.toList) : QuietNotes (if p then [note] else []) := by
  split
  · exact Or.inr ⟨[], note, rfl, tail, listed, ends⟩
  · exact Or.inl rfl

theorem disclosed_quiet {job : Job} (left : ¬ OutOfAttempts job) : QuietNotes (disclosed job) := by
  have dropped (n : Nat) :
      "record.".toList <:+ s!"{n} earlier steps were not kept in this record.".toList :=
    (show "record.".toList <:+
    " earlier steps were not kept in this record.".toList by decide).trans (suffix_append _ _)
  have cut : "characters.".toList <:+
      s!"Some step output was cut to its last {maxStepChars} characters.".toList :=
    (show "characters.".toList <:+ " characters.".toList by decide).trans (suffix_append _ _)
  refine quietNotes_append (quietNotes_append (quietNotes_if (by decide) (dropped _))
    (quietNotes_if (by decide) cut)) ?_
  split
  · exact Or.inl rfl
  · rename_i failed
    rw [if_neg fun out => left ⟨failed, out⟩]
    exact Or.inr ⟨[], waitingNote job, rfl, "of 3.", by decide, waitingNote_tail job⟩

/-- The part before the notes. -/
theorem table_quiet {job : Job} (noted : disclosed job = []) : EndsQuiet (body job) := by
  by_cases steps : job.steps = []
  · have shape : lines job = [headline job, "", whereRun job, ""] ++ [noSteps job] := by
      rw [lines, noted, if_neg (not_not.mpr steps), List.append_nil]
    exact body_endsQuiet shape (List.cons_ne_nil _ _) (noSteps_quiet job)
  · obtain ⟨earlier, step, listed⟩ : ∃ earlier step, job.steps = earlier ++ [step] :=
      ⟨_, _, (List.dropLast_concat_getLast steps).symm⟩
    -- an empty line follows the table, and the strip takes its line end away
    obtain ⟨front, shape⟩ : ∃ front, lines job = (headline job :: front) ++
        [s!"| {step.index} | `{cell step.name}` | {stepResult job step} |"] ++ [""] := by
      refine ⟨["", whereRun job, ""] ++ (["| # | Step | Result |", "| - | ---- | ------ |"] ++
        earlier.map fun step => s!"| {step.index} | `{cell step.name}` | {stepResult job step} |"), ?_⟩
      rw [lines, noted, if_pos steps, stepTable, listed, List.map_append, List.append_nil]
      simp only [List.map_cons, List.map_nil, List.append_assoc, List.cons_append, List.nil_append]
    have bar : "|".toList <:+ s!"| {step.index} | `{cell step.name}` | {stepResult job step} |".toList :=
      (show "|".toList <:+ " |".toList by decide).trans (suffix_append _ _)
    generalize s!"| {step.index} | `{cell step.name}` | {stepResult job step} |" = row at shape bar
    obtain ⟨opening, same⟩ := bar
    have closed : body job = rstrip
        ((joined "\n" (headline job :: front)).toList ++ '\n' :: (opening ++ ['|'])) := by
      rw [body, shape, joined_last (List.append_ne_nil_of_left_ne_nil (List.cons_ne_nil _ _) _),
        joined_last (List.cons_ne_nil _ _),
        ← same]
      exact rstrip_newline _
    rw [closed, ← List.cons_append, rstrip_append _ (by decide)]
    exact ⟨"|", by decide, ⟨_, List.append_assoc _ _ _⟩⟩

theorem body_quiet {job : Job} (left : ¬ OutOfAttempts job) : EndsQuiet (body job) := by
  rcases disclosed_quiet left with none | ⟨front, last, notes, quiet⟩
  · exact table_quiet none
  · have shape : lines job = ([headline job, "", whereRun job, ""] ++
        (if job.steps ≠ [] then stepTable job ++ [""] else [noSteps job]) ++ front) ++ [last] := by
      rw [lines, notes, List.append_assoc, List.append_assoc, List.append_assoc]
    exact body_endsQuiet shape (List.cons_ne_nil _ _) quiet

def deadNote : String := "this run will not be retried."

/-- The note that no attempt follows stands at the end of the summary of a run that is out of
attempts, and of no other. -/
theorem outOfAttempts_of_note {job : Job}
    (noted : hasSuffix (summaryFor job) (deadNote ++ "\n") = true) : OutOfAttempts job := by
  by_contra left
  have ends := List.isSuffixOf_iff_suffix.mp noted
  have apart : (¬ (deadNote ++ "\n").toList <:+ cutMarker.toList ∧
      ¬ cutMarker.toList <:+ (deadNote ++ "\n").toList) ∧
      ∀ tail ∈ quietTails, ¬ (deadNote ++ "\n").toList <:+ (tail ++ "\n").toList ∧
        ¬ (tail ++ "\n").toList <:+ (deadNote ++ "\n").toList := by decide
  obtain ⟨tail, listed, last⟩ := body_quiet left
  rcases summary_ends last with whole | cut
  · rcases List.suffix_or_suffix_of_suffix ends whole with one | other
    · exact (apart.2 tail listed).1 one
    · exact (apart.2 tail listed).2 other
  · rcases List.suffix_or_suffix_of_suffix ends cut with one | other
    · exact apart.1.1 one
    · exact apart.1.2 other

/-- The check tells its reader that the run is lost after its attempts, or that it will not be retried. -/
def CallsDead (v : CheckVerdict) : Prop :=
  hasPrefix v.title lossTitle = true ∨ hasSuffix v.summary (deadNote ++ "\n") = true

/-- The check tells its reader that the run waits for a device, that it runs, or which attempt
follows. A summary that is too long loses the note it ends with. -/
structure CallsLive (attempts : Nat) (v : CheckVerdict) : Prop where
  title : v.title = queuedDescription ∨ v.title = runningDescription ∨ hasPrefix v.title retryTitle = true
  summary : hasPrefix v.summary "Waiting for a device." = true ∨
    hasPrefix v.summary "The run did not finish:" = true ∧
    (hasSuffix v.summary (s!"Waiting for attempt {attempts + 1} of {maxAttempts}." ++ "\n") = true ∨
      hasSuffix v.summary cutMarker = true)

theorem callsDead_iff {v : CheckVerdict} {job : Job} (title : v.title = titleFor job)
    (summary : v.summary = summaryFor job)
    (final : job.status = .dead → parked job.attempts = true)
    (settled : job.status = .success ∨ job.status = .failure → lastError job = "") :
    CallsDead v ↔ job.status = .dead ∨ (job.status = .pending ∨ job.status = .running) ∧
    OutOfAttempts job := by
  rw [CallsDead, title, summary, titleFor_dead_iff]
  constructor
  · rintro ((⟨dead, -⟩ | open_) | noted)
    · exact Or.inl dead
    · exact Or.inr open_
    · have out := outOfAttempts_of_note noted
      cases status : job.status with
      | dead => exact Or.inl rfl
      | pending => exact Or.inr ⟨Or.inl rfl, out⟩
      | running => exact Or.inr ⟨Or.inr rfl, out⟩
      | success => exact absurd (settled (Or.inl status)) out.1
      | failure => exact absurd (settled (Or.inr status)) out.1
  · rintro (dead | open_)
    · exact Or.inl (Or.inl ⟨dead, final dead⟩)
    · exact Or.inl (Or.inr open_)

theorem summary_headline {job : Job} {start : List Char} {c : Char} (solid : isSpace c = false)
    (h : start ++ [c] <+: (headline job).toList)
    (fits : (start ++ [c]).length ≤ maxOutputChars - cutMarker.length) :
    start ++ [c] <+: (summaryFor job).toList := by
  refine summary_starts solid ?_ fits
  obtain ⟨rest, same⟩ := h
  have shape : lines job = headline job :: (["", whereRun job, ""] ++
      (if job.steps ≠ [] then stepTable job ++ [""] else [noSteps job]) ++ disclosed job) := rfl
  rw [body, shape, joined_first _ (by simp), ← same, List.append_assoc]
  exact prefix_rstrip solid

theorem waitingNote_ends {job : Job} (failed : lastError job ≠ "") (left : ¬ parked job.attempts = true) :
    (waitingNote job).toList <:+ body job := by
  obtain ⟨front, notes⟩ : ∃ front, disclosed job = front ++ [waitingNote job] := by
    rw [disclosed, if_neg failed, if_neg left]
    exact ⟨_, rfl⟩
  have shape : lines job = ([headline job, "", whereRun job, ""] ++
      (if job.steps ≠ [] then stepTable job ++ [""] else [noSteps job]) ++ front) ++
      [waitingNote job] := by
    rw [lines, notes, List.append_assoc, List.append_assoc, List.append_assoc]
  obtain ⟨opening, same⟩ := waitingNote_tail job
  have ends : (waitingNote job).toList = (opening ++ "of 3".toList) ++ ['.'] := by
    rw [← same, List.append_assoc]
    rfl
  exact body_ends shape (List.cons_ne_nil _ _) List.suffix_rfl ends (by decide)

theorem callsLive_of_open {v : CheckVerdict} {job : Job} (title : v.title = titleFor job)
    (summary : v.summary = summaryFor job)
    (open_ : job.status = .pending ∨ job.status = .running) (unstarted : job.steps = [])
    (left : ¬ OutOfAttempts job) :
    CallsLive job.attempts v := by
  have unfailed : stateFor job ≠ .failure := by
    rcases open_ with status | status <;> simp only [stateFor, status, ne_eq, reduceCtorEq,
      not_false_eq_true]
  refine ⟨?_, ?_⟩
  · rw [title]
    exact titleFor_open open_ left
  · rw [summary]
    by_cases failed : lastError job = ""
    · have none : runningStep job = none := by
        rw [runningStep, unstarted]
        split <;> rfl
      have unpassed : job.status ≠ .success := by
        rcases open_ with status | status <;> simp only [status, ne_eq, reduceCtorEq, not_false_eq_true]
      have waits : headline job = "Waiting for a device." := by
        rw [headline, if_neg unfailed, if_neg (not_not.mpr failed), none]
        exact if_neg unpassed
      left
      have starts : "Waiting for a device".toList ++ ['.'] <+: (headline job).toList := by
        rw [waits]
        exact List.prefix_rfl
      exact List.isPrefixOf_iff_prefix.mpr (summary_headline (by decide) starts (by decide))
    · have stops : headline job = s!"The run did not finish: {lastError job}" := by
        rw [headline, if_neg unfailed, if_pos failed]
      have starts : "The run did not finish".toList ++ [':'] <+: (headline job).toList := by
        rw [stops]
        exact (show "The run did not finish".toList ++ [':'] <+:
          "The run did not finish: ".toList by decide).trans
          (prefix_append _ _)
      right
      refine ⟨List.isPrefixOf_iff_prefix.mpr (summary_headline (by decide) starts (by decide)), ?_⟩
      rcases summary_ends (waitingNote_ends failed fun out => left ⟨failed, out⟩) with whole | cut
      · exact Or.inl (List.isSuffixOf_iff_suffix.mpr whole)
      · exact Or.inr (List.isSuffixOf_iff_suffix.mpr cut)

/-! ## The rows of the queue -/

/-- What a row keeps of its attempts: an error from the one before, no error past its exit, and no
step before it. -/
structure Blamed (r : Row) : Prop where
  unstarted : r.status = .pending ∨ r.status = .running → r.steps = none
  settled : r.status = .success ∨ r.status = .failure → r.lastError = none
  retried : r.status = .pending ∧ 1 ≤ r.attempts ∨ r.status = .running ∧ 2 ≤ r.attempts →
    r.lastError.getD "" ≠ ""

theorem fresh_blamed (req : EnqueueRequest) (jobId : String) (now : ℚ) : Blamed (req.row jobId now) := by
  constructor <;> simp [EnqueueRequest.row]

theorem released_blamed {r : Row} {attempts : Nat} {now : ℚ} {error : String}
    {owed : Option Verdict} (unstarted : r.steps = none)
    (named : error ≠ "") : Blamed (Row.released attempts now error owed r) := by
  have filled : sliceTo error maxErrorChars ≠ "" := sliceTo_ne_empty named
  refine ⟨fun _ => unstarted, fun exited => ?_, fun _ => filled⟩
  by_cases out : parked attempts = true <;> simp [Row.released, out] at exited

theorem step_blamed {s : Store} {op : Store.Op} {r r' : Row} (step : RowStep s op r r')
    (h : Blamed r) : Blamed r' := by
  cases step with
  | same => exact h
  | taken _ _ waiting =>
    refine ⟨fun _ => h.unstarted (Or.inl waiting), fun exited => ?_, fun again => ?_⟩
    · simp [Row.taken] at exited
    · refine h.retried (Or.inl ⟨waiting, ?_⟩)
      simpa [Row.taken] using again
  | renewed _ _ running _ _ => exact ⟨h.unstarted, h.settled, h.retried⟩
  | failed _ running _ _ named => exact released_blamed (r := Row.superseded r) (h.unstarted (Or.inr running)) named
  | settled _ _ _ _ _ _ =>
    refine ⟨fun open_ => ?_, fun _ => rfl, fun again => ?_⟩
    · simp only [Row.settled] at open_
      split at open_ <;> simp at open_
    · simp only [Row.settled] at again
      split at again <;> simp at again
  | lapsed running _ => exact released_blamed (h.unstarted (Or.inr running)) (by decide)
  | drained _ | restored _ _ _ | owed _ | cleared _ => exact ⟨h.unstarted, h.settled, h.retried⟩

theorem runs_blamed (ops : List Store.Op) :
    ∀ r ∈ (ops.foldl Store.apply Store.empty).jobs.rows, Lifecycle r ∧ Blamed r := by
  suffices kept : ∀ s : Store, (∀ r ∈ s.jobs.rows, Lifecycle r ∧ Blamed r) →
      ∀ r ∈ (ops.foldl Store.apply s).jobs.rows, Lifecycle r ∧ Blamed r from
    kept Store.empty fun r member => absurd member List.not_mem_nil
  induction ops with
  | nil => exact fun s start => start
  | cons op rest ih =>
    intro s start
    refine ih (s.apply op) (Store.apply_forall
      (fun req jobId now => ⟨fresh_lifecycle req jobId now, fresh_blamed req jobId now⟩)
      (fun _ _ _ step h => ⟨step_lifecycle step h.1, step_blamed step h.2⟩) start)

/-- What a check says of a row: that the run is dead if it is, and otherwise, while it is open, how
it goes on. -/
structure Faithful (r : Row) (v : CheckVerdict) : Prop where
  dead : CallsDead v ↔ r.status = .dead
  live : r.status = .pending ∨ r.status = .running → CallsLive r.attempts v

theorem lastError_redacted (isWord : Char → Bool) (job : Job) :
    lastError (redactedJob isWord job) = "" ↔ lastError job = "" := by
  unfold lastError redactedJob
  cases job.lastError with
  | none => exact Iff.rfl
  | some error =>
    simp only [Option.map_some, Option.getD_some]
    split
    · exact Iff.rfl
    · exact redact_eq_empty_iff

theorem verdictFor_title (isWord : Char → Bool) (job : Job) (path : String) :
    (verdictFor isWord job path).title = titleFor (redactedJob isWord job) := by rw [verdictFor]

theorem verdictFor_summary (isWord : Char → Bool) (job : Job) (path : String) :
    (verdictFor isWord job path).summary = summaryFor (redactedJob isWord job) := by rw [verdictFor]

theorem outOfAttempts_row (r : Row) (isWord : Char → Bool) :
    OutOfAttempts (redactedJob isWord r.job) ↔ r.lastError.getD "" ≠ "" ∧
    maxAttempts ≤ r.attempts := by
  have attempts : (redactedJob isWord r.job).attempts = r.attempts := rfl
  have blank : lastError (redactedJob isWord r.job) = "" ↔ r.lastError.getD "" = "" :=
    lastError_redacted isWord r.job
  rw [OutOfAttempts, ne_eq, blank, attempts, parked_iff]

section Rows
variable (ops : List Store.Op) {r : Row}
    (member : r ∈ (ops.foldl Store.apply Store.empty).jobs.rows) (isWord : Char → Bool)
include member

theorem callsDead_row (path : String) : CallsDead (verdictFor isWord r.job path) ↔
    r.status = .dead ∨ r.status = .running ∧ maxAttempts ≤ r.attempts := by
  obtain ⟨life, blamed⟩ := runs_blamed ops r member
  have status : (redactedJob isWord r.job).status = r.status := rfl
  have attempts : (redactedJob isWord r.job).attempts = r.attempts := rfl
  rw [callsDead_iff (verdictFor_title isWord r.job path) (verdictFor_summary isWord r.job path), status,
    outOfAttempts_row r isWord]
  · constructor
    · rintro (dead | ⟨waiting | running, -, last⟩)
      · exact Or.inl dead
      · exact absurd last (not_le.mpr (life.pending waiting).2)
      · exact Or.inr ⟨running, last⟩
    · rintro (dead | ⟨running, last⟩)
      · exact Or.inl dead
      · exact Or.inr ⟨Or.inr running, blamed.retried
          (Or.inr ⟨running, Nat.le_trans (by decide) last⟩), last⟩
  · rw [status, attempts, parked_iff]
    exact fun dead => (life.dead dead).2.ge
  · intro exited
    have kept := blamed.settled exited
    rw [lastError_redacted]
    exact congrArg (Option.getD · "") kept

/-- The check of a row of the queue is faithful unless the run is on its last attempt. -/
theorem faithful_iff (path : String) :
    Faithful r (verdictFor isWord r.job path) ↔ ¬ (r.status = .running ∧ maxAttempts ≤ r.attempts) := by
  obtain ⟨life, blamed⟩ := runs_blamed ops r member
  have called := callsDead_row ops member isWord path
  constructor
  · rintro faithful last
    have dead := faithful.dead.mp (called.mpr (Or.inr last))
    rw [last.1] at dead
    cases dead
  · intro earlier
    refine ⟨called.trans ⟨fun h => h.resolve_right earlier, Or.inl⟩, fun open_ => ?_⟩
    have unstarted : (redactedJob isWord r.job).steps = [] := by
      rw [redactedJob, Row.job, blamed.unstarted open_]
      rfl
    refine callsLive_of_open (verdictFor_title isWord r.job path)
      (verdictFor_summary isWord r.job path) open_ unstarted ?_
    intro spent
    have last := ((outOfAttempts_row r isWord).mp spent).2
    rcases open_ with waiting | running
    · exact not_le.mpr (life.pending waiting).2 last
    · exact earlier ⟨running, last⟩

end Rows

/-- A run that its device could not start twice, and that a device has for the third time. -/
def thirdAttempt : List Store.Op :=
  [.enqueue { repository := "acme/app", sha := "c0ffee", ref := "main" } "job" 0,
    .claim "pi" [] 300 0 none, .report "job" "pi" { error := "disk full" } 10,
    .claim "pi" [] 300 1000 none, .report "job" "pi" { error := "disk full" } 1010,
    .claim "pi" [] 300 2000 none]

theorem secondAttempt_faithful : ∃ r ∈ ((thirdAttempt.take 4).foldl Store.apply Store.empty).jobs.rows,
    r.status = .running ∧ r.lastError = some "disk full" ∧
    Faithful r (verdictFor asciiWord r.job "cindral.toml") := by
  have row : ((thirdAttempt.take 4).foldl Store.apply Store.empty).jobs.rows.map
      (fun r => (r.status, r.attempts, r.lastError)) = [(.running, 2, some "disk full")] := by
        decide +kernel
  obtain ⟨r, member, same⟩ := List.mem_map.mp (row ▸ List.mem_singleton_self _)
  obtain ⟨running, two, error⟩ : r.status = .running ∧ r.attempts = 2 ∧
    r.lastError = some "disk full" := by simpa using same
  exact ⟨r, member, running, error, (faithful_iff _ member asciiWord "cindral.toml").mpr fun last =>
    absurd last.2 (by rw [two]; decide)⟩

/-- The check of a run that a device has in hand says that the run is lost. -/
theorem thirdAttempt_called_dead :
    ¬ ∀ (ops : List Store.Op), ∀ r ∈ (ops.foldl Store.apply Store.empty).jobs.rows,
    ∀ path, Faithful r (verdictFor asciiWord r.job path) := by
  intro faithful
  have row : (thirdAttempt.foldl Store.apply Store.empty).jobs.rows.map
      (fun r => (r.status, r.attempts)) = [(.running, 3)] := by
    decide +kernel
  obtain ⟨r, member, same⟩ := List.mem_map.mp (row ▸ List.mem_singleton_self _)
  obtain ⟨running, three⟩ : r.status = .running ∧ r.attempts = 3 := by simpa using same
  have dead := (faithful thirdAttempt r member "cindral.toml").dead.mp
    ((callsDead_row thirdAttempt member asciiWord "cindral.toml").mpr (Or.inr ⟨running, three.ge⟩))
  rw [running] at dead
  cases dead

end Cindral.Check.Output

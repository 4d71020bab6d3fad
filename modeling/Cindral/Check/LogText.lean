import Cindral.Check.Redact
import Mathlib.Data.List.Induction

/-!
# The log a check shows

`log_text` fences the end of a log and notes what it left out. The fence takes room of its own, and
a log that only this makes too long loses its beginning without a note.
-/

namespace Cindral.Check
open Base

def maxOutputChars : Nat := 65535

def removedNote : String := "cindral: credentials in this log were removed\n"
def hiddenNote : String := "cindral: the beginning of this log is not shown\n"

/-- `_fence`'s loop: the run of backticks read last, and the longest one so far. -/
def runs (text : List Char) : Nat × Nat :=
  text.foldl (fun runs c =>
    let run := if c = '`' then runs.1 + 1 else 0
    (run, max runs.2 run)) (0, 0)

def longestRun (text : List Char) : Nat := (runs text).2

def fenceFor (text : List Char) : List Char := List.replicate (max 3 (longestRun text + 1)) '`'

def rstrip (text : List Char) : List Char := (text.reverse.dropWhile isSpace).reverse

/-- The parts of the text: the notes in front, the fence, and what is shown of the log. -/
structure LogPanel where
  notes : List Char
  fence : List Char
  log : List Char

def LogPanel.text (panel : LogPanel) : List Char :=
  panel.notes ++ panel.fence ++ ['\n'] ++ rstrip panel.log ++ ['\n'] ++ panel.fence

/-- The notes on a log, and as much of its end as they leave room for. -/
def noted (scrubbed : Bool) (log : List Char) : List Char × List Char :=
  let notes := if scrubbed then removedNote.toList else []
  if log.length > maxOutputChars then
    let notes := notes ++ hiddenNote.toList
    (notes, log.drop (log.length - (maxOutputChars - notes.length)))
  else (notes, log)

/-- The log again, cut from the front by what its fence takes. -/
def fenced (notes log : List Char) : LogPanel :=
  let fence := fenceFor log
  { notes, fence, log := log.drop (notes.length + 2 * fence.length + 2 + log.length - maxOutputChars) }

def logPanel (scrubbed : Bool) (log : List Char) : LogPanel :=
  fenced (noted scrubbed log).1 (noted scrubbed log).2

section
variable (isWord : Char → Bool)

def logText (log : String) : String :=
  if redact isWord log = "" then "" else .ofList
    (logPanel (scrubbed isWord log) (redact isWord log).toList).text

end

/-! ## The fence -/

theorem runs_concat (text : List Char) (c : Char) :
    runs (text ++ [c]) = (if c = '`' then (runs text).1 + 1 else 0, max (runs text).2
    (if c = '`' then (runs text).1 + 1 else 0)) := by
  rw [runs, List.foldl_append]
  rfl

/-- The loop knows how many backticks the text read so far ends in. -/
theorem le_runs_of_suffix {text : List Char} {n : Nat} (h : List.replicate n '`' <:+ text) :
    n ≤ (runs text).1 := by
  induction text using List.reverseRecOn generalizing n with
  | nil =>
    have length := h.length_le
    rw [List.length_replicate] at length
    exact length
  | append_singleton text c ih =>
    cases n with
    | zero => exact Nat.zero_le _
    | succ n =>
      obtain ⟨front, split⟩ := h
      rw [List.replicate_succ', ← List.append_assoc] at split
      obtain ⟨same, rfl⟩ := List.append_singleton_inj.mp split
      rw [runs_concat, if_pos rfl]
      exact Nat.succ_le_succ (ih ⟨front, same⟩)

theorem le_longestRun {text : List Char} {n : Nat} (h : List.replicate n '`' <:+: text) :
    n ≤ longestRun text := by
  unfold longestRun
  induction text using List.reverseRecOn with
  | nil =>
    have length := h.length_le
    rw [List.length_replicate] at length
    exact length
  | append_singleton text c ih =>
    rcases List.infix_concat_iff.mp h with ends | inside
    · have last := le_runs_of_suffix ends
      rw [runs_concat] at last ⊢
      exact last.trans (le_max_right _ _)
    · rw [runs_concat]
      exact (ih inside).trans (le_max_left _ _)

theorem length_fenceFor (text : List Char) : (fenceFor text).length = max 3 (longestRun text + 1) :=
  List.length_replicate

theorem lt_fenceFor {text : List Char} {n : Nat} (h : List.replicate n '`' <:+: text) :
    n < (fenceFor text).length := by
  have longest := le_longestRun h
  rw [length_fenceFor]
  omega

/-! ## What is shown -/

/-- What a reader is promised of a log that is shown: a text that is accepted, a fence the log
cannot close, the end of the log, and a note when that is not all of it. -/
structure ShowsEnd (log : List Char) (panel : LogPanel) : Prop where
  accepted : panel.text.length ≤ maxOutputChars
  enclosed : ∃ k, panel.fence = List.replicate k '`' ∧ ∀ n, List.replicate n '`' <:+: panel.log → n < k
  ends : panel.log <:+ log ∧ panel.log ≠ []
  told : panel.log ≠ log → hiddenNote.toList <:+: panel.notes

/-- What a fence and its line ends take of the room. -/
def fenceRoom (log : List Char) : Nat := 2 * max 3 (longestRun log + 1) + 2

/-- Room is left for the log, and a log that fits but for the notes and the fence is short enough
for both. -/
def Fits (scrubbed : Bool) (log : List Char) : Prop :=
  let notes := if scrubbed then 46 else 0
  if log.length ≤ maxOutputChars then notes + fenceRoom log + log.length ≤ maxOutputChars
  else notes + 48 + fenceRoom (log.drop (log.length - (maxOutputChars - (notes + 48)))) < maxOutputChars

theorem fenced_log (notes log : List Char) :
    (fenced notes log).log = log.drop
    (notes.length + 2 * (fenced notes log).fence.length + 2 + log.length - maxOutputChars) := by
  rw [fenced]

theorem fenced_suffix (notes log : List Char) : (fenced notes log).log <:+ log := by
  rw [fenced_log]
  exact List.drop_suffix _ log

theorem length_rstrip_le (text : List Char) : (rstrip text).length ≤ text.length := by
  have shorter : (text.reverse.dropWhile isSpace).length ≤ text.reverse.length :=
    (List.dropWhile_sublist isSpace).length_le
  rwa [List.length_reverse, ← List.length_reverse] at shorter

theorem LogPanel.length_text (panel : LogPanel) :
    panel.text.length = panel.notes.length + 2 * panel.fence.length + 2 + (rstrip panel.log).length := by
  simp only [LogPanel.text, List.length_append, List.length_singleton]
  omega

theorem fenced_enclosed (notes log : List Char) :
    ∃ k, (fenced notes log).fence = List.replicate k '`' ∧ ∀ n, List.replicate n '`' <:+:
    (fenced notes log).log → n < k := by
  refine ⟨(fenceFor log).length, ?_, fun n inside =>
    lt_fenceFor (inside.trans (fenced_suffix notes log).isInfix)⟩
  rw [length_fenceFor]
  rfl

theorem fenced_room (notes log : List Char) :
    notes.length + 2 * (fenced notes log).fence.length + 2 = notes.length + fenceRoom log := by
  rw [show (fenced notes log).fence = fenceFor log from rfl, length_fenceFor, fenceRoom, Nat.add_assoc]

theorem length_fenced_log (notes log : List Char) :
    (fenced notes log).log.length = log.length -
    (notes.length + fenceRoom log + log.length - maxOutputChars) := by
  rw [fenced_log, List.length_drop, fenced_room]

/-- The text is accepted and shows something of the log exactly where the notes and the fence leave
room. -/
theorem fenced_shows_iff (notes : List Char) {log : List Char} (some_log : log ≠ []) :
    ((fenced notes log).text.length ≤ maxOutputChars ∧ (fenced notes log).log ≠ []) ↔
    notes.length + fenceRoom log < maxOutputChars := by
  have stripped := length_rstrip_le (fenced notes log).log
  have length := length_fenced_log notes log
  have some_length : 0 < log.length := List.length_pos_iff.mpr some_log
  rw [LogPanel.length_text, show (fenced notes log).notes = notes from rfl, fenced_room,
    ← List.length_pos_iff]
  constructor
  · rintro ⟨-, shown⟩
    omega
  · intro room
    omega

theorem length_notes (scrubbed : Bool) :
    (if scrubbed then removedNote.toList else []).length = if scrubbed then 46 else 0 := by
  cases scrubbed <;> decide

theorem hiddenNote_absent (scrubbed : Bool) :
    ¬hiddenNote.toList <:+: if scrubbed then removedNote.toList else [] := by
  intro inside
  have length := inside.length_le
  rw [length_notes] at length
  cases scrubbed <;> exact absurd length (by decide)

theorem noted_short {scrubbed : Bool} {log : List Char} (short : log.length ≤ maxOutputChars) :
    noted scrubbed log = (if scrubbed then removedNote.toList else [], log) :=
    if_neg (Nat.not_lt.mpr short)

theorem noted_long {scrubbed : Bool} {log : List Char} (long : maxOutputChars < log.length) :
    noted scrubbed log = ((if scrubbed then removedNote.toList else []) ++ hiddenNote.toList,
      log.drop
      (log.length - (maxOutputChars -
      ((if scrubbed then removedNote.toList else []) ++ hiddenNote.toList).length))) :=
  if_pos long

/-- A reader gets what is promised exactly of the logs that fit. -/
theorem logPanel_shows_iff {scrubbed : Bool} {log : List Char} (some_log : log ≠ []) :
    ShowsEnd log (logPanel scrubbed log) ↔ Fits scrubbed log := by
  have some_length : 0 < log.length := List.length_pos_iff.mpr some_log
  have few := length_notes scrubbed
  unfold logPanel Fits
  dsimp only
  split
  · rename_i short
    rw [noted_short short]
    dsimp only
    have room := fenced_shows_iff (if scrubbed then removedNote.toList else []) some_log
    have length := length_fenced_log (if scrubbed then removedNote.toList else []) log
    rw [few] at room length
    constructor
    · intro shows
      have whole : (fenced (if scrubbed then removedNote.toList else []) log).log = log := by
        by_contra cut
        exact hiddenNote_absent scrubbed (shows.told cut)
      rw [whole] at length
      omega
    · intro fits
      have left := room.mpr (by omega)
      refine ⟨left.1, fenced_enclosed _ log, ⟨fenced_suffix _ log, left.2⟩, fun cut => absurd ?_ cut⟩
      exact (fenced_suffix _ log).eq_of_length (by omega)
  · rename_i long
    rw [noted_long (Nat.not_le.mp long)]
    dsimp only
    generalize front : (if scrubbed then removedNote.toList else []) ++ hiddenNote.toList = notes
    have both : notes.length = (if scrubbed then 46 else 0) + 48 := by
      rw [← front, List.length_append, few]
      exact congrArg _ (show hiddenNote.toList.length = 48 by decide)
    have least : notes.length ≤ 94 := by
      rw [both]
      cases scrubbed <;> decide
    have enough : (94 : Nat) < maxOutputChars := by decide
    rw [← both]
    have shorter : (log.drop (log.length - (maxOutputChars - notes.length))).length =
        maxOutputChars - notes.length := by
      rw [List.length_drop]
      omega
    have some_end : log.drop (log.length - (maxOutputChars - notes.length)) ≠ [] := by
      rw [← List.length_pos_iff, shorter]
      omega
    have ends := fenced_suffix notes (log.drop (log.length - (maxOutputChars - notes.length)))
    have room := fenced_shows_iff notes some_end
    constructor
    · intro shows
      exact room.mp ⟨shows.accepted, shows.ends.2⟩
    · intro fits
      have left := room.mpr fits
      refine ⟨left.1, fenced_enclosed notes _, ⟨ends.trans (List.drop_suffix _ log), left.2⟩, fun _ => ?_⟩
      exact ⟨if scrubbed then removedNote.toList else [], [], by rw [List.append_nil]; exact front⟩

/-- What the check shows of a log keeps its promises exactly when the redacted log fits beside its
notes and its fence. -/
theorem logText_shows_iff (isWord : Char → Bool) (log : String) :
    (log = "" → logText isWord log = "") ∧
    (log ≠ "" →
      logText isWord log = .ofList (logPanel (scrubbed isWord log) (redact isWord log).toList).text ∧
      (ShowsEnd (redact isWord log).toList (logPanel (scrubbed isWord log) (redact isWord log).toList) ↔
        Fits (scrubbed isWord log) (redact isWord log).toList)) := by
  constructor
  · rintro rfl
    exact if_pos redact_empty
  · intro some_log
    have some_redacted : redact isWord log ≠ "" := redact_ne_empty some_log
    refine ⟨if_neg some_redacted, logPanel_shows_iff fun empty =>
      some_redacted (String.toList_inj.mp empty)⟩

def slashes (n : Nat) : String := .ofList (List.replicate n '/')

theorem toList_slashes (n : Nat) : (slashes n).toList = List.replicate n '/' := String.toList_ofList

theorem slashes_plain (isWord : Char → Bool) (n : Nat) : scrubbed isWord (slashes n) = false := by
  have slash : ∀ entry ∈ patterns, Regex.refuses '/' entry.pattern = true := by decide +kernel
  apply scrubbed_of_refuses
  intro c member
  rw [toList_slashes] at member
  rw [List.eq_of_mem_replicate member]
  exact slash

/-- A log of as many characters as a check accepts is cut for its fence. -/
theorem not_fits_full {log : List Char} (full : log.length = maxOutputChars) : ¬Fits false log := by
  intro fits
  unfold Fits fenceRoom at fits
  dsimp only at fits
  rw [if_pos (Nat.le_of_eq full)] at fits
  omega

theorem slashes_cut_unnoted :
    ¬∀ log ≠ "", ShowsEnd (redact asciiWord log).toList
    (logPanel (scrubbed asciiWord log) (redact asciiWord log).toList) := by
  suffices cut : ∀ n, 0 < n → ShowsEnd (redact asciiWord (slashes n)).toList
      (logPanel (scrubbed asciiWord (slashes n)) (redact asciiWord (slashes n)).toList) →
      n ≠ maxOutputChars by
    intro shows
    refine cut 65535 (by decide) (shows _ fun empty => ?_) rfl
    have length := congrArg (fun text => text.toList.length) empty
    rw [toList_slashes, List.length_replicate] at length
    exact absurd length (by decide)
  intro n some_log shown full
  have some_slash : (slashes n).toList ≠ [] := by
    rw [toList_slashes, ← List.length_pos_iff, List.length_replicate]
    exact some_log
  rw [slashes_plain, redact_of_not_scrubbed (slashes_plain _ n), logPanel_shows_iff some_slash] at shown
  refine not_fits_full ?_ shown
  rw [toList_slashes, List.length_replicate]
  exact full

end Cindral.Check

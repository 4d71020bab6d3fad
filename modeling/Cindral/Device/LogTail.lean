import Cindral.Device.Storage

/-!
# The end of a log

The device marks a long log and keeps its end. The broker keeps the beginning of what it is sent, so
the marker pushes out as many of the run's last characters as it has itself.
-/

namespace Cindral.Device
open Base Queue

@[simp] theorem toList_sliceLast (text : String) (n : Nat) :
    (sliceLast text n).toList = text.toList.drop (text.length - n) :=
  String.toList_ofList

theorem sliceLast_inj {text other : String} {n : Nat} :
    sliceLast text n = sliceLast other n ↔ text.toList.drop (text.length - n) = other.toList.drop
    (other.length - n) := by
  rw [← String.toList_inj, toList_sliceLast, toList_sliceLast]

/-! ## A mark in front, and a cut behind -/

section
variable {α : Type} {mark text : List α} {limit n : Nat}

/-- The end of a marked text after the cut is the part of the text that ends a mark's length before
it does. -/
theorem drop_marked (long : limit < text.length) (room : n + mark.length ≤ limit) :
    ((mark ++ text.drop (text.length - limit)).take limit).drop (limit - n) =
      (text.drop (text.length - mark.length - n)).take n := by
  have start : text.length - limit + (limit - n - mark.length) = text.length - mark.length - n := by omega
  have width : limit - (limit - n) = n := by omega
  have past : mark.drop (limit - n) = [] := List.drop_eq_nil_of_le (by omega)
  rw [List.drop_take, List.drop_append, past, List.nil_append, List.drop_drop, start, width]

theorem ends_alike_iff {gap : Nat} (inside : n + gap ≤ text.length) :
    (text.drop (text.length - gap - n)).take n = text.drop (text.length - n) ↔
      ∀ i, text.length - n ≤ i → i < text.length → text[i]? = text[i - gap]? := by
  rw [List.ext_getElem?_iff]
  constructor
  · intro same i low high
    have at_i := same (i - (text.length - n))
    have early : text.length - gap - n + (i - (text.length - n)) = i - gap := by omega
    have late : text.length - n + (i - (text.length - n)) = i := by omega
    rw [List.getElem?_take_of_lt (by omega), List.getElem?_drop, List.getElem?_drop, early, late] at at_i
    exact at_i.symm
  · intro same j
    rw [List.getElem?_take, List.getElem?_drop, List.getElem?_drop]
    split
    · have early : text.length - gap - n + j = text.length - n + j - gap := by omega
      rw [early]
      exact (same (text.length - n + j) (by omega) (by omega)).symm
    · exact (List.getElem?_eq_none (by omega)).symm

end

/-! ## From the run to the row -/

theorem stored_end_iff {log : String} {n : Nat} (room : n ≤ 65518) (long : 65536 < log.length) :
    sliceLast (sliceTo (tail log) 65536) n = sliceLast log n ↔
      ∀ i, log.length - n ≤ i → i < log.length → log.toList[i]? = log.toList[i - 18]? := by
  have long' : 65536 < log.toList.length := long
  have mark : truncationMark.toList.length = 18 := rfl
  have marked : (sliceTo (tail log) 65536).toList =
      (truncationMark.toList ++ log.toList.drop (log.toList.length - 65536)).take 65536 := by
    rw [toList_sliceTo, tail_of_lt long, String.toList_append, toList_sliceLast, String.length_toList]
  have full : (sliceTo (tail log) 65536).length = 65536 := by
    rw [← String.length_toList, marked, List.length_take, List.length_append, List.length_drop]
    omega
  have cut := drop_marked long' (show n + truncationMark.toList.length ≤ 65536 by rw [mark]; omega)
  rw [sliceLast_inj, marked, full, cut, mark, ← String.length_toList]
  exact ends_alike_iff (by omega)

/-- The broker stores a log of at most 65536 characters as it is. Of a longer one it stores the last
characters only where each repeats the one a mark's length before it. -/
theorem log_end_survives_iff (log nonce archive jobId device : String) (exitCode code : Int)
    (payload : Status.Payload)
    (reported : Status.Reported) (s t : Store) (now : ℚ) (job : Job)
    (sent : (resultFor exitCode log nonce archive).map (·.log) = .ok payload.log)
    (read : payload.reported? = some reported)
    (ending : reported.ending = .exit code)
    (accepted : s.report jobId device reported.report now = .ok (some job, t)) :
    job.log.length ≤ 65536 ∧ (log.length ≤ 65536 → job.log = log) ∧
    ∀ n ≤ 65518, sliceLast job.log n = sliceLast log n ↔
      log.length ≤ 65536 ∨ ∀ i, log.length - n ≤ i → i < log.length →
      log.toList[i]? = log.toList[i - 18]? := by
  have stored : job.log = sliceTo (tail log) 65536 := by
    obtain ⟨result, built, logged⟩ := map_ok sent
    obtain ⟨records, -, same⟩ := bind_ok built
    obtain rfl := Except.ok.inj same
    rw [report_log ending accepted, (reported_read read).2, ← logged]
  have whole (short : log.length ≤ 65536) : job.log = log := by
    rw [stored, tail_of_le short, sliceTo_of_length_le short]
  refine ⟨by rw [stored]; exact length_sliceTo_le _ _, whole, fun n room => ?_⟩
  by_cases short : log.length ≤ 65536
  · rw [whole short]
    exact iff_of_true rfl (Or.inl short)
  · rw [stored, stored_end_iff room (Nat.not_le.mp short)]
    exact (or_iff_right short).symm

/-! ## A log that loses its end -/

theorem report_exit {s : Store} {jobId device : String} {report : Report} {now : ℚ} {row : Row}
    {code : Int}
    (found : s.row? jobId = some row) (running : row.status = .running) (held : row.device = some device)
    (live : s.spentLease now row = false) (sound : report.error = "")
    (given : report.exitCode = some code)
    (fits : Store.integer code = true) :
    s.report jobId device report now = .ok (some (Row.settled code report.log report.steps row).job,
      s.updateWhere (·.id = jobId) (Row.settled code report.log report.steps)) := by
  have same : row.id = jobId := (Store.row?_some found).2
  have settled : s.settle jobId device report now =
      .ok (s.updateWhere (·.id = jobId) (Row.settled code report.log report.steps)) := by
    simp only [Store.settle, found, running, held, live, sound, given, fits, ne_eq,
      not_true_eq_false, or_self, if_false,
      Bool.false_eq_true, Bool.not_true]
  rw [Store.report, settled]
  simp only [Except.map, Store.get, Store.row?_updateWhere, found, Option.map_some, Edit.only_apply,
    same, decide_true, if_true]

/-- A run whose failure is the last thing it printed, one character past the bound. -/
def failingLog : String := .ofList (List.replicate 65519 'x' ++ "FAIL the last test".toList)

theorem toList_failingLog : failingLog.toList = List.replicate 65519
    'x' ++ "FAIL the last test".toList := String.toList_ofList

theorem length_failingLog : failingLog.length = 65537 := by
  have words : "FAIL the last test".toList.length = 18 := by decide
  have total := congrArg List.length toList_failingLog
  rw [List.length_append, List.length_replicate, words] at total
  exact total

def claimedStore : Store :=
  (Store.empty.apply (.enqueue { repository := "acme/app", sha := "c0ffee", ref := "main" } "job"
    0)).apply
    (.claim "mini" [] 300 0 none)

/-- The row is leased, whatever is reported of it. -/
theorem claimedStore_reports (log : String) :
    ∃ job t, claimedStore.report "job" "mini" (Status.Reported.report ⟨"mini", .exit 1, log, []⟩)
      100 = .ok (some job, t) ∧
      job.log = sliceTo log 65536 := by
  have leased : (claimedStore.row? "job").any
      (fun row => decide (row.status = .running ∧ row.device = some "mini" ∧
      claimedStore.spentLease 100 row = false)) = true := by decide +kernel
  cases found : claimedStore.row? "job" with
  | none =>
    rw [found] at leased
    cases leased
  | some row =>
    rw [found] at leased
    obtain ⟨running, held, live⟩ := of_decide_eq_true leased
    have accepted : claimedStore.report "job" "mini"
        (Status.Reported.report ⟨"mini", .exit 1, log, []⟩) 100 = .ok _ :=
      report_exit found running held live rfl rfl (by decide +kernel)
    exact ⟨_, _, accepted, report_log rfl accepted⟩

def mini (log : String) : Status.Payload := { device := "mini", exitCode := some 1, log }

theorem reported?_mini (log : String) : (mini log).reported? = some ⟨"mini", .exit 1, log, []⟩ := by
  have none_sent : strip "" = "" := by decide +kernel
  simp only [Status.Payload.reported?, mini, none_sent, ne_eq, not_true_eq_false, if_false,
    Option.map_some]
  rfl

/-- A log without a marker is sent. -/
theorem sent_mini {log nonce : String} (silent : Silent nonce log.toList) :
    (resultFor 1 log nonce "").map (·.log) = .ok (mini (tail log)).log := by
  obtain ⟨records, read⟩ := (parseSteps_ok_iff nonce log).mpr silent.readable
  rw [resultFor, read]
  rfl

theorem silent_zeros {log : String} (none_zero : '0' ∉ log.toList) : Silent zeros log.toList :=
  silent_of_absent fun inside => none_zero (inside.subset (by decide +kernel))

theorem silent_failingLog : Silent zeros failingLog.toList := by
  apply silent_zeros
  rw [toList_failingLog, List.mem_append, not_or]
  exact ⟨fun member => absurd (List.eq_of_mem_replicate member) (by decide), by decide⟩

theorem failingLog_differs : ¬∀ i, failingLog.length - 1 ≤ i → i < failingLog.length →
    failingLog.toList[i]? = failingLog.toList[i - 18]? := by
  intro repeats
  rw [length_failingLog] at repeats
  have ends := repeats 65536 (by decide) (by decide)
  have final : failingLog.toList[65536]? = some 't' := by
    rw [toList_failingLog, List.getElem?_append_right (by rw [List.length_replicate]; decide),
      List.length_replicate]
    decide
  have early : failingLog.toList[65536 - 18]? = some 'x' := by
    rw [toList_failingLog, List.getElem?_append_left (by rw [List.length_replicate]; decide),
      List.getElem?_replicate]
    decide
  rw [final, early] at ends
  exact absurd ends (by decide)

def fullLog : String := .ofList (List.replicate 65536 'x')

theorem toList_fullLog : fullLog.toList = List.replicate 65536 'x' := String.toList_ofList

theorem length_fullLog : fullLog.length = 65536 := by
  rw [← String.length_toList, toList_fullLog, List.length_replicate]

theorem silent_fullLog : Silent zeros fullLog.toList := by
  apply silent_zeros
  rw [toList_fullLog]
  exact fun member => absurd (List.eq_of_mem_replicate member) (by decide)

/-- A log at the bound is stored as it is, and one a character longer without its last character. -/
theorem fullLog_kept :
    (∃ job t, claimedStore.report "job" "mini"
      (Status.Reported.report ⟨"mini", .exit 1, tail fullLog, []⟩) 100 = .ok (some job, t) ∧
      job.log = fullLog) ∧
    ∃ job t, claimedStore.report "job" "mini"
      (Status.Reported.report ⟨"mini", .exit 1, tail failingLog, []⟩) 100 = .ok (some job, t) ∧
      job.log.length ≤ 65536 ∧ sliceLast job.log 1 ≠ sliceLast failingLog 1 := by
  constructor
  · obtain ⟨job, t, accepted, -⟩ := claimedStore_reports (tail fullLog)
    have kept := log_end_survives_iff fullLog zeros "" "job" "mini" 1 1 (mini (tail fullLog))
      ⟨"mini", .exit 1, tail fullLog, []⟩
      claimedStore t 100 job (sent_mini silent_fullLog) (reported?_mini (tail fullLog)) rfl accepted
    exact ⟨job, t, accepted, kept.2.1 (Nat.le_of_eq length_fullLog)⟩
  · obtain ⟨job, t, accepted, -⟩ := claimedStore_reports (tail failingLog)
    obtain ⟨bounded, -, ends⟩ :=
      log_end_survives_iff failingLog zeros "" "job" "mini" 1 1 (mini (tail failingLog))
      ⟨"mini", .exit 1, tail failingLog, []⟩ claimedStore t 100 job (sent_mini silent_failingLog)
      (reported?_mini (tail failingLog)) rfl accepted
    refine ⟨job, t, accepted, bounded, fun same => ?_⟩
    rcases (ends 1 (by decide)).mp same with short | repeats
    · rw [length_failingLog] at short
      exact absurd short (by decide)
    · exact failingLog_differs repeats

theorem failingLog_end_lost :
    ¬∀ (log nonce archive jobId device : String) (exitCode code : Int) (payload : Status.Payload)
      (reported : Status.Reported)
      (s t : Store) (now : ℚ) (job : Job), (resultFor exitCode log nonce archive).map (·.log) = .ok
      payload.log →
      payload.reported? = some reported → reported.ending = .exit code →
      s.report jobId device reported.report now = .ok (some job, t) →
      sliceLast job.log 1 = sliceLast log 1 := by
  intro kept
  obtain ⟨job, t, accepted, stored⟩ := claimedStore_reports (tail failingLog)
  have last := kept failingLog zeros "" "job" "mini" 1 1 (mini (tail failingLog))
    ⟨"mini", .exit 1, tail failingLog, []⟩
    claimedStore t 100 job (sent_mini silent_failingLog) (reported?_mini (tail failingLog)) rfl accepted
  have long : 65536 < failingLog.length := by
    rw [length_failingLog]
    decide
  rw [stored] at last
  exact failingLog_differs ((stored_end_iff (n := 1) (by decide) long).mp last)

end Cindral.Device

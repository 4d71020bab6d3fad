import Cindral.Base.Outcome
import Cindral.Device.Budget
import Mathlib.Data.List.Chain

/-!
# What a log announces

`Announces` says which steps a log announces by its lines alone. `parseSteps_announced`: where the
numbers can be read, the records of a log are those of the steps it announces.
-/

namespace Cindral.Device
open Base Queue

/-! ## The lines of a log -/

/-- `secrets.token_hex(16)` -/
def IsNonce (nonce : String) : Prop := nonce.length = 32 ∧ nonce.toList.all isLowerHex = true

def Decimal (number : List Char) : Prop := number ≠ [] ∧ ∀ c ∈ number, isDecimal c = true

def startOf (nonce : String) (number command : List Char) : List Char :=
  "cindral: step ".toList ++ (number ++ ' ' :: (nonce.toList ++ (": ".toList ++ command)))

def endOf (nonce : String) (number : List Char) : List Char :=
  "cindral: step ".toList ++ (number ++ ' ' :: (nonce.toList ++ " end".toList))

/-- The line is a start marker of the run. -/
structure Starts (nonce : String) (line number command : List Char) : Prop where
  valid : IsNonce nonce
  decimal : Decimal number
  line : line = startOf nonce number command

/-- The line is an end marker of the run. -/
structure Ends (nonce : String) (line number : List Char) : Prop where
  valid : IsNonce nonce
  decimal : Decimal number
  line : line = endOf nonce number

def linesOf (log : String) : List (List Char) := log.toList.splitOn '\n'

/-- A step of a log: its marker, what it printed before its end marker, and that marker with the
lines up to the next step. -/
structure Part where
  number : List Char
  command : List Char
  printed : List (List Char)
  rest : List (List Char)
  completed : Bool

def Part.lines (nonce : String) (part : Part) : List (List Char) :=
  startOf nonce part.number part.command :: (part.printed ++ part.rest)

/-- Another step's marker in a part is output of its step. -/
structure Part.Sound (nonce : String) (part : Part) : Prop where
  valid : IsNonce nonce
  decimal : Decimal part.number
  output : ∀ line ∈ part.printed ++ part.rest, ∀ number command, Starts nonce line number command →
    valueOf number ≠ valueOf part.number + 1
  printed : ∀ line ∈ part.printed, ∀ number, ¬Ends nonce line number
  rest : ∀ line ∈ part.rest.head?, ∃ number, Ends nonce line number

/-- Each step has the number after the one before. -/
def Consecutive (parts : List Part) : Prop :=
  parts.IsChain fun part next => valueOf next.number = valueOf part.number + 1

/-- The log is `lead`, without a start marker, and then the parts of its steps. A step completed
where it has an end marker, in its part or elsewhere, and where another follows. -/
structure Announces (nonce log : String) (lead : List (List Char)) (parts : List Part) : Prop where
  whole : linesOf log = lead ++ parts.flatMap (Part.lines nonce)
  lead : ∀ line ∈ lead, ∀ number command, ¬Starts nonce line number command
  sound : ∀ part ∈ parts, part.Sound nonce
  consecutive : Consecutive parts
  completed : ∀ part after, part :: after <:+ parts →
    (part.completed = true ↔ part.rest ≠ [] ∨ after ≠ [] ∨
    ∃ line ∈ linesOf log, ∃ number, Ends nonce line number ∧ valueOf number = valueOf part.number)

def newlined (lines : List (List Char)) : List Char := lines.flatMap ('\n' :: ·)

/-- The record of a part, which more of the log follows or not. -/
def Part.record (part : Part) (followed : Bool) : StepRecord :=
  let name := strip (.ofList part.command)
  let text :=
    String.ofList (newlined part.printed ++ if !part.rest.isEmpty || followed then ['\n'] else [])
  { index := valueOf part.number
    name := sliceTo name 500
    output := sliceLast text 16384
    completed := part.completed
    truncated := 16384 < text.length || 500 < name.length
    dropped := 0 }

def recordsOf : List Part → List StepRecord
  | [] => []
  | part :: parts => part.record (!parts.isEmpty) :: recordsOf parts

/-- The interpreter reads the numbers of the run's start markers, and of its end markers where it
has a start marker. -/
def Readable (nonce log : String) : Prop :=
  (∀ line ∈ linesOf log, ∀ number command, Starts nonce line number command → number.length ≤ 4300) ∧
  ((∃ line ∈ linesOf log, ∃ number command, Starts nonce line number command) →
    ∀ line ∈ linesOf log, ∀ number, Ends nonce line number → number.length ≤ 4300)

/-! ## Markers -/

section Markers
variable {nonce : String}

theorem markerHead_eq (valid : IsNonce nonce) {number : List Char} (decimal : Decimal number)
    (rest : List Char) :
    markerHead? ("cindral: step ".toList ++ (number ++ ' ' :: (nonce.toList ++ rest))) =
      some ⟨number, nonce.toList, rest⟩ := by
  have blank (more : List Char) : (' ' :: more).takeWhile isDecimal = [] := rfl
  have blank' (more : List Char) : (' ' :: more).dropWhile isDecimal = ' ' :: more := rfl
  have taken : (nonce.toList ++ rest).take 32 = nonce.toList := by
    rw [← valid.1, ← String.length_toList, List.take_left]
  have left : (nonce.toList ++ rest).drop 32 = rest := by
    rw [← valid.1, ← String.length_toList, List.drop_left]
  rw [markerHead?, afterPrefix?_eq_some.mpr rfl]
  simp only [Option.bind_eq_bind, Option.bind_some, List.takeWhile_append_of_pos decimal.2,
    List.dropWhile_append_of_pos decimal.2, blank, blank', List.append_nil]
  rw [afterPrefix?_eq_some.mpr
    (show ' ' :: (nonce.toList ++ rest) = " ".toList ++ (nonce.toList ++ rest) from rfl)]
  simp only [Option.bind_some, taken, left, valid.2, String.length_toList, valid.1, ne_eq, decimal.1,
    not_false_eq_true, decide_true, Bool.and_self, if_true]

theorem markerHead_some {line : List Char} {head : Marker} (h : markerHead? line = some head) :
    line = "cindral: step ".toList ++ (head.digits ++ ' ' :: (head.nonce ++ head.rest)) ∧
      Decimal head.digits ∧
      head.nonce.length = 32 ∧ head.nonce.all isLowerHex = true := by
  obtain ⟨body, begins, h⟩ := Option.bind_eq_some_iff.mp h
  obtain ⟨rest, blank, h⟩ := Option.bind_eq_some_iff.mp h
  dsimp only at h
  split at h
  · rename_i valid
    obtain rfl := Option.some.inj h
    simp only [Bool.and_eq_true, decide_eq_true_eq] at valid
    refine ⟨?_, ⟨valid.1.1, fun c member => ?_⟩, valid.1.2, valid.2⟩
    · rw [afterPrefix?_eq_some.mp begins]
      conv_lhs => rw [← List.takeWhile_append_dropWhile (p := isDecimal) (l := body),
      afterPrefix?_eq_some.mp blank]
      simp only [List.take_append_drop]
      rfl
    · exact List.mem_takeWhile_imp member
  · cases h

theorem stepMarker_iff {line number command : List Char} :
    stepMarker? line = some ⟨number, nonce.toList, command⟩ ↔ Starts nonce line number command := by
  constructor
  · intro h
    obtain ⟨head, parsed, more⟩ := Option.bind_eq_some_iff.mp h
    obtain ⟨rest, begins, same⟩ := Option.map_eq_some_iff.mp more
    obtain ⟨rfl, named, rfl⟩ := Marker.mk.injEq .. ▸ same
    obtain ⟨whole, decimal, size, hex⟩ := markerHead_some parsed
    rw [afterPrefix?_eq_some.mp begins, named] at whole
    rw [named] at size hex
    exact ⟨⟨(String.length_toList ..).symm.trans size, hex⟩, decimal, whole⟩
  · rintro ⟨valid, decimal, whole⟩
    have head := markerHead_eq valid decimal (": ".toList ++ command)
    have cut : afterPrefix? ": " (": ".toList ++ command) = some command := afterPrefix?_eq_some.mpr rfl
    subst whole
    unfold stepMarker? startOf
    rw [head]
    simp only [Option.bind_eq_bind, Option.bind_some, cut, Option.map_some]

theorem stepEnd_iff {line number : List Char} :
    stepEnd? line = some ⟨number, nonce.toList, " end".toList⟩ ↔ Ends nonce line number := by
  constructor
  · intro h
    obtain ⟨head, parsed, more⟩ := Option.bind_eq_some_iff.mp h
    obtain ⟨whole, decimal, size, hex⟩ := markerHead_some parsed
    split at more
    · obtain rfl := Option.some.inj more
      exact ⟨⟨(String.length_toList ..).symm.trans size, hex⟩, decimal, whole⟩
    · cases more
  · rintro ⟨valid, decimal, whole⟩
    have head := markerHead_eq valid decimal " end".toList
    subst whole
    unfold stepEnd? endOf
    rw [head]
    simp only [Option.bind_eq_bind, Option.bind_some, if_true]

theorem stepEnd_rest {line : List Char} {marker : Marker} (h : stepEnd? line = some marker) :
    marker.rest = " end".toList := by
  obtain ⟨head, parsed, more⟩ := Option.bind_eq_some_iff.mp h
  split at more
  · rename_i ending
    rw [← Option.some.inj more]
    exact ending
  · cases more

theorem Starts.unique {line number command number' command' : List Char}
    (h : Starts nonce line number command)
    (h' : Starts nonce line number' command') : number = number' := by
  have same := (stepMarker_iff.mpr h).symm.trans (stepMarker_iff.mpr h')
  exact congrArg Marker.digits (Option.some.inj same)

theorem Ends.unique {line number number' : List Char} (h : Ends nonce line number)
    (h' : Ends nonce line number') :
    number = number' := by
  have same := (stepEnd_iff.mpr h).symm.trans (stepEnd_iff.mpr h')
  exact congrArg Marker.digits (Option.some.inj same)

theorem Starts.not_ends {line number command number' : List Char} (h : Starts nonce line number command) :
    ¬Ends nonce line number' := by
  intro ends
  have head : markerHead? line = some ⟨number, nonce.toList, ": ".toList ++ command⟩ := by
    rw [h.line]
    exact markerHead_eq h.valid h.decimal _
  have other : markerHead? line = some ⟨number', nonce.toList, " end".toList⟩ := by
    rw [ends.line]
    exact markerHead_eq ends.valid ends.decimal _
  have differ : ": ".toList ++ command ≠ " end".toList := fun same => by cases same
  rw [head] at other
  exact differ (Marker.mk.inj (Option.some.inj other)).2.2

theorem Starts.not_nil {number command : List Char} : ¬Starts nonce [] number command := by
  rintro ⟨-, -, whole⟩
  cases whole

theorem Ends.not_nil {number : List Char} : ¬Ends nonce [] number := by
  rintro ⟨-, -, whole⟩
  cases whole

end Markers

/-! ## Where the markers stand -/

theorem newlined_append (lines more : List (List Char)) :
    newlined (lines ++ more) = newlined lines ++ newlined more :=
  List.flatMap_append

theorem newlined_cons (line : List Char) (lines : List (List Char)) :
    newlined (line :: lines) = '\n' :: (line ++ newlined lines) := rfl

theorem length_newlined_cons (line : List Char) (lines : List (List Char)) :
    (newlined (line :: lines)).length = line.length + 1 + (newlined lines).length := by
  rw [newlined_cons, List.length_cons, List.length_append]
  omega

theorem intercalate_newlined (line : List Char) (lines : List (List Char)) :
    ['\n'].intercalate (line :: lines) = line ++ newlined lines := by
  induction lines generalizing line with
  | nil => simp [newlined]
  | cons next lines ih => rw [List.intercalate_cons_cons, ih, newlined_cons, List.append_assoc,
      List.singleton_append]

theorem newlined_splitOn (text : List Char) : newlined (text.splitOn '\n') = '\n' :: text := by
  obtain ⟨line, lines, split⟩ := List.exists_cons_of_ne_nil (List.splitOn_ne_nil '\n' text)
  rw [split, newlined_cons, ← intercalate_newlined, ← split, List.intercalate_splitOn]

theorem splitOn_newlined {lines : List (List Char)} (single : ∀ line ∈ lines, '\n' ∉ line) :
    (newlined lines).splitOn '\n' = [] :: lines := by
  have joined := intercalate_newlined [] lines
  rw [List.nil_append] at joined
  rw [← joined, List.splitOn_intercalate]
  · intro line member
    rcases List.mem_cons.mp member with rfl | inside
    · exact List.not_mem_nil
    · exact single line inside
  · exact List.cons_ne_nil _ _

theorem splitOn_of_newlined {text : List Char} {lines : List (List Char)}
    (single : ∀ line ∈ lines, '\n' ∉ line)
    (whole : newlined lines = '\n' :: text) : text.splitOn '\n' = lines := by
  have split := splitOn_newlined single
  rw [whole, List.splitOn_cons_eq_if_modifyHead, if_pos (beq_self_eq_true _)] at split
  exact (List.cons.inj split).2

theorem single_of_mem_splitOn {text line : List Char} (member : line ∈ text.splitOn '\n') :
    '\n' ∉ line := by
  induction text generalizing line with
  | nil =>
    obtain rfl := List.mem_singleton.mp member
    exact List.not_mem_nil
  | cons c text ih =>
    rw [List.splitOn_cons_eq_if_modifyHead] at member
    split at member
    · rcases List.mem_cons.mp member with rfl | inside
      · exact List.not_mem_nil
      · exact ih inside
    · rename_i other
      obtain ⟨first, lines, split⟩ := List.exists_cons_of_ne_nil (List.splitOn_ne_nil '\n' text)
      rw [split, List.modifyHead_cons] at member
      rw [split] at ih
      rcases List.mem_cons.mp member with rfl | inside
      · intro newline
        rcases List.mem_cons.mp newline with rfl | after
        · exact other (beq_self_eq_true _)
        · exact ih List.mem_cons_self after
      · exact ih (List.mem_cons_of_mem _ inside)

section Places
variable {pattern : List Char → Option Marker}

/-- The matches among lines, of which the first stands at `start`. -/
def founds (pattern : List Char → Option Marker) (start : Nat) (lines : List (List Char)) : List Found :=
  (placed start lines).filterMap fun (start, line) => (pattern line).map fun marker =>
  ⟨start, start + line.length, marker⟩

theorem founds_cons (start : Nat) (line : List Char) (lines : List (List Char)) :
    founds pattern start (line :: lines) =
    ((pattern line).map fun marker => ⟨start, start + line.length, marker⟩).toList ++
      founds pattern (start + line.length + 1) lines := by
  simp only [founds, placed, List.filterMap_cons]
  cases pattern line <;> rfl

theorem founds_append (start : Nat) (lines more : List (List Char)) :
    founds pattern start (lines ++ more) =
    founds pattern start lines ++ founds pattern (start + (newlined lines).length) more := by
  induction lines generalizing start with
  | nil => rfl
  | cons line lines ih =>
    rw [List.cons_append, founds_cons, founds_cons, ih, List.append_assoc, length_newlined_cons]
    congr 3
    omega

theorem mem_founds {start : Nat} {lines : List (List Char)} {found : Found}
    (h : found ∈ founds pattern start lines) :
    ∃ line ∈ lines, pattern line = some found.marker := by
  induction lines generalizing start with
  | nil => cases h
  | cons line lines ih =>
    rw [founds_cons] at h
    rcases List.mem_append.mp h with here | later
    · obtain ⟨marker, matched, rfl⟩ := Option.map_eq_some_iff.mp (Option.mem_toList.mp here)
      exact ⟨line, List.mem_cons_self, matched⟩
    · obtain ⟨line, inside, matched⟩ := ih later
      exact ⟨line, List.mem_cons_of_mem _ inside, matched⟩

theorem exists_found {lines : List (List Char)} {line : List Char} {marker : Marker} (start : Nat)
    (inside : line ∈ lines)
    (matched : pattern line = some marker) :
    ∃ found ∈ founds pattern start lines, found.marker = marker := by
  induction lines generalizing start with
  | nil => cases inside
  | cons first lines ih =>
    rw [founds_cons]
    rcases List.mem_cons.mp inside with rfl | later
    · exact ⟨_, List.mem_append_left _
        (Option.mem_toList.mpr (Option.map_eq_some_iff.mpr ⟨marker, matched, rfl⟩)), rfl⟩
    · obtain ⟨found, member, same⟩ := ih (start + first.length + 1) later
      exact ⟨found, List.mem_append_right _ member, same⟩

end Places

/-! ## The numbers -/

theorem intOf_ok {digits : List Char} (short : digits.length ≤ 4300) :
    intOf digits = .ok (valueOf digits) :=
  if_neg (Nat.not_lt.mpr short)

theorem intOf_ok_iff {digits : List Char} :
    (∃ number, intOf digits = .ok number) ↔ digits.length ≤ 4300 := by
  refine ⟨fun ⟨number, read⟩ => ?_, fun short => ⟨_, intOf_ok short⟩⟩
  unfold intOf at read
  split at read
  · cases read
  · exact Nat.not_lt.mp ‹_›

section Boundaries
variable {nonce : List Char} {last : Option Nat} {mark : Found} {marks : List Found}

theorem boundariesFrom_foreign (other : mark.marker.nonce ≠ nonce) :
    boundariesFrom nonce last (mark :: marks) = boundariesFrom nonce last marks := by
  rw [boundariesFrom, if_pos other]

theorem boundariesFrom_read (own : mark.marker.nonce = nonce) (short : mark.marker.digits.length ≤ 4300) :
    boundariesFrom nonce last (mark :: marks) =
      if last.any (valueOf mark.marker.digits ≠ · + 1) then boundariesFrom nonce last marks
      else (boundariesFrom nonce (some (valueOf mark.marker.digits)) marks).map
      ((valueOf mark.marker.digits, mark) :: ·) := by
  rw [boundariesFrom, if_neg (not_not_intro own), intOf_ok short]
  rfl

theorem boundariesFrom_long (own : mark.marker.nonce = nonce)
    (long : ¬mark.marker.digits.length ≤ 4300) (kept : List (Nat × Found)) :
    boundariesFrom nonce last (mark :: marks) ≠ .ok kept := by
  rw [boundariesFrom, if_neg (not_not_intro own)]
  intro read
  obtain ⟨number, taken, -⟩ := Base.bind_ok read
  exact long (intOf_ok_iff.mp ⟨number, taken⟩)

/-- `int` reads the number of every start marker of the run, in its turn or not. -/
theorem boundariesFrom_ok_iff : (∃ kept, boundariesFrom nonce last marks = .ok kept) ↔
    ∀ found ∈ marks, found.marker.nonce = nonce → found.marker.digits.length ≤ 4300 := by
  induction marks generalizing last with
  | nil => exact iff_of_true ⟨[], rfl⟩ nofun
  | cons mark marks ih =>
    rw [List.forall_mem_cons]
    by_cases own : mark.marker.nonce = nonce
    · by_cases short : mark.marker.digits.length ≤ 4300
      · rw [boundariesFrom_read own short, and_iff_right fun _ => short]
        split
        · exact ih
        · rw [← @ih (some (valueOf mark.marker.digits))]
          cases boundariesFrom nonce (some (valueOf mark.marker.digits)) marks with
          | error e => exact iff_of_false nofun nofun
          | ok kept => exact iff_of_true ⟨_, rfl⟩ ⟨_, rfl⟩
      · exact iff_of_false (fun ⟨kept, read⟩ => boundariesFrom_long own short kept read) fun h =>
          short (h.1 own)
    · rw [boundariesFrom_foreign own, ih, and_iff_right fun same => absurd same own]

/-- Matches that are foreign or out of turn are passed over. -/
theorem boundariesFrom_skip {skipped : List Found} (skip : ∀ found ∈ skipped, found.marker.nonce = nonce →
    found.marker.digits.length ≤ 4300 ∧ ∃ n ∈ last, valueOf found.marker.digits ≠ n + 1) :
    boundariesFrom nonce last (skipped ++ marks) = boundariesFrom nonce last marks := by
  induction skipped with
  | nil => rfl
  | cons found skipped ih =>
    obtain ⟨here, later⟩ := List.forall_mem_cons.mp skip
    rw [List.cons_append]
    by_cases own : found.marker.nonce = nonce
    · obtain ⟨short, n, same, turn⟩ := here own
      rw [Option.mem_def] at same
      have out : last.any (valueOf found.marker.digits ≠ · + 1) = true := by simpa [same] using turn
      rw [boundariesFrom_read own short, if_pos out, ih later]
    · rw [boundariesFrom_foreign own, ih later]

theorem mapM_intOf {founds : List Found} {finished : List Nat} :
    (founds.mapM fun found => intOf found.marker.digits) = .ok finished ↔
      (∀ found ∈ founds, found.marker.digits.length ≤ 4300) ∧
      finished = founds.map (valueOf ·.marker.digits) := by
  rw [mapM_ok_iff]
  induction founds generalizing finished with
  | nil => rw [List.forall₂_nil_left_iff, and_iff_right nofun, List.map_nil]
  | cons found founds ih =>
    rw [List.forall₂_cons_left_iff, List.forall_mem_cons, List.map_cons]
    constructor
    · rintro ⟨number, rest, read, more, rfl⟩
      obtain ⟨short, rfl⟩ := ih.mp more
      have small := intOf_ok_iff.mp ⟨number, read⟩
      rw [intOf_ok small] at read
      exact ⟨⟨small, short⟩, by rw [Except.ok.inj read]⟩
    · rintro ⟨⟨small, short⟩, rfl⟩
      exact ⟨_, _, intOf_ok small, ih.mpr ⟨short, rfl⟩, rfl⟩

end Boundaries

/-! ## The parts of a log -/

section Parts
variable {nonce : String}

def Part.mark (nonce : String) (part : Part) (start : Nat) : Found :=
  ⟨start, start + (startOf nonce part.number part.command).length,
  ⟨part.number, nonce.toList, part.command⟩⟩

theorem Part.mark_digits (part : Part) (start : Nat) :
    (part.mark nonce start).marker.digits = part.number := rfl

/-- The marker of each part, of which the first stands at `start`. -/
def marksAt (nonce : String) : Nat → List Part → List (Nat × Found)
  | _, [] => []
  | start, part :: parts =>
    (valueOf part.number, part.mark nonce start) :: marksAt nonce
      (start + (newlined (part.lines nonce)).length) parts

theorem own_start {start : Nat} {lines : List (List Char)} {found : Found}
    (member : found ∈ founds stepMarker? start lines)
    (own : found.marker.nonce = nonce.toList) :
    ∃ line ∈ lines, Starts nonce line found.marker.digits found.marker.rest := by
  obtain ⟨line, inside, matched⟩ := mem_founds member
  refine ⟨line, inside, stepMarker_iff.mp ?_⟩
  rw [matched, ← own]

theorem own_end {start : Nat} {lines : List (List Char)} {found : Found}
    (member : found ∈ founds stepEnd? start lines)
    (own : found.marker.nonce = nonce.toList) : ∃ line ∈ lines, Ends nonce line found.marker.digits := by
  obtain ⟨line, inside, matched⟩ := mem_founds member
  refine ⟨line, inside, stepEnd_iff.mp ?_⟩
  rw [matched, ← own, ← stepEnd_rest matched]

theorem Part.Sound.begins {part : Part} (sound : part.Sound nonce) :
    Starts nonce (startOf nonce part.number part.command) part.number part.command :=
    ⟨sound.valid, sound.decimal, rfl⟩

theorem Part.Sound.founds_lines {part : Part} (sound : part.Sound nonce) (start : Nat) :
    founds stepMarker? start (part.lines nonce) = part.mark nonce start ::
      founds stepMarker? (start + (startOf nonce part.number part.command).length + 1)
      (part.printed ++ part.rest) := by
  rw [Part.lines, founds_cons, stepMarker_iff.mpr sound.begins]
  rfl

theorem boundariesFrom_parts {last : Option Nat} {parts : List Part} (start : Nat)
    (sound : ∀ part ∈ parts, part.Sound nonce)
    (consecutive : Consecutive parts) (next : ∀ n ∈ last, ∀ part ∈ parts.head?,
    valueOf part.number = n + 1)
    (short : ∀ line ∈ parts.flatMap (Part.lines nonce), ∀ number command, Starts nonce line number
      command →
      number.length ≤ 4300) :
    boundariesFrom nonce.toList last (founds stepMarker? start (parts.flatMap (Part.lines nonce))) =
      .ok (marksAt nonce start parts) := by
  induction parts generalizing last start with
  | nil => rfl
  | cons part parts ih =>
    obtain ⟨here, later⟩ := List.forall_mem_cons.mp sound
    rw [List.flatMap_cons] at short ⊢
    have small : (part.mark nonce start).marker.digits.length ≤ 4300 :=
      short _ (List.mem_append_left _ List.mem_cons_self) _ _ here.begins
    have own : (part.mark nonce start).marker.nonce = nonce.toList := rfl
    have turn : ¬last.any (valueOf part.number ≠ · + 1) = true := by
      cases last with
      | none => exact Bool.false_ne_true
      | some n => simp [next n rfl part rfl]
    have skip : ∀ found ∈ founds stepMarker?
        (start + (startOf nonce part.number part.command).length + 1) (part.printed ++ part.rest),
        found.marker.nonce = nonce.toList → found.marker.digits.length ≤ 4300 ∧
          ∃ n ∈ some (valueOf part.number), valueOf found.marker.digits ≠ n + 1 := by
      intro found member own
      obtain ⟨line, inside, other⟩ := own_start member own
      exact ⟨short line (List.mem_append_left _ (List.mem_cons_of_mem _ inside)) _ _ other, _, rfl,
        here.output line inside _ _ other⟩
    rw [founds_append, here.founds_lines, List.cons_append, boundariesFrom_read own small,
      part.mark_digits, if_neg turn, boundariesFrom_skip skip,
      ih _ later consecutive.tail ?_ fun line inside => short line (List.mem_append_right _ inside)]
    · rfl
    · intro n same follower first
      obtain rfl := Option.some.inj same
      exact consecutive.rel_head? first

theorem boundaries_announced {log : String} {lead : List (List Char)} {parts : List Part}
    (h : Announces nonce log lead parts)
    (short : ∀ line ∈ linesOf log, ∀ number command, Starts nonce line number command →
    number.length ≤ 4300) :
    boundaries log.toList nonce.toList = .ok (marksAt nonce (newlined lead).length parts) := by
  have whole : log.toList.splitOn '\n' = lead ++ parts.flatMap (Part.lines nonce) := h.whole
  rw [boundaries, finditer, ← founds, whole, founds_append, Nat.zero_add, boundariesFrom_skip,
    boundariesFrom_parts _ h.sound h.consecutive fun _ same => by cases same]
  · intro line inside
    exact short line (by rw [h.whole]; exact List.mem_append_right _ inside)
  · intro found member own
    obtain ⟨line, inside, begins⟩ := own_start member own
    exact absurd begins (h.lead line inside _ _)

theorem mem_finishedSteps {log : String} {finished : List Nat}
    (read : finishedSteps log.toList nonce.toList = .ok finished)
    (n : Nat) : n ∈ finished ↔ ∃ line ∈ linesOf log, ∃ number, Ends nonce line number ∧
    valueOf number = n := by
  obtain ⟨-, rfl⟩ := mapM_intOf.mp read
  rw [List.mem_map]
  constructor
  · rintro ⟨found, member, rfl⟩
    obtain ⟨inside, own⟩ := List.mem_filter.mp member
    obtain ⟨line, present, ends⟩ := own_end inside (of_decide_eq_true own)
    exact ⟨line, present, _, ends, rfl⟩
  · rintro ⟨line, present, number, ends, rfl⟩
    obtain ⟨found, inside, same⟩ := exists_found 0 present (stepEnd_iff.mpr ends)
    exact ⟨found, List.mem_filter.mpr ⟨inside, by simp [same]⟩, by rw [same]⟩

/-! ## Their records -/

/-- The end marker of a part stands after what it printed. -/
theorem endMarker_part {part : Part} (sound : part.Sound nonce) (more : List (List Char))
    (foreign : ∀ line ∈ more, ∀ number, ¬Ends nonce line number)
    (single : ∀ line ∈ part.printed ++ (part.rest ++ more), '\n' ∉ line) :
    (endMarker (newlined (part.printed ++ (part.rest ++ more))) nonce.toList).map (·.start) =
      if part.rest = [] then none else some ((newlined part.printed).length + 1) := by
  have quiet {start : Nat} {lines : List (List Char)}
      (none_ends : ∀ line ∈ lines, ∀ number, ¬Ends nonce line number) :
      (founds stepEnd? start lines).find? (fun found => found.marker.nonce = nonce.toList) = none := by
    rw [List.find?_eq_none]
    intro found member own
    obtain ⟨line, inside, ends⟩ := own_end member (of_decide_eq_true own)
    exact none_ends line inside _ ends
  have empty : ∀ line ∈ [[]], ∀ number, ¬Ends nonce line number := by
    intro line member number
    rw [List.mem_singleton.mp member]
    exact Ends.not_nil
  rw [endMarker, finditer, ← founds, splitOn_newlined single, ← List.singleton_append,
    founds_append, List.find?_append,
    quiet empty, Option.none_or, founds_append, List.find?_append, quiet sound.printed, Option.none_or]
  cases marker : part.rest with
  | nil =>
    rw [List.nil_append, quiet foreign, if_pos rfl]
    rfl
  | cons line rest =>
    obtain ⟨number, ends⟩ := sound.rest line (by rw [marker]; rfl)
    rw [List.cons_append, founds_cons, stepEnd_iff.mpr ends, if_neg (List.cons_ne_nil _ _)]
    simp only [Option.map_some, Option.toList_some, List.singleton_append, List.find?_cons_of_pos,
      decide_true]
    simp [newlined]
    omega

theorem bound_eq (text : String) : bound text = (sliceLast text 16384, decide (16384 < text.length)) := by
  unfold bound
  by_cases short : text.length ≤ 16384
  · have all : sliceLast text 16384 = text := by
      rw [sliceLast, Nat.sub_eq_zero_of_le short, List.drop_zero, String.ofList_toList]
    rw [all, decide_eq_false (Nat.not_lt.mpr short)]
    exact if_pos short
  · rw [decide_eq_true (Nat.not_le.mp short)]
    exact if_neg short

theorem boundName_eq (step : StepRecord) : boundName step =
    { step with name := sliceTo step.name 500, truncated := step.truncated || decide (500 < step.name.length) } := by
  unfold boundName
  by_cases short : step.name.length ≤ 500
  · rw [sliceTo_of_length_le short, decide_eq_false (Nat.not_lt.mpr short), Bool.or_false]
    exact if_pos short
  · rw [decide_eq_true (Nat.not_le.mp short), Bool.or_true]
    exact if_neg short

/-- A part ends in a newline where another follows. -/
def closing (last : Bool) : List (List Char) := if last then [] else [[]]

theorem newlined_closing (last : Bool) : newlined (closing last) = if last then [] else ['\n'] := by
  cases last <;> rfl

section Record
variable {part : Part} {log : List Char} {finished : List Nat} {start following : Nat} {last : Bool}

theorem ending_part (sound : part.Sound nonce)
    (single : ∀ line ∈ part.printed ++ part.rest, '\n' ∉ line) :
    (endMarker (newlined (part.printed ++ (part.rest ++ closing last))) nonce.toList).map (·.start) =
      if part.rest = [] then none else some ((newlined part.printed).length + 1) := by
  apply endMarker_part sound
  · intro line member number
    cases last with
    | true => cases member
    | false =>
      rw [List.mem_singleton.mp member]
      exact Ends.not_nil
  · intro line member
    rw [← List.append_assoc] at member
    rcases List.mem_append.mp member with inside | final
    · exact single line inside
    · cases last with
      | true => cases final
      | false =>
        rw [List.mem_singleton.mp final]
        exact List.not_mem_nil

theorem stepRecord_part (sound : part.Sound nonce)
    (single : ∀ line ∈ part.printed ++ part.rest, '\n' ∉ line)
    (body : (log.drop (part.mark nonce start).stop).take (following - (part.mark nonce start).stop) =
      newlined (part.printed ++ (part.rest ++ closing last)))
    (completed : part.completed = true ↔ part.rest ≠ [] ∨ last = false ∨ valueOf part.number ∈ finished) :
    boundName (stepRecord log nonce.toList finished (valueOf part.number) (part.mark nonce start)
      following last) =
      part.record !last := by
  have ending := @ending_part nonce part last sound single
  have text : (endMarker (newlined (part.printed ++ (part.rest ++ closing last))) nonce.toList).elim
      (newlined (part.printed ++ (part.rest ++ closing last)))
      (fun found => (newlined (part.printed ++ (part.rest ++ closing last))).take found.start) =
        newlined part.printed ++ if !part.rest.isEmpty || !last then ['\n'] else [] := by
    cases rest : part.rest with
    | nil =>
      rw [rest, if_pos rfl, Option.map_eq_none_iff] at ending
      rw [ending, Option.elim_none, newlined_append, List.nil_append, newlined_closing]
      cases last <;> rfl
    | cons line lines =>
      rw [rest, if_neg (List.cons_ne_nil _ _), Option.map_eq_some_iff] at ending
      obtain ⟨found, there, place⟩ := ending
      rw [there, Option.elim_some, place, newlined_append, List.cons_append, newlined_cons,
        List.take_length_add_append]
      rfl
  have finishes :
      ((endMarker (newlined (part.printed ++ (part.rest ++ closing last))) nonce.toList).isSome ||
      finished.contains (valueOf part.number) || !last) = part.completed := by
    rw [← Option.isSome_map, ending, Bool.eq_iff_iff, completed]
    split <;> simp_all [or_comm]
  have record : stepRecord log nonce.toList finished (valueOf part.number) (part.mark nonce start)
      following last =
      { index := valueOf part.number, name := strip (.ofList part.command),
          completed := part.completed, dropped := 0
        output :=
        sliceLast (.ofList (newlined part.printed ++ if !part.rest.isEmpty ||
        !last then ['\n'] else [])) 16384
        truncated := decide (16384 <
          (String.ofList (newlined part.printed ++ if !part.rest.isEmpty ||
          !last then ['\n'] else [])).length) } := by
    rw [stepRecord, body, text, finishes, bound_eq]
    rfl
  rw [record, boundName_eq]
  rfl

end Record

theorem stepRecords_cons (log nonce : List Char) (finished : List Nat) (index : Nat) (mark : Found)
    (marks : List (Nat × Found)) :
    stepRecords log nonce finished ((index, mark) :: marks) =
      stepRecord log nonce finished index mark ((marks.head?.map (·.2.start)).getD log.length)
        marks.isEmpty ::
        stepRecords log nonce finished marks := by
  cases marks <;> rfl

/-- What stands after a part's marker, in a log with a newline before it. -/
theorem drop_mark {log before more : List Char} {part : Part}
    (whole : '\n' :: log = before ++ newlined (part.lines nonce) ++ more) :
    log.drop (part.mark nonce before.length).stop = newlined (part.printed ++ part.rest) ++ more := by
  have split : before ++ newlined (part.lines nonce) ++ more =
      (before ++ '\n' :: startOf nonce part.number part.command) ++
      (newlined (part.printed ++ part.rest) ++ more) := by
    rw [Part.lines, newlined_cons]
    simp only [List.append_assoc, List.cons_append]
  have place : (part.mark nonce before.length).stop + 1 =
      (before ++ '\n' :: startOf nonce part.number part.command).length := by
    rw [List.length_append, List.length_cons]
    exact Nat.add_assoc _ _ _
  rw [← List.drop_succ_cons, whole, split, place, List.drop_left]

/-- The body of a part ends where the next one's marker begins, or with the log. -/
theorem body_part {log before : List Char} {part : Part} {parts : List Part}
    (whole : '\n' :: log = before ++ newlined (part.lines nonce) ++ newlined
    (parts.flatMap (Part.lines nonce))) :
    (log.drop (part.mark nonce before.length).stop).take
        (((marksAt nonce (before.length + (newlined (part.lines nonce)).length) parts).head?.map
          (·.2.start)).getD log.length -
          (part.mark nonce before.length).stop) =
      newlined (part.printed ++ (part.rest ++ closing parts.isEmpty)) := by
  have rest := drop_mark whole
  rw [rest]
  cases parts with
  | nil =>
    have closed : part.rest ++ closing true = part.rest := List.append_nil _
    rw [List.take_of_length_le, List.flatMap_nil, List.isEmpty_nil, closed]
    · exact List.append_nil _
    · rw [← rest, List.length_drop]
      exact Nat.le_refl _
  | cons next parts =>
    have body : newlined (part.printed ++ part.rest) ++ newlined
        ((next :: parts).flatMap (Part.lines nonce)) =
        newlined (part.printed ++ (part.rest ++ closing false)) ++
          (startOf nonce next.number next.command ++
          newlined (next.printed ++ next.rest ++ parts.flatMap (Part.lines nonce))) := by
      rw [← List.append_assoc part.printed, newlined_append (part.printed ++ part.rest),
        List.append_assoc]
      rfl
    have closed : (newlined (part.printed ++ (part.rest ++ closing false))).length =
        (newlined (part.printed ++ part.rest)).length + 1 := by
      rw [← List.append_assoc, newlined_append, List.length_append]
      rfl
    rw [body, List.take_left', List.isEmpty_cons]
    simp only [marksAt, List.head?_cons, Option.map_some, Option.getD_some, Part.mark, Part.lines,
      length_newlined_cons, closed]
    omega

theorem stepRecords_parts {parts : List Part} {log before : List Char} {finished : List Nat}
    (whole : '\n' :: log = before ++ newlined (parts.flatMap (Part.lines nonce)))
    (sound : ∀ part ∈ parts, part.Sound nonce)
    (single : ∀ line ∈ parts.flatMap (Part.lines nonce), '\n' ∉ line)
    (completed : ∀ part after, part :: after <:+ parts →
      (part.completed = true ↔ part.rest ≠ [] ∨ after ≠ [] ∨ valueOf part.number ∈ finished)) :
    (stepRecords log nonce.toList finished (marksAt nonce before.length parts)).map boundName =
    recordsOf parts := by
  induction parts generalizing before with
  | nil => rfl
  | cons part parts ih =>
    obtain ⟨here, later⟩ := List.forall_mem_cons.mp sound
    rw [List.flatMap_cons] at whole single
    rw [newlined_append, ← List.append_assoc] at whole
    have one_line : ∀ line ∈ part.printed ++ part.rest, '\n' ∉ line := fun line inside =>
      single line (List.mem_append_left _ (List.mem_cons_of_mem _ inside))
    have tail := ih whole later (fun line inside => single line (List.mem_append_right _ inside))
      fun follower after suffix => completed follower after (suffix.trans (List.suffix_cons part parts))
    have last : (marksAt nonce (before.length + (newlined (part.lines nonce)).length)
        parts).isEmpty = parts.isEmpty := by
      cases parts <;> rfl
    rw [List.length_append] at tail
    rw [marksAt, stepRecords_cons, recordsOf, List.map_cons, tail, last, stepRecord_part here
      one_line (body_part whole)]
    rw [completed part parts (List.suffix_refl _)]
    simp

/-! ## The reading -/

/-- Every log can be told apart so. -/
theorem ends_split (nonce : String) (lines : List (List Char)) : ∃ printed rest, lines = printed ++ rest ∧
    (∀ line ∈ printed, ∀ number, ¬Ends nonce line number) ∧ ∀ line ∈ rest.head?, ∃ number,
    Ends nonce line number := by
  induction lines with
  | nil => exact ⟨[], [], rfl, nofun, nofun⟩
  | cons line lines ih =>
    by_cases ends : ∃ number, Ends nonce line number
    · refine ⟨[], line :: lines, rfl, nofun, fun first member => ?_⟩
      obtain rfl := Option.some.inj member
      exact ends
    · obtain ⟨printed, rest, rfl, quiet, begins⟩ := ih
      refine ⟨line :: printed, rest, rfl, fun other member number there => ?_, begins⟩
      rcases List.mem_cons.mp member with rfl | inside
      · exact ends ⟨number, there⟩
      · exact quiet other inside number there

theorem parts_exist (nonce : String) (ended : Nat → Prop) (last : Option Nat) (lines : List (List Char)) :
    ∃ lead parts, lines = lead ++ parts.flatMap (Part.lines nonce) ∧
      (∀ line ∈ lead, ∀ number command, Starts nonce line number command → ∃ n ∈ last,
      valueOf number ≠ n + 1) ∧
      (∀ part ∈ parts, part.Sound nonce) ∧ Consecutive parts ∧
      (∀ n ∈ last, ∀ part ∈ parts.head?, valueOf part.number = n + 1) ∧
      ∀ part after, part :: after <:+ parts →
        (part.completed = true ↔ part.rest ≠ [] ∨ after ≠ [] ∨ ended (valueOf part.number)) := by
  classical
  induction lines generalizing last with
  | nil => exact ⟨[], [], rfl, nofun, nofun, List.isChain_nil, nofun, fun _ _ suffix =>
      absurd suffix (by simp)⟩
  | cons line lines ih =>
    by_cases begins : ∃ number command, Starts nonce line number command ∧ ∀ n ∈ last,
      valueOf number = n + 1
    · obtain ⟨number, command, starts, turn⟩ := begins
      obtain ⟨output, parts, rfl, quiet, sound, consecutive, next, completed⟩ :=
        ih (some (valueOf number))
      obtain ⟨printed, rest, rfl, before_end, at_end⟩ := ends_split nonce output
      refine ⟨[], ⟨number, command, printed, rest,
        decide (rest ≠ [] ∨ parts ≠ [] ∨ ended (valueOf number))⟩ :: parts,
        ?_, nofun, ?_, ?_, ?_, ?_⟩
      · rw [starts.line]
        simp [Part.lines]
      · rintro part member
        rcases List.mem_cons.mp member with rfl | inside
        · refine ⟨starts.valid, starts.decimal, fun other inside digits text there =>
            ?_, before_end, at_end⟩
          obtain ⟨n, same, differs⟩ := quiet other inside digits text there
          obtain rfl := Option.some.inj same
          exact differs
        · exact sound part inside
      · exact consecutive.cons fun part first => next _ rfl part first
      · intro n same part first
        obtain rfl := Option.some.inj first
        exact turn n same
      · intro part after suffix
        rcases List.suffix_cons_iff.mp suffix with same | inside
        · obtain ⟨rfl, rfl⟩ := List.cons.inj same
          exact decide_eq_true_iff
        · exact completed part after inside
    · obtain ⟨lead, parts, rfl, quiet, sound, consecutive, next, completed⟩ := ih last
      refine ⟨line :: lead, parts, rfl, fun other member number command starts => ?_, sound,
        consecutive, next, completed⟩
      rcases List.mem_cons.mp member with rfl | inside
      · by_contra out
        exact begins ⟨number, command, starts, fun n same => not_not.mp fun differs =>
          out ⟨n, same, differs⟩⟩
      · exact quiet other inside number command starts

theorem announces_exists (nonce log : String) : ∃ lead parts, Announces nonce log lead parts := by
  obtain ⟨lead, parts, whole, quiet, sound, consecutive, -, completed⟩ := parts_exist nonce
    (fun n => ∃ line ∈ linesOf log, ∃ number, Ends nonce line number ∧ valueOf number = n) none
    (linesOf log)
  refine ⟨lead, parts, whole, fun line inside number command starts => ?_, sound, consecutive, completed⟩
  obtain ⟨n, same, -⟩ := quiet line inside number command starts
  cases same

section Log
variable {log : String} {lead : List (List Char)} {parts : List Part}

theorem short_starts : (∀ found ∈ finditer stepMarker? 0 log.toList, found.marker.nonce = nonce.toList →
      found.marker.digits.length ≤ 4300) ↔
    ∀ line ∈ linesOf log, ∀ number command, Starts nonce line number command → number.length ≤ 4300 := by
  constructor
  · intro short line inside number command starts
    obtain ⟨found, member, same⟩ := exists_found 0 inside (stepMarker_iff.mpr starts)
    have small := short found member (by rw [same])
    rwa [same] at small
  · intro short found member own
    obtain ⟨line, inside, starts⟩ := own_start member own
    exact short line inside _ _ starts

theorem short_ends : (∃ finished, finishedSteps log.toList nonce.toList = .ok finished) ↔
    ∀ line ∈ linesOf log, ∀ number, Ends nonce line number → number.length ≤ 4300 := by
  constructor
  · rintro ⟨finished, read⟩ line inside number ends
    obtain ⟨found, member, same⟩ := exists_found 0 inside (stepEnd_iff.mpr ends)
    have small := (mapM_intOf.mp read).1 found (List.mem_filter.mpr ⟨member, by simp [same]⟩)
    rwa [same] at small
  · intro short
    refine ⟨_, mapM_intOf.mpr ⟨fun found member => ?_, rfl⟩⟩
    obtain ⟨inside, own⟩ := List.mem_filter.mp member
    obtain ⟨line, present, ends⟩ := own_end inside (of_decide_eq_true own)
    exact short line present _ ends

theorem parseSteps_fresh {nonce log : String} {records : List StepRecord}
    (read : parseSteps log nonce = .ok records) :
    ∃ steps, (∀ step ∈ steps, Fresh step) ∧ records = withinBudget steps := by
  obtain ⟨marks, -, read⟩ := bind_ok read
  split at read
  · exact ⟨[], nofun, (Except.ok.inj read).symm⟩
  · obtain ⟨finished, -, read⟩ := bind_ok read
    exact ⟨_, stepRecords_fresh _ _ finished marks, (Except.ok.inj read).symm⟩

theorem length_recordsOf (parts : List Part) : (recordsOf parts).length = parts.length := by
  induction parts with
  | nil => rfl
  | cons part parts ih => exact congrArg Nat.succ ih

/-- Where the numbers can be read, the records of a log are those of the steps it announces, within
the budget of a report. -/
theorem parseSteps_announced (h : Announces nonce log lead parts) (readable : Readable nonce log) :
    ∃ steps, parseSteps log nonce = .ok (withinBudget steps) ∧ (∀ step ∈ steps, Fresh step) ∧
      steps.map boundName = recordsOf parts := by
  have marks := boundaries_announced h readable.1
  cases parts with
  | nil =>
    refine ⟨[], ?_, nofun, rfl⟩
    rw [parseSteps, marks]
    rfl
  | cons part parts =>
    have begins := (h.sound part List.mem_cons_self).begins
    have present : startOf nonce part.number part.command ∈ linesOf log := by
      rw [h.whole]
      exact List.mem_append_right _ List.mem_cons_self
    obtain ⟨finished, read⟩ := short_ends.mpr (readable.2 ⟨_, present, _, _, begins⟩)
    have whole : '\n' :: log.toList = newlined lead ++ newlined
        ((part :: parts).flatMap (Part.lines nonce)) := by
      rw [← newlined_append, ← h.whole, linesOf, newlined_splitOn]
    refine ⟨stepRecords log.toList nonce.toList finished
      (marksAt nonce (newlined lead).length (part :: parts)), ?_,
      stepRecords_fresh _ _ _ _, ?_⟩
    · rw [parseSteps, marks]
      simp only [bind, Except.bind, marksAt, List.isEmpty_cons, Bool.false_eq_true, if_false, read]
      rfl
    · apply stepRecords_parts whole h.sound
      · intro line inside
        exact @single_of_mem_splitOn log.toList line
          (by rw [← linesOf, h.whole]; exact List.mem_append_right _ inside)
      · intro part after suffix
        rw [h.completed part after suffix, mem_finishedSteps read]

/-- `parse_steps` returns where the interpreter reads the numbers. -/
theorem parseSteps_ok_iff (nonce log : String) : (∃ records, parseSteps log nonce = .ok records) ↔
    Readable nonce log := by
  obtain ⟨lead, parts, h⟩ := announces_exists nonce log
  constructor
  · rintro ⟨records, read⟩
    obtain ⟨marks, bounded, read⟩ := bind_ok read
    have starts := short_starts.mp (boundariesFrom_ok_iff.mp ⟨marks, bounded⟩)
    refine ⟨starts, fun ⟨line, inside, number, command, begins⟩ => ?_⟩
    rw [boundaries_announced h starts] at bounded
    obtain rfl := Except.ok.inj bounded
    cases parts with
    | nil =>
      rw [h.whole, List.flatMap_nil, List.append_nil] at inside
      exact absurd begins (h.lead line inside number command)
    | cons part parts =>
      rw [marksAt, List.isEmpty_cons, if_neg Bool.false_ne_true] at read
      obtain ⟨finished, ended, -⟩ := bind_ok read
      exact short_ends.mp ⟨finished, ended⟩
  · intro readable
    obtain ⟨steps, read, -, -⟩ := parseSteps_announced h readable
    exact ⟨_, read⟩

end Log
end Parts

end Cindral.Device

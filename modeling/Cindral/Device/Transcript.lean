import Cindral.Device.Reading

/-!
# The log of a script is read back

`parseSteps_transcript`: the records of a run's log are those of the steps it announced, under the bounds
of a report.
-/

namespace Cindral.Device
open Base Queue

/-! ## What the script prints -/

/-- A command and what it printed when it ran. -/
structure Ran where
  command : String
  output : String
  deriving DecidableEq, Repr

/-- The log the script leaves from the block of step `index` on, when its steps print this. -/
def scriptLog (nonce : String) : Nat → List Ran → Option Ran → List Char
  | index, [], stopped => (stopped.map fun ran =>
      printf (startFormat nonce index).toList ran.command.toList ++ ran.output.toList).getD []
  | index, ran :: finished, stopped =>
    printf (startFormat nonce index).toList ran.command.toList ++ (ran.output.toList ++
      (printf (endFormat nonce index).toList [] ++ scriptLog nonce (index + 1) finished stopped))

/-- The record of a step, from its log between its markers. -/
def announced (index : Nat) (command : String) (text : List Char) (completed : Bool) : StepRecord :=
  let output := bound (.ofList text)
  { index, name := strip command, output := output.1, completed, truncated := output.2, dropped := 0 }

def announcedSteps : Nat → List Ran → Option Ran → List StepRecord
  | index, [], stopped =>
    (stopped.map fun ran => announced index ran.command ('\n' :: ran.output.toList) false).toList
  | index, ran :: finished, stopped =>
    announced index ran.command ('\n' :: (ran.output.toList ++ ['\n'])) true ::
      announcedSteps (index + 1) finished stopped

/-! ## Silence -/

section Markers
variable {nonce : String}

def Silent (nonce : String) (text : List Char) : Prop :=
  ∀ line ∈ text.splitOn '\n', ∀ marker, stepMarker? line = some marker ∨ stepEnd? line = some marker →
    marker.nonce ≠ nonce.toList

theorem Silent.starts {text : List Char} (silent : Silent nonce text) {line : List Char}
    (inside : line ∈ text.splitOn '\n')
    (number command : List Char) : ¬Starts nonce line number command := fun starts =>
  silent line inside _ (Or.inl (stepMarker_iff.mpr starts)) rfl

theorem Silent.ends {text : List Char} (silent : Silent nonce text) {line : List Char}
    (inside : line ∈ text.splitOn '\n')
    (number : List Char) : ¬Ends nonce line number := fun ends =>
  silent line inside _ (Or.inr (stepEnd_iff.mpr ends)) rfl

theorem Silent.readable {log : String} (silent : Silent nonce log.toList) : Readable nonce log :=
  ⟨fun _ inside number command starts => absurd starts (silent.starts inside number command),
    fun ⟨_, inside, number, command, starts⟩ => absurd starts (silent.starts inside number command)⟩

/-- A marker's nonce stands in its line. -/
theorem markerHead_nonce {line : List Char} {head : Marker} (h : markerHead? line = some head) :
    head.nonce <:+: line := by
  rw [(markerHead_some h).1]
  refine ⟨"cindral: step ".toList ++ (head.digits ++ " ".toList), head.rest, ?_⟩
  simp only [List.append_assoc]
  rfl

theorem infix_intercalate {α : Type} (x : α) {l : List α} {ls : List (List α)} (h : l ∈ ls) :
    l <:+: [x].intercalate ls := by
  induction ls with
  | nil => cases h
  | cons first rest ih =>
    cases rest with
    | nil =>
      obtain rfl := List.mem_singleton.mp h
      simp
    | cons second rest =>
      rw [List.intercalate_cons_cons]
      rcases List.mem_cons.mp h with rfl | member
      · rw [List.append_assoc]
        exact (List.prefix_append _ _).isInfix
      · exact (ih member).trans (List.suffix_append _ _).isInfix

/-- Output that does not hold the nonce has no marker of the run, whatever markers of other runs it
holds. -/
theorem silent_of_absent {text : List Char} (absent : ¬nonce.toList <:+: text) : Silent nonce text := by
  intro line member marker found same
  have whole : line <:+: text := by
    have inside := infix_intercalate '\n' member
    rwa [List.intercalate_splitOn] at inside
  apply absent
  rw [← same]
  refine List.IsInfix.trans ?_ whole
  rcases found with start | ending
  · obtain ⟨head, parsed, more⟩ := Option.bind_eq_some_iff.mp start
    obtain ⟨command, -, rfl⟩ := Option.map_eq_some_iff.mp more
    show head.nonce <:+: line
    exact markerHead_nonce parsed
  · obtain ⟨head, parsed, more⟩ := Option.bind_eq_some_iff.mp ending
    split at more
    · cases more
      exact markerHead_nonce parsed
    · cases more

/-! ## What `printf` prints -/

theorem printf_cons {c : Char} (backslash : c ≠ '\\') (percent : c ≠ '%') (format argument : List Char) :
    printf (c :: format) argument = c :: printf format argument := by
  rw [printf]
  · exact fun _ same => absurd same backslash
  · exact fun _ same => absurd same percent

theorem printf_plain {text : List Char} (plain : ∀ c ∈ text, c ≠ '\\' ∧ c ≠ '%')
    (format argument : List Char) :
    printf (text ++ format) argument = text ++ printf format argument := by
  induction text with
  | nil => rfl
  | cons c text ih =>
    obtain ⟨backslash, percent⟩ := plain c List.mem_cons_self
    rw [List.cons_append, printf_cons backslash percent, ih fun c member =>
      plain c (List.mem_cons_of_mem _ member)]
    rfl

theorem head_plain (valid : IsNonce nonce) (index : Nat) :
    ∀ c ∈ "cindral: step ".toList ++ (Nat.toDigits 10 index ++ ' ' :: nonce.toList), c ≠ '\\' ∧
    c ≠ '%' := by
  have lead : "cindral: step ".toList.all (fun c => c ≠ '\\' && c ≠ '%') = true := by decide
  intro c member
  rcases List.mem_append.mp member with inside | member
  · simpa using List.all_eq_true.mp lead c inside
  rcases List.mem_append.mp member with digit | member
  · have digit := Nat.isDigit_of_mem_toDigits (by decide) (by decide) digit
    constructor <;> rintro rfl <;> exact absurd digit (by decide)
  rcases List.mem_cons.mp member with rfl | inside
  · decide
  · have hex := List.all_eq_true.mp valid.2 _ inside
    constructor <;> rintro rfl <;> exact absurd hex (by decide)

theorem format_toList (nonce : String) (index : Nat) (ending : String) :
    (toString "\\ncindral: step " ++ toString index ++ toString " " ++ toString nonce ++ toString
      ending).toList =
      '\\' :: 'n' :: (("cindral: step ".toList ++ (Nat.toDigits 10 index ++ ' ' :: nonce.toList)) ++
      ending.toList) := by
  have lead : (toString "\\ncindral: step ").toList = ['\\', 'n'] ++ "cindral: step ".toList := by decide
  have blank : (toString " ").toList = [' '] := by decide
  have number : (toString index).toList = Nat.toDigits 10 index := Nat.toList_repr ..
  rw [String.toList_append, String.toList_append, String.toList_append, String.toList_append, lead,
    blank, number]
  simp only [List.append_assoc, List.cons_append, List.nil_append]
  rfl

theorem printf_startFormat (valid : IsNonce nonce) (index : Nat) (command : String) :
    printf (startFormat nonce index).toList command.toList =
      '\n' :: (startOf nonce (Nat.toDigits 10 index) command.toList ++ ['\n']) := by
  have format : (startFormat nonce index).toList = '\\' :: 'n' ::
      (("cindral: step ".toList ++ (Nat.toDigits 10 index ++ ' ' :: nonce.toList)) ++ ": %s\\n".toList) :=
    format_toList nonce index ": %s\\n"
  have shape : ": %s\\n".toList = [':', ' ', '%', 's', '\\', 'n'] := by decide
  have lead : ": ".toList = [':', ' '] := by decide
  have ending : printf ": %s\\n".toList command.toList = ": ".toList ++ (command.toList ++ ['\n']) := by
    rw [shape, lead]
    rfl
  rw [format, printf, printf_plain (head_plain valid index), ending]
  unfold startOf
  simp only [List.append_assoc, List.cons_append]

theorem printf_endFormat (valid : IsNonce nonce) (index : Nat) :
    printf (endFormat nonce index).toList [] = '\n' ::
    (endOf nonce (Nat.toDigits 10 index) ++ ['\n']) := by
  have format : (endFormat nonce index).toList = '\\' :: 'n' ::
      (("cindral: step ".toList ++ (Nat.toDigits 10 index ++ ' ' :: nonce.toList)) ++ " end\\n".toList) :=
    format_toList nonce index " end\\n"
  have ending : printf " end\\n".toList [] = " end".toList ++ ['\n'] := by decide
  rw [format, printf, printf_plain (head_plain valid index), ending]
  unfold endOf
  simp only [List.append_assoc, List.cons_append]

end Markers

/-! ## The parts of a script's log -/

def finishedPart (nonce : String) (index : Nat) (ran : Ran) : Part :=
  ⟨Nat.toDigits 10 index, ran.command.toList, ran.output.toList.splitOn '\n',
  [endOf nonce (Nat.toDigits 10 index), []], true⟩

def stoppedPart (index : Nat) (ran : Ran) : Part :=
  ⟨Nat.toDigits 10 index, ran.command.toList, ran.output.toList.splitOn '\n', [], false⟩

def scriptParts (nonce : String) : Nat → List Ran → Option Ran → List Part
  | index, [], stopped => (stopped.map (stoppedPart index)).toList
  | index, ran :: finished, stopped => finishedPart nonce index ran :: scriptParts nonce (index + 1)
      finished stopped

section Script
variable {nonce : String}

theorem valueOf_toDigits (index : Nat) : valueOf (Nat.toDigits 10 index) = index := by
  have digits : ∀ c ∈ Nat.toDigits 10 index, c.isDigit = true := fun c member =>
    Nat.isDigit_of_mem_toDigits (by decide) (by decide) member
  rw [valueOf, List.map_congr_left fun c member => Double.toAscii_digit (digits c member), List.map_id'',
    Nat.ofDigitChars_ten_toDigits]
  exact fun _ => rfl

theorem decimal_toDigits (index : Nat) : Decimal (Nat.toDigits 10 index) :=
  ⟨Nat.toDigits_ne_nil, fun _ member => isDecimal_of_isDigit
  (Nat.isDigit_of_mem_toDigits (by decide) (by decide) member)⟩

theorem nonce_single (valid : IsNonce nonce) : '\n' ∉ nonce.toList := by
  intro member
  exact absurd (List.all_eq_true.mp valid.2 _ member) (by decide)

theorem digits_single (index : Nat) : '\n' ∉ Nat.toDigits 10 index := by
  intro member
  exact absurd (Nat.isDigit_of_mem_toDigits (by decide) (by decide) member) (by decide)

/-- A command of one line, and output without a marker of the run. -/
structure Plain (nonce : String) (ran : Ran) : Prop where
  single : '\n' ∉ ran.command.toList
  silent : Silent nonce ran.output.toList

theorem newlined_scriptParts (valid : IsNonce nonce) (index : Nat) (finished : List Ran)
    (stopped : Option Ran) :
    newlined ((scriptParts nonce index finished stopped).flatMap (Part.lines nonce)) = scriptLog
    nonce index finished stopped := by
  induction finished generalizing index with
  | nil =>
    cases stopped with
    | none => rfl
    | some ran =>
      rw [scriptParts, Option.map_some, Option.toList_some, List.flatMap_singleton, Part.lines,
        newlined_cons, newlined_append,
        stoppedPart, newlined_splitOn, scriptLog, Option.map_some, Option.getD_some,
        printf_startFormat valid]
      simp [newlined]
  | cons ran finished ih =>
    rw [scriptParts, List.flatMap_cons, newlined_append, ih, scriptLog, printf_startFormat valid,
      printf_endFormat valid,
      Part.lines, newlined_cons, newlined_append, finishedPart, newlined_splitOn]
    simp [newlined]

/-- The lines of a part that hold a marker of the run are its own, and its end marker where it has
`ending`. -/
structure Marked (nonce : String) (ending : Prop) (index : Nat) (part : Part) : Prop where
  starts : ∀ line ∈ part.lines nonce, ∀ number command, Starts nonce line number command →
    number = Nat.toDigits 10 index
  ends : ∀ line ∈ part.lines nonce, ∀ number, Ends nonce line number → ending ∧
    number = Nat.toDigits 10 index

section
variable {ran : Ran} (valid : IsNonce nonce) (plain : Plain nonce ran) (index : Nat)
include valid plain

theorem stoppedPart_marked : Marked nonce False index (stoppedPart index ran) := by
  have begins : Starts nonce (startOf nonce (Nat.toDigits 10 index) ran.command.toList) _ _ :=
    ⟨valid, decimal_toDigits index, rfl⟩
  refine ⟨fun line member number command starts => ?_, fun line member number ends => ?_⟩
  · rcases List.mem_cons.mp member with rfl | output
    · exact starts.unique begins
    · rw [stoppedPart, List.append_nil] at output
      exact absurd starts (plain.silent.starts output _ _)
  · rcases List.mem_cons.mp member with rfl | output
    · exact absurd ends begins.not_ends
    · rw [stoppedPart, List.append_nil] at output
      exact absurd ends (plain.silent.ends output _)

theorem finishedPart_marked : Marked nonce True index (finishedPart nonce index ran) := by
  have stopped := stoppedPart_marked valid plain index
  have closes : Ends nonce (endOf nonce (Nat.toDigits 10 index)) (Nat.toDigits 10 index) :=
    ⟨valid, decimal_toDigits index, rfl⟩
  have lines : (finishedPart nonce index ran).lines nonce =
      (stoppedPart index ran).lines nonce ++ [endOf nonce (Nat.toDigits 10 index), []] := by
    simp [Part.lines, finishedPart, stoppedPart]
  refine ⟨fun line member number command starts => ?_, fun line member number ends => ?_⟩
  · rw [lines] at member
    rcases List.mem_append.mp member with early | late
    · exact stopped.starts line early number command starts
    · rcases List.mem_pair.mp late with rfl | rfl
      · exact absurd closes starts.not_ends
      · exact absurd starts Starts.not_nil
  · rw [lines] at member
    rcases List.mem_append.mp member with early | late
    · exact absurd (stopped.ends line early number ends).1 id
    · rcases List.mem_pair.mp late with rfl | rfl
      · exact ⟨trivial, ends.unique closes⟩
      · exact absurd ends Ends.not_nil

end

theorem Marked.sound {ending : Prop} {index : Nat} {part : Part}
    (marked : Marked nonce ending index part) (valid : IsNonce nonce)
    (number : part.number = Nat.toDigits 10 index)
    (printed : ∀ line ∈ part.printed, ∀ number, ¬Ends nonce line number)
    (rest : ∀ line ∈ part.rest.head?, ∃ number, Ends nonce line number) : part.Sound nonce := by
  refine ⟨valid, by rw [number]; exact decimal_toDigits index, fun line member digits command starts => ?_, printed, rest⟩
  rw [marked.starts line (List.mem_cons_of_mem _ member) digits command starts, number, valueOf_toDigits]
  omega

theorem next_index (index : Nat) (ran : Ran) (finished : List Ran) :
    index + (ran :: finished).length = index + 1 + finished.length := by
  rw [List.length_cons]
  omega

theorem mem_scriptParts {index : Nat} {finished : List Ran} {stopped : Option Ran} {part : Part}
    (member : part ∈ scriptParts nonce index finished stopped) :
    (∃ k, k < index + finished.length ∧ ∃ ran ∈ finished, part = finishedPart nonce k ran) ∨
      ∃ ran ∈ stopped, part = stoppedPart (index + finished.length) ran := by
  induction finished generalizing index with
  | nil =>
    obtain ⟨ran, present, rfl⟩ := Option.map_eq_some_iff.mp (Option.mem_toList.mp member)
    exact Or.inr ⟨ran, present, rfl⟩
  | cons ran finished ih =>
    rw [next_index]
    rcases List.mem_cons.mp member with rfl | later
    · exact Or.inl ⟨index, by omega, ran, List.mem_cons_self, rfl⟩
    · rcases ih later with ⟨k, early, other, inside, rfl⟩ | last
      · exact Or.inl ⟨k, early, other, List.mem_cons_of_mem _ inside, rfl⟩
      · exact Or.inr last

theorem head_scriptParts {index : Nat} {finished : List Ran} {stopped : Option Ran} {part : Part}
    (first : part ∈ (scriptParts nonce index finished stopped).head?) :
    part.number = Nat.toDigits 10 index := by
  cases finished with
  | nil =>
    cases stopped with
    | none => cases first
    | some ran =>
      obtain rfl := Option.some.inj first
      rfl
  | cons ran finished =>
    obtain rfl := Option.some.inj first
    rfl

theorem consecutive_scriptParts (index : Nat) (finished : List Ran) (stopped : Option Ran) :
    Consecutive (scriptParts nonce index finished stopped) := by
  induction finished generalizing index with
  | nil =>
    cases stopped with
    | none => exact List.isChain_nil
    | some ran => exact List.isChain_singleton _
  | cons ran finished ih =>
    refine (ih (index + 1)).cons fun next first => ?_
    rw [head_scriptParts first, valueOf_toDigits]
    exact congrArg (· + 1) (valueOf_toDigits index).symm

/-- Only the step the run stopped in did not complete, and it is the last. -/
theorem suffix_scriptParts {index : Nat} {finished : List Ran} {stopped : Option Ran} {part : Part}
    {after : List Part}
    (suffix : part :: after <:+ scriptParts nonce index finished stopped) :
    (part.completed = true ∧ part.rest ≠ []) ∨
      (part.completed = false ∧ part.rest = [] ∧ after = [] ∧ part.number = Nat.toDigits 10
      (index + finished.length)) := by
  induction finished generalizing index with
  | nil =>
    cases stopped with
    | none => exact absurd suffix (by simp [scriptParts])
    | some ran =>
      rcases List.suffix_cons_iff.mp suffix with same | short
      · obtain ⟨rfl, rfl⟩ := List.cons.inj same
        exact Or.inr ⟨rfl, rfl, rfl, rfl⟩
      · exact absurd short (by simp)
  | cons ran finished ih =>
    rcases List.suffix_cons_iff.mp suffix with same | later
    · obtain ⟨rfl, rfl⟩ := List.cons.inj same
      exact Or.inl ⟨rfl, List.cons_ne_nil _ _⟩
    · rw [next_index]
      exact ih later

theorem record_announced {part : Part} {followed : Bool} {index : Nat} {ran : Ran}
    {text : List Char} {completed : Bool}
    (number : part.number = Nat.toDigits 10 index) (command : part.command = ran.command.toList)
    (done : part.completed = completed)
    (whole : newlined part.printed ++ (if !part.rest.isEmpty || followed then ['\n'] else []) = text) :
    part.record followed = boundName (announced index ran.command text completed) := by
  rw [boundName_eq, announced, bound_eq, Part.record, whole, number, valueOf_toDigits, command,
    String.ofList_toList, done]

theorem recordsOf_scriptParts (index : Nat) (finished : List Ran) (stopped : Option Ran) :
    recordsOf (scriptParts nonce index finished stopped) =
    (announcedSteps index finished stopped).map boundName := by
  induction finished generalizing index with
  | nil =>
    cases stopped with
    | none => rfl
    | some ran =>
      have text : newlined (stoppedPart index ran).printed ++
          (if !(stoppedPart index ran).rest.isEmpty || false then ['\n'] else []) =
          '\n' :: ran.output.toList := by
        rw [stoppedPart, newlined_splitOn]
        exact List.append_nil _
      exact congrArg (fun record => [record]) (record_announced rfl rfl rfl text)
  | cons ran finished ih =>
    have text : newlined (finishedPart nonce index ran).printed ++
        (if !(finishedPart nonce index ran).rest.isEmpty ||
          !(scriptParts nonce (index + 1) finished stopped).isEmpty then ['\n'] else []) =
          '\n' :: (ran.output.toList ++ ['\n']) := by
      rw [finishedPart, newlined_splitOn]
      rfl
    rw [scriptParts, recordsOf, ih, announcedSteps, List.map_cons, record_announced rfl rfl rfl text]
    rfl

/-! ## Their lines -/

theorem startOf_single (valid : IsNonce nonce) (index : Nat) {command : List Char}
    (single : '\n' ∉ command) :
    '\n' ∉ startOf nonce (Nat.toDigits 10 index) command := by
  unfold startOf
  simp only [List.mem_append, List.mem_cons, not_or]
  exact ⟨by decide, digits_single index, by decide, nonce_single valid, by decide, single⟩

theorem endOf_single (valid : IsNonce nonce) (index : Nat) :
    '\n' ∉ endOf nonce (Nat.toDigits 10 index) := by
  unfold endOf
  simp only [List.mem_append, List.mem_cons, not_or]
  exact ⟨by decide, digits_single index, by decide, nonce_single valid, by decide⟩

section
variable {preamble : List Char} {finished : List Ran} {stopped : Option Ran} {index : Nat}
    (valid : IsNonce nonce)
  (plain : ∀ ran ∈ finished ++ stopped.toList, Plain nonce ran)
include valid plain

theorem scriptParts_marked {part : Part}
    (member : part ∈ scriptParts nonce index finished stopped) : part.Sound nonce ∧
    ∃ k < index + (finished ++ stopped.toList).length, Marked nonce (k < index + finished.length) k
    part := by
  rw [List.length_append]
  rcases mem_scriptParts member with ⟨k, early, ran, inside, rfl⟩ | ⟨ran, present, rfl⟩
  · have here := plain ran (List.mem_append_left _ inside)
    have marked := finishedPart_marked valid here k
    refine ⟨marked.sound valid rfl (fun line output => here.silent.ends output) fun line first =>
      ?_, k, by omega,
      ⟨marked.starts, fun line output number ends => ⟨early, (marked.ends line output number ends).2⟩⟩⟩
    obtain rfl := Option.some.inj first
    exact ⟨_, valid, decimal_toDigits k, rfl⟩
  · have here := plain ran (List.mem_append_right _ (Option.mem_toList.mpr present))
    have marked := stoppedPart_marked valid here (index + finished.length)
    refine ⟨marked.sound valid rfl (fun line output => here.silent.ends output) nofun,
      index + finished.length, ?_,
      ⟨marked.starts, fun line output number ends => absurd (marked.ends line output number ends).1 id⟩⟩
    rw [Option.mem_def.mp present, Option.toList_some, List.length_singleton]
    omega

theorem scriptParts_single {line : List Char}
    (member : line ∈ (scriptParts nonce index finished stopped).flatMap (Part.lines nonce)) :
    '\n' ∉ line := by
  obtain ⟨part, inside, member⟩ := List.mem_flatMap.mp member
  rcases mem_scriptParts inside with ⟨k, -, ran, ran_inside, rfl⟩ | ⟨ran, present, rfl⟩
  · rcases List.mem_cons.mp member with rfl | member
    · exact startOf_single valid k (plain ran (List.mem_append_left _ ran_inside)).single
    · rcases List.mem_append.mp member with output | ending
      · exact single_of_mem_splitOn output
      · rcases List.mem_pair.mp ending with rfl | rfl
        · exact endOf_single valid k
        · exact List.not_mem_nil
  · rcases List.mem_cons.mp member with rfl | member
    · exact startOf_single valid _
        (plain ran (List.mem_append_right _ (Option.mem_toList.mpr present))).single
    · rw [stoppedPart, List.append_nil] at member
      exact single_of_mem_splitOn member

theorem linesOf_scriptLog (index : Nat) :
    linesOf (.ofList (preamble ++ scriptLog nonce index finished stopped)) =
    preamble.splitOn '\n' ++ (scriptParts nonce index finished stopped).flatMap (Part.lines nonce) := by
  rw [linesOf, String.toList_ofList]
  apply splitOn_of_newlined
  · intro line member
    rcases List.mem_append.mp member with before | inside
    · exact single_of_mem_splitOn before
    · exact scriptParts_single valid plain inside
  · rw [newlined_append, newlined_splitOn, newlined_scriptParts valid, List.cons_append]

variable (silent : Silent nonce preamble)
include silent

theorem starts_scriptLog {line number command : List Char}
    (member : line ∈ linesOf (.ofList (preamble ++ scriptLog nonce index finished stopped)))
    (starts : Starts nonce line number command) :
    ∃ k < index + (finished ++ stopped.toList).length, number = Nat.toDigits 10 k := by
  rw [linesOf_scriptLog valid plain] at member
  rcases List.mem_append.mp member with before | member
  · exact absurd starts (silent.starts before _ _)
  · obtain ⟨part, inside, member⟩ := List.mem_flatMap.mp member
    obtain ⟨-, k, small, marked⟩ := scriptParts_marked valid plain inside
    exact ⟨k, small, marked.starts line member number command starts⟩

theorem ends_scriptLog {line number : List Char}
    (member : line ∈ linesOf (.ofList (preamble ++ scriptLog nonce index finished stopped)))
    (ends : Ends nonce line number) :
    ∃ k < index + finished.length, number = Nat.toDigits 10 k := by
  rw [linesOf_scriptLog valid plain] at member
  rcases List.mem_append.mp member with before | member
  · exact absurd ends (silent.ends before _)
  · obtain ⟨part, inside, member⟩ := List.mem_flatMap.mp member
    obtain ⟨-, k, -, marked⟩ := scriptParts_marked valid plain inside
    obtain ⟨early, same⟩ := marked.ends line member number ends
    exact ⟨k, early, same⟩

/-- The log of a script announces the steps that it ran. -/
theorem scriptLog_announces (index : Nat) :
    Announces nonce (.ofList (preamble ++ scriptLog nonce index finished stopped))
    (preamble.splitOn '\n') (scriptParts nonce index finished stopped) := by
  refine ⟨linesOf_scriptLog valid plain index, fun line before => silent.starts before,
    fun part member => (scriptParts_marked valid plain member).1, consecutive_scriptParts index
    finished stopped,
    fun part after suffix => ?_⟩
  rcases suffix_scriptParts suffix with ⟨done, rest⟩ | ⟨cut, rest, last, number⟩
  · exact iff_of_true done (Or.inl rest)
  · rw [cut, rest, last]
    refine iff_of_false Bool.false_ne_true ?_
    rintro (some | some | ⟨line, member, digits, ends, same⟩)
    · exact some rfl
    · exact some rfl
    · obtain ⟨k, early, rfl⟩ := ends_scriptLog valid plain silent member ends
      rw [number, valueOf_toDigits, valueOf_toDigits] at same
      omega

theorem scriptLog_readable (few : index + (finished ++ stopped.toList).length ≤ 10 ^ maxStrDigits) :
    Readable nonce (.ofList (preamble ++ scriptLog nonce index finished stopped)) := by
  have short {k : Nat} (small : k < 10 ^ maxStrDigits) : (Nat.toDigits 10 k).length ≤ maxStrDigits :=
    (Nat.length_toDigits_le_iff (by decide) (by decide)).mpr small
  refine ⟨fun line member number command starts => ?_, fun _ line member number ends => ?_⟩
  · obtain ⟨k, small, rfl⟩ := starts_scriptLog valid plain silent member starts
    exact short (Nat.lt_of_lt_of_le small few)
  · obtain ⟨k, small, rfl⟩ := ends_scriptLog valid plain silent member ends
    have fewer : index + finished.length ≤ index + (finished ++ stopped.toList).length := by
      rw [List.length_append]
      omega
    exact short (Nat.lt_of_lt_of_le small (Nat.le_trans fewer few))

end

end Script

theorem announced_fresh (index : Nat) (command : String) (text : List Char) (completed : Bool) :
    Fresh (announced index command text completed) := ⟨length_bound_le _, rfl⟩

theorem announcedSteps_fresh {index : Nat} {finished : List Ran} {stopped : Option Ran} :
    ∀ step ∈ announcedSteps index finished stopped, Fresh step := by
  induction finished generalizing index with
  | nil =>
    intro step member
    cases stopped with
    | none => cases member
    | some ran =>
      obtain rfl := List.mem_singleton.mp member
      exact announced_fresh _ _ _ _
  | cons ran finished ih =>
    intro step member
    rcases List.mem_cons.mp member with rfl | inside
    · exact announced_fresh _ _ _ _
    · exact ih step inside

theorem announcedSteps_index (index : Nat) (finished : List Ran) (stopped : Option Ran) :
    (announcedSteps index finished stopped).map (·.index) =
      (List.range' index (finished.length + stopped.toList.length)).map Int.ofNat := by
  induction finished generalizing index with
  | nil => cases stopped <;> rfl
  | cons ran finished ih =>
    rw [announcedSteps, List.map_cons, ih, List.length_cons, Nat.add_right_comm, List.range'_succ]
    rfl

theorem withinBudget_congr {steps others : List StepRecord}
    (same : steps.map boundName = others.map boundName) :
    withinBudget steps = withinBudget others := by
  rw [withinBudget, same, ← withinBudget]

theorem parseSteps_scriptLog {nonce preamble : String} {finished : List Ran} {stopped : Option Ran}
    (valid : IsNonce nonce)
    (silent : Silent nonce preamble.toList)
    (single : ∀ ran ∈ finished ++ stopped.toList, '\n' ∉ ran.command.toList)
    (absent : ∀ ran ∈ finished ++ stopped.toList, ¬nonce.toList <:+: ran.output.toList)
    (few : (finished ++ stopped.toList).length < 10 ^ maxStrDigits) :
    parseSteps (.ofList (preamble.toList ++ scriptLog nonce 1 finished stopped)) nonce =
      .ok (withinBudget (announcedSteps 1 finished stopped)) := by
  have plain (ran : Ran) (member : ran ∈ finished ++ stopped.toList) : Plain nonce ran :=
    ⟨single ran member, silent_of_absent (absent ran member)⟩
  have small : 1 + (finished ++ stopped.toList).length ≤ 10 ^ maxStrDigits := by
    rw [Nat.add_comm]
    exact few
  have readable := scriptLog_readable valid plain silent small
  obtain ⟨steps, parsed, -, records⟩ :=
    parseSteps_announced (scriptLog_announces valid plain silent 1) readable
  rw [recordsOf_scriptParts] at records
  rw [parsed, withinBudget_congr records]

/-- The records read from the log of a run are those of its steps, one for each and numbered from
one, but for what the budget of a report leaves out. The last number has no more digits than `int`
reads. -/
theorem parseSteps_transcript (nonce preamble : String) (finished : List Ran) (stopped : Option Ran)
    (valid : IsNonce nonce)
    (silent : Silent nonce preamble.toList)
    (single : ∀ ran ∈ finished ++ stopped.toList, '\n' ∉ ran.command.toList)
    (absent : ∀ ran ∈ finished ++ stopped.toList, ¬nonce.toList <:+: ran.output.toList)
    (few : (finished ++ stopped.toList).length < 10 ^ maxStrDigits) :
    let log := String.ofList (preamble.toList ++ scriptLog nonce 1 finished stopped)
    let steps := announcedSteps 1 finished stopped
    parseSteps log nonce = .ok (withinBudget steps) ∧ Keeps (steps.map boundName) (withinBudget steps) ∧
      steps.map (·.index) = (List.range' 1 (finished.length + stopped.toList.length)).map Int.ofNat :=
  ⟨parseSteps_scriptLog valid silent single absent few, withinBudget_keeps announcedSteps_fresh,
    announcedSteps_index 1 finished stopped⟩

theorem lt_ten_pow {n digits : Nat} (small : n ≤ digits) : n < 10 ^ digits :=
  Nat.lt_of_le_of_lt small (Nat.lt_pow_self (by decide))

/-- A step that prints the marker of another run, and one that fails. -/
theorem forgedMarker_parsed : ∃ log, parseSteps log "00000000000000000000000000000000" = .ok
      [⟨1, "make", "\ncindral: step 2 11111111111111111111111111111111: x\n", true, false, 0⟩,
        ⟨2, "make test", "\nfailed", false, false, 0⟩] := by
  have parsed := (parseSteps_transcript "00000000000000000000000000000000" "checked out\n"
    [⟨"make", "cindral: step 2 11111111111111111111111111111111: x"⟩] (some ⟨" make test ", "failed"⟩)
    (by unfold IsNonce; decide +kernel) (silent_of_absent (by decide +kernel)) (by decide +kernel)
    (by decide +kernel)
    (lt_ten_pow (show 2 ≤ 4300 by decide))).1
  exact ⟨_, parsed.trans (by decide +kernel)⟩

/-- A preamble with a marker of the run itself sets the numbers, or finishes the step that failed. -/
theorem ownMarker_misread :
    parseSteps (.ofList ("cindral: step 7 00000000000000000000000000000000: x".toList ++
      scriptLog "00000000000000000000000000000000" 1 [] (some ⟨"make", "failed"⟩)))
        "00000000000000000000000000000000" ≠
        .ok (withinBudget (announcedSteps 1 [] (some ⟨"make", "failed"⟩))) ∧
    parseSteps (.ofList ("cindral: step 1 00000000000000000000000000000000 end".toList ++
      scriptLog "00000000000000000000000000000000" 1 [] (some ⟨"make", "failed"⟩)))
        "00000000000000000000000000000000" ≠
        .ok (withinBudget (announcedSteps 1 [] (some ⟨"make", "failed"⟩))) := by
  decide +kernel

end Cindral.Device

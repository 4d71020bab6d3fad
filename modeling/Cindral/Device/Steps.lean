import Cindral.Base.Double
import Cindral.Queue.Steps

/-!
# Steps from a log

The script a device runs announces each step in its log, under a nonce of the run, and `parseSteps` reads
the log back into the records of a report.
-/

namespace Cindral.Device
open Base Queue

/-! ## Markers -/

/-- The groups of a marker: the digits of the step's number, its nonce, and what follows on the line. -/
structure Marker where
  digits : List Char
  nonce : List Char
  rest : List Char
  deriving DecidableEq, Repr

/-- `sys.get_int_max_str_digits()` -/
def maxStrDigits : Nat := 4300

def valueOf (digits : List Char) : Nat := Nat.ofDigitChars 10 (digits.map Double.toAscii) 0

/-- `int(digits)`, a `ValueError` where there are more digits than the interpreter reads. -/
def intOf (digits : List Char) : Except String Nat :=
  if maxStrDigits < digits.length then
    .error (s!"Exceeds the limit ({maxStrDigits} digits) for integer string conversion: value has {digits.length} digits;" ++
      " use sys.set_int_max_str_digits() to increase the limit")
  else .ok (valueOf digits)

/-- `^cindral: step (\d+) ([0-9a-f]{32})`, on one line. -/
def markerHead? (line : List Char) : Option Marker := do
  let body ← afterPrefix? "cindral: step " line
  let digits := body.takeWhile isDecimal
  let rest ← afterPrefix? " " (body.dropWhile isDecimal)
  let nonce := rest.take 32
  if digits ≠ [] && nonce.length = 32 && nonce.all
    isLowerHex then some ⟨digits, nonce, rest.drop 32⟩ else none

/-- `STEP_MARKER`, with the command as the rest. -/
def stepMarker? (line : List Char) : Option Marker := do
  let head ← markerHead? line
  (afterPrefix? ": " head.rest).map fun command => { head with rest := command }

def stepEnd? (line : List Char) : Option Marker := do
  let head ← markerHead? line
  if head.rest = " end".toList then some head else none

/-- A match and where it starts and ends. -/
structure Found where
  start : Nat
  stop : Nat
  marker : Marker
  deriving DecidableEq, Repr

/-- Lines and where they start. -/
def placed : Nat → List (List Char) → List (Nat × List Char)
  | _, [] => []
  | start, line :: lines => (start, line) :: placed (start + line.length + 1) lines

/-- `finditer` of a pattern that is one whole line under `re.MULTILINE`, in a text that starts at
`start`. -/
def finditer (pattern : List Char → Option Marker) (start : Nat) (text : List Char) : List Found :=
  (placed start (text.splitOn '\n')).filterMap fun (start, line) =>
    (pattern line).map fun marker => ⟨start, start + line.length, marker⟩

/-! ## Records -/

/-- `_boundaries`: after the first of the run's markers each has to be the next number. -/
def boundariesFrom (nonce : List Char) : Option Nat → List Found → Except String (List (Nat × Found))
  | _, [] => pure []
  | last, mark :: marks =>
    if mark.marker.nonce ≠ nonce then boundariesFrom nonce last marks
    else do
      let index ← intOf mark.marker.digits
      if last.any (index ≠ · + 1) then boundariesFrom nonce last marks
      else
        let kept ← boundariesFrom nonce (some index) marks
        pure ((index, mark) :: kept)

def boundaries (log nonce : List Char) : Except String (List (Nat × Found)) :=
  boundariesFrom nonce none (finditer stepMarker? 0 log)

def endMarker (body nonce : List Char) : Option Found :=
  (finditer stepEnd? 0 body).find? fun found => found.marker.nonce = nonce

/-- The numbers of the steps that reached an end marker. -/
def finishedSteps (log nonce : List Char) : Except String (List Nat) :=
  ((finditer stepEnd? 0 log).filter fun found => found.marker.nonce = nonce).mapM fun found =>
  intOf found.marker.digits

/-- One step, up to where the next begins. -/
def stepRecord (log nonce : List Char) (finished : List Nat) (index : Nat) (mark : Found)
    (following : Nat) (last : Bool) :
    StepRecord :=
  let body := (log.drop mark.stop).take (following - mark.stop)
  let ending := endMarker body nonce
  let text := ending.elim body fun found => body.take found.start
  let output := bound (.ofList text)
  { index
    name := strip (.ofList mark.marker.rest)
    output := output.1
    completed := ending.isSome || finished.contains index || !last
    truncated := output.2
    dropped := 0 }

def stepRecords (log nonce : List Char) (finished : List Nat) : List (Nat × Found) → List StepRecord
  | [] => []
  | [(index, mark)] => [stepRecord log nonce finished index mark log.length true]
  | (index, mark) :: next :: marks =>
    stepRecord log nonce finished index mark next.2.start false :: stepRecords log nonce finished
      (next :: marks)

/-! ## The budget of a report -/

def boundName (step : StepRecord) : StepRecord :=
  if step.name.length ≤ maxStepNameChars then step
  else { step with name := sliceTo step.name maxStepNameChars, truncated := true }

def addDropped (count : Nat) (step : StepRecord) : StepRecord :=
  { step with dropped := step.dropped + count }

def stepChars (step : StepRecord) : Nat := step.output.length + step.name.length

/-- The steps before the last, as long as the budget lasts. -/
def affordable : Nat → List StepRecord → List StepRecord
  | _, [] => []
  | spent, step :: steps =>
    if spent + stepChars step > maxTotalChars then [] else step :: affordable
      (spent + stepChars step) steps

def boundFinal (final : StepRecord) : StepRecord :=
  { final with
    output := sliceTo final.output maxStepChars
    truncated := final.truncated || final.output.length > maxStepChars }

/-- `_within_budget` on the earlier steps and the last one, when the count bound took `dropped` steps. -/
def withinTotal (dropped : Nat) (earlier : List StepRecord) (final : StepRecord) : List StepRecord :=
  if earlier = [] then [addDropped dropped final]
  else if ((earlier ++ [final]).map stepChars).sum ≤ maxTotalChars then
    earlier ++ [addDropped dropped final]
  else
    let kept := affordable (stepChars final) earlier
    kept ++ [addDropped (dropped + (earlier.length - kept.length)) (boundFinal final)]

def withinBudget (steps : List StepRecord) : List StepRecord :=
  let named := steps.map boundName
  match named.getLast? with
  | none => []
  | some final =>
    if named.length > maxSteps then withinTotal (named.length - maxSteps)
      (named.take (maxSteps - 1)) final
    else withinTotal 0 named.dropLast final

def parseSteps (log nonce : String) : Except String (List StepRecord) := do
  let marks ← boundaries log.toList nonce.toList
  if marks.isEmpty then pure []
  else
    let finished ← finishedSteps log.toList nonce.toList
    pure (withinBudget (stepRecords log.toList nonce.toList finished marks))

/-! ## The script -/

def isSafe (c : Char) : Bool := c.isAlphanum || "@%+=:,./-_".toList.contains c

/-- `shlex.quote`. -/
def shlexQuote (text : String) : String :=
  if text = "" then "''"
  else if text.toList.all isSafe then text
  else .ofList ('\'' :: text.toList.flatMap
  (fun c => if c = '\'' then "'\"'\"'".toList else [c]) ++ ['\''])

def startFormat (nonce : String) (index : Nat) : String := s!"\\ncindral: step {index} {nonce}: %s\\n"

def endFormat (nonce : String) (index : Nat) : String := s!"\\ncindral: step {index} {nonce} end\\n"

def scriptBlock (nonce : String) (index : Nat) (step : String) : String :=
  s!"printf '{startFormat nonce index}' {shlexQuote step}\n" ++
    s!"if ( {step}\n) ; then\n" ++
    s!"  printf '{endFormat nonce index}'\n" ++
    "else\n" ++
    "  cindral_step_status=$?\n" ++
    "  exit \"$cindral_step_status\"\n" ++
    "fi"

def runScript (steps : List String) (nonce : String) : String :=
  "\n".intercalate ("set -e" :: steps.zipIdx.map fun (step, index) => scriptBlock nonce (index + 1)
  step) ++ "\n"

/-- What the shell's `printf` makes of a format: newlines, and its argument. -/
def printf : List Char → List Char → List Char
  | '\\' :: 'n' :: format, argument => '\n' :: printf format argument
  | '%' :: 's' :: format, argument => argument ++ printf format argument
  | c :: format, argument => c :: printf format argument
  | [], _ => []

end Cindral.Device

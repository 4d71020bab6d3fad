import Cindral.Base.Regex
import Cindral.Base.Text
import Cindral.Queue.Job

/-!
# Credentials removed from text

The patterns `redact` knows a credential by, in the order it tries them. `isWord` is the class `\w`,
which the language takes from its character database.
-/

namespace Cindral.Check
open Base Queue Regex

/-! ## The classes and the words -/

def isUpper (c : Char) : Bool := 'A' ≤ c && c ≤ 'Z'
def isDigit (c : Char) : Bool := '0' ≤ c && c ≤ '9'
def isAlnum (c : Char) : Bool := isUpper c || ('a' ≤ c && c ≤ 'z') || isDigit c

/-- The letter a character is taken for under `(?i)`. Four characters outside ASCII are taken for
one inside. -/
def foldCase (c : Char) : Char :=
  if c.toNat = 0x130 ∨ c.toNat = 0x131 then 'i' else if c.toNat = 0x17f then 's' else if c.toNat =
    0x212a then 'k' else c.toLower

def anyCase (text : String) : Regex :=
  sequence (text.toList.map fun letter => one fun c => foldCase c = letter)

def text (s : String) : Regex := literal s.toList

def anyOf (chars : String) : Regex := one chars.toList.contains

def blank : Regex := one isSpace

def solid : Regex := one fun c => !isSpace c

def assign : Regex := sequence [star blank, anyOf ":=", star blank]

/-! ## The patterns -/

def redacted : String := "[redacted]"

def twoWords (front back : String) : Regex := sequence [anyCase front, opt (anyOf "_.-"), anyCase back]

def credentialWords : List Regex :=
  [anyCase "token", anyCase "secret", anyCase "password", anyCase "passwd", anyCase "credential",
  twoWords "api" "key", twoWords "access" "key", twoWords "auth" "token", twoWords "private" "key",
  twoWords "encryption" "key"]

def named : Regex :=
  sequence [star (seq (atLeast 1 (one fun c => isAlnum (foldCase c))) (anyOf "_.-")),
  oneOf credentialWords, opt (anyCase "s")]

def pemMarker (word : String) : Regex :=
  sequence [text ("-----" ++ word ++ " "), star (one fun c => isUpper c || c = ' '),
  text "PRIVATE KEY-----"]

/-- A token known by how it starts, up to the end of a word. -/
def token (start : Regex) (least : Nat) (accepts : Char → Bool) : Regex :=
  sequence [boundary, start, atLeast least (one accepts), boundary]

def awsStart : Regex :=
  alt (seq (text "A3T") (one fun c => isUpper c || isDigit c))
    (seq (text "A")
    (oneOf (["BIA", "CCA", "GPA", "IDA", "IPA", "KIA", "NPA", "NVA", "ROA", "SCA", "SIA"].map
    text)))

/-- A part of a replacement: the text of a group, or itself. -/
inductive Piece where
  | group (number : Nat)
  | words (text : String)
  deriving DecidableEq

def fill (pieces : List Piece) (m : Mark) : List Char :=
  pieces.flatMap fun piece =>
    match piece with
    | .group number => m.group number
    | .words text => text.toList

structure Pattern where
  pattern : Regex
  replacement : List Piece

def pemBlock : Pattern :=
  ⟨sequence [group 1 (pemMarker "BEGIN"), many false (one fun _ => true), group 2 (pemMarker "END")],
    [.group 1, .words " [REDACTED] ", .group 2]⟩

def tokens : List Pattern := [
  ⟨token (sequence [text "gh", anyOf "pousr", text "_"]) 16 isAlnum, [.words redacted]⟩,
  ⟨token (text "github_pat_") 16 fun c => isAlnum c || c = '_', [.words redacted]⟩,
  ⟨sequence [boundary, awsStart, times 16 (one fun c => isUpper c || isDigit c), boundary],
  [.words redacted]⟩,
  ⟨token (text "glpat-") 16 fun c => isAlnum c || c = '_' || c = '-', [.words redacted]⟩,
  ⟨token (sequence [text "xox", anyOf "abposr", text "-"]) 8 fun c => isAlnum c || c = '-',
  [.words redacted]⟩,
  ⟨token (text "npm_") 30 isAlnum, [.words redacted]⟩,
  ⟨token (text "AIza") 30 fun c => isAlnum c || c = '_' || c = '-', [.words redacted]⟩,
  ⟨token (seq (anyOf "sr") (text "k_live_")) 12 isAlnum, [.words redacted]⟩]

def header : Regex := alt (anyCase "authorization") (anyCase "proxy-authorization")

def scheme : Regex := opt (oneOf [anyCase "bearer", anyCase "token", anyCase "basic", anyCase "digest"])

def authorization : Pattern :=
  ⟨sequence [boundary, group 1 header, boundary, group 2 assign, scheme, star blank, atLeast 1 solid],
    [.group 1, .group 2, .words redacted]⟩

def bearer : Pattern :=
  ⟨sequence [boundary, group 1 (anyCase "bearer"), atLeast 1 blank, atLeast 1 solid],
  [.group 1, .words " ", .words redacted]⟩

def quoted (quote : Char) : Regex := sequence [one (· = quote), star (one (· ≠ quote)), one (· = quote)]

def setting : Pattern :=
  ⟨sequence [boundary, group 1 named, boundary, group 2 assign,
    group 3 (oneOf [quoted '"', quoted '\'', atLeast 1 solid])],
    [.group 1, .group 2, .words redacted]⟩

def userinfoChar (c : Char) : Bool := !isSpace c && c ≠ '/' && c ≠ '@'

def userinfo : Pattern :=
  ⟨sequence [behind "://".toList, atLeast 1 (one userinfoChar), text ":",
    atLeast 1 (one userinfoChar), ahead (text "@")],
    [.words redacted]⟩

def patterns : List Pattern := pemBlock :: tokens ++ [authorization, bearer, setting, userinfo]

section
variable (isWord : Char → Bool)

def redact (text : String) : String :=
  patterns.foldl (fun text entry => .ofList
  (sub isWord entry.pattern (fill entry.replacement) text.toList)) text

def scrubbed (text : String) : Bool := patterns.any fun entry => search isWord entry.pattern text.toList

def redactedStep (step : StepRecord) : StepRecord := { step with output := redact isWord step.output }

def redactedJob (job : Job) : Job :=
  { job with
    log := redact isWord job.log
    lastError := job.lastError.map fun error => if error = "" then error else redact isWord error
    steps := job.steps.map (redactedStep isWord) }

end

section
variable {isWord : Char → Bool}

theorem fill_ne_nil {entry : Pattern} (member : entry ∈ patterns) (m : Mark) :
    fill entry.replacement m ≠ [] := by
  have worded : ∀ entry ∈ patterns, entry.replacement.contains (.words redacted) ∨
      entry.replacement.contains (.words " [REDACTED] ") := by decide +kernel
  intro empty
  have nothing := List.flatMap_eq_nil_iff.mp empty
  rcases worded entry member with marked | marked
  · exact absurd (show redacted.toList = [] from nothing _ (List.contains_iff_mem.mp marked)) (by decide)
  · exact absurd (show " [REDACTED] ".toList = [] from nothing _ (List.contains_iff_mem.mp marked))
      (by decide)

theorem redact_ne_empty {text : String} (h : text ≠ "") : redact isWord text ≠ "" := by
  suffices kept : ∀ entries : List Pattern, (∀ entry ∈ entries, entry ∈ patterns) → ∀ text : String,
      text ≠ "" →
      entries.foldl (fun text entry => .ofList
      (sub isWord entry.pattern (fill entry.replacement) text.toList)) text ≠ "" from
    kept patterns (fun _ member => member) text h
  intro entries known
  induction entries with
  | nil => exact fun text h => h
  | cons entry entries ih =>
    intro text h
    apply ih fun other member => known other (List.mem_cons_of_mem entry member)
    intro empty
    have characters := congrArg String.toList empty
    rw [String.toList_ofList] at characters
    exact sub_ne_nil (fill_ne_nil (known entry List.mem_cons_self))
      (fun none => h (String.toList_inj.mp none)) characters

/-- What no pattern is found in is not changed. -/
theorem redact_of_not_scrubbed {text : String} (h : scrubbed isWord text = false) :
    redact isWord text = text := by
  have unmatched : ∀ entry ∈ patterns, search isWord entry.pattern text.toList = false := by
    simpa [scrubbed, List.any_eq_false] using h
  suffices kept : ∀ entries : List Pattern,
      (∀ entry ∈ entries, search isWord entry.pattern text.toList = false) →
      entries.foldl (fun text entry => String.ofList
      (sub isWord entry.pattern (fill entry.replacement) text.toList)) text = text from
    kept patterns unmatched
  intro entries unmatched
  induction entries with
  | nil => rfl
  | cons entry entries ih =>
    rw [List.foldl_cons, sub_of_not_search (unmatched entry List.mem_cons_self), String.ofList_toList]
    exact ih fun other member => unmatched other (List.mem_cons_of_mem entry member)

theorem scrubbed_empty : scrubbed isWord "" = false := by
  rw [scrubbed, List.any_eq_false]
  intro entry _
  exact Bool.false_ne_true

/-- A text is left alone when no pattern can start with any of its characters. -/
theorem scrubbed_of_refuses {text : String}
    (h : ∀ c ∈ text.toList, ∀ entry ∈ patterns, refuses c entry.pattern = true) :
    scrubbed isWord text = false := by
  rw [scrubbed, List.any_eq_false]
  intro entry member found
  rw [search_of_refuses fun c inside => h c inside entry member] at found
  exact Bool.false_ne_true found

theorem redact_empty : redact isWord "" = "" := redact_of_not_scrubbed scrubbed_empty

theorem redact_eq_empty_iff {text : String} : redact isWord text = "" ↔ text = "" := by
  constructor
  · intro empty
    by_contra some_text
    exact redact_ne_empty some_text empty
  · rintro rfl
    exact redact_empty

end

/-! ## Credentials a log can hold -/

def asciiWord (c : Char) : Bool := isAlnum c || c = '_'

example : redact asciiWord "NPM_TOKEN='a b' x" = "NPM_TOKEN=[redacted] x" := by decide +kernel

end Cindral.Check

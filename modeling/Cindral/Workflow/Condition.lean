import Cindral.Base.Double
import Cindral.Base.Expression

/-!
# Job conditions

Whether a job's own `if:` holds for the event a run was queued for, in three values: a context path the
run does not carry leaves the condition undecided.
-/

namespace Cindral.Workflow
open Base Base.Expression

/-! ## Tokens -/

inductive AtomKind where
  | string | path | number
  deriving DecidableEq, Repr

structure Atom where
  kind : AtomKind
  text : String
  deriving DecidableEq, Repr

abbrev Token := Lexeme Atom

inductive ConditionError where
  /-- Quotes the text. -/
  | unreadable (text : String)
  | empty
  /-- The condition nests deeper than `maxDepth` parentheses, or terms. -/
  | nests (what : String)
  | unbalanced
  | endsAfterOperator
  deriving DecidableEq, Repr

def maxDepth : Nat := 64

def operatorText : Operator → String
  | .or => "||"
  | .and => "&&"
  | .eq => "=="
  | .ne => "!="
  | .not => "!"
  | .opens => "("
  | .closes => ")"

def isWord (c : Char) : Bool := c.isAlphanum || c = '_'

def isField (c : Char) : Bool := isWord c || c = '-'

abbrev Scan (ρ : Type) := Option (ρ × List Char)

def scanSingle (c : Char) (rest : List Char) : Scan Operator :=
  if c = '!' then some (.not, rest)
  else if c = '(' then some (.opens, rest)
  else if c = ')' then some (.closes, rest)
  else none

def scanOperator : List Char → Scan Operator
  | [] => none
  | [c] => scanSingle c []
  | c :: d :: rest =>
    if c = '|' ∧ d = '|' then some (.or, rest)
    else if c = '&' ∧ d = '&' then some (.and, rest)
    else if c = '=' ∧ d = '=' then some (.eq, rest)
    else if c = '!' ∧ d = '=' then some (.ne, rest)
    else scanSingle c (d :: rest)

/-- The rest of a literal, to the closing quote. A doubled quote is one of the text, unless no quote
closes it then. -/
def scanQuoted (quote : Char) : List Char → Scan (List Char)
  | [] => none
  | [c] => if c = quote then some ([c], []) else none
  | c :: d :: rest =>
    if c = quote then
      if d = quote then
        match scanQuoted quote rest with
        | some (text, left) => some (c :: d :: text, left)
        | none => some ([c], d :: rest)
      else some ([c], d :: rest)
    else (scanQuoted quote (d :: rest)).map fun (text, left) => (c :: text, left)

def scanString : List Char → Scan (List Char)
  | c :: rest => if c = '\'' || c = '"' then (scanQuoted c rest).map fun (text, left) =>
      (c :: text, left) else none
  | [] => none

/-- The rest of a path. After the first dot a hyphen is part of a name. -/
def scanFields (inField : Bool) : List Char → List Char × List Char
  | [] => ([], [])
  | [c] => if isWord c || (inField && c = '-') then ([c], []) else ([], [c])
  | c :: d :: rest =>
    if isWord c || (inField && c = '-') then
      let taken := scanFields inField (d :: rest)
      (c :: taken.1, taken.2)
    else if c = '.' && isField d then
      let taken := scanFields true rest
      (c :: d :: taken.1, taken.2)
    else ([], c :: d :: rest)

def scanPath : List Char → Scan (List Char)
  | c :: rest =>
    if c.isAlpha || c = '_' then
      let taken := scanFields false rest
      some (c :: taken.1, taken.2)
    else none
  | [] => none

def scanDigits (cs : List Char) : Scan (List Char) :=
  match cs.takeWhile Char.isDigit with
  | [] => none
  | digits => some (digits, cs.dropWhile Char.isDigit)

def scanFraction : List Char → List Char × List Char
  | [] => ([], [])
  | c :: rest =>
    if c = '.' then
      match scanDigits rest with
      | some (part, left) => ('.' :: part, left)
      | none => ([], c :: rest)
    else ([], c :: rest)

def scanUnsigned (cs : List Char) : Scan (List Char) := (scanDigits cs).map fun (whole, left) =>
  (whole ++ (scanFraction left).1, (scanFraction left).2)

def scanNumber : List Char → Scan (List Char)
  | [] => none
  | c :: rest =>
    if c = '-' then (scanUnsigned rest).map fun (text, left) => (c :: text, left) else scanUnsigned
      (c :: rest)

def scanAtom (kind : AtomKind) (scan : List Char → Scan (List Char)) (cs : List Char) : Scan Token :=
  (scan cs).map fun (text, left) => (.atom ⟨kind, .ofList text⟩, left)

/-- The first alternative of `TOKEN` that matches. -/
def scanToken (cs : List Char) : Scan Token :=
  ((scanOperator cs).map fun (o, left) => (.operator o, left)).or <|
    (scanAtom .string scanString cs).or <|
    (scanAtom .path scanPath cs).or (scanAtom .number scanNumber cs)

/-- Each turn takes a character at least, so the length of the text is enough turns. -/
def tokenizeFrom : Nat → List Char → Except ConditionError (List Token)
  | _, [] => .ok []
  | 0, _ :: _ => .ok []
  | n + 1, c :: rest =>
    if isSpace c then tokenizeFrom n rest
    else match scanToken (c :: rest) with
      | some (token, left) => (tokenizeFrom n left).map (token :: ·)
      | none => .error (.unreadable (.singleton c))

def tokenize (expression : String) : Except ConditionError (List Token) :=
  tokenizeFrom expression.length expression.toList

/-! ## Values -/

/-- `true`, `false`, or undecided. -/
abbrev Verdict := Option Bool

inductive ValueKind where
  | boolean | number | string | path
  deriving DecidableEq, Repr

/-- One side of a comparison. No text is a path the run does not carry. -/
structure Value where
  text : Option String
  kind : ValueKind
  deriving DecidableEq, Repr

/-- What the evaluator asks of its run and of the language: the value of each context path, and the
full case folding of a text. -/
structure RunContext where
  value : String → Option String
  casefold : String → String

/-- The empty text is zero. -/
def asNumber (value : String) : Option Double :=
  if strip value = "" then some (.finite 0) else Double.parse (strip value)

def coerce (value : String) (kind : ValueKind) : Double :=
  if kind = .boolean then .finite (if value = "true" then 1 else 0) else (asNumber value).getD .nan

/-- Two numbers, where a text that reads as none is equal to another such text. -/
def sameNumber : Option Double → Option Double → Bool
  | some x, some y => x.eq y
  | none, none => true
  | _, _ => false

def undouble (quote : Char) : List Char → List Char
  | c :: d :: rest => if c = quote ∧ d = quote then quote :: undouble quote rest else c :: undouble
      quote (d :: rest)
  | cs => cs

def unquote (text : String) : String :=
  .ofList (undouble '"' (undouble '\'' (text.toList.drop 1).dropLast))

def asText : Verdict → Option String
  | none => none
  | some true => some "true"
  | some false => some ""

def literal? (name : String) : Option String :=
  if name = "true" then some "true" else if ["false", "null", "none"].contains name then some "" else none

section Evaluation
variable (context : RunContext)

def equal (left : String) (leftKind : ValueKind) (right : String) (rightKind : ValueKind) : Bool :=
  if leftKind = rightKind then
    match leftKind with
    | .string => context.casefold left = context.casefold right
    | .boolean => left = right
    | _ => sameNumber (asNumber left) (asNumber right)
  else (coerce left leftKind).eq (coerce right rightKind)

def atomValue (atom : Atom) : Value :=
  match atom.kind with
  | .string => ⟨unquote atom.text, .string⟩
  | .number => ⟨atom.text, .number⟩
  | .path =>
    match literal? (lower atom.text) with
    | some text => ⟨text, .boolean⟩
    | none =>
      match context.value atom.text with
      | some value => ⟨value, .string⟩
      | none => ⟨none, .path⟩

/-- An operand that no comparison follows. A number is false only at zero. -/
def truth (value : Value) : Verdict :=
  if value.kind = .number then
    value.text.map fun text => match Double.parse text with
      | some number => !number.eq (.finite 0)
      | none => false
  else value.text.map (· ≠ "")

def compareValues (equals : Bool) (left right : Value) : Verdict :=
  match left.text, right.text with
  | some l, some r => some (equals == equal context l left.kind r right.kind)
  | _, _ => none

/-- Two operands, short of the second where the first settles the pair. -/
def either (left right : Verdict) (decisive : Bool) : Verdict :=
  if left = some decisive ∨ right = some decisive then some decisive
  else if left = none ∨ right = none then none
  else some (!decisive)

/-! ## Reading -/

/-- What was read, the tokens left, and the paths found missing so far. -/
abbrev Read (ρ : Type) := List Token → List String → Except ConditionError (ρ × List Token × List String)

def refuse {ρ : Type} (error : ConditionError) : Read ρ := fun _ _ => .error error

/-- The `while` of `_or` and of `_and`. Each turn takes one of the operators, so their number is
enough turns. -/
def eitherWhile (operator : Operator) (decisive : Bool) (next : Read Verdict) :
    Nat → Verdict → Read Verdict
  | n + 1, value, .operator o :: tail, unread =>
    if o = operator then do
      let (right, rest, unread) ← next tail unread
      eitherWhile operator decisive next n (either value right decisive) rest unread
    else .ok (value, .operator o :: tail, unread)
  | _, value, tokens, unread => .ok (value, tokens, unread)

def readEither (operator : Operator) (decisive : Bool) (next : Read Verdict) : Read Verdict :=
  fun tokens unread => do
  let (value, rest, unread) ← next tokens unread
  eitherWhile operator decisive next (rest.countP (Lexeme.is operator)) value rest unread

def readAnd (not : Read Verdict) : Read Verdict := readEither .and false not

def readOr (not : Read Verdict) : Read Verdict := readEither .or true (readAnd not)

/-- The scan of a group for its only operand: how many more `(`s open it, the operand, and what
follows from its first `)` on. -/
def loneOperand : List Token → Option (Nat × Atom × List Token)
  | .operator .opens :: rest => (loneOperand rest).map fun (index, atom, after) =>
      (index + 1, atom, after)
  | .atom atom :: .operator .closes :: rest => some (0, atom, .operator .closes :: rest)
  | _ => none

def atomUnread (atom : Atom) (unread : List String) : List String :=
  if (atomValue context atom).text = none then unread.insert atom.text else unread

/-- `_operand`, with `room` levels of nesting left and `group` for what a group holds. -/
def readOperand (room : Nat) (group : Read Verdict) : Read Value
  | [], _ => .error .endsAfterOperator
  | .atom atom :: rest, unread => .ok (atomValue context atom, rest, atomUnread context atom unread)
  | .operator .opens :: rest, unread =>
    match loneOperand rest with
    | some (index, atom, after) =>
      if index + 1 ≤ room then
        .ok (atomValue context atom, after.dropWhile (Lexeme.is .closes), atomUnread context atom unread)
      else .error (.nests "parentheses")
    | none => do
      let (value, rest, unread) ← group rest unread
      match rest with
      | .operator .closes :: rest => .ok (⟨asText value, .boolean⟩, rest, unread)
      | _ => .error .unbalanced
  | .operator o :: _, _ => .error (.unreadable (operatorText o))

def compareWith (operand : Read Value) (equals : Bool) (left : Value) : Read Verdict :=
  fun tokens unread => do
  let (right, rest, unread) ← operand tokens unread
  .ok (compareValues context equals left right, rest, unread)

def readComparison (operand : Read Value) : Read Verdict := fun tokens unread => do
  let (left, rest, unread) ← operand tokens unread
  match rest with
  | .operator .eq :: tail => compareWith context operand true left tail unread
  | .operator .ne :: tail => compareWith context operand false left tail unread
  | rest => .ok (truth left, rest, unread)

/-- `_not`, with `deeper` for what follows a `!` and `group` for what a group holds. -/
def notWith (room : Nat) (deeper group : Read Verdict) : Read Verdict
  | .operator .not :: tail, unread => do
    let (value, rest, unread) ← deeper tail unread
    .ok (value.map (!·), rest, unread)
  | tokens, unread => readComparison context (readOperand context room group) tokens unread

/-- Where the source counts the depth up to `MAX_DEPTH`, this counts the room down to nothing. -/
def readNot : Nat → Read Verdict
  | 0 => notWith context 0 (refuse (.nests "terms")) (refuse (.nests "parentheses"))
  | room + 1 => notWith context (room + 1) (readNot room) (readOr (readNot room))

structure Condition where
  value : Verdict
  unread : List String
  deriving DecidableEq, Repr

/-- The verdict of a list of tokens. Paths are reported unread only where they held the verdict up. -/
def evaluateTokens (tokens : List Token) : Except ConditionError Condition := do
  if tokens = [] then .error .empty
  else
    let (value, rest, unread) ← readOr (readNot context maxDepth) tokens []
    match rest with
    | [] => .ok ⟨value, if value.isSome then [] else unread.mergeSort⟩
    | .operator o :: _ => .error (.unreadable (operatorText o))
    | .atom atom :: _ => .error (.unreadable atom.text)

def evaluateCondition (expression : String) : Except ConditionError Condition := do
  evaluateTokens context (← tokenize expression)

end Evaluation
end Cindral.Workflow

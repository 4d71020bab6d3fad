import Cindral.Base.Text
import Mathlib.Data.Int.Log

/-! Python's `float`: binary64 numbers by their exact value, and the text `float(...)` reads. -/

namespace Cindral.Base

inductive Double where
  | nan
  | infinite (negative : Bool)
  | finite (value : ℚ)
  | negativeZero
  deriving DecidableEq, Repr

namespace Double

/-- What a comparison looks at: nothing of a NaN, and one zero. -/
def order : Double → Option (WithBot (WithTop ℚ))
  | nan => none
  | infinite true => some ⊥
  | infinite false => some (⊤ : WithTop ℚ)
  | finite value => some (value : WithTop ℚ)
  | negativeZero => some (0 : WithTop ℚ)

/-- `==`, under which nothing equals a NaN. -/
def eq (x y : Double) : Bool :=
  match x.order, y.order with
  | some a, some b => a = b
  | _, _ => false

def le (x y : Double) : Bool :=
  match x.order, y.order with
  | some a, some b => a ≤ b
  | _, _ => false

def lt (x y : Double) : Bool :=
  match x.order, y.order with
  | some a, some b => a < b
  | _, _ => false

def value : Double → ℚ
  | finite value => value
  | _ => 0

def neg : Double → Double
  | nan => nan
  | infinite negative => infinite !negative
  | finite value => if value = 0 then negativeZero else finite (-value)
  | negativeZero => finite 0

/-- The numbers around a magnitude are this power of two apart. Subnormals have the least one. -/
def spacingExponent (magnitude : ℚ) : ℤ := max (Int.log 2 magnitude - 52) (-1074)

def spacing (magnitude : ℚ) : ℚ := 2 ^ spacingExponent magnitude

def roundMagnitude (magnitude : ℚ) : ℚ :=
  roundHalfEven (magnitude / spacing magnitude) * spacing magnitude

/-- The nearest binary64 number, a tie going to the even one. -/
def nearest (q : ℚ) : Double :=
  let rounded := roundMagnitude |q|
  if 2 ^ 1024 ≤ rounded then infinite (q < 0) else if q < 0 then (finite rounded).neg else finite rounded

def digit? (c : Char) : Option Nat :=
  (decimalZeros.find? fun start => start ≤ c.toNat && c.toNat < start + 10).map (c.toNat - ·)

/-- Decimal digits of any script and spaces become ASCII ones, and nothing else outside ASCII is read. -/
def toAscii (c : Char) : Char :=
  match digit? c with
  | some d => Char.ofNat (0x30 + d)
  | none => if isSpace c then ' ' else if c.toNat < 128 then c else '?'

theorem toAscii_digit {c : Char} (digit : c.isDigit = true) : toAscii c = c := by
  have bounds : 48 ≤ c.toNat ∧ c.toNat ≤ 57 := Char.isDigit_iff_toNat.mp digit
  have ascii : digit? c = some (c.toNat - 0x30) := by
    rw [digit?, decimalZeros, List.find?_cons_of_pos
      (by simp only [Bool.and_eq_true, decide_eq_true_eq]; omega)]
    rfl
  rw [toAscii, ascii]
  show Char.ofNat (0x30 + (c.toNat - 0x30)) = c
  rw [show 0x30 + (c.toNat - 0x30) = c.toNat by omega, Char.ofNat_toNat]

/-- The text without the underscores it has between digits. One that stands elsewhere makes it
unreadable. -/
def dropUnderscores (previous : Char) : List Char → Option (List Char)
  | [] => some []
  | '_' :: next :: rest =>
    if previous.isDigit && next.isDigit then (dropUnderscores next rest).map (next :: ·) else none
  | ['_'] => none
  | c :: rest => (dropUnderscores c rest).map (c :: ·)

def digits? (cs : List Char) : Option Nat :=
  if cs ≠ [] && cs.all Char.isDigit then some (Nat.ofDigitChars 10 cs 0) else none

def signed (cs : List Char) : Bool × List Char :=
  match cs with
  | '-' :: rest => (true, rest)
  | '+' :: rest => (false, rest)
  | rest => (false, rest)

def exponent? : List Char → Option Int
  | [] => some 0
  | e :: rest =>
    if e = 'e' || e = 'E' then
      (digits? (signed rest).2).map fun (n : Nat) => if (signed rest).1 then -(n : Int) else n
    else none

def fraction : List Char → List Char × List Char
  | '.' :: rest => (rest.takeWhile Char.isDigit, rest.dropWhile Char.isDigit)
  | rest => ([], rest)

def decimal? (cs : List Char) : Option ℚ :=
  let whole := cs.takeWhile Char.isDigit
  let (part, rest) := fraction (cs.dropWhile Char.isDigit)
  if whole = [] && part = [] then none
  else (exponent? rest).map fun (e : Int) => (Nat.ofDigitChars 10 (whole ++ part) 0 : ℚ) * 10 ^
  (e - (part.length : Int))

def parseUnsigned (negative : Bool) (cs : List Char) : Option Double :=
  let word := String.ofList (cs.map Char.toLower)
  if word = "inf" || word = "infinity" then some (infinite negative)
  else if word = "nan" then some nan
  else (decimal? cs).map fun q => if negative then (nearest q).neg else nearest q

/-- `float(text)`, with `none` for a `ValueError`. -/
def parse (text : String) : Option Double :=
  (dropUnderscores ' ' (stripChars (text.toList.map toAscii))).bind fun cs =>
    parseUnsigned (signed cs).1 (signed cs).2

theorem parseUnsigned_quote {c : Char} (quote : c = '\'' ∨ c = '"') (negative : Bool) (cs : List Char) :
    parseUnsigned negative (c :: cs) = none := by
  have spelled (word : String) (other : word.toList.head? ≠ some c) :
      String.ofList ((c :: cs).map Char.toLower) ≠ word := by
    rintro rfl
    rw [String.toList_ofList] at other
    rcases quote with rfl | rfl <;> exact other rfl
  have digitless : decimal? (c :: cs) = none := by rcases quote with rfl | rfl <;> rfl
  have inf := spelled "inf" (by rcases quote with rfl | rfl <;> decide)
  have infinity := spelled "infinity" (by rcases quote with rfl | rfl <;> decide)
  have nan := spelled "nan" (by rcases quote with rfl | rfl <;> decide)
  simp only [parseUnsigned, inf, infinity, nan, digitless, decide_false, Bool.or_self,
    Bool.false_eq_true, if_false,
    Option.map_none]

/-- No number starts with a quote. -/
theorem parse_quote {c : Char} {cs : List Char} (quote : c = '\'' ∨ c = '"') :
    parse (.ofList (c :: cs)) = none := by
  have ascii : toAscii c = c := by rcases quote with rfl | rfl <;> decide
  have solid : ¬ isSpace c = true := by rcases quote with rfl | rfl <;> decide
  obtain ⟨more, stripped⟩ := stripChars_head (show (c :: cs.map toAscii).dropWhile isSpace = _ from
    List.dropWhile_cons_of_neg solid)
  have dropped : dropUnderscores ' ' (c :: more) = (dropUnderscores c more).map (c :: ·) := by
    rcases quote with rfl | rfl <;> cases more <;> rfl
  have unsigned (rest : List Char) : signed (c :: rest) = (false, c :: rest) := by
    rcases quote with rfl | rfl <;> rfl
  rw [parse, String.toList_ofList, List.map_cons, ascii, stripped, dropped]
  cases dropUnderscores c more with
  | none => rfl
  | some rest =>
    show parseUnsigned (signed (c :: rest)).1 (signed (c :: rest)).2 = none
    rw [unsigned, parseUnsigned_quote quote]

end Double
end Cindral.Base

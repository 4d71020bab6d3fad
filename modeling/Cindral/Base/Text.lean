import Mathlib.Algebra.Order.Floor.Ring
import Mathlib.Data.List.Basic
import Mathlib.Data.List.DropRight
import Mathlib.Data.Nat.Log
import Mathlib.Data.Rat.Floor

/-!
# Python text

The string operations of the source, by code point. `isDecimal` and `isSpace` are the
classes `\d` and `str.strip` read, and `formatG` is the number format `:g`.
-/

namespace Cindral.Base

def sliceTo (s : String) (n : Nat) : String := .ofList (s.toList.take n)

def sliceLast (s : String) (n : Nat) : String := .ofList (s.toList.drop (s.length - n))

def isSpace (c : Char) : Bool :=
  let n := c.toNat
  (0x9 ≤ n && n ≤ 0xd) || (0x1c ≤ n && n ≤ 0x20) || (0x2000 ≤ n && n ≤ 0x200a) ||
    [0x85, 0xa0, 0x1680, 0x2028, 0x2029, 0x202f, 0x205f, 0x3000].contains n

def stripChars (cs : List Char) : List Char :=
  ((cs.dropWhile isSpace).reverse.dropWhile isSpace).reverse

def strip (s : String) : String := .ofList (stripChars s.toList)

/-- The zero of every run of ten decimal digits Unicode has. -/
def decimalZeros : List Nat :=
  [0x30, 0x660, 0x6f0, 0x7c0, 0x966, 0x9e6, 0xa66, 0xae6, 0xb66, 0xbe6, 0xc66, 0xce6, 0xd66, 0xde6, 0xe50,
    0xed0, 0xf20, 0x1040, 0x1090, 0x17e0, 0x1810, 0x1946, 0x19d0, 0x1a80, 0x1a90, 0x1b50, 0x1bb0, 0x1c40,
    0x1c50, 0xa620, 0xa8d0, 0xa900, 0xa9d0, 0xa9f0, 0xaa50, 0xabf0, 0xff10, 0x104a0, 0x10d30, 0x11066,
    0x110f0, 0x11136, 0x111d0, 0x112f0, 0x11450, 0x114d0, 0x11650, 0x116c0, 0x11730, 0x118e0, 0x11950,
    0x11c50, 0x11d50, 0x11da0, 0x11f50, 0x16a60, 0x16ac0, 0x16b50, 0x1d7ce, 0x1d7d8, 0x1d7e2, 0x1d7ec,
    0x1d7f6, 0x1e140, 0x1e2f0, 0x1e4f0, 0x1e950, 0x1fbf0]

def isDecimal (c : Char) : Bool := decimalZeros.any fun start => start ≤ c.toNat && c.toNat < start + 10

def isLowerHex (c : Char) : Bool := ('0' ≤ c && c ≤ '9') || ('a' ≤ c && c ≤ 'f')

/-- The pieces between newlines, which is where `^` and `$` stand under `re.MULTILINE`. -/
def lines (s : String) : List (List Char) := s.toList.splitOn '\n'

/-- `str.lower` as far as it reaches ASCII. The Kelvin sign is the one other character that does. -/
def lowerChar (c : Char) : Char := if c.toNat = 0x212a then 'k' else c.toLower

def lower (s : String) : String := .ofList (s.toList.map lowerChar)

def hasPrefix (s start : String) : Bool := start.toList.isPrefixOf s.toList

def hasSuffix (s ending : String) : Bool := ending.toList.isSuffixOf s.toList

def hasInfix (s part : String) : Bool := s.toList.tails.any part.toList.isPrefixOf

/-- Rounding to an integer, a tie going to the even one. -/
def roundHalfEven (q : ℚ) : ℤ :=
  let low := ⌊q⌋
  if q - low < 1 / 2 then low else if 1 / 2 < q - low then low + 1 else if low %
    2 = 0 then low else low + 1

/-- The power of ten of the leading digit of a positive number. -/
def leadingPower (q : ℚ) : ℤ := if 1 ≤ q then Nat.log 10 ⌊q⌋₊ else -(Nat.clog 10 ⌈1 / q⌉₊ : ℤ)

def trimZeros (cs : List Char) : List Char := (cs.reverse.dropWhile (· = '0')).reverse

def withPoint (whole fraction : List Char) : List Char :=
  if fraction = [] then whole else whole ++ '.' :: fraction

/-- A positive number under `:g`: six significant digits, trailing zeros dropped. -/
def formatPositive (q : ℚ) : List Char :=
  let scaled (power : ℤ) := (roundHalfEven (q * 10 ^ (5 - power))).toNat
  -- a number that rounds up to a seventh digit has the next power
  let power := if scaled (leadingPower q) < 10 ^ 6 then leadingPower q else leadingPower q + 1
  let digits := (scaled power).repr.toList
  if -4 ≤ power ∧ power < 6 then
    if 0 ≤ power then withPoint (digits.take (power.toNat + 1))
      (trimZeros (digits.drop (power.toNat + 1)))
    else withPoint ['0'] (trimZeros (List.replicate (-power - 1).toNat '0' ++ digits))
  else
    let exponent := power.natAbs.repr.toList
    withPoint (digits.take 1) (trimZeros (digits.drop 1)) ++ 'e' :: (if 0 ≤ power then '+' else '-') ::
      (List.replicate (2 - exponent.length) '0' ++ exponent)

def formatG (q : ℚ) : String :=
  if q = 0 then "0" else if q < 0 then .ofList ('-' :: formatPositive (-q)) else .ofList
    (formatPositive q)

/-- What follows a prefix, when the text starts with it. -/
def afterPrefix? (start : String) (cs : List Char) : Option (List Char) := cs.dropPrefix? start.toList

theorem afterPrefix?_eq_some {start : String} {cs rest : List Char} :
    afterPrefix? start cs = some rest ↔ cs = start.toList ++ rest := by
  rw [afterPrefix?, List.dropPrefix?_eq_some_iff]
  constructor
  · rintro ⟨front, rfl, same⟩
    rw [eq_of_beq same]
  · rintro rfl
    exact ⟨_, rfl, beq_self_eq_true _⟩

theorem solid_of_dropWhile {cs rest : List Char} {c : Char}
    (starts : cs.dropWhile isSpace = c :: rest) : isSpace c = false := by
  have first := List.head?_dropWhile_not isSpace cs
  simpa only [starts, List.head?_cons, Bool.not_eq_true] using first

/-- Stripping leaves the first character that is no space at the front. -/
theorem stripChars_head {cs rest : List Char} {c : Char} (starts : cs.dropWhile isSpace = c :: rest) :
    ∃ rest', stripChars cs = c :: rest' := by
  have stripped : stripChars cs = (c :: rest).rdropWhile isSpace := by rw [← starts]; rfl
  have front : stripChars cs <+: c :: rest := stripped ▸ List.rdropWhile_prefix isSpace _
  cases left : stripChars cs with
  | nil =>
    have blank := List.rdropWhile_eq_nil_iff.mp (stripped.symm.trans left) c List.mem_cons_self
    rw [solid_of_dropWhile starts] at blank
    cases blank
  | cons d rest' =>
    rw [left] at front
    exact ⟨rest', by rw [(List.cons_prefix_cons.mp front).1]⟩

theorem isDecimal_of_isDigit {c : Char} (digit : c.isDigit = true) : isDecimal c = true := by
  have bounds : 48 ≤ c.toNat ∧ c.toNat ≤ 57 := Char.isDigit_iff_toNat.mp digit
  rw [isDecimal, decimalZeros, List.any_cons]
  simp only [Bool.or_eq_true, Bool.and_eq_true, decide_eq_true_eq]
  omega

theorem toNat_toLower (c : Char) : c.toLower.toNat = if 65 ≤ c.toNat ∧
    c.toNat ≤ 90 then c.toNat + 32 else c.toNat := by
  unfold Char.toLower
  have bounds : (c.val ≥ 'A'.val ∧ c.val ≤ 'Z'.val) ↔ (65 ≤ c.toNat ∧ c.toNat ≤ 90) := by
    simp only [ge_iff_le, UInt32.le_iff_toNat_le, Char.toNat]
    exact Iff.rfl
  split
  · rename_i upper
    rw [if_pos (bounds.mp upper)]
    have small := (bounds.mp upper).2
    show (c.val + 32).toNat = c.val.toNat + 32
    rw [UInt32.toNat_add]
    exact Nat.mod_eq_of_lt (by show c.toNat + 32 < _; omega)
  · rename_i other
    rw [if_neg fun upper => other (bounds.mpr upper)]

theorem lowerChar_lowerChar (c : Char) : lowerChar (lowerChar c) = lowerChar c := by
  apply Char.toNat_inj.mp
  unfold lowerChar
  by_cases kelvin : c.toNat = 0x212a
  · simp only [kelvin, if_true]
    decide
  · simp only [kelvin, if_false]
    have once := toNat_toLower c
    have twice := toNat_toLower c.toLower
    split at once <;> split at twice <;> split <;> omega

@[simp] theorem lower_lower (s : String) : lower (lower s) = lower s := by
  simp only [lower, String.toList_ofList, List.map_map]
  congr 1
  exact List.map_congr_left fun c _ => lowerChar_lowerChar c

@[simp] theorem toList_sliceTo (s : String) (n : Nat) : (sliceTo s n).toList = s.toList.take n :=
  String.toList_ofList

theorem length_sliceTo_le (s : String) (n : Nat) : (sliceTo s n).length ≤ n := by
  rw [sliceTo, String.length_ofList]
  exact List.length_take_le n s.toList

theorem length_sliceLast_le (s : String) (n : Nat) : (sliceLast s n).length ≤ n := by
  rw [sliceLast, String.length_ofList, List.length_drop, String.length_toList]
  omega

theorem sliceTo_of_length_le {s : String} {n : Nat} (h : s.length ≤ n) : sliceTo s n = s := by
  rw [sliceTo, List.take_of_length_le (by rwa [String.length_toList]), String.ofList_toList]

/-- A character that splits nothing is in one of the pieces. -/
theorem mem_splitOnP {p : Char → Bool} {cs : List Char} {c : Char} (member : c ∈ cs)
    (kept : p c = false) :
    ∃ piece ∈ cs.splitOnP p, c ∈ piece := by
  induction cs with
  | nil => cases member
  | cons d cs ih =>
    rw [List.splitOnP_cons_eq_if_modifyHead]
    rcases List.mem_cons.mp member with rfl | later
    · rw [kept]
      obtain ⟨piece, pieces, split⟩ := List.exists_cons_of_ne_nil (List.splitOnP_ne_nil p cs)
      rw [split]
      exact ⟨c :: piece, List.mem_cons_self, List.mem_cons_self⟩
    · obtain ⟨piece, inside, there⟩ := ih later
      split
      · exact ⟨piece, List.mem_cons_of_mem _ inside, there⟩
      · obtain ⟨first, pieces, split⟩ := List.exists_cons_of_ne_nil (List.splitOnP_ne_nil p cs)
        rw [split] at inside ⊢
        rcases List.mem_cons.mp inside with rfl | inside
        · exact ⟨d :: piece, List.mem_cons_self, List.mem_cons_of_mem _ there⟩
        · exact ⟨piece, List.mem_cons_of_mem _ inside, there⟩

end Cindral.Base

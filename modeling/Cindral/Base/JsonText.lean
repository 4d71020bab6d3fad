import Mathlib.Algebra.Order.Floor.Ring
import Cindral.Base.Json

/-!
# The text of a JSON value

`dumps` writes a value as `json.dumps` does by default, in ASCII, and `encode` its bytes.
-/

namespace Cindral.Base

/-! ## UTF-8 -/

def encode (text : List Char) : List UInt8 := text.flatMap String.utf8EncodeChar

@[simp] theorem encode_nil : encode [] = [] := rfl

@[simp] theorem encode_append (text more : List Char) :
    encode (text ++ more) = encode text ++ encode more :=
  List.flatMap_append ..

theorem encode_cons (c : Char) (text : List Char) :
    encode (c :: text) = String.utf8EncodeChar c ++ encode text :=
  List.flatMap_cons ..

def IsAscii (text : List Char) : Prop := ∀ c ∈ text, c.toNat < 128

theorem length_encode_of_isAscii {text : List Char} (ascii : IsAscii text) :
    (encode text).length = text.length := by
  induction text with
  | nil => rfl
  | cons c text ih =>
    have size : c.utf8Size = 1 := by
      rw [Char.utf8Size_eq_one_iff, UInt32.le_iff_toNat_le]
      exact Nat.le_of_lt_succ (ascii c List.mem_cons_self)
    rw [encode_cons, List.length_append, String.length_utf8EncodeChar, size,
      ih fun c member => ascii c (List.mem_cons_of_mem _ member), List.length_cons, Nat.add_comm]

namespace Json

/-! ## Strings -/

def hexDigit (n : Nat) : Char := Nat.digitChar (n % 16)

/-- `\u` and four digits. -/
def unicodeEscape (n : Nat) : List Char :=
  ['\\', 'u', hexDigit (n / 4096), hexDigit (n / 256), hexDigit (n / 16), hexDigit n]

/-- `ESCAPE_DCT`, with what follows the backslash. -/
def shortEscapes : List (Char × Char) :=
  [('\\', '\\'), ('"', '"'), ('\x08', 'b'), ('\x0c', 'f'), ('\n', 'n'), ('\r', 'r'), ('\t', 't')]

/-- One character of `py_encode_basestring_ascii`. -/
def escapeChar (c : Char) : List Char :=
  match shortEscapes.lookup c with
  | some letter => ['\\', letter]
  | none =>
    if ' ' ≤ c ∧ c ≤ '~' then [c]
    else if c.toNat < 0x10000 then unicodeEscape c.toNat
    -- a surrogate pair
    else unicodeEscape (0xd800 + (c.toNat - 0x10000) / 1024 % 1024) ++ unicodeEscape
    (0xdc00 + (c.toNat - 0x10000) % 1024)

def dumpsStr (text : String) : List Char := '"' :: (text.toList.flatMap escapeChar ++ ['"'])

theorem hexDigit_ascii (n : Nat) : (hexDigit n).toNat < 128 := by
  have all : ∀ digit < 16, (Nat.digitChar digit).toNat < 128 := by decide
  exact all _ (Nat.mod_lt _ (by decide))

theorem unicodeEscape_ascii (n : Nat) : IsAscii (unicodeEscape n) := by
  intro c member
  simp only [unicodeEscape, List.mem_cons, List.not_mem_nil, or_false] at member
  rcases member with rfl | rfl | rfl | rfl | rfl | rfl
  · decide
  · decide
  all_goals exact hexDigit_ascii _

/-- What a character costs: two bytes with a short escape, one where it is printable, six for each
UTF-16 unit else. -/
def escapedSize (c : Char) : Nat :=
  if (shortEscapes.lookup c).isSome then 2 else if ' ' ≤ c ∧
    c ≤ '~' then 1 else if c.toNat < 0x10000 then 6 else 12

theorem length_escapeChar (c : Char) : (escapeChar c).length = escapedSize c := by
  unfold escapeChar escapedSize
  cases shortEscapes.lookup c with
  | some letter => rfl
  | none =>
    dsimp only
    split_ifs <;> simp_all [unicodeEscape]

theorem escapeChar_ascii (c : Char) : IsAscii (escapeChar c) := by
  unfold escapeChar
  split
  · rename_i letter found
    have letters : ∀ entry ∈ shortEscapes, entry.2.toNat < 128 := by decide
    intro d member
    simp only [List.mem_cons, List.not_mem_nil, or_false] at member
    rcases member with rfl | rfl
    · decide
    · obtain ⟨before, after, split, -⟩ := List.lookup_eq_some_iff.mp found
      exact letters (c, d) (by rw [split]; simp)
  · split_ifs with printable basic
    · intro d member
      obtain rfl := List.mem_singleton.mp member
      exact Nat.lt_of_le_of_lt printable.2 (by decide)
    · exact unicodeEscape_ascii _
    · intro d member
      rcases List.mem_append.mp member with inside | inside
      · exact unicodeEscape_ascii _ d inside
      · exact unicodeEscape_ascii _ d inside

def textSize (text : List Char) : Nat := (text.map escapedSize).sum

@[simp] theorem textSize_append (text more : List Char) :
    textSize (text ++ more) = textSize text + textSize more := by
  rw [textSize, List.map_append, List.sum_append]
  rfl

theorem length_encode_dumpsStr (text : String) :
    (encode (dumpsStr text)).length = 2 + textSize text.toList := by
  have ascii : IsAscii (dumpsStr text) := by
    intro c member
    rcases List.mem_cons.mp member with rfl | member
    · decide
    rcases List.mem_append.mp member with inside | last
    · obtain ⟨d, -, inside⟩ := List.mem_flatMap.mp inside
      exact escapeChar_ascii d c inside
    · obtain rfl := List.mem_singleton.mp last
      decide
  rw [length_encode_of_isAscii ascii, dumpsStr, List.length_cons, List.length_append, List.length_flatMap,
    List.map_congr_left fun c _ => length_escapeChar c, textSize, List.length_singleton]
  omega

/-! ## Values -/

section
variable (float : ℚ → List Char)

mutual

/-- `json.dumps`, where `float` writes a float. -/
def dumps : Json → List Char
  | .null => "null".toList
  | .bool value => if value then "true".toList else "false".toList
  | .int value => (toString value).toList
  | .float value => float value
  | .str value => dumpsStr value
  | .arr items => '[' :: (", ".toList.intercalate (dumpsItems items) ++ [']'])
  | .obj fields => '\x7b' :: (", ".toList.intercalate (dumpsFields fields) ++ ['\x7d'])

def dumpsItems : List Json → List (List Char)
  | [] => []
  | item :: items => dumps item :: dumpsItems items

def dumpsFields : List (String × Json) → List (List Char)
  | [] => []
  | (key, value) :: fields => (dumpsStr key ++ ": ".toList ++ dumps value) :: dumpsFields fields

end

theorem length_encode_joined (parts : List (List Char)) :
    (encode (", ".toList.intercalate parts)).length =
    (parts.map fun part => (encode part).length).sum + 2 * (parts.length - 1) := by
  have separator : (encode ", ".toList).length = 2 := by decide
  induction parts with
  | nil => rfl
  | cons part parts ih =>
    cases parts with
    | nil => rw [List.intercalate_singleton, List.map_singleton, List.sum_singleton]; rfl
    | cons next parts =>
      rw [List.intercalate_cons_cons, encode_append, encode_append, List.length_append,
        List.length_append, ih, separator]
      simp only [List.map_cons, List.sum_cons, List.length_cons]
      omega

theorem digits_ascii (value : Int) : IsAscii (toString value).toList := by
  have digits (n : Nat) : IsAscii (Nat.toDigits 10 n) := by
    intro c member
    have digit := Nat.isDigit_of_mem_toDigits (by decide) (by decide) member
    simp only [Char.isDigit, Bool.and_eq_true, decide_eq_true_eq] at digit
    exact Nat.lt_of_le_of_lt digit.2 (by decide)
  cases value with
  | ofNat n =>
    intro c member
    exact digits n c (by simpa [toString, Int.repr, Nat.toList_repr] using member)
  | negSucc n =>
    intro c member
    rcases List.mem_cons.mp (show c ∈ '-' :: Nat.toDigits 10 (n + 1) by
      simpa [toString, Int.repr, Nat.toList_repr] using member) with rfl | inside
    · decide
    · exact digits _ c inside

/-- Bytes of an integer. -/
def digits (value : Int) : Nat := (toString value).length

mutual

/-- Bytes of what `dumps` writes. -/
def size : Json → Nat
  | .null => 4
  | .bool value => if value then 4 else 5
  | .int value => digits value
  | .float value => (encode (float value)).length
  | .str value => 2 + textSize value.toList
  | .arr items => 2 + (itemsSize items + 2 * (items.length - 1))
  | .obj fields => 2 + (fieldsSize fields + 2 * (fields.length - 1))

def itemsSize : List Json → Nat
  | [] => 0
  | item :: items => size item + itemsSize items

def fieldsSize : List (String × Json) → Nat
  | [] => 0
  | (key, value) :: fields => 2 + textSize key.toList + 2 + size value + fieldsSize fields

end

variable {float}

theorem length_dumpsItems (items : List Json) : (dumpsItems float items).length = items.length := by
  induction items with
  | nil => rfl
  | cons item items ih => rw [dumpsItems, List.length_cons, ih, List.length_cons]

theorem length_dumpsFields (fields : List (String × Json)) :
    (dumpsFields float fields).length = fields.length := by
  induction fields with
  | nil => rfl
  | cons field fields ih => rw [dumpsFields, List.length_cons, ih, List.length_cons]

theorem fieldsSize_append (fields more : List (String × Json)) :
    fieldsSize float (fields ++ more) = fieldsSize float fields + fieldsSize float more := by
  induction fields with
  | nil => rw [List.nil_append, fieldsSize, Nat.zero_add]
  | cons field fields ih => rw [List.cons_append, fieldsSize, ih, fieldsSize, ← Nat.add_assoc]

theorem length_encode_bracketed {opening closing : Char} (begins : opening.toNat < 128)
    (ends : closing.toNat < 128)
    (parts : List (List Char)) :
    (encode (opening :: (", ".toList.intercalate parts ++ [closing]))).length =
      2 + ((parts.map fun part => (encode part).length).sum + 2 * (parts.length - 1)) := by
  have first : (encode [opening]).length = 1 :=
    length_encode_of_isAscii fun c member => by rwa [List.mem_singleton.mp member]
  have last : (encode [closing]).length = 1 :=
    length_encode_of_isAscii fun c member => by rwa [List.mem_singleton.mp member]
  rw [← List.singleton_append, encode_append, encode_append, List.length_append, List.length_append,
    first, last,
    length_encode_joined]
  omega

/-- The bytes of a value's text. -/
theorem length_encode_dumps (value : Json) : (encode (dumps float value)).length = size float value := by
  refine @Json.rec (fun value => (encode (dumps float value)).length = size float value)
    (fun items => ((dumpsItems float items).map fun part => (encode part).length).sum = itemsSize
    float items)
    (fun fields => ((dumpsFields float fields).map fun part => (encode part).length).sum =
    fieldsSize float fields)
    (fun field => (encode (dumps float field.2)).length = size float field.2)
    ?null ?bool ?int ?float ?str ?arr ?obj ?noItems ?item ?noFields ?field ?pair value
  case null =>
    show (encode "null".toList).length = 4
    decide
  case bool =>
    intro value
    cases value <;> rfl
  case int =>
    intro value
    rw [dumps, length_encode_of_isAscii (digits_ascii value), size, digits, String.length_toList]
  case float => exact fun _ => rfl
  case str => exact fun value => length_encode_dumpsStr value
  case arr =>
    intro items ih
    rw [dumps, length_encode_bracketed (by decide) (by decide), ih, length_dumpsItems, size]
  case obj =>
    intro fields ih
    rw [dumps, length_encode_bracketed (by decide) (by decide), ih, length_dumpsFields, size]
  case noItems => rfl
  case item =>
    intro item items ih rest
    rw [dumpsItems, List.map_cons, List.sum_cons, ih, rest, itemsSize]
  case noFields => rfl
  case field =>
    intro field fields ih rest
    have separator : (encode ": ".toList).length = 2 := by decide
    rw [dumpsFields, List.map_cons, List.sum_cons, encode_append, encode_append, List.length_append,
      List.length_append,
      length_encode_dumpsStr, separator, ih, rest, fieldsSize]
  case pair => exact fun _ _ ih => ih

end

end Json
end Cindral.Base

import Cindral.Base.Tree

/-! The archives Python's `tarfile` writes by default: POSIX headers, with an extended header where one is needed. -/

namespace Cindral.Base.Tar

def blockSize : Nat := 512
def recordSize : Nat := blockSize * 20

def zeros (n : Nat) : List UInt8 := List.replicate n 0

def ascii (s : String) : List UInt8 := s.toList.map fun c => c.toNat.toUInt8

/-- A file or a directory, whose owner and times are zero. -/
structure Member where
  name : List NameChar
  directory : Bool
  mode : Nat
  content : List UInt8 := []

/-- Zeros up to the next multiple of a size. -/
def padded (size : Nat) (bytes : List UInt8) : List UInt8 :=
  bytes ++ zeros ((size - bytes.length % size) % size)

def asciiReplace : NameChar → UInt8
  | .char c => if c.toNat < 128 then c.toNat.toUInt8 else 63
  | .byte _ => 63

def utf8 : NameChar → List UInt8
  | .char c => String.utf8EncodeChar c
  | .byte b => [(128 + b.val).toUInt8]

/-- `stn`: a text field, cut or filled up. -/
def stn (s : List UInt8) (length : Nat) : List UInt8 := s.take length ++ zeros (length - s.length)

def octal (n : Nat) : Nat → List UInt8
  | 0 => []
  | digits + 1 => octal (n / 8) digits ++ [(48 + n % 8).toUInt8]

/-- `itn`: a number field. A number that does not fit one stands in the extended header instead. -/
def itn (n digits : Nat) : List UInt8 := octal n (digits - 1) ++ [0]

/-- `_create_header` of a file, a directory or an extended header. -/
def createHeader (name : List UInt8) (mode size : Nat) (type : Char) : List UInt8 :=
  let fields := stn name 100 ++ itn (mode % 0o10000) 8 ++ itn 0 8 ++ itn 0 8 ++ itn size 12 ++ itn 0
    12 ++ ascii "        " ++
    ascii type.toString ++ stn [] 100 ++ (ascii "ustar" ++ [0] ++ ascii "00") ++ stn [] 32 ++ stn []
    32 ++ stn [] 8 ++
    stn [] 8 ++ stn [] 155
  let buf := stn fields blockSize
  let checksum := (buf.map UInt8.toNat).sum
  buf.take 148 ++ (octal checksum 6 ++ [0]) ++ buf.drop 155

def decimal (n : Nat) : List UInt8 := (Nat.toDigits 10 n).map fun c => c.toNat.toUInt8

/-- The loop that finds the length of a record, its own digits counted. -/
def settle (l : Nat) : Nat → Nat → Nat
  | 0, p => p
  | fuel + 1, p =>
    let n := l + (decimal p).length
    if n = p then p else settle l fuel n

def record (keyword : String) (value : List UInt8) : List UInt8 :=
  let l := (ascii keyword).length + value.length + 3
  decimal (settle l (2 * l + 4) 0) ++ ascii " " ++ ascii keyword ++ ascii "=" ++ value ++ ascii "\n"

/-- `get_info`: a directory's name ends in a slash. -/
def Member.infoName (m : Member) : List NameChar :=
  if m.directory ∧ m.name.getLast? ≠ some (.char '/') then m.name ++ nameOf "/" else m.name

def isAscii : NameChar → Bool
  | .char c => c.toNat < 128
  | .byte _ => false

def isByte : NameChar → Bool
  | .char _ => false
  | .byte _ => true

/-- The records of the name and of the size, for what the header has no room for. -/
def Member.records (m : Member) : List UInt8 :=
  let name := m.infoName
  let long := !name.all isAscii || 100 < name.length
  let big := 8 ^ 11 ≤ m.content.length
  (if long && name.any isByte then ascii "21 hdrcharset=BINARY\n" else []) ++
    (if long then record "path" (name.flatMap utf8) else []) ++
    (if big then record "size" (decimal m.content.length) else [])

/-- `_create_pax_generic_header` -/
def extended (records : List UInt8) : List UInt8 :=
  if records = [] then []
  else createHeader (ascii "././@PaxHeader") 0 records.length 'x' ++ padded blockSize records

/-- `create_pax_header` -/
def Member.header (m : Member) : List UInt8 :=
  let size := m.content.length
  extended m.records ++
    createHeader (m.infoName.map asciiReplace) m.mode (if 8 ^ 11 ≤ size then 0 else size)
    (if m.directory then '5' else '0')

/-- `addfile`: the header, and a file's content. -/
def Member.bytes (m : Member) : List UInt8 :=
  m.header ++ if m.directory then [] else padded blockSize m.content

/-- The file once it is closed: the members, two blocks of zeros, and zeros up to a whole record. -/
def archive (members : List Member) : List UInt8 :=
  padded recordSize (members.flatMap Member.bytes ++ zeros (blockSize * 2))

/-! How long an archive is. -/

@[simp] theorem length_zeros (n : Nat) : (zeros n).length = n := List.length_replicate

@[simp] theorem length_stn (s : List UInt8) (length : Nat) : (stn s length).length = length := by
  rw [stn, List.length_append, List.length_take, length_zeros]
  omega

@[simp] theorem length_octal (n digits : Nat) : (octal n digits).length = digits := by
  induction digits generalizing n with
  | zero => rfl
  | succ digits ih => rw [octal, List.length_append, ih, List.length_singleton]

theorem length_createHeader (name : List UInt8) (mode size : Nat) (type : Char) :
    (createHeader name mode size type).length = blockSize := by
  simp only [createHeader, List.length_append, List.length_take, List.length_drop, length_stn,
    length_octal,
    List.length_singleton, blockSize]
  rfl

def blocks (n : Nat) : Nat := (n + 511) / 512

theorem length_padded (bytes : List UInt8) :
    (padded blockSize bytes).length = 512 * blocks bytes.length := by
  rw [padded, List.length_append, length_zeros, blocks, blockSize]
  omega

def extendedBlocks (records : List UInt8) : Nat := if records = [] then 0 else 1 + blocks records.length

theorem length_extended (records : List UInt8) :
    (extended records).length = 512 * extendedBlocks records := by
  rw [extended, extendedBlocks]
  split
  · rfl
  · rw [List.length_append, length_createHeader, length_padded, blockSize]
    omega

/-- A short plain name and a size with room in the header need no extended one. -/
theorem records_nil {m : Member} (short : (!m.infoName.all isAscii || 100 < m.infoName.length) = false)
    (small : m.content.length < 8 ^ 11) : m.records = [] := by
  have fits : ¬8 ^ 11 ≤ m.content.length := Nat.not_le.mpr small
  simp only [Member.records, short, Bool.false_and, Bool.false_eq_true, if_false, if_neg fits,
    List.append_nil]

def Member.blocks (m : Member) : Nat :=
  extendedBlocks m.records + 1 + if m.directory then 0 else Tar.blocks m.content.length

theorem length_bytes (m : Member) : m.bytes.length = 512 * m.blocks := by
  have header : m.header.length = 512 * (extendedBlocks m.records + 1) := by
    rw [Member.header, List.length_append, length_createHeader, length_extended, blockSize]
    omega
  rw [Member.bytes, List.length_append, header, Member.blocks]
  cases m.directory with
  | true => simp
  | false =>
    rw [if_neg Bool.false_ne_true, if_neg Bool.false_ne_true, length_padded]
    omega

theorem length_archive (members : List Member) :
    (archive members).length = recordSize * (((members.map Member.blocks).sum + 2 + 19) / 20) := by
  have whole : (members.flatMap Member.bytes).length = 512 * (members.map Member.blocks).sum := by
    induction members with
    | nil => rfl
    | cons m rest ih =>
      rw [List.flatMap_cons, List.length_append, length_bytes, ih, List.map_cons, List.sum_cons,
        Nat.mul_add]
  rw [archive, padded, List.length_append, length_zeros, List.length_append, length_zeros, whole,
    recordSize, blockSize]
  omega

/-! The length a record states is its own. -/

theorem length_decimal_le {p k : Nat} (h : 0 < k) : (decimal p).length ≤ k ↔ p < 10 ^ k := by
  rw [decimal, List.length_map]
  exact Nat.length_toDigits_le_iff (by decide) h

theorem decimal_short (p : Nat) : (decimal p).length ≤ p / 2 + 1 := by
  have power : p / 2 < 10 ^ (p / 2) := Nat.lt_pow_self (by decide)
  rw [length_decimal_le (Nat.succ_pos _), Nat.pow_succ]
  omega

theorem decimal_mono {p n : Nat} (h : p ≤ n) : (decimal p).length ≤ (decimal n).length := by
  have some_ : 0 < (decimal n).length := by
    rw [decimal, List.length_map]
    exact Nat.length_toDigits_pos
  exact (length_decimal_le some_).mpr
    (Nat.lt_of_le_of_lt h ((length_decimal_le some_).mp (Nat.le_refl _)))

/-- The length grows with each turn of the loop, and it stays under a bound until it is its own. -/
theorem settle_fixed (l fuel p : Nat) (below : p ≤ l + (decimal p).length)
    (enough : 2 * l + 2 < fuel + p) :
    settle l fuel p = l + (decimal (settle l fuel p)).length := by
  have bound := decimal_short p
  induction fuel generalizing p with
  | zero => omega
  | succ fuel ih =>
    rw [settle]
    by_cases same : l + (decimal p).length = p
    · simp only [if_pos same]
      exact same.symm
    · simp only [if_neg same]
      have more : p ≤ l + (decimal p).length := below
      exact ih _ (Nat.add_le_add_left (decimal_mono more) l) (by omega) (decimal_short _)

theorem length_record (keyword : String) (value : List UInt8) : (record keyword value).length =
    settle ((ascii keyword).length + value.length + 3)
    (2 * ((ascii keyword).length + value.length + 3) + 4) 0 := by
  have fixed := settle_fixed ((ascii keyword).length + value.length + 3)
    (2 * ((ascii keyword).length + value.length + 3) + 4) 0 (Nat.zero_le _) (by omega)
  have one : (ascii " ").length = 1 ∧ (ascii "=").length = 1 ∧ (ascii "\n").length = 1 := ⟨rfl, rfl, rfl⟩
  simp only [record, List.length_append, one.1, one.2.1, one.2.2]
  omega

end Cindral.Base.Tar

import Mathlib.Data.List.Basic

/-!
# What a shell reads

The commands of a text as a POSIX shell splits them into words, where nothing in the text has a
meaning of its own: no expansion, no operator but `>`, and quotes that are closed. A text that has
one is not read.
-/

namespace Cindral.Base.Shell

inductive Token where
  | word (text : List Char)
  | newline
  | into
  deriving DecidableEq

inductive Mode where
  | plain | single | double

/-- A character that stands for itself outside of quotes. -/
def literal (c : Char) : Bool := c.isAlphanum || "@%+=:,./-_".toList.contains c

/-- The end of a word, if one has begun. -/
def ended (word : Option (List Char)) (rest : List Token) : List Token :=
  word.elim rest fun text => .word text :: rest

def grown (word : Option (List Char)) (text : List Char) : Option (List Char) :=
  some (word.getD [] ++ text)

def read : Mode → Option (List Char) → List Char → Option (List Token)
  | .plain, word, [] => some (ended word [])
  | .single, _, [] | .double, _, [] => none
  | .plain, word, c :: rest =>
    if c = '\'' then read .single (grown word []) rest
    else if c = '"' then read .double (grown word []) rest
    else if c = ' ' then (read .plain none rest).map (ended word)
    else if c = '\n' then (read .plain none rest).map fun tokens => ended word (.newline :: tokens)
    else if c = '>' then if word = none then (read .plain none rest).map (.into :: ·) else none
    else if literal c then read .plain (grown word [c]) rest
    else none
  | .single, word, c :: rest => if c = '\'' then read .plain word rest else read .single
      (grown word [c]) rest
  | .double, word, c :: rest =>
    if c = '"' then read .plain word rest
    else if c = '$' || c = '`' || c = '\\' then none
    else read .double (grown word [c]) rest

/-- The commands of a text, one a line. -/
def commands (text : List Char) : Option (List (List Token)) :=
  (read .plain none text).map (List.splitOn .newline)

/-- Wherever a word has got to, the text adds to it. -/
def Spells (text word : List Char) : Prop :=
  ∀ begun rest, read .plain begun (text ++ rest) = read .plain (grown begun word) rest

theorem grown_grown (begun : Option (List Char)) (first second : List Char) :
    grown (grown begun first) second = grown begun (first ++ second) := by
  simp [grown]

theorem Spells.append {text more word longer : List Char} (first : Spells text word)
    (second : Spells more longer) :
    Spells (text ++ more) (word ++ longer) := by
  intro begun rest
  rw [List.append_assoc, first, second, grown_grown]

theorem spells_literal {c : Char} (plain : literal c = true) : Spells [c] [c] := by
  intro begun rest
  have apart (d : Char) (not : literal d = false) : c ≠ d := by
    rintro rfl
    rw [not] at plain
    cases plain
  rw [List.singleton_append, read, if_neg (apart '\'' (by decide)), if_neg (apart '"' (by decide)),
    if_neg (apart ' ' (by decide)),
    if_neg (apart '\n' (by decide)), if_neg (apart '>' (by decide)), if_pos plain]

theorem spells_literals {text : List Char} (some_ : text ≠ []) (plain : text.all literal = true) :
    Spells text text := by
  induction text with
  | nil => exact absurd rfl some_
  | cons c rest ih =>
    rw [List.all_cons, Bool.and_eq_true] at plain
    have first := spells_literal plain.1
    cases rest with
    | nil => exact first
    | cons d rest => exact first.append (ih (List.cons_ne_nil d rest) plain.2)

/-- A text in single quotes, where a quote of its own stands between double quotes. -/
def quoted (text : List Char) : List Char :=
  '\'' :: text.flatMap (fun c => if c = '\'' then "'\"'\"'".toList else [c]) ++ ['\'']

theorem read_quoted (text rest word : List Char) :
    read .single (some word) (text.flatMap (fun c => if c = '\'' then "'\"'\"'".toList else [c]) ++
      '\'' :: rest) =
      read .plain (some (word ++ text)) rest := by
  induction text generalizing word with
  | nil => rw [List.flatMap_nil, List.nil_append, List.append_nil, read, if_pos rfl]
  | cons c text ih =>
    have later := ih (word ++ [c])
    rw [List.append_assoc, List.singleton_append] at later
    rw [List.flatMap_cons, ← later]
    by_cases quote : c = '\''
    · subst quote
      rw [if_pos rfl, List.append_assoc]
      change read .single (some word) ('\'' :: '"' :: '\'' :: '"' :: '\'' :: _) = _
      rw [read, if_pos rfl, read, if_neg (by decide), if_pos rfl, read, if_neg (by decide),
        if_neg (by decide), read, if_pos rfl, read,
        if_pos rfl, grown_grown, grown_grown]
      rfl
    · rw [if_neg quote, List.append_assoc, List.singleton_append, read, if_neg quote]
      rfl

theorem spells_quoted (text : List Char) : Spells (quoted text) text := by
  intro begun rest
  rw [quoted, List.cons_append, List.cons_append, List.append_assoc, List.singleton_append, read,
    if_pos rfl, grown, read_quoted,
    List.append_nil]
  rfl

/-- A text is a line of these words. -/
structure Reads (text : List Char) (tokens : List Token) : Prop where
  alone : read .plain none text = some tokens
  before : ∀ rest, read .plain none (text ++ '\n' :: rest) = (read .plain none rest).map fun more =>
    tokens ++ .newline :: more
  line : Token.newline ∉ tokens

theorem reads_word {text word : List Char} (spells : Spells text word) : Reads text [.word word] where
  alone := by
    have last := spells none []
    rw [List.append_nil] at last
    rw [last, read]
    rfl
  before := by
    intro rest
    rw [spells none, read, if_neg (by decide), if_neg (by decide), if_neg (by decide), if_pos rfl]
    rfl
  line := by simp

theorem read_blank (word rest : List Char) :
    read .plain (some word) (' ' :: rest) = (read .plain none rest).map (.word word :: ·) := by
  rw [read, if_neg (by decide), if_neg (by decide), if_pos rfl]
  rfl

theorem Reads.cons {text word line : List Char} {tokens : List Token} (spells : Spells text word)
    (reads : Reads line tokens) :
    Reads (text ++ ' ' :: line) (.word word :: tokens) where
  alone := by
    rw [spells none]
    change read .plain (some word) _ = _
    rw [read_blank, reads.alone]
    rfl
  before := by
    intro rest
    rw [List.append_assoc, spells none]
    change read .plain (some word) (' ' :: (line ++ '\n' :: rest)) = _
    rw [read_blank, reads.before rest, Option.map_map]
    rfl
  line := by simpa using reads.line

theorem read_into (line : List Char) :
    read .plain none ('>' :: ' ' :: line) = (read .plain none line).map (.into :: ·) := by
  rw [read, if_neg (by decide), if_neg (by decide), if_neg (by decide), if_neg (by decide),
    if_pos rfl, if_pos rfl, read,
    if_neg (by decide), if_neg (by decide), if_pos rfl, Option.map_map]
  rfl

theorem Reads.into {line : List Char} {tokens : List Token} (reads : Reads line tokens) :
    Reads ('>' :: ' ' :: line) (.into :: tokens) where
  alone := by
    rw [read_into, reads.alone]
    rfl
  before := by
    intro rest
    rw [List.cons_append, List.cons_append, read_into, reads.before rest, Option.map_map]
    rfl
  line := by simpa using reads.line

/-- Words with a blank between them. -/
theorem reads_words {words : List (List Char × List Char)} (some_ : words ≠ [])
    (spells : ∀ word ∈ words, Spells word.1 word.2) :
    Reads ([' '].intercalate (words.map Prod.fst)) (words.map fun word => .word word.2) := by
  induction words with
  | nil => exact absurd rfl some_
  | cons first rest ih =>
    cases rest with
    | nil =>
      have last := reads_word (spells first List.mem_cons_self)
      simpa [List.intercalate] using last
    | cons second rest =>
      have later := ih (List.cons_ne_nil second rest) fun word member =>
        spells word (List.mem_cons_of_mem first member)
      have whole := later.cons (spells first List.mem_cons_self)
      simpa [List.intercalate] using whole

theorem read_lines {lines : List (List Char × List Token)} (some_ : lines ≠ [])
    (reads : ∀ line ∈ lines, Reads line.1 line.2) :
    read .plain none (['\n'].intercalate (lines.map Prod.fst)) =
    some ([Token.newline].intercalate (lines.map Prod.snd)) := by
  induction lines with
  | nil => exact absurd rfl some_
  | cons first rest ih =>
    cases rest with
    | nil =>
      have last := (reads first List.mem_cons_self).alone
      simpa [List.intercalate] using last
    | cons second rest =>
      have later := ih (List.cons_ne_nil second rest) fun line member =>
        reads line (List.mem_cons_of_mem first member)
      have whole := (reads first List.mem_cons_self).before
        (['\n'].intercalate ((second :: rest).map Prod.fst))
      rw [later] at whole
      simpa [List.intercalate] using whole

/-- Lines that are each read are read one by one. -/
theorem commands_lines {lines : List (List Char × List Token)} (some_ : lines ≠ [])
    (reads : ∀ line ∈ lines, Reads line.1 line.2) :
    commands (['\n'].intercalate (lines.map Prod.fst)) = some (lines.map Prod.snd) := by
  have apart : ∀ tokens ∈ lines.map Prod.snd, Token.newline ∉ tokens := by
    intro tokens member
    obtain ⟨line, inside, rfl⟩ := List.mem_map.mp member
    exact (reads line inside).line
  have several : lines.map Prod.snd ≠ [] := fun none_ => some_ (List.map_eq_nil_iff.mp none_)
  rw [commands, read_lines some_ reads, Option.map_some, List.splitOn_intercalate _ apart several]

end Cindral.Base.Shell

import Cindral.Workflow.Lexing

/-!
# Inputs in a guard

A default or a `with:` value stands in a called job's guard as a literal of the condition language.
A text is quoted, and the tokenizer takes the whole of it as one literal. A boolean or a number
stands bare.
-/

namespace Cindral.Workflow
open Base

inductive InputError where
  /-- Quotes the default. -/
  | notNumber (default : String)
  deriving DecidableEq, Repr

def double (quote : Char) : List Char → List Char
  | [] => []
  | c :: rest => if c = quote then quote :: quote :: double quote rest else c :: double quote rest

def quoted (text : String) : String := .ofList ('\'' :: (double '\'' text.toList ++ ['\'']))

/-- `_as_expression`, for a value that is a text in the file. -/
def asExpression (declared : Option String) (default : String) : Except InputError String :=
  if declared = some "boolean" then .ok (if default = "true" ∨ default = "True" then "true" else "false")
  else if declared = some "number" then
    -- an empty default counts as zero
    match (if default = "" then some (.finite 0) else Double.parse (strip default)) with
    | none => .error (.notNumber default)
    | some number => .ok (if number.eq (.finite 0) then "0" else default)
  else .ok (quoted default)

/-- The condition language reads the expression as one text, and as the one that was given. -/
def RoundTrips (text : String) : Except InputError String → Prop
  | .ok expression => ∃ literal, tokenize expression = .ok [.atom ⟨.string, literal⟩] ∧
      unquote literal = text
  | .error _ => False

/-! ## Doubled quotes -/

section Doubled
variable {quote : Char}

theorem undouble_double (cs : List Char) : undouble quote (double quote cs) = cs := by
  induction cs with
  | nil => rfl
  | cons c rest ih =>
    unfold double
    split
    · rename_i same
      rw [undouble, if_pos ⟨rfl, rfl⟩, ih, same]
    · rename_i other
      cases tail : double quote rest with
      | nil =>
        rw [tail] at ih
        rw [undouble, ← ih]
        · rfl
        · simp
      | cons d more => rw [undouble, if_neg fun same => other same.1, ← tail, ih]

theorem length_undouble (cs : List Char) : (undouble quote cs).length ≤ cs.length := by
  fun_induction undouble quote cs with
  | case1 c d rest same ih =>
    simp only [List.length_cons]
    omega
  | case2 c d rest other ih => exact Nat.succ_le_succ ih
  | case3 => exact Nat.le_refl _

/-- Undoubling changes a text that has a quote twice in a row, and no other. -/
theorem undouble_eq_self (cs : List Char) : undouble quote cs = cs ↔ ¬[quote, quote] <:+: cs := by
  fun_induction undouble quote cs with
  | case1 c d rest same ih =>
    rw [same.1, same.2]
    refine iff_of_false (fun shrunk => ?_) fun free => free ⟨[], rest, rfl⟩
    have shorter : (undouble quote rest).length ≤ rest.length := length_undouble rest
    have lengths := congrArg List.length shrunk
    simp only [List.length_cons] at lengths
    omega
  | case2 c d rest other ih =>
    have front : ¬[quote, quote] <+: c :: d :: rest := by
      rintro ⟨_, begins⟩
      obtain ⟨here, more⟩ := List.cons.inj begins
      exact other ⟨here.symm, (List.cons.inj more).1.symm⟩
    have later : ([quote, quote] <:+: c :: d :: rest) ↔ [quote, quote] <:+: d :: rest := by
      rw [List.infix_cons_iff, or_iff_right front]
    rw [List.cons.injEq, ih, later]
    exact and_iff_right rfl
  | case3 cs short =>
    refine iff_of_true rfl fun inside => ?_
    have fits := inside.length_le
    match cs, short with
    | [], _ => simp at fits
    | [c], _ => simp at fits
    | c :: d :: rest, short => exact short c d rest rfl

end Doubled

/-! ## The literal -/

section Literal

/-- The scan goes through the doubled quotes of a text and stops at the quote behind it. -/
theorem scanQuoted_double {quote : Char} (cs : List Char) {left : List Char}
    (ends : ∀ more, left ≠ quote :: more) :
    scanQuoted quote (double quote cs ++ quote :: left) = some (double quote cs ++ [quote], left) := by
  induction cs with
  | nil =>
    cases left with
    | nil => exact if_pos rfl
    | cons d more =>
      have other : d ≠ quote := fun same => ends more (by rw [same])
      show scanQuoted quote (quote :: d :: more) = _
      rw [scanQuoted, if_pos rfl, if_neg other]
      rfl
  | cons c rest ih =>
    unfold double
    split
    · show scanQuoted quote (quote :: quote :: (double quote rest ++ quote :: left)) = _
      rw [scanQuoted, if_pos rfl, if_pos rfl, ih]
      rfl
    · rename_i other
      obtain ⟨d, more, text⟩ : ∃ d more, double quote rest ++ quote :: left = d :: more :=
        List.exists_cons_of_ne_nil (by simp)
      show scanQuoted quote (c :: (double quote rest ++ quote :: left)) = _
      rw [text, scanQuoted, if_neg other, ← text, ih]
      rfl

theorem lexes_quoted (text : String) {left : List Char} {tokens : List Token}
    (ends : ∀ more, left ≠ '\'' :: more)
    (rest : Lexes left tokens) :
    Lexes ((quoted text).toList ++ left) (.atom ⟨.string, quoted text⟩ :: tokens) := by
  have chars : (quoted text).toList = '\'' :: (double '\'' text.toList ++ ['\'']) := String.toList_ofList
  have whole : (quoted text).toList ++ left = '\'' :: (double '\'' text.toList ++ '\'' :: left) := by
    rw [chars, List.cons_append, List.append_assoc, List.singleton_append]
  rw [whole]
  refine .token (by decide) ?_ rest
  rw [scanToken_quote (Or.inl rfl), scanQuoted_double _ ends]
  rfl

theorem tokenize_quoted (text : String) :
    tokenize (quoted text) = .ok [.atom ⟨.string, quoted text⟩] := by
  rw [tokenize_iff]
  have none_left (more : List Char) : [] ≠ '\'' :: more := (List.cons_ne_nil _ _).symm
  have whole := lexes_quoted text none_left .nil
  rwa [List.append_nil] at whole

theorem unquote_quoted (text : String) : unquote (quoted text) = text ↔ ¬['"', '"'] <:+: text.toList := by
  have inner : ((quoted text).toList.drop 1).dropLast = double '\'' text.toList := by
    rw [quoted, String.toList_ofList, List.drop_one, List.tail_cons, List.dropLast_concat]
  rw [unquote, inner, undouble_double, ← undouble_eq_self, ← String.toList_inj, String.toList_ofList]

end Literal

/-! ## What stands bare -/

/-- A literal in quotes starts with its quote. -/
theorem scanToken_string {c : Char} {rest left : List Char} {literal : String}
    (scanned : scanToken (c :: rest) = some (.atom ⟨.string, literal⟩, left)) : c = '\'' ∨ c = '"' := by
  by_contra other
  have kind_of {kind : AtomKind} {scan : List Char → Scan (List Char)}
      (taken : scanAtom kind scan (c :: rest) = some (.atom ⟨.string, literal⟩, left)) :
      kind = .string := by
    obtain ⟨_, -, same⟩ := Option.map_eq_some_iff.mp taken
    exact congrArg Atom.kind (Expression.Lexeme.atom.inj (Prod.mk.inj same).1)
  have none_string : scanAtom .string scanString (c :: rest) = none := by
    rw [scanAtom, scanString_other other]; rfl
  rw [scanToken, none_string, Option.none_or] at scanned
  rcases Option.or_eq_some_iff.mp scanned with operator | ⟨-, scanned⟩
  · obtain ⟨_, -, same⟩ := Option.map_eq_some_iff.mp operator
    cases same
  rcases Option.or_eq_some_iff.mp scanned with path | ⟨-, number⟩
  · cases kind_of path
  · cases kind_of number

def front (text : String) : Option Char := (text.toList.dropWhile isSpace).head?

theorem lexes_string {cs : List Char} {literal : String} (read : Lexes cs [.atom ⟨.string, literal⟩]) :
    ∃ c, (cs.dropWhile isSpace).head? = some c ∧ (c = '\'' ∨ c = '"') := by
  generalize one : [Expression.Lexeme.atom (Atom.mk .string literal)] = tokens at read
  induction read with
  | nil => cases one
  | space blank rest ih =>
    rw [List.dropWhile_cons_of_pos blank]
    exact ih one
  | token solid scanned rest ih =>
    obtain ⟨rfl, -⟩ := List.cons.inj one
    rw [List.dropWhile_cons_of_neg (by rw [solid]; decide)]
    exact ⟨_, rfl, scanToken_string scanned⟩

theorem tokenize_bare {expression : String} (single : front expression ≠ some '\'')
    (double : front expression ≠ some '"') (literal : String) :
    tokenize expression ≠ .ok [.atom ⟨.string, literal⟩] := by
  intro read
  obtain ⟨c, starts, rfl | rfl⟩ := lexes_string ((tokenize_iff _ _).mp read)
  · exact single starts
  · exact double starts

/-- A declared boolean or number is no text, and stands bare. -/
def Textual (declared : Option String) : Prop := declared ≠ some "boolean" ∧ declared ≠ some "number"

theorem number_front {text : String} {number : Double}
    (parsed : Double.parse (strip text) = some number) (c : Char)
    (quote : c = '\'' ∨ c = '"') : front text ≠ some c := by
  intro starts
  obtain ⟨rest, whole⟩ := List.head?_eq_some_iff.mp starts
  obtain ⟨more, stripped⟩ := stripChars_head whole
  rw [strip, stripped, Double.parse_quote quote] at parsed
  cases parsed

/-- What stands bare is never read as a text. -/
theorem bare_unquoted {declared : Option String} {default expression : String} (bare : ¬Textual declared)
    (given : asExpression declared default = .ok expression) (literal : String) :
    tokenize expression ≠ .ok [.atom ⟨.string, literal⟩] := by
  by_cases boolean : declared = some "boolean"
  · rw [asExpression, if_pos boolean] at given
    obtain rfl := Except.ok.inj given
    split
    · exact tokenize_bare (by decide) (by decide) literal
    · exact tokenize_bare (by decide) (by decide) literal
  · have number : declared = some "number" := by_contra fun other => bare ⟨boolean, other⟩
    rw [asExpression, if_neg boolean, if_pos number] at given
    split at given
    · cases given
    · rename_i value parsed
      obtain rfl := Except.ok.inj given
      split
      · exact tokenize_bare (by decide) (by decide) literal
      · split at parsed
        · rename_i nonzero empty
          obtain rfl := Option.some.inj parsed
          exact absurd (by decide) nonzero
        · exact tokenize_bare (number_front parsed _ (Or.inl rfl))
            (number_front parsed _ (Or.inr rfl)) literal

/-- An input that is no boolean and no number is always read as one literal, and as itself unless it
has a double quote twice in a row. A boolean or a number is never read as a text. -/
theorem quoting_round_trip (declared : Option String) (text : String) :
    RoundTrips text (asExpression declared text) ↔ Textual declared ∧ ¬['"', '"'] <:+: text.toList := by
  by_cases textual : Textual declared
  · rw [asExpression, if_neg textual.1, if_neg textual.2, ← unquote_quoted, and_iff_right textual]
    constructor
    · rintro ⟨literal, read, same⟩
      rw [tokenize_quoted] at read
      obtain rfl : quoted text = literal := by simpa using read
      exact same
    · exact fun same => ⟨quoted text, tokenize_quoted text, same⟩
  · refine iff_of_false (fun trips => ?_) fun both => textual both.1
    cases given : asExpression declared text with
    | error e =>
      rw [given] at trips
      exact trips
    | ok expression =>
      rw [given] at trips
      obtain ⟨literal, read, -⟩ := trips
      exact bare_unquoted textual given literal read

theorem doubled_double_quote_lost :
    ¬ ∀ (declared : Option String) (text : String), Textual declared →
    RoundTrips text (asExpression declared text) := by
  intro claim
  obtain ⟨literal, read, same⟩ := claim none "say \"\"" ⟨by decide, by decide⟩
  have whole : tokenize (quoted "say \"\"") = .ok [.atom ⟨.string, quoted "say \"\""⟩] := by
    decide +kernel
  obtain rfl : quoted "say \"\"" = literal := by simpa using whole.symm.trans read
  exact absurd same (by decide +kernel)

end Cindral.Workflow

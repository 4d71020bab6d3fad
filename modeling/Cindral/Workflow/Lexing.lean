import Cindral.Workflow.Condition

/-!
# A text in parentheses keeps its tokens

`Lexes` is what the tokenizer accepts, token by token. A closing parenthesis after a text is no part of
its last token, so the tokens of `(text)` are those of the text between the two parentheses.
-/

namespace Cindral.Workflow
open Base Base.Expression

inductive Lexes : List Char → List Token → Prop where
  | nil : Lexes [] []
  | space {c : Char} {cs : List Char} {tokens : List Token} (blank : isSpace c = true)
      (rest : Lexes cs tokens) :
    Lexes (c :: cs) tokens
  | token {c : Char} {cs left : List Char} {token : Token} {tokens : List Token}
      (solid : isSpace c = false)
    (scanned : scanToken (c :: cs) = some (token, left)) (rest : Lexes left tokens) :
    Lexes (c :: cs) (token :: tokens)

/-! ## Every scanner takes a character -/

theorem length_scanSingle {c : Char} {rest left : List Char} {o : Operator}
    (h : scanSingle c rest = some (o, left)) :
    left.length ≤ rest.length := by
  unfold scanSingle at h
  repeat' split at h
  all_goals cases h
  all_goals exact Nat.le_refl _

theorem length_scanOperator {cs left : List Char} {o : Operator} (h : scanOperator cs = some (o, left)) :
    left.length < cs.length := by
  unfold scanOperator at h
  split at h
  · cases h
  · exact Nat.lt_succ_of_le (length_scanSingle h)
  · rename_i c d rest
    repeat' split at h
    case isFalse.isFalse.isFalse.isFalse => exact Nat.lt_succ_of_le (length_scanSingle h)
    all_goals
      cases h
      simp only [List.length_cons]
      omega

theorem length_scanQuoted {quote : Char} {cs text left : List Char}
    (h : scanQuoted quote cs = some (text, left)) :
    left.length < cs.length := by
  fun_induction scanQuoted quote cs generalizing text left with
  | case1 => cases h
  | case2 => cases h; exact Nat.zero_lt_one
  | case3 => cases h
  | case4 rest text' left' taken ih =>
    cases h
    have := ih taken
    simp only [List.length_cons]
    omega
  | case5 => cases h; simp only [List.length_cons]; omega
  | case6 => cases h; simp only [List.length_cons]; omega
  | case7 c d rest other ih =>
    obtain ⟨⟨t, l⟩, taken, same⟩ := Option.map_eq_some_iff.mp h
    cases same
    have := ih taken
    simp only [List.length_cons] at this ⊢
    omega

theorem length_scanFields (inField : Bool) (cs : List Char) :
    (scanFields inField cs).2.length ≤ cs.length := by
  fun_induction scanFields inField cs with
  | case1 => exact Nat.le_refl _
  | case2 => exact Nat.zero_le _
  | case3 => exact Nat.le_refl _
  | case4 inField c d rest _ _ ih => exact Nat.le_succ_of_le ih
  | case5 inField c d rest _ _ _ ih => exact Nat.le_succ_of_le (Nat.le_succ_of_le ih)
  | case6 => exact Nat.le_refl _

theorem length_scanDigits {cs text left : List Char} (h : scanDigits cs = some (text, left)) :
    left.length < cs.length := by
  unfold scanDigits at h
  split at h
  · cases h
  · rename_i digits some_digit
    cases h
    have whole := congrArg List.length (List.takeWhile_append_dropWhile (p := Char.isDigit) (l := cs))
    rw [List.length_append] at whole
    have := List.length_pos_iff.mpr some_digit
    omega

theorem length_scanFraction (cs : List Char) : (scanFraction cs).2.length ≤ cs.length := by
  unfold scanFraction
  split
  · exact Nat.le_refl _
  · split
    · split
      · rename_i more
        exact Nat.le_succ_of_le (Nat.le_of_lt (length_scanDigits more))
      · exact Nat.le_refl _
    · exact Nat.le_refl _

theorem length_scanUnsigned {cs text left : List Char} (h : scanUnsigned cs = some (text, left)) :
    left.length < cs.length := by
  obtain ⟨⟨whole, left'⟩, taken, same⟩ := Option.map_eq_some_iff.mp h
  cases same
  exact Nat.lt_of_le_of_lt (length_scanFraction left') (length_scanDigits taken)

theorem length_scanToken {cs left : List Char} {token : Token} (h : scanToken cs = some (token, left)) :
    left.length < cs.length := by
  unfold scanToken at h
  have atom {kind : AtomKind} {scan : List Char → Scan (List Char)}
      (shorter : ∀ {text left}, scan cs = some (text, left) → left.length < cs.length)
      (h : scanAtom kind scan cs = some (token, left)) : left.length < cs.length := by
    obtain ⟨⟨text, left'⟩, taken, same⟩ := Option.map_eq_some_iff.mp h
    cases same
    exact shorter taken
  rcases Option.or_eq_some_iff.mp h with operator | ⟨-, h⟩
  · obtain ⟨⟨o, left'⟩, taken, same⟩ := Option.map_eq_some_iff.mp operator
    cases same
    exact length_scanOperator taken
  rcases Option.or_eq_some_iff.mp h with string | ⟨-, h⟩
  · refine atom (fun {text left} taken => ?_) string
    cases cs with
    | nil => cases taken
    | cons c rest =>
      rw [scanString] at taken
      split at taken
      · obtain ⟨⟨t, l⟩, more, same⟩ := Option.map_eq_some_iff.mp taken
        cases same
        exact Nat.lt_succ_of_lt (length_scanQuoted more)
      · cases taken
  rcases Option.or_eq_some_iff.mp h with path | ⟨-, number⟩
  · refine atom (fun {text left} taken => ?_) path
    cases cs with
    | nil => cases taken
    | cons c rest =>
      rw [scanPath] at taken
      split at taken
      · cases taken
        exact Nat.lt_succ_of_le (length_scanFields false rest)
      · cases taken
  · refine atom (fun {text left} taken => ?_) number
    cases cs with
    | nil => cases taken
    | cons c rest =>
      rw [scanNumber] at taken
      split at taken
      · obtain ⟨⟨t, l⟩, more, same⟩ := Option.map_eq_some_iff.mp taken
        cases same
        exact Nat.lt_succ_of_lt (length_scanUnsigned more)
      · exact length_scanUnsigned taken

theorem tokenizeFrom_iff {n : Nat} {cs : List Char} (enough : cs.length ≤ n) (tokens : List Token) :
    tokenizeFrom n cs = .ok tokens ↔ Lexes cs tokens := by
  induction n generalizing cs tokens with
  | zero =>
    obtain rfl := List.length_eq_zero_iff.mp (Nat.le_zero.mp enough)
    constructor
    · intro h
      cases h
      exact .nil
    · intro h
      cases h
      rfl
  | succ n ih =>
    cases cs with
    | nil =>
      constructor
      · intro h
        cases h
        exact .nil
      · intro h
        cases h
        rfl
    | cons c cs =>
      have enough := Nat.le_of_succ_le_succ enough
      rw [tokenizeFrom]
      by_cases blank : isSpace c = true
      · rw [if_pos blank, ih enough]
        constructor
        · exact .space blank
        · intro h
          cases h with
          | space _ rest => exact rest
          | token solid => exact absurd blank (by rw [solid]; decide)
      · rw [if_neg blank]
        have solid := Bool.not_eq_true _ ▸ blank
        cases scanned : scanToken (c :: cs) with
        | none =>
          constructor
          · intro h
            cases h
          · intro h
            cases h with
            | space blank' _ => exact absurd blank' blank
            | token _ scanned' _ => cases scanned.symm.trans scanned'
        | some taken =>
          obtain ⟨token, left⟩ := taken
          have shorter : left.length ≤ n := by
            have := length_scanToken scanned
            simp only [List.length_cons] at this
            omega
          constructor
          · intro h
            obtain ⟨tokens', rest, rfl⟩ : ∃ ts, tokenizeFrom n left = .ok ts ∧ token :: ts = tokens := by
              cases rest : tokenizeFrom n left with
              | error e => simp only [rest] at h; cases h
              | ok ts => simp only [rest] at h; cases h; exact ⟨ts, rfl, rfl⟩
            exact .token solid scanned ((ih shorter _).mp rest)
          · intro h
            cases h with
            | space blank' _ => exact absurd blank' blank
            | token _ scanned' rest =>
              cases scanned.symm.trans scanned'
              simp only [(ih shorter _).mpr rest]
              rfl

theorem tokenize_iff (expression : String) (tokens : List Token) :
    tokenize expression = .ok tokens ↔ Lexes expression.toList tokens :=
  tokenizeFrom_iff (Nat.le_of_eq String.length_toList) tokens

/-! ## A closing parenthesis ends every token -/

section Closed
variable (more : List Char)

/-- The text with a closing parenthesis and more text after it. -/
def closed (left : List Char) : List Char := left ++ ')' :: more

/-- A scanner that takes the same before a closing parenthesis. -/
def Closes {ρ : Type} (scan : List Char → Scan ρ) (cs : List Char) : Prop :=
  scan (closed more cs) = (scan cs).map (fun taken => (taken.1, closed more taken.2))

theorem scanSingle_closed (c : Char) (rest : List Char) :
    scanSingle c (closed more rest) = (scanSingle c rest).map
    (fun taken => (taken.1, closed more taken.2)) := by
  unfold scanSingle
  repeat' split
  all_goals rfl

theorem scanOperator_closed {cs : List Char} (some_char : cs ≠ []) :
    Closes more scanOperator cs := by
  cases cs with
  | nil => exact absurd rfl some_char
  | cons c rest =>
    cases rest with
    | nil =>
      show scanOperator (c :: ')' :: more) = (scanSingle c []).map fun taken =>
        (taken.1, closed more taken.2)
      rw [scanOperator, if_neg (fun h => absurd h.2 (by decide)), if_neg
        (fun h => absurd h.2 (by decide)),
        if_neg (fun h => absurd h.2 (by decide)), if_neg (fun h => absurd h.2 (by decide))]
      exact scanSingle_closed more c []
    | cons d rest =>
      rw [Closes]
      show scanOperator (c :: d :: closed more rest) = _
      rw [scanOperator, scanOperator]
      repeat' split
      case isFalse.isFalse.isFalse.isFalse => exact scanSingle_closed more c (d :: rest)
      all_goals rfl

theorem scanQuoted_closed {quote : Char} (other : ')' ≠ quote) {cs text left : List Char}
    (h : scanQuoted quote cs = some (text, left))
    (ends : ∀ rest, left = quote :: rest → scanQuoted quote rest ≠ none) :
    scanQuoted quote (closed more cs) = some (text, closed more left) := by
  fun_induction scanQuoted quote cs generalizing text left with
  | case1 => cases h
  | case2 =>
    cases h
    rw [closed, List.cons_append, List.nil_append, scanQuoted, if_pos rfl, if_neg other]
    rfl
  | case3 => cases h
  | case4 rest text' left' taken ih =>
    cases h
    have inner := ih taken ends
    simp only [closed, List.cons_append] at inner ⊢
    rw [scanQuoted, if_pos rfl, if_pos rfl, inner]
  | case5 rest unclosed =>
    cases h
    exact absurd unclosed (ends rest rfl)
  | case6 d rest differ =>
    cases h
    rw [closed, List.cons_append, List.cons_append, scanQuoted, if_pos rfl, if_neg differ]
    rfl
  | case7 c d rest differ ih =>
    obtain ⟨⟨t, l⟩, taken, same⟩ := Option.map_eq_some_iff.mp h
    cases same
    have inner := ih taken ends
    simp only [closed, List.cons_append] at inner ⊢
    rw [scanQuoted, if_neg differ, inner]
    rfl

theorem scanFields_closed (inField : Bool) (cs : List Char) :
    scanFields inField (closed more cs) =
    ((scanFields inField cs).1, closed more (scanFields inField cs).2) := by
  have stop (inField : Bool) : scanFields inField (')' :: more) = ([], ')' :: more) := by
    have word : isWord ')' = false := by decide
    cases more with
    | nil => cases inField <;> rfl
    | cons d rest => cases inField <;> rfl
  fun_induction scanFields inField cs with
  | case1 inField => exact stop inField
  | case2 inField c word =>
    show scanFields inField (c :: ')' :: more) = _
    rw [scanFields, if_pos word, stop]
    rfl
  | case3 inField c differ =>
    show scanFields inField (c :: ')' :: more) = _
    rw [scanFields, if_neg differ, if_neg (by simp [isField, isWord])]
    rfl
  | case4 inField c d rest word taken ih =>
    have inner : scanFields inField (d :: closed more rest) = _ := ih
    show scanFields inField (c :: d :: closed more rest) = _
    rw [scanFields, if_pos word, inner]
  | case5 inField c d rest differ dot taken ih =>
    show scanFields inField (c :: d :: closed more rest) = _
    rw [scanFields, if_neg differ, if_pos dot, ih]
  | case6 inField c d rest differ dot =>
    show scanFields inField (c :: d :: closed more rest) = _
    rw [scanFields, if_neg differ, if_neg dot]
    rfl

theorem takeWhile_closed {p : Char → Bool} (stop : p ')' = false) (cs : List Char) :
    (closed more cs).takeWhile p = cs.takeWhile p := by
  induction cs with
  | nil => rw [closed, List.nil_append, List.takeWhile_cons, stop]; rfl
  | cons c cs ih =>
    show (c :: closed more cs).takeWhile p = _
    rw [List.takeWhile_cons, List.takeWhile_cons, ih]

theorem dropWhile_closed {p : Char → Bool} (stop : p ')' = false) (cs : List Char) :
    (closed more cs).dropWhile p = closed more (cs.dropWhile p) := by
  induction cs with
  | nil => rw [closed, List.nil_append, List.dropWhile_cons, stop]; rfl
  | cons c cs ih =>
    show (c :: closed more cs).dropWhile p = _
    rw [List.dropWhile_cons, List.dropWhile_cons, ih]
    split <;> rfl

theorem scanDigits_closed (cs : List Char) : Closes more scanDigits cs := by
  rw [Closes, scanDigits, scanDigits, takeWhile_closed more (by decide), dropWhile_closed more
    (by decide)]
  split <;> rfl

theorem scanFraction_closed (cs : List Char) :
    scanFraction (closed more cs) = ((scanFraction cs).1, closed more (scanFraction cs).2) := by
  cases cs with
  | nil => rfl
  | cons c rest =>
    show scanFraction (c :: closed more rest) = _
    rw [scanFraction, scanFraction, scanDigits_closed more rest]
    by_cases dot : c = '.'
    · rw [if_pos dot, if_pos dot]
      cases scanDigits rest <;> rfl
    · rw [if_neg dot, if_neg dot]
      rfl

theorem scanUnsigned_closed (cs : List Char) : Closes more scanUnsigned cs := by
  rw [Closes, scanUnsigned, scanUnsigned, scanDigits_closed more cs]
  cases scanDigits cs with
  | none => rfl
  | some taken => simp only [Option.map_some, scanFraction_closed]

theorem scanNumber_closed {cs : List Char} (some_char : cs ≠ []) : Closes more scanNumber cs := by
  cases cs with
  | nil => exact absurd rfl some_char
  | cons c rest =>
    rw [Closes]
    show scanNumber (c :: closed more rest) = _
    rw [scanNumber, scanNumber]
    by_cases minus : c = '-'
    · rw [if_pos minus, if_pos minus, scanUnsigned_closed more rest, Option.map_map, Option.map_map]
      rfl
    · rw [if_neg minus, if_neg minus]
      exact scanUnsigned_closed more (c :: rest)

theorem scanPath_closed {cs : List Char} (some_char : cs ≠ []) : Closes more scanPath cs := by
  cases cs with
  | nil => exact absurd rfl some_char
  | cons c rest =>
    rw [Closes]
    show scanPath (c :: closed more rest) = _
    rw [scanPath, scanPath, scanFields_closed]
    split <;> rfl

theorem scanAtom_closed {kind : AtomKind} {scan : List Char → Scan (List Char)} {cs : List Char}
    (closes : Closes more scan cs) : Closes more (scanAtom kind scan) cs := by
  rw [Closes, scanAtom, scanAtom, closes, Option.map_map, Option.map_map]
  rfl

theorem scanToken_quote {c : Char} (quote : c = '\'' ∨ c = '"') (rest : List Char) :
    scanToken (c :: rest) = (scanQuoted c rest).map fun taken =>
    (.atom ⟨.string, .ofList (c :: taken.1)⟩, taken.2) := by
  have no_operator : scanOperator (c :: rest) = none := by
    rcases quote with rfl | rfl <;> cases rest <;> rfl
  have no_path : scanPath (c :: rest) = none := by
    rcases quote with rfl | rfl <;> rfl
  have no_number : scanNumber (c :: rest) = none := by
    rcases quote with rfl | rfl <;> rfl
  have string : scanString (c :: rest) = (scanQuoted c rest).map fun taken =>
      (c :: taken.1, taken.2) := by
    rcases quote with rfl | rfl <;> rfl
  rw [scanToken, no_operator, scanAtom, string, scanAtom, no_path, scanAtom, no_number]
  simp only [Option.map_none, Option.none_or, Option.or_none, Option.map_map]
  rfl

theorem scanString_other {c : Char} (other : ¬(c = '\'' ∨ c = '"')) (rest : List Char) :
    scanString (c :: rest) = none := by
  rw [scanString, if_neg (by simpa using other)]

theorem scanQuoted_ends {c : Char} (quote : c = '\'' ∨ c = '"') {left : List Char} {tokens : List Token}
    (rest : Lexes left tokens) (more : List Char) (begins : left = c :: more) :
    scanQuoted c more ≠ none := by
  subst begins
  intro unclosed
  cases rest with
  | space blank _ => rcases quote with rfl | rfl <;> cases blank
  | token _ scanned _ =>
    rw [scanToken_quote quote, unclosed] at scanned
    cases scanned

/-- A token that the rest of the text leaves readable is the same before a closing parenthesis. -/
theorem scanToken_closed {cs left : List Char} {token : Token} {tokens : List Token}
    (h : scanToken cs = some (token, left)) (rest : Lexes left tokens) :
    scanToken (closed more cs) = some (token, closed more left) := by
  cases cs with
  | nil => cases h
  | cons c cs =>
    have some_char : c :: cs ≠ [] := List.cons_ne_nil c cs
    by_cases quote : c = '\'' ∨ c = '"'
    · rw [scanToken_quote quote] at h
      obtain ⟨⟨text, left'⟩, taken, same⟩ := Option.map_eq_some_iff.mp h
      cases same
      have other : ')' ≠ c := by rcases quote with rfl | rfl <;> decide
      show scanToken (c :: closed more cs) = _
      rw [scanToken_quote quote, scanQuoted_closed more other taken (scanQuoted_ends quote rest)]
      rfl
    · have here : Closes more scanToken (c :: cs) := by
        have none_after : scanAtom .string scanString (closed more (c :: cs)) = none := by
          show (scanString (c :: closed more cs)).map _ = none
          rw [scanString_other quote]
          rfl
        have none_here : scanAtom .string scanString (c :: cs) = none := by
          rw [scanAtom, scanString_other quote]
          rfl
        rw [Closes, scanToken, scanToken, none_after, none_here, scanOperator_closed more some_char,
          scanAtom_closed more (scanPath_closed more some_char), scanAtom_closed more
          (scanNumber_closed more some_char)]
        simp only [Option.none_or, Option.map_map, Option.map_or]
        rfl
      rw [here, h]
      rfl

end Closed

theorem Lexes.closed {cs : List Char} {tokens after : List Token} {more : List Char}
    (first : Lexes cs tokens)
    (last : Lexes (')' :: more) after) : Lexes (closed more cs) (tokens ++ after) := by
  induction first with
  | nil => exact last
  | space blank _ ih => exact .space blank ih
  | token solid scanned rest ih => exact .token solid (scanToken_closed more scanned rest) ih

theorem Lexes.opens {cs : List Char} {tokens : List Token} (h : Lexes cs tokens) :
    Lexes ('(' :: cs) (.operator .opens :: tokens) := by
  have scanned : scanToken ('(' :: cs) = some (.operator .opens, cs) := by cases cs <;> rfl
  exact .token (by decide) scanned h

/-- The tokens of `(x) && (y)`. -/
theorem tokenize_combined {x y : String} {left right : List Token} (hx : tokenize x = .ok left)
    (hy : tokenize y = .ok right) : tokenize s!"({x}) && ({y})" = .ok
      (.operator .opens :: (left ++ .operator .closes :: .operator .and :: .operator .opens ::
        (right ++ [.operator .closes]))) := by
  rw [tokenize_iff] at hx hy ⊢
  have last : Lexes [')'] [.operator .closes] := .token (by decide) rfl .nil
  have second := (Lexes.closed hy last).opens
  have joined : Lexes (' ' :: '&' :: '&' :: ' ' :: '(' :: closed [] y.toList)
      (.operator .and :: .operator .opens :: (right ++ [.operator .closes])) :=
    .space (by decide) (.token (by decide) rfl (.space (by decide) second))
  have closing (cs : List Char) : scanToken (')' :: cs) = some (.operator .closes, cs) := by
    cases cs <;> rfl
  have whole := (Lexes.closed hx (.token (by decide) (closing _) joined)).opens
  have text : (s!"({x}) && ({y})").toList =
      '(' :: closed (' ' :: '&' :: '&' :: ' ' :: '(' :: closed [] y.toList) x.toList := by
    simp [closed, toString]
  rw [text]
  exact whole

end Cindral.Workflow

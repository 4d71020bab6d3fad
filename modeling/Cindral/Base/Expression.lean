import Mathlib.Data.List.Basic

/-!
# Boolean expressions

`||` over `&&` over `!` over one comparison of two operands, with groups in parentheses, over any
kind of atom and any meaning of the connectives. `read` is a recursive descent reader with a bound on
nesting, and `read_iff` says that it reads the grammar, no more and no less.
-/

namespace Cindral.Base.Expression

inductive Operator where
  | or | and | eq | ne | not | opens | closes
  deriving DecidableEq, Repr

inductive Lexeme (α : Type) where
  | operator (o : Operator)
  | atom (a : α)
  deriving DecidableEq, Repr

mutual

inductive Operand (α : Type) where
  | atom (a : α)
  | group (d : Disjunction α)

inductive Term (α : Type) where
  | single (o : Operand α)
  | compare (equal : Bool) (left right : Operand α)

inductive Factor (α : Type) where
  | term (t : Term α)
  | negated (f : Factor α)

inductive Conjunction (α : Type) where
  | one (f : Factor α)
  | and (c : Conjunction α) (f : Factor α)

inductive Disjunction (α : Type) where
  | one (c : Conjunction α)
  | or (d : Disjunction α) (c : Conjunction α)

end

/-- What an expression says: a verdict, and its value where it is one operand and nothing more. -/
structure Reading (V R : Type) where
  verdict : R
  lone : Option V
  deriving DecidableEq, Repr

/-- A meaning of the atoms and connectives. An atom may stand for some levels of nesting. -/
structure Meaning (α V R : Type) where
  atom : α → V
  weight : α → Nat
  truth : V → R
  compare : Bool → V → V → R
  /-- What a group is worth as an operand, when it is more than one. -/
  cast : R → V
  not : R → R
  and : R → R → R
  or : R → R → R

variable {α V R : Type}

def Meaning.operand (m : Meaning α V R) (x : Reading V R) : V := x.lone.getD (m.cast x.verdict)

def comparison (equal : Bool) : Operator := if equal then .eq else .ne

mutual

def Operand.tokens : Operand α → List (Lexeme α)
  | .atom a => [.atom a]
  | .group d => .operator .opens :: (d.tokens ++ [.operator .closes])

def Term.tokens : Term α → List (Lexeme α)
  | .single o => o.tokens
  | .compare equal left right => left.tokens ++ .operator (comparison equal) :: right.tokens

def Factor.tokens : Factor α → List (Lexeme α)
  | .term t => t.tokens
  | .negated f => .operator .not :: f.tokens

def Conjunction.tokens : Conjunction α → List (Lexeme α)
  | .one f => f.tokens
  | .and c f => c.tokens ++ .operator .and :: f.tokens

def Disjunction.tokens : Disjunction α → List (Lexeme α)
  | .one c => c.tokens
  | .or d c => d.tokens ++ .operator .or :: c.tokens

end

mutual

def Operand.depth (m : Meaning α V R) : Operand α → Nat
  | .atom a => m.weight a
  | .group d => d.depth m + 1

def Term.depth (m : Meaning α V R) : Term α → Nat
  | .single o => o.depth m
  | .compare _ left right => max (left.depth m) (right.depth m)

def Factor.depth (m : Meaning α V R) : Factor α → Nat
  | .term t => t.depth m
  | .negated f => f.depth m + 1

def Conjunction.depth (m : Meaning α V R) : Conjunction α → Nat
  | .one f => f.depth m
  | .and c f => max (c.depth m) (f.depth m)

def Disjunction.depth (m : Meaning α V R) : Disjunction α → Nat
  | .one c => c.depth m
  | .or d c => max (d.depth m) (c.depth m)

end

mutual

def Operand.value (m : Meaning α V R) : Operand α → V
  | .atom a => m.atom a
  | .group d => m.operand (d.meaning m)

def Term.meaning (m : Meaning α V R) : Term α → Reading V R
  | .single o => ⟨m.truth (o.value m), some (o.value m)⟩
  | .compare equal left right => ⟨m.compare equal (left.value m) (right.value m), none⟩

def Factor.meaning (m : Meaning α V R) : Factor α → Reading V R
  | .term t => t.meaning m
  | .negated f => ⟨m.not (f.meaning m).verdict, none⟩

def Conjunction.meaning (m : Meaning α V R) : Conjunction α → Reading V R
  | .one f => f.meaning m
  | .and c f => ⟨m.and (c.meaning m).verdict (f.meaning m).verdict, none⟩

def Disjunction.meaning (m : Meaning α V R) : Disjunction α → Reading V R
  | .one c => c.meaning m
  | .or d c => ⟨m.or (d.meaning m).verdict (c.meaning m).verdict, none⟩

end

/-! ## Reading -/

/-- A reader takes what it can from the front and leaves the rest. -/
abbrev Reader (α ρ : Type) := List (Lexeme α) → Option (ρ × List (Lexeme α))

def Lexeme.is (o : Operator) : Lexeme α → Bool
  | .operator o' => o' = o
  | .atom _ => false

/-- More of a chain, as long as the operator comes next. Each turn takes one, so their number is
enough turns. -/
def chain (o : Operator) (combine : R → R → R) (read : Reader α (Reading V R)) :
    Nat → Reading V R → Reader α (Reading V R)
  | n + 1, x, .operator o' :: tail =>
    if o' = o then (read tail).bind fun y => chain o combine read n
      ⟨combine x.verdict y.1.verdict, none⟩ y.2
    else some (x, .operator o' :: tail)
  | _, x, ts => some (x, ts)

def readChain (o : Operator) (combine : R → R → R) (read : Reader α (Reading V R)) :
    Reader α (Reading V R) :=
  fun ts => (read ts).bind fun x => chain o combine read (x.2.countP (Lexeme.is o)) x.1 x.2

variable (m : Meaning α V R)

def readConjunction (factor : Reader α (Reading V R)) : Reader α (Reading V R) :=
  readChain .and m.and factor

def readDisjunction (factor : Reader α (Reading V R)) : Reader α (Reading V R) :=
  readChain .or m.or (readConjunction m factor)

/-- One operand, with `inner` for what stands in a group. -/
def readOperand (room : Nat) (inner : Reader α (Reading V R)) : Reader α V
  | .atom a :: rest => if m.weight a ≤ room then some (m.atom a, rest) else none
  | .operator .opens :: tail => (inner tail).bind fun x =>
    match x.2 with
    | .operator .closes :: rest => some (m.operand x.1, rest)
    | _ => none
  | _ => none

/-- The comparison an operand may be the left of. -/
def compareFrom (operand : Reader α V) (x : V) : Reader α (Reading V R)
  | .operator .eq :: tail => (operand tail).map fun y => (⟨m.compare true x y.1, none⟩, y.2)
  | .operator .ne :: tail => (operand tail).map fun y => (⟨m.compare false x y.1, none⟩, y.2)
  | rest => some (⟨m.truth x, some x⟩, rest)

def readTerm (operand : Reader α V) : Reader α (Reading V R) := fun ts =>
  (operand ts).bind fun x => compareFrom m operand x.1 x.2

/-- One factor, with `deeper` for one level of nesting less. -/
def factorWith (room : Nat) (deeper : Reader α (Reading V R)) : Reader α (Reading V R)
  | .operator .not :: tail => (deeper tail).map fun x => (⟨m.not x.1.verdict, none⟩, x.2)
  | ts => readTerm m (readOperand m room (readDisjunction m deeper)) ts

def readFactor : Nat → Reader α (Reading V R)
  | 0 => factorWith m 0 fun _ => none
  | room + 1 => factorWith m (room + 1) (readFactor room)

/-- The verdict of a whole text. -/
def read (room : Nat) (ts : List (Lexeme α)) : Option R :=
  (readDisjunction m (readFactor m room) ts).bind fun x =>
  if x.2.isEmpty then some x.1.verdict else none

/-! ## Chains -/

/-- A kind of phrase: its text, how deep it nests, and what it says. -/
structure Phrase (α σ ρ : Type) where
  tokens : σ → List (Lexeme α)
  depth : σ → Nat
  meaning : σ → ρ

/-- Chains of items with one operator between them. -/
structure Chained (o : Operator) (combine : R → R → R) {σ τ : Type} (item : Phrase α σ (Reading V R))
    (many : Phrase α τ (Reading V R)) where
  one : σ → τ
  snoc : τ → σ → τ
  tokens_one : ∀ s, many.tokens (one s) = item.tokens s
  tokens_snoc : ∀ t s, many.tokens (snoc t s) = many.tokens t ++ .operator o :: item.tokens s
  depth_one : ∀ s, many.depth (one s) = item.depth s
  depth_snoc : ∀ t s, many.depth (snoc t s) = max (many.depth t) (item.depth s)
  meaning_one : ∀ s, many.meaning (one s) = item.meaning s
  meaning_snoc : ∀ t s, many.meaning (snoc t s) =
    ⟨combine (many.meaning t).verdict (item.meaning s).verdict, none⟩
  induct : ∀ {P : τ → Prop}, (first : ∀ s, P (one s)) → (more : ∀ t s, P t → P (snoc t s)) → ∀ t, P t

def Sound {σ ρ : Type} (p : Phrase α σ ρ) (room : Nat) (read : Reader α ρ) : Prop :=
  ∀ ts x rest, read ts = some (x, rest) → ∃ s, ts = p.tokens s ++ rest ∧ p.depth s ≤ room ∧
  p.meaning s = x

/-- The text does not go on with one of these operators. -/
def Stops (os : List Operator) (ts : List (Lexeme α)) : Prop :=
  ∀ o tail, ts = .operator o :: tail → o ∉ os

/-- The reader takes every phrase, before a text that does not go on with it. -/
def Complete {σ ρ : Type} (p : Phrase α σ ρ) (room : Nat) (os : List Operator) (read : Reader α ρ) :
    Prop :=
  ∀ s, p.depth s ≤ room → ∀ rest, Stops os rest → read (p.tokens s ++ rest) = some (p.meaning s, rest)

theorem stops_nil (os : List Operator) : Stops os ([] : List (Lexeme α)) := by
  intro o tail same
  cases same

theorem stops_atom (os : List Operator) (a : α) (ts : List (Lexeme α)) : Stops os (.atom a :: ts) := by
  intro o tail same
  cases same

theorem stops_operator {os : List Operator} {o : Operator} (free : o ∉ os) (ts : List (Lexeme α)) :
    Stops os (.operator o :: ts) := by
  intro o' tail same
  obtain rfl := Lexeme.operator.inj (List.cons.inj same).1
  exact free

section Chain
variable {o : Operator} {combine : R → R → R} {σ τ : Type} {item : Phrase α σ (Reading V R)}
  {many : Phrase α τ (Reading V R)} {read : Reader α (Reading V R)} {room : Nat} {os : List Operator}

theorem chain_cons (n : Nat) (x : Reading V R) (tail : List (Lexeme α)) :
    chain o combine read (n + 1) x (.operator o :: tail) =
      (read tail).bind fun y => chain o combine read n ⟨combine x.verdict y.1.verdict, none⟩ y.2 := by
  simp only [chain, if_true]

theorem chain_stops (n : Nat) (x : Reading V R) {ts : List (Lexeme α)} (stops : Stops (o :: os) ts) :
    chain o combine read n x ts = some (x, ts) := by
  unfold chain
  split
  · rename_i o' tail
    rw [if_neg]
    rintro rfl
    exact stops _ tail rfl List.mem_cons_self
  · rfl

theorem chain_cases {n : Nat} {x z : Reading V R} {ts rest : List (Lexeme α)}
    (h : chain o combine read (n + 1) x ts = some (z, rest)) :
    (z = x ∧ rest = ts) ∨ ∃ tail y, ts = .operator o :: tail ∧ read tail = some y ∧
      chain o combine read n ⟨combine x.verdict y.1.verdict, none⟩ y.2 = some (z, rest) := by
  have stop : some (x, ts) = some (z, rest) → z = x ∧ rest = ts := fun same => by
    obtain ⟨rfl, rfl⟩ := Prod.mk.inj (Option.some.inj same)
    exact ⟨rfl, rfl⟩
  cases ts with
  | nil => exact Or.inl (stop h)
  | cons head tail =>
    cases head with
    | atom a => exact Or.inl (stop h)
    | operator o' =>
      by_cases same : o' = o
      · subst same
        rw [chain_cons] at h
        obtain ⟨y, taken, more⟩ := Option.bind_eq_some_iff.mp h
        exact Or.inr ⟨tail, y, rfl, taken, more⟩
      · rw [chain, if_neg same] at h
        exact Or.inl (stop h)

theorem chain_sound (c : Chained o combine item many) (sound : Sound item room read) (n : Nat) (t : τ)
    (fits : many.depth t ≤ room) (ts : List (Lexeme α)) {x : Reading V R} {rest : List (Lexeme α)}
    (h : chain o combine read n (many.meaning t) ts = some (x, rest)) :
    ∃ t', many.tokens t ++ ts = many.tokens t' ++ rest ∧ many.depth t' ≤ room ∧ many.meaning t' = x := by
  induction n generalizing t ts with
  | zero =>
    obtain ⟨rfl, rfl⟩ := Prod.mk.inj (Option.some.inj h)
    exact ⟨t, rfl, fits, rfl⟩
  | succ n ih =>
    rcases chain_cases h with ⟨rfl, rfl⟩ | ⟨tail, ⟨y, rest'⟩, rfl, taken, more⟩
    · exact ⟨t, rfl, fits, rfl⟩
    · obtain ⟨s, rfl, small, rfl⟩ := sound _ _ _ taken
      rw [← c.meaning_snoc] at more
      have fits' : many.depth (c.snoc t s) ≤ room := by
        rw [c.depth_snoc]
        exact Nat.max_le.mpr ⟨fits, small⟩
      obtain ⟨t', text, bounded, meant⟩ := ih (c.snoc t s) fits' rest' more
      refine ⟨t', ?_, bounded, meant⟩
      rw [← text, c.tokens_snoc, List.append_assoc, List.cons_append]

theorem readChain_sound (c : Chained o combine item many) (sound : Sound item room read) :
    Sound many room (readChain o combine read) := by
  intro ts x rest h
  obtain ⟨⟨y, rest'⟩, first, more⟩ := Option.bind_eq_some_iff.mp h
  obtain ⟨s, rfl, fits, rfl⟩ := sound _ _ _ first
  rw [← c.meaning_one] at more
  obtain ⟨t, text, fits', meant⟩ :=
    chain_sound c sound _ (c.one s) (by rw [c.depth_one]; exact fits) rest' more
  exact ⟨t, by rw [← text, c.tokens_one], fits', meant⟩

/-- A chain's text read so far leaves the loop at the rest of it. -/
theorem readChain_reaches (c : Chained o combine item many) (complete : Complete item room os read)
    (free : o ∉ os) (t : τ)
    (fits : many.depth t ≤ room) {rest : List (Lexeme α)} (stops : Stops os rest) :
    ∃ n, rest.countP (Lexeme.is o) ≤ n ∧
      readChain o combine read (many.tokens t ++ rest) = chain o combine read n (many.meaning t)
      rest := by
  induction t using c.induct generalizing rest with
  | first s =>
    refine ⟨rest.countP (Lexeme.is o), Nat.le_refl _, ?_⟩
    rw [c.depth_one] at fits
    rw [readChain, c.tokens_one, complete s fits rest stops, c.meaning_one]
    rfl
  | more t s ih =>
    rw [c.depth_snoc] at fits
    have goes : Stops os (.operator o :: (item.tokens s ++ rest)) := stops_operator free _
    obtain ⟨n, enough, reached⟩ := ih (Nat.le_trans (Nat.le_max_left _ _) fits) goes
    rw [List.countP_cons_of_pos (by simp only [Lexeme.is, decide_true]), List.countP_append] at enough
    obtain ⟨n, rfl⟩ : ∃ k, n = k + 1 := Nat.exists_eq_add_one_of_ne_zero (by omega)
    refine ⟨n, by omega, ?_⟩
    rw [c.tokens_snoc, List.append_assoc, List.cons_append, reached, chain_cons,
      complete s (Nat.le_trans (Nat.le_max_right _ _) fits) rest stops, c.meaning_snoc]
    rfl

theorem readChain_complete (c : Chained o combine item many) (complete : Complete item room os read)
    (free : o ∉ os) :
    Complete many room (o :: os) (readChain o combine read) := by
  intro t fits rest stops
  obtain ⟨n, -, reached⟩ := readChain_reaches c complete free t fits fun o' tail same member =>
    stops o' tail same (List.mem_cons_of_mem o member)
  rw [reached, chain_stops n _ stops]

end Chain

/-! ## The reader reads the grammar -/

section Reads
variable {m}

def Operand.phrase (m : Meaning α V R) : Phrase α (Operand α) V :=
  ⟨Operand.tokens, Operand.depth m, Operand.value m⟩
def Term.phrase (m : Meaning α V R) : Phrase α (Term α) (Reading V R) :=
  ⟨Term.tokens, Term.depth m, Term.meaning m⟩
def Factor.phrase (m : Meaning α V R) : Phrase α (Factor α) (Reading V R) :=
  ⟨Factor.tokens, Factor.depth m, Factor.meaning m⟩
def Conjunction.phrase (m : Meaning α V R) : Phrase α (Conjunction α) (Reading V R) :=
  ⟨Conjunction.tokens, Conjunction.depth m, Conjunction.meaning m⟩
def Disjunction.phrase (m : Meaning α V R) : Phrase α (Disjunction α) (Reading V R) :=
  ⟨Disjunction.tokens, Disjunction.depth m, Disjunction.meaning m⟩

theorem Conjunction.induct {P : Conjunction α → Prop} (one : ∀ f, P (.one f))
    (and : ∀ c f, P c → P (.and c f)) :
    ∀ c, P c
  | .one f => one f
  | .and c f => and c f (Conjunction.induct one and c)

theorem Disjunction.induct {P : Disjunction α → Prop} (one : ∀ c, P (.one c))
    (or : ∀ d c, P d → P (.or d c)) :
    ∀ d, P d
  | .one c => one c
  | .or d c => or d c (Disjunction.induct one or d)

def Conjunction.chained (m : Meaning α V R) :
    Chained .and m.and (Factor.phrase m) (Conjunction.phrase m) where
  one := .one
  snoc := .and
  tokens_one _ := rfl
  tokens_snoc _ _ := rfl
  depth_one _ := rfl
  depth_snoc _ _ := rfl
  meaning_one _ := rfl
  meaning_snoc _ _ := rfl
  induct := Conjunction.induct

def Disjunction.chained (m : Meaning α V R) :
    Chained .or m.or (Conjunction.phrase m) (Disjunction.phrase m) where
  one := .one
  snoc := .or
  tokens_one _ := rfl
  tokens_snoc _ _ := rfl
  depth_one _ := rfl
  depth_snoc _ _ := rfl
  meaning_one _ := rfl
  meaning_snoc _ _ := rfl
  induct := Disjunction.induct

/-- Where a comparison may go on, a chain may too. -/
def afterTerm : List Operator := [.eq, .ne]
def afterDisjunction : List Operator := [.or, .and, .eq, .ne]

variable {room : Nat} {factor : Reader α (Reading V R)} {operand : Reader α V}

theorem readDisjunction_sound (sound : Sound (Factor.phrase m) room factor) :
    Sound (Disjunction.phrase m) room (readDisjunction m factor) :=
  readChain_sound (Disjunction.chained m) (readChain_sound (Conjunction.chained m) sound)

theorem readDisjunction_complete (complete : Complete (Factor.phrase m) room afterTerm factor) :
    Complete (Disjunction.phrase m) room afterDisjunction (readDisjunction m factor) :=
  readChain_complete (Disjunction.chained m)
  (readChain_complete (Conjunction.chained m) complete (by decide)) (by decide)

theorem readOperand_sound {inner : Reader α (Reading V R)}
    (deeper : ∀ ts x rest, inner ts = some (x, rest) →
      ∃ d : Disjunction α, ts = d.tokens ++ rest ∧ d.depth m + 1 ≤ room ∧ d.meaning m = x) :
    Sound (Operand.phrase m) room (readOperand m room inner) := by
  intro ts x rest h
  unfold readOperand at h
  split at h
  · rename_i a tail
    split at h
    · rename_i fits
      obtain ⟨rfl, rfl⟩ := Prod.mk.inj (Option.some.inj h)
      exact ⟨.atom a, rfl, fits, rfl⟩
    · cases h
  · rename_i tail
    obtain ⟨⟨y, rest'⟩, taken, closed⟩ := Option.bind_eq_some_iff.mp h
    obtain ⟨d, rfl, fits, rfl⟩ := deeper _ _ _ taken
    simp only at closed
    split at closed
    · obtain ⟨rfl, rfl⟩ := Prod.mk.inj (Option.some.inj closed)
      exact ⟨.group d, by simp only [Operand.phrase, Operand.tokens, List.cons_append,
        List.append_assoc, List.nil_append],
        fits, rfl⟩
    · cases closed
  · cases h

theorem readTerm_sound (sound : Sound (Operand.phrase m) room operand) :
    Sound (Term.phrase m) room (readTerm m operand) := by
  intro ts x rest h
  obtain ⟨⟨l, rest'⟩, first, more⟩ := Option.bind_eq_some_iff.mp h
  obtain ⟨left, rfl, fits, rfl⟩ := sound _ _ _ first
  unfold compareFrom at more
  simp only at more
  split at more
  · obtain ⟨⟨r, last⟩, second, same⟩ := Option.map_eq_some_iff.mp more
    obtain ⟨right, rfl, small, rfl⟩ := sound _ _ _ second
    obtain ⟨rfl, rfl⟩ := Prod.mk.inj same
    exact ⟨.compare true left right, by simp only [Term.phrase, Term.tokens, Operand.phrase,
      List.append_assoc,
      List.cons_append, comparison, if_true], Nat.max_le.mpr ⟨fits, small⟩, rfl⟩
  · obtain ⟨⟨r, last⟩, second, same⟩ := Option.map_eq_some_iff.mp more
    obtain ⟨right, rfl, small, rfl⟩ := sound _ _ _ second
    obtain ⟨rfl, rfl⟩ := Prod.mk.inj same
    exact ⟨.compare false left right, by simp only [Term.phrase, Term.tokens, Operand.phrase,
      List.append_assoc,
      List.cons_append, comparison, Bool.false_eq_true, if_false], Nat.max_le.mpr ⟨fits, small⟩, rfl⟩
  · obtain ⟨rfl, rfl⟩ := Prod.mk.inj (Option.some.inj more)
    exact ⟨.single left, rfl, fits, rfl⟩

theorem operand_head (o : Operand α) : ∃ head tail, o.tokens = head :: tail ∧
    ∀ op, head = .operator op → op = .opens := by
  cases o with
  | atom a => exact ⟨_, _, rfl, by rintro op ⟨⟩⟩
  | group d => exact ⟨_, _, rfl, fun op same => (Lexeme.operator.inj same).symm⟩

theorem readOperand_complete {inner : Reader α (Reading V R)}
    (deeper : ∀ d : Disjunction α, d.depth m + 1 ≤ room → ∀ rest, Stops afterDisjunction rest →
      inner (d.tokens ++ rest) = some (d.meaning m, rest)) :
    Complete (Operand.phrase m) room [] (readOperand m room inner) := by
  intro o fits rest _
  cases o with
  | atom a =>
    have fits : m.weight a ≤ room := fits
    show (if m.weight a ≤ room then _ else none) = _
    rw [if_pos fits]
    rfl
  | group d =>
    have stops : Stops afterDisjunction (.operator .closes :: rest : List (Lexeme α)) :=
      stops_operator (by decide) rest
    have taken := deeper d fits _ stops
    simp only [Operand.phrase, Operand.tokens, List.cons_append, List.append_assoc, List.nil_append,
      readOperand, taken,
      Option.bind_some]
    rfl

theorem compareFrom_stops {x : V} {rest : List (Lexeme α)} (stops : Stops afterTerm rest) :
    compareFrom m operand x rest = some (⟨m.truth x, some x⟩, rest) := by
  unfold compareFrom
  split
  · exact absurd List.mem_cons_self (stops _ _ rfl)
  · exact absurd (List.mem_cons_of_mem _ List.mem_cons_self) (stops _ _ rfl)
  · rfl

theorem readTerm_complete (complete : Complete (Operand.phrase m) room [] operand) :
    Complete (Term.phrase m) room afterTerm (readTerm m operand) := by
  intro t fits rest stops
  have any (ts : List (Lexeme α)) : Stops [] ts := fun _ _ _ => List.not_mem_nil
  cases t with
  | single o =>
    have taken := complete o fits rest (any rest)
    simp only [Operand.phrase] at taken
    simp only [Term.phrase, Term.tokens, readTerm, taken, Option.bind_some, compareFrom_stops stops]
    rfl
  | compare equal left right =>
    have fits := Nat.max_le.mp fits
    have first := complete left fits.1 (.operator (comparison equal) :: (right.tokens ++ rest)) (any _)
    have second := complete right fits.2 rest (any rest)
    simp only [Operand.phrase] at first second
    simp only [Term.phrase, Term.tokens, List.append_assoc, List.cons_append, readTerm, first,
      Option.bind_some]
    cases equal with
    | true => simp only [comparison, if_true, compareFrom, second, Option.map_some]; rfl
    | false => simp only [comparison, Bool.false_eq_true, if_false, compareFrom, second,
        Option.map_some]; rfl

theorem factorWith_sound {deeper : Reader α (Reading V R)}
    (sound : ∀ ts x rest, deeper ts = some (x, rest) →
      ∃ f : Factor α, ts = f.tokens ++ rest ∧ f.depth m + 1 ≤ room ∧ f.meaning m = x)
    (inner : ∀ ts x rest, readDisjunction m deeper ts = some (x, rest) →
      ∃ d : Disjunction α, ts = d.tokens ++ rest ∧ d.depth m + 1 ≤ room ∧ d.meaning m = x) :
    Sound (Factor.phrase m) room (factorWith m room deeper) := by
  intro ts x rest h
  unfold factorWith at h
  split at h
  · obtain ⟨⟨y, rest'⟩, taken, same⟩ := Option.map_eq_some_iff.mp h
    obtain ⟨f, rfl, fits, rfl⟩ := sound _ _ _ taken
    obtain ⟨rfl, rfl⟩ := Prod.mk.inj same
    exact ⟨.negated f, rfl, fits, rfl⟩
  · obtain ⟨t, rfl, fits, rfl⟩ := readTerm_sound (readOperand_sound inner) _ _ _ h
    exact ⟨.term t, rfl, fits, rfl⟩

theorem readFactor_sound (room : Nat) : Sound (Factor.phrase m) room (readFactor m room) := by
  induction room with
  | zero =>
    refine factorWith_sound (by rintro _ _ _ ⟨⟩) fun ts x rest taken => ?_
    simp only [readDisjunction, readConjunction, readChain, Option.bind_none] at taken
    cases taken
  | succ room ih =>
    refine factorWith_sound (fun ts x rest taken => ?_) fun ts x rest taken => ?_
    · obtain ⟨f, text, fits, meant⟩ := ih ts x rest taken
      exact ⟨f, text, Nat.succ_le_succ fits, meant⟩
    · obtain ⟨d, text, fits, meant⟩ := readDisjunction_sound ih ts x rest taken
      exact ⟨d, text, Nat.succ_le_succ fits, meant⟩

theorem factorWith_operand {deeper : Reader α (Reading V R)} (o : Operand α) (more : List (Lexeme α)) :
    factorWith m room deeper (o.tokens ++ more) =
      readTerm m (readOperand m room (readDisjunction m deeper)) (o.tokens ++ more) := by
  obtain ⟨head, tail, begins, opening⟩ := operand_head o
  rw [begins]
  unfold factorWith
  split
  · rename_i same
    cases opening _ (List.cons.inj same).1
  · rfl

theorem Term.begins (t : Term α) : ∃ (o : Operand α) (more : List (Lexeme α)),
    t.tokens = o.tokens ++ more := by
  cases t with
  | single o => exact ⟨o, [], (List.append_nil _).symm⟩
  | compare equal left right => exact ⟨left, _, rfl⟩

theorem factorWith_complete {deeper : Reader α (Reading V R)}
    (complete : ∀ f : Factor α, f.depth m + 1 ≤ room → ∀ rest, Stops afterTerm rest →
      deeper (f.tokens ++ rest) = some (f.meaning m, rest))
    (inner : ∀ d : Disjunction α, d.depth m + 1 ≤ room → ∀ rest, Stops afterDisjunction rest →
      readDisjunction m deeper (d.tokens ++ rest) = some (d.meaning m, rest)) :
    Complete (Factor.phrase m) room afterTerm (factorWith m room deeper) := by
  intro f fits rest stops
  cases f with
  | term t =>
    have taken := readTerm_complete (readOperand_complete inner) t fits rest stops
    simp only [Factor.phrase, Factor.tokens]
    obtain ⟨o, more, text⟩ := t.begins
    have goes : factorWith m room deeper (t.tokens ++ rest) =
        readTerm m (readOperand m room (readDisjunction m deeper)) (t.tokens ++ rest) := by
      rw [text, List.append_assoc]
      exact factorWith_operand o (more ++ rest)
    rw [goes]
    exact taken
  | negated f =>
    have taken := complete f fits rest stops
    simp only [Factor.phrase, Factor.tokens, List.cons_append, factorWith, taken, Option.map_some]
    rfl

theorem readFactor_complete (room : Nat) :
    Complete (Factor.phrase m) room afterTerm (readFactor m room) := by
  induction room with
  | zero => exact factorWith_complete (by rintro _ ⟨⟩) (by rintro _ ⟨⟩)
  | succ room ih =>
    exact factorWith_complete (fun f fits => ih f (Nat.le_of_succ_le_succ fits)) fun d fits =>
      readDisjunction_complete ih d (Nat.le_of_succ_le_succ fits)

/-- The expressions of a text that nest at most `room` deep, and what they say. -/
def Says (m : Meaning α V R) (room : Nat) (ts : List (Lexeme α)) (verdict : R) : Prop :=
  ∃ d : Disjunction α, d.tokens = ts ∧ d.depth m ≤ room ∧ (d.meaning m).verdict = verdict

theorem read_iff {ts : List (Lexeme α)} {verdict : R} :
    read m room ts = some verdict ↔ Says m room ts verdict := by
  constructor
  · intro h
    obtain ⟨⟨x, rest⟩, taken, ended⟩ := Option.bind_eq_some_iff.mp h
    obtain ⟨d, rfl, fits, rfl⟩ := readDisjunction_sound (readFactor_sound room) _ _ _ taken
    simp only at ended
    split at ended
    · rename_i empty
      obtain rfl := List.isEmpty_iff.mp empty
      exact ⟨d, (List.append_nil _).symm, fits, Option.some.inj ended⟩
    · cases ended
  · rintro ⟨d, rfl, fits, rfl⟩
    have taken := readDisjunction_complete (readFactor_complete room) d fits [] (stops_nil _)
    simp only [Disjunction.phrase, List.append_nil] at taken
    simp only [read, taken, Option.bind_some, List.isEmpty_nil, if_true]

end Reads
end Cindral.Base.Expression

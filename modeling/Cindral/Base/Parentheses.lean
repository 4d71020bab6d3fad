import Cindral.Base.Expression

/-!
# Parentheses around one operand

A block is an atom with the parentheses that stand directly around it. `says_expand` says that a text
of blocks, each as often closed as opened, means what its tokens mean.
-/

namespace Cindral.Base.Expression

/-- An atom, the `(`s directly before it and the `)`s directly after it. -/
structure Block (α : Type) where
  opens : Nat
  operand : α
  closes : Nat
  deriving DecidableEq, Repr

variable {α V R : Type}

def Meaning.blocks (m : Meaning α V R) : Meaning (Block α) V R :=
  { m with atom := fun b => m.atom b.operand, weight := fun b => m.weight b.operand + b.opens }

def Block.tokens (b : Block α) : List (Lexeme α) :=
  List.replicate b.opens (.operator .opens) ++ .atom b.operand :: List.replicate b.closes
  (.operator .closes)

def Lexeme.expand : Lexeme (Block α) → List (Lexeme α)
  | .operator o => [.operator o]
  | .atom b => b.tokens

def expand (bs : List (Lexeme (Block α))) : List (Lexeme α) := bs.flatMap Lexeme.expand

def Lexeme.IsEven : Lexeme (Block α) → Prop
  | .operator _ => True
  | .atom b => b.opens = b.closes

instance : DecidablePred (@Lexeme.IsEven α)
  | .operator _ => inferInstanceAs (Decidable True)
  | .atom b => inferInstanceAs (Decidable (b.opens = b.closes))

def Balanced (bs : List (Lexeme (Block α))) : Prop := ∀ l ∈ bs, l.IsEven

instance (bs : List (Lexeme (Block α))) : Decidable (Balanced bs) := List.decidableBAll _ bs

/-! ## Finding the blocks -/

def isCloses : Lexeme α → Bool := Lexeme.is .closes

/-- One more `(` before the text. -/
def opening : List (Lexeme (Block α)) → List (Lexeme (Block α))
  | .atom ⟨n + 1, a, k⟩ :: bs => .atom ⟨n + 2, a, k⟩ :: bs
  | .atom ⟨0, a, k⟩ :: .operator .closes :: bs =>
    .atom ⟨1, a, k + (1 + (bs.takeWhile isCloses).length)⟩ :: bs.dropWhile isCloses
  | bs => .operator .opens :: bs

/-- The blocks of a text. An atom that is not both opened and closed is one of its own. -/
def collapse : List (Lexeme α) → List (Lexeme (Block α))
  | [] => []
  | .atom a :: ts => .atom ⟨0, a, 0⟩ :: collapse ts
  | .operator .opens :: ts => opening (collapse ts)
  | .operator o :: ts => .operator o :: collapse ts

theorem expand_cons (l : Lexeme (Block α)) (bs : List (Lexeme (Block α))) :
    expand (l :: bs) = l.expand ++ expand bs :=
  List.flatMap_cons

theorem expand_closes (bs : List (Lexeme (Block α))) :
    List.replicate (bs.takeWhile isCloses).length (.operator .closes) ++
    expand (bs.dropWhile isCloses) = expand bs := by
  induction bs with
  | nil => rfl
  | cons l bs ih =>
    cases l with
    | atom b => rfl
    | operator o =>
      cases o with
      | closes =>
        show List.replicate ((bs.takeWhile isCloses).length + 1) (.operator .closes) ++ expand
          (bs.dropWhile isCloses) = _
        rw [List.replicate_succ, List.cons_append, ih]
        rfl
      | _ => rfl

theorem expand_opening (bs : List (Lexeme (Block α))) :
    expand (opening bs) = .operator .opens :: expand bs := by
  unfold opening
  split
  · rfl
  · rename_i a k bs
    simp only [expand_cons, Lexeme.expand, Block.tokens, List.replicate_succ, List.replicate_zero,
      List.nil_append,
      List.cons_append, List.replicate_add, List.append_assoc, expand_closes]
  · rfl

theorem expand_collapse (ts : List (Lexeme α)) : expand (collapse ts) = ts := by
  fun_induction collapse ts with
  | case1 => rfl
  | case2 a ts ih => rw [expand_cons, ih]; rfl
  | case3 ts ih => rw [expand_opening, ih]
  | case4 o ts _ ih => rw [expand_cons, ih]; rfl

/-! ## A block is its operand -/

section Reads
variable {m : Meaning α V R}

def nested : Nat → α → Operand α
  | 0, a => .atom a
  | n + 1, a => .group (.one (.one (.term (.single (nested n a)))))

theorem nested_tokens (n : Nat) (a : α) : (nested n a).tokens = Block.tokens ⟨n, a, n⟩ := by
  induction n with
  | zero => rfl
  | succ n ih =>
    show .operator .opens :: ((nested n a).tokens ++ [.operator .closes]) = _
    rw [ih]
    simp only [Block.tokens, List.replicate_succ, List.cons_append, List.append_assoc,
      ← List.replicate_succ']

/-- What reads a factor one level further in. -/
def below (m : Meaning α V R) : Nat → Reader α (Reading V R)
  | 0 => fun _ => none
  | room + 1 => readFactor m room

theorem readFactor_eq (room : Nat) : readFactor m room = factorWith m room (below m room) := by
  cases room <;> rfl

theorem readOperand_nested (n : Nat) (a : α) (room : Nat) (rest : List (Lexeme α)) :
    readOperand m room (readDisjunction m (below m room)) ((nested n a).tokens ++ rest) =
      if m.weight a + n ≤ room then some (m.atom a, rest) else none := by
  induction n generalizing room rest with
  | zero => rfl
  | succ n ih =>
    have text : (nested (n + 1) a).tokens ++ rest =
        .operator .opens :: ((nested n a).tokens ++ .operator .closes :: rest) := by
      show .operator .opens :: ((nested n a).tokens ++ [.operator .closes]) ++ rest = _
      rw [List.cons_append, List.append_assoc]
      rfl
    rw [text, readOperand]
    cases room with
    | zero =>
      rw [if_neg (by omega)]
      simp only [readDisjunction, readConjunction, readChain, below, Option.bind_none]
    | succ room =>
      have inner : readFactor m room ((nested n a).tokens ++ .operator .closes :: rest) =
          if m.weight a + n ≤ room then some (⟨m.truth (m.atom a), some (m.atom a)⟩,
            .operator .closes :: rest)
          else none := by
        rw [readFactor_eq, factorWith_operand, readTerm, ih]
        by_cases fits : m.weight a + n ≤ room
        · rw [if_pos fits, if_pos fits, Option.bind_some, compareFrom_stops
            (stops_operator (by decide) rest)]
        · rw [if_neg fits, if_neg fits, Option.bind_none]
      by_cases fits : m.weight a + n ≤ room
      · rw [if_pos fits] at inner
        rw [if_pos (by omega)]
        have ands : Stops [.and] (.operator .closes :: rest) := stops_operator (by decide) rest
        have ors : Stops [.or] (.operator .closes :: rest) := stops_operator (by decide) rest
        simp only [readDisjunction, readConjunction, readChain, below, inner, Option.bind_some,
          chain_stops _ _ ands, chain_stops _ _ ors,
          Meaning.operand, Option.getD_some]
      · rw [if_neg fits] at inner
        rw [if_neg (by omega)]
        simp only [readDisjunction, readConjunction, readChain, below, inner, Option.bind_none]

end Reads

/-! ## Reading blocks, and reading their tokens -/

/-- `h` reads from the tokens of a text of blocks what `g` reads from the text. -/
def Expands {ρ : Type} (g : Reader (Block α) ρ) (h : Reader α ρ) : Prop :=
  ∀ bs, Balanced bs → h (expand bs) = (g bs).map (fun y => (y.1, expand y.2)) ∧ ∀ y, g bs = some y →
  Balanced y.2

theorem expands_none {ρ : Type} (f : ρ × List (Lexeme (Block α)) → ρ × List (Lexeme α)) :
    none = none.map f ∧ ∀ y : ρ × List (Lexeme (Block α)), none = some y → Balanced y.2 := by
  refine ⟨rfl, ?_⟩
  rintro _ ⟨⟩

theorem Balanced.tail {l : Lexeme (Block α)} {bs : List (Lexeme (Block α))}
    (h : Balanced (l :: bs)) : Balanced bs :=
  fun b member => h b (List.mem_cons_of_mem l member)

theorem block_head (b : Block α) : ∃ head tail, b.tokens = head :: tail ∧ ∀ o, head = .operator o →
    o = .opens := by
  obtain ⟨n, a, k⟩ := b
  cases n with
  | zero => exact ⟨_, _, rfl, by rintro o ⟨⟩⟩
  | succ n => exact ⟨_, _, rfl, fun o same => (Lexeme.operator.inj same).symm⟩

theorem stops_block (os : List Operator) (free : .opens ∉ os) (b : Block α)
    (bs : List (Lexeme (Block α))) :
    Stops os (expand (.atom b :: bs)) := by
  obtain ⟨head, tail, begins, opening⟩ := block_head b
  intro o more same
  rw [expand_cons, Lexeme.expand, begins] at same
  rw [opening o (List.cons.inj same).1]
  exact free

theorem countP_expand (o : Operator) (opens : o ≠ .opens) (closes : o ≠ .closes)
    (bs : List (Lexeme (Block α))) :
    (expand bs).countP (Lexeme.is o) = bs.countP (Lexeme.is o) := by
  have none_of (n : Nat) (p : Operator) (other : o ≠ p) :
      (List.replicate n (Lexeme.operator p : Lexeme α)).countP (Lexeme.is o) = 0 := by
    rw [List.countP_replicate, if_neg]
    simpa only [Lexeme.is, decide_eq_true_eq] using other.symm
  induction bs with
  | nil => rfl
  | cons l bs ih =>
    rw [expand_cons, List.countP_append, ih, List.countP_cons, Nat.add_comm]
    congr 1
    cases l with
    | operator p =>
      rw [Lexeme.expand, List.countP_singleton]
      rfl
    | atom b =>
      simp only [Lexeme.expand, Block.tokens, List.countP_append, List.countP_cons,
        none_of _ _ opens, none_of _ _ closes]
      rfl

section Simulation
variable {m : Meaning α V R} {g : Reader (Block α) (Reading V R)} {h : Reader α (Reading V R)}

theorem expands_chain {o : Operator} (opens : o ≠ .opens) {combine : R → R → R}
    (reads : Expands g h) (n : Nat)
    (x : Reading V R) : Expands (chain o combine g n x) (chain o combine h n x) := by
  induction n generalizing x with
  | zero =>
    intro bs even
    refine ⟨rfl, fun y same => ?_⟩
    obtain rfl := Option.some.inj same
    exact even
  | succ n ih =>
    intro bs even
    have stop {bs : List (Lexeme (Block α))} (even : Balanced bs) (left : Stops [o] bs)
        (right : Stops [o] (expand bs)) :
        chain o combine h (n + 1) x (expand bs) = (chain o combine g (n + 1) x bs).map
          (fun y => (y.1, expand y.2)) ∧
          ∀ y, chain o combine g (n + 1) x bs = some y → Balanced y.2 := by
      rw [chain_stops _ _ left, chain_stops _ _ right]
      refine ⟨rfl, fun y same => ?_⟩
      obtain rfl := Option.some.inj same
      exact even
    cases bs with
    | nil => exact stop even (stops_nil _) (stops_nil _)
    | cons l bs =>
      cases l with
      | atom b => exact stop even (stops_atom _ b bs) (stops_block _ (by simpa using opens.symm) b bs)
      | operator p =>
        by_cases same : p = o
        · subst same
          obtain ⟨read, rest⟩ := reads bs even.tail
          have text : expand (.operator p :: bs) = .operator p :: expand bs := rfl
          rw [text, chain_cons, chain_cons, read]
          cases taken : g bs with
          | none => exact expands_none _
          | some y => exact ih _ y.2 (rest y taken)
        · have free : p ∉ [o] := by simpa using same
          exact stop even (stops_operator free bs) (stops_operator free (expand bs))

theorem expands_readChain {o : Operator} (opens : o ≠ .opens) (closes : o ≠ .closes) {combine : R → R → R}
    (reads : Expands g h) : Expands (readChain o combine g) (readChain o combine h) := by
  intro bs even
  obtain ⟨read, rest⟩ := reads bs even
  rw [readChain, readChain, read]
  cases taken : g bs with
  | none => exact expands_none _
  | some y =>
    simp only [Option.map_some, Option.bind_some, countP_expand o opens closes]
    exact expands_chain opens reads _ _ y.2 (rest y taken)

theorem expands_readDisjunction (reads : Expands g h) :
    Expands (readDisjunction m.blocks g) (readDisjunction m h) :=
  expands_readChain (by decide) (by decide) (expands_readChain (by decide) (by decide) reads)

theorem expands_readTerm {g : Reader (Block α) V} {h : Reader α V} (reads : Expands g h) :
    Expands (readTerm m.blocks g) (readTerm m h) := by
  intro bs even
  obtain ⟨read, rest⟩ := reads bs even
  rw [readTerm, readTerm, read]
  cases taken : g bs with
  | none => exact expands_none _
  | some y =>
    obtain ⟨x, bs⟩ := y
    have even : Balanced bs := rest _ taken
    simp only [Option.map_some, Option.bind_some]
    have stop (left : Stops afterTerm bs) (right : Stops afterTerm (expand bs)) :
        compareFrom m h x (expand bs) = (compareFrom m.blocks g x bs).map (fun y => (y.1, expand y.2)) ∧
          ∀ y, compareFrom m.blocks g x bs = some y → Balanced y.2 := by
      rw [compareFrom_stops left, compareFrom_stops right]
      refine ⟨rfl, fun y same => ?_⟩
      obtain rfl := Option.some.inj same
      exact even
    have compared (equal : Bool) (tail : List (Lexeme (Block α))) (even : Balanced tail) :
        (h (expand tail)).map (fun y => ((⟨m.compare equal x y.1, none⟩ : Reading V R), y.2)) =
          ((g tail).map fun y => ((⟨m.compare equal x y.1, none⟩ : Reading V R), y.2)).map
            (fun y => (y.1, expand y.2)) ∧
          ∀ y, ((g tail).map fun y => ((⟨m.compare equal x y.1, none⟩ : Reading V R), y.2)) =
          some y → Balanced y.2 := by
      obtain ⟨read, rest⟩ := reads tail even
      rw [read]
      refine ⟨by simp only [Option.map_map]; rfl, fun y same => ?_⟩
      obtain ⟨z, taken, rfl⟩ := Option.map_eq_some_iff.mp same
      exact rest z taken
    cases bs with
    | nil => exact stop (stops_nil _) (stops_nil _)
    | cons l bs =>
      cases l with
      | atom b => exact stop (stops_atom _ b bs) (stops_block _ (by decide) b bs)
      | operator p =>
        by_cases eq : p = .eq
        · subst eq
          exact compared true bs even.tail
        by_cases ne : p = .ne
        · subst ne
          exact compared false bs even.tail
        have free : p ∉ afterTerm := by simpa [afterTerm] using ⟨eq, ne⟩
        exact stop (stops_operator free bs) (stops_operator free (expand bs))

theorem expands_readOperand {room : Nat} (reads : Expands (below m.blocks room) (below m room)) :
    Expands (readOperand m.blocks room (readDisjunction m.blocks (below m.blocks room)))
      (readOperand m room (readDisjunction m (below m room))) := by
  intro bs even
  cases bs with
  | nil => exact expands_none _
  | cons l bs =>
    cases l with
    | atom b =>
      obtain ⟨n, a, k⟩ := b
      obtain rfl : n = k := even _ List.mem_cons_self
      rw [expand_cons, Lexeme.expand, ← nested_tokens, readOperand_nested, readOperand]
      by_cases fits : m.weight a + n ≤ room
      · have fits' : m.blocks.weight ⟨n, a, n⟩ ≤ room := fits
        rw [if_pos fits, if_pos fits']
        refine ⟨rfl, fun y same => ?_⟩
        obtain rfl := Option.some.inj same
        exact even.tail
      · have fits' : ¬m.blocks.weight ⟨n, a, n⟩ ≤ room := fits
        rw [if_neg fits, if_neg fits']
        exact expands_none _
    | operator o =>
      cases o with
      | opens =>
        obtain ⟨read, rest⟩ := expands_readDisjunction (m := m) reads bs even.tail
        have text : expand (.operator .opens :: bs) = .operator .opens :: expand bs := rfl
        rw [text, readOperand, readOperand, read]
        cases taken : readDisjunction m.blocks (below m.blocks room) bs with
        | none => exact expands_none _
        | some y =>
          obtain ⟨x, bs⟩ := y
          have even : Balanced bs := rest _ taken
          simp only [Option.map_some, Option.bind_some]
          cases bs with
          | nil => exact expands_none _
          | cons l bs =>
            cases l with
            | atom b =>
              obtain ⟨head, tail, begins, opening⟩ := block_head b
              rw [expand_cons, Lexeme.expand, begins]
              refine ⟨?_, by rintro _ ⟨⟩⟩
              cases head with
              | atom a => rfl
              | operator o =>
                obtain rfl := opening o rfl
                rfl
            | operator o =>
              cases o with
              | closes =>
                refine ⟨rfl, fun y same => ?_⟩
                obtain rfl := Option.some.inj same
                exact even.tail
              | _ => exact expands_none _
      | _ => exact expands_none _

theorem expands_factorWith {room : Nat} (reads : Expands (below m.blocks room) (below m room)) :
    Expands (factorWith m.blocks room (below m.blocks room)) (factorWith m room (below m room)) := by
  intro bs even
  cases bs with
  | nil => exact expands_none _
  | cons l bs =>
    cases l with
    | atom b =>
      obtain ⟨n, a, k⟩ := b
      obtain rfl : n = k := even _ List.mem_cons_self
      have simulated := expands_readTerm (m := m) (expands_readOperand reads) _ even
      rw [expand_cons, Lexeme.expand, ← nested_tokens] at simulated ⊢
      rw [factorWith_operand]
      exact simulated
    | operator o =>
      cases o with
      | not =>
        obtain ⟨read, rest⟩ := reads bs even.tail
        have text : expand (.operator .not :: bs) = .operator .not :: expand bs := rfl
        rw [text, factorWith, factorWith, read]
        refine ⟨by simp only [Option.map_map]; rfl, fun y same => ?_⟩
        obtain ⟨z, taken, rfl⟩ := Option.map_eq_some_iff.mp same
        exact rest z taken
      | _ => exact expands_readTerm (m := m) (expands_readOperand reads) _ even

theorem expands_readFactor (room : Nat) : Expands (readFactor m.blocks room) (readFactor m room) := by
  rw [readFactor_eq, readFactor_eq]
  induction room with
  | zero => exact expands_factorWith fun bs even => expands_none _
  | succ room ih =>
    refine expands_factorWith ?_
    show Expands (readFactor m.blocks room) (readFactor m room)
    rw [readFactor_eq, readFactor_eq]
    exact ih

theorem read_expand (room : Nat) {bs : List (Lexeme (Block α))} (even : Balanced bs) :
    read m room (expand bs) = read m.blocks room bs := by
  obtain ⟨same, -⟩ := expands_readDisjunction (expands_readFactor (m := m) room) bs even
  rw [read, read, same]
  cases readDisjunction m.blocks (readFactor m.blocks room) bs with
  | none => rfl
  | some y =>
    obtain ⟨x, rest⟩ := y
    simp only [Option.map_some, Option.bind_some]
    cases rest with
    | nil => rfl
    | cons l rest =>
      cases l with
      | operator o => rfl
      | atom b =>
        obtain ⟨head, tail, begins, -⟩ := block_head b
        rw [expand_cons, Lexeme.expand, begins]
        rfl

theorem says_expand (room : Nat) {bs : List (Lexeme (Block α))} (even : Balanced bs) (verdict : R) :
    Says m.blocks room bs verdict ↔ Says m room (expand bs) verdict := by
  rw [← read_iff, ← read_iff, read_expand room even]

end Simulation
end Cindral.Base.Expression

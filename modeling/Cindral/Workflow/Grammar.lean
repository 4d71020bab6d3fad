import Cindral.Base.Parentheses
import Cindral.Workflow.Condition

/-!
# Conditions read their grammar, but for the shortcut of a group

`evaluateTokens_read` is the evaluator against the grammar: it reads a text as the blocks of operands and
the parentheses around them, and a block is its operand however often it is closed.
-/

namespace Cindral.Workflow
open Base Base.Expression

/-! ## Kleene's connectives -/

def kleeneAnd : Verdict → Verdict → Verdict
  | some false, _ => some false
  | _, some false => some false
  | some true, some true => some true
  | _, _ => none

def kleeneOr : Verdict → Verdict → Verdict
  | some true, _ => some true
  | _, some true => some true
  | some false, some false => some false
  | _, _ => none

theorem either_false (left right : Verdict) : either left right false = kleeneAnd left right := by
  cases left with
  | none => cases right with
    | none => rfl
    | some r => cases r <;> rfl
  | some l => cases right with
    | none => cases l <;> rfl
    | some r => cases l <;> cases r <;> rfl

theorem either_true (left right : Verdict) : either left right true = kleeneOr left right := by
  cases left with
  | none => cases right with
    | none => rfl
    | some r => cases r <;> rfl
  | some l => cases right with
    | none => cases l <;> rfl
    | some r => cases l <;> cases r <;> rfl

/-! ## What a condition means -/

/-- A group of one operand is its value, any other its boolean. -/
def meaning (context : RunContext) : Meaning Atom Value Verdict where
  atom := atomValue context
  weight _ := 0
  truth := truth
  compare := compareValues context
  cast verdict := ⟨asText verdict, .boolean⟩
  not := Option.map (!·)
  and := kleeneAnd
  or := kleeneOr

abbrev BlockText := List (Lexeme (Block Atom))

section Blocks

theorem truth_cast (context : RunContext) (verdict : Verdict) :
    truth ((meaning context).cast verdict) = verdict := by
  cases verdict with
  | none => rfl
  | some value => cases value <;> rfl

theorem opening_cases (bs : BlockText) :
    opening bs = .operator .opens :: bs ∨ ∃ b cs, opening bs = .atom b :: cs := by
  unfold opening
  split
  · exact Or.inr ⟨_, _, rfl⟩
  · exact Or.inr ⟨_, _, rfl⟩
  · exact Or.inl rfl

theorem collapse_operator (o : Operator) (other : o ≠ .opens) (tokens : List Token) :
    collapse (.operator o :: tokens) = .operator o :: collapse tokens := by
  cases o with
  | opens => exact absurd rfl other
  | _ => rfl

/-- Blocks begin with an operator other than `(` where the tokens do. -/
theorem collapse_head {tokens : List Token} {o : Operator} (other : o ≠ .opens) {bs : BlockText}
    (h : collapse tokens = .operator o :: bs) :
    ∃ rest, tokens = .operator o :: rest ∧ bs = collapse rest := by
  cases tokens with
  | nil => cases h
  | cons token rest =>
    cases token with
    | atom a => cases h
    | operator p =>
      by_cases first : p = .opens
      · subst first
        rcases opening_cases (collapse rest) with same | ⟨b, cs, same⟩
        · obtain rfl := Lexeme.operator.inj (List.cons.inj (same.symm.trans h)).1
          exact absurd rfl other
        · cases same.symm.trans h
      · rw [collapse_operator p first] at h
        obtain ⟨same, rfl⟩ := List.cons.inj h
        obtain rfl := Lexeme.operator.inj same
        exact ⟨rest, rfl, rfl⟩

theorem stops_collapse {os : List Operator} (free : .opens ∉ os) {tokens : List Token}
    (stops : Stops os tokens) :
    Stops os (collapse tokens) := by
  intro o bs same member
  have other : o ≠ .opens := by
    rintro rfl
    exact free member
  obtain ⟨rest, rfl, -⟩ := collapse_head other same
  exact stops o rest rfl member

theorem collapse_eq_nil {tokens : List Token} : collapse tokens = [] ↔ tokens = [] := by
  constructor
  · intro h
    rw [← expand_collapse tokens, h]
    rfl
  · rintro rfl
    rfl

theorem countP_collapse (o : Operator) (opens : o ≠ .opens) (closes : o ≠ .closes) (tokens : List Token) :
    (collapse tokens).countP (Lexeme.is o) = tokens.countP (Lexeme.is o) := by
  rw [← countP_expand o opens closes, expand_collapse]

theorem collapse_dropWhile (tokens : List Token) :
    (collapse tokens).dropWhile isCloses = collapse (tokens.dropWhile (Lexeme.is .closes)) := by
  induction tokens with
  | nil => rfl
  | cons token tokens ih =>
    cases token with
    | atom a => rfl
    | operator o =>
      cases o with
      | closes => exact ih
      | opens =>
        show (opening (collapse tokens)).dropWhile isCloses = opening (collapse tokens)
        rcases opening_cases (collapse tokens) with same | ⟨b, cs, same⟩ <;> rw [same] <;> rfl
      | _ => rfl

theorem opening_lone {tokens : List Token} {index : Nat} {atom : Atom} {after : List Token}
    (h : loneOperand tokens = some (index, atom, after)) :
    ∃ closes, opening (collapse tokens) =
      .atom ⟨index + 1, atom, closes⟩ :: collapse (after.dropWhile (Lexeme.is .closes)) := by
  induction tokens generalizing index with
  | nil => cases h
  | cons token tokens ih =>
    cases token with
    | atom a =>
      cases tokens with
      | nil => cases h
      | cons token tokens =>
        cases token with
        | atom b => cases h
        | operator o =>
          cases o with
          | closes =>
            obtain ⟨rfl, same⟩ := Prod.mk.inj (Option.some.inj h)
            obtain ⟨rfl, rfl⟩ := Prod.mk.inj same
            exact ⟨0 + (1 + ((collapse tokens).takeWhile isCloses).length),
              congrArg _ (collapse_dropWhile tokens)⟩
          | _ => cases h
    | operator o =>
      cases o with
      | opens =>
        obtain ⟨⟨i, a, t⟩, found, same⟩ := Option.map_eq_some_iff.mp h
        obtain ⟨rfl, ends⟩ := Prod.mk.inj same
        obtain ⟨rfl, rfl⟩ := Prod.mk.inj ends
        obtain ⟨closes, text⟩ := ih found
        refine ⟨closes, ?_⟩
        show opening (opening (collapse tokens)) = _
        rw [text]
        rfl
      | _ => cases h

theorem opening_not_lone {tokens : List Token} (h : loneOperand tokens = none) :
    opening (collapse tokens) = .operator .opens :: collapse tokens := by
  induction tokens with
  | nil => rfl
  | cons token tokens ih =>
    cases token with
    | atom a =>
      show opening (.atom ⟨0, a, 0⟩ :: collapse tokens) = _
      unfold opening
      split
      · rename_i same
        cases same
      · rename_i same
        obtain ⟨rest, rfl, -⟩ := collapse_head (by decide) (List.cons.inj same).2
        cases h
      · rfl
    | operator o =>
      cases o with
      | opens =>
        have none_left : loneOperand tokens = none := Option.map_eq_none_iff.mp h
        show opening (opening (collapse tokens)) = .operator .opens :: opening (collapse tokens)
        rw [ih none_left]
        rfl
      | _ => rfl

end Blocks

/-! ## The evaluator against the grammar of blocks -/

section Simulation
variable {context : RunContext}

/-- An operand read as a verdict is the verdict's text, or it was one block. -/
def Alone (context : RunContext) (tokens : List Token) (x : Reading Value Verdict)
    (rest : List Token) : Prop :=
  (meaning context).operand x = (meaning context).cast x.verdict ∨ ∃ b, collapse tokens = .atom
  b :: collapse rest

inductive AgreeOn (context : RunContext) (tokens : List Token) :
    Except ConditionError (Verdict × List Token × List String) →
    Option (Reading Value Verdict × BlockText) → Prop where
  | refused (error : ConditionError) : AgreeOn context tokens (.error error) none
  | taken (x : Reading Value Verdict) (rest : List Token) (unread : List String)
      (alone : Alone context tokens x rest) :
    AgreeOn context tokens (.ok (x.verdict, rest, unread)) (some (x, collapse rest))

inductive AgreeOnValue (context : RunContext) (tokens : List Token) :
    Except ConditionError (Value × List Token × List String) → Option (Value × BlockText) → Prop where
  | refused (error : ConditionError) : AgreeOnValue context tokens (.error error) none
  | taken (x : Value) (rest : List Token) (unread : List String)
    (alone : (∃ verdict, x = (meaning context).cast verdict) ∨ ∃ b, collapse tokens = .atom
    b :: collapse rest) :
    AgreeOnValue context tokens (.ok (x, rest, unread)) (some (x, collapse rest))

/-- The evaluator's `code` reads what `grammar` reads from the blocks. -/
def Agree (context : RunContext) (code : Read Verdict)
    (grammar : Reader (Block Atom) (Reading Value Verdict)) : Prop :=
  ∀ tokens unread, AgreeOn context tokens (code tokens unread) (grammar (collapse tokens))

def AgreeValue (context : RunContext) (code : Read Value) (grammar : Reader (Block Atom) Value) : Prop :=
  ∀ tokens unread, AgreeOnValue context tokens (code tokens unread) (grammar (collapse tokens))

variable {code : Read Verdict} {grammar : Reader (Block Atom) (Reading Value Verdict)}

theorem agree_while {o : Operator} {decisive : Bool} (other : o ≠ .opens)
    (agree : Agree context code grammar) (n : Nat)
    (tokens rest : List Token) (x : Reading Value Verdict) (unread : List String)
    (alone : Alone context tokens x rest) :
    AgreeOn context tokens (eitherWhile o decisive code n x.verdict rest unread)
      (chain o (fun l r => either l r decisive) grammar n x (collapse rest)) := by
  induction n generalizing rest x unread with
  | zero => exact .taken x rest unread alone
  | succ n ih =>
    have stop (stops : Stops [o] rest)
        (same : eitherWhile o decisive code (n + 1) x.verdict rest unread = .ok
        (x.verdict, rest, unread)) :
        AgreeOn context tokens (eitherWhile o decisive code (n + 1) x.verdict rest unread)
          (chain o (fun l r => either l r decisive) grammar (n + 1) x (collapse rest)) := by
      rw [same, chain_stops _ _ (stops_collapse (by simpa using other.symm) stops)]
      exact .taken x rest unread alone
    cases rest with
    | nil => exact stop (stops_nil _) rfl
    | cons token rest =>
      cases token with
      | atom a => exact stop (stops_atom _ a rest) rfl
      | operator p =>
        by_cases same : p = o
        · subst same
          rw [collapse_operator p other, chain_cons, eitherWhile, if_pos rfl]
          have read := agree rest unread
          generalize code rest unread = left, grammar (collapse rest) = right at read
          cases read with
          | refused error => exact .refused error
          | taken y rest' unread' _ => exact ih rest' ⟨_, none⟩ unread' (Or.inl rfl)
        · exact stop (stops_operator (by simpa using same) rest) (by rw [eitherWhile, if_neg same])

theorem agree_either {o : Operator} {decisive : Bool} (opens : o ≠ .opens) (closes : o ≠ .closes)
    (agree : Agree context code grammar) :
    Agree context (readEither o decisive code)
    (readChain o (fun l r => either l r decisive) grammar) := by
  intro tokens unread
  rw [readEither, readChain]
  have read := agree tokens unread
  generalize code tokens unread = left, grammar (collapse tokens) = right at read
  cases read with
  | refused error => exact .refused error
  | taken x rest unread' alone =>
    simp only [Option.bind_some, countP_collapse o opens closes]
    exact agree_while opens agree _ tokens rest x unread' alone

theorem agree_or (agree : Agree context code grammar) :
    Agree context (readOr code) (readDisjunction (meaning context).blocks grammar) := by
  have ands : (meaning context).blocks.and = fun l r => either l r false := by
    funext l r
    exact (either_false l r).symm
  have ors : (meaning context).blocks.or = fun l r => either l r true := by
    funext l r
    exact (either_true l r).symm
  rw [readDisjunction, readConjunction, ands, ors]
  exact agree_either (by decide) (by decide) (agree_either (by decide) (by decide) agree)

theorem agree_operand (room : Nat) (agree : Agree context code grammar) :
    AgreeValue context (readOperand context room code)
    (Expression.readOperand (meaning context).blocks room grammar) := by
  intro tokens unread
  cases tokens with
  | nil => exact .refused _
  | cons token tokens =>
    cases token with
    | atom a =>
      have fits : (meaning context).blocks.weight ⟨0, a, 0⟩ ≤ room := Nat.zero_le room
      rw [collapse, Expression.readOperand, if_pos fits]
      exact .taken (atomValue context a) tokens _ (Or.inr ⟨_, rfl⟩)
    | operator o =>
      cases o with
      | opens =>
        rw [readOperand]
        cases lone : loneOperand tokens with
        | some found =>
          obtain ⟨index, atom, after⟩ := found
          obtain ⟨closes, text⟩ := opening_lone lone
          have whole : collapse (.operator .opens :: tokens) = _ := text
          rw [whole]
          show AgreeOnValue _ _ (if index + 1 ≤ room then _ else _)
            (if 0 + (index + 1) ≤ room then _ else _)
          rw [Nat.zero_add]
          by_cases fits : index + 1 ≤ room
          · rw [if_pos fits, if_pos fits]
            exact .taken _ _ _ (Or.inr ⟨_, whole⟩)
          · rw [if_neg fits, if_neg fits]
            exact .refused _
        | none =>
          have text : collapse (.operator .opens :: tokens) = _ := opening_not_lone lone
          rw [text, Expression.readOperand]
          have read := agree tokens unread
          generalize code tokens unread = left, sides : grammar (collapse tokens) = right at read
          cases read with
          | refused error => exact .refused error
          | taken x rest unread' alone =>
            have missing (away : ∀ rest', rest ≠ .operator .closes :: rest') (bs : BlockText)
                (same : collapse rest = .operator .closes :: bs) : False := by
              obtain ⟨rest', same, -⟩ := collapse_head (by decide) same
              exact away rest' same
            simp only [Option.bind_some]
            split
            · rename_i bs same
              obtain ⟨rest', rfl, rfl⟩ := collapse_head (by decide) same
              have value : (meaning context).operand x = (meaning context).cast x.verdict := by
                rcases alone with value | ⟨b, single⟩
                · exact value
                · -- the group would have been one block
                  exfalso
                  obtain ⟨n, a, k⟩ := b
                  have opened : opening (collapse tokens) = _ := opening_not_lone lone
                  rw [single] at opened
                  cases n <;> cases opened
              show AgreeOnValue _ _ (.ok (⟨asText x.verdict, .boolean⟩, rest', unread')) _
              have cast : (meaning context).blocks.operand x = ⟨asText x.verdict, .boolean⟩ := value
              rw [cast]
              exact .taken _ rest' unread' (Or.inl ⟨x.verdict, rfl⟩)
            · rename_i away
              cases rest with
              | nil => exact .refused _
              | cons token rest =>
                cases token with
                | atom a => exact .refused _
                | operator p =>
                  by_cases closing : p = .closes
                  · subst closing
                    exact absurd rfl (away (collapse rest))
                  · cases p <;> first | exact .refused _ | exact absurd rfl closing
      | _ => exact .refused _

theorem agree_compare {operand : Read Value} {reader : Reader (Block Atom) Value}
    (agree : AgreeValue context operand reader)
    (equals : Bool) (tokens : List Token) (left : Value) (tail : List Token) (unread : List String) :
    AgreeOn context tokens (compareWith context operand equals left tail unread)
      ((reader (collapse tail)).map fun y => (⟨compareValues context equals left y.1, none⟩, y.2)) := by
  rw [compareWith]
  have read := agree tail unread
  generalize operand tail unread = result, reader (collapse tail) = right at read
  cases read with
  | refused error => exact .refused error
  | taken y rest unread' _ => exact .taken ⟨_, none⟩ rest unread' (Or.inl rfl)

theorem agree_comparison {operand : Read Value} {reader : Reader (Block Atom) Value}
    (agree : AgreeValue context operand reader) :
    Agree context (readComparison context operand) (readTerm (meaning context).blocks reader) := by
  intro tokens unread
  rw [readComparison, readTerm]
  have read := agree tokens unread
  generalize operand tokens unread = left, reader (collapse tokens) = right at read
  cases read with
  | refused error => exact .refused error
  | taken x rest unread' alone =>
    have single : Alone context tokens ⟨truth x, some x⟩ rest := by
      rcases alone with ⟨verdict, rfl⟩ | block
      · exact Or.inl (congrArg (meaning context).cast (truth_cast context verdict).symm)
      · exact Or.inr block
    simp only [Option.bind_some]
    have stop (stops : Stops afterTerm rest) : AgreeOn context tokens (.ok (truth x, rest, unread'))
        (compareFrom (meaning context).blocks reader x (collapse rest)) := by
      rw [compareFrom_stops (stops_collapse (by decide) stops)]
      exact .taken ⟨truth x, some x⟩ rest unread' single
    cases rest with
    | nil => exact stop (stops_nil _)
    | cons token rest =>
      cases token with
      | atom a => exact stop (stops_atom _ a rest)
      | operator o =>
        by_cases eq : o = .eq
        · subst eq
          exact agree_compare agree true tokens x rest unread'
        by_cases ne : o = .ne
        · subst ne
          exact agree_compare agree false tokens x rest unread'
        have stops : Stops afterTerm (.operator o :: rest) :=
          stops_operator (by simpa [afterTerm] using ⟨eq, ne⟩) rest
        cases o <;> first | exact stop stops | exact absurd rfl eq | exact absurd rfl ne

theorem agree_not {room : Nat} {group : Read Verdict} (deeper : Agree context code grammar)
    (inner : Agree context group (readDisjunction (meaning context).blocks grammar)) :
    Agree context (notWith context room code group)
    (factorWith (meaning context).blocks room grammar) := by
  intro tokens unread
  have other (away : ∀ rest, tokens ≠ .operator .not :: rest) :
      AgreeOn context tokens (readComparison context (readOperand context room group) tokens unread)
        (factorWith (meaning context).blocks room grammar (collapse tokens)) := by
    have same : factorWith (meaning context).blocks room grammar (collapse tokens) =
        readTerm (meaning context).blocks (Expression.readOperand (meaning context).blocks room
          (readDisjunction (meaning context).blocks grammar)) (collapse tokens) := by
      unfold factorWith
      split
      · rename_i same
        obtain ⟨rest, rfl, -⟩ := collapse_head (by decide) same
        exact absurd rfl (away rest)
      · rfl
    rw [same]
    exact agree_comparison (agree_operand room inner) tokens unread
  cases tokens with
  | nil => exact other (by rintro _ ⟨⟩)
  | cons token tokens =>
    cases token with
    | atom a => exact other (by rintro _ ⟨⟩)
    | operator o =>
      by_cases negated : o = .not
      · subst negated
        show AgreeOn context _ _ ((grammar (collapse tokens)).map _)
        rw [notWith]
        have read := deeper tokens unread
        generalize code tokens unread = left, grammar (collapse tokens) = right at read
        cases read with
        | refused error => exact .refused error
        | taken x rest unread' _ => exact .taken ⟨_, none⟩ rest unread' (Or.inl rfl)
      · have away (rest : List Token) : .operator o :: tokens ≠ .operator .not :: rest := fun same =>
          negated (Lexeme.operator.inj (List.cons.inj same).1)
        have agreed := other away
        cases o <;> first | exact agreed | exact absurd rfl negated

theorem agree_readNot (room : Nat) :
    Agree context (readNot context room) (readFactor (meaning context).blocks room) := by
  induction room with
  | zero => exact agree_not (fun _ _ => .refused _) fun _ _ => .refused _
  | succ room ih => exact agree_not ih (agree_or ih)

/-- The evaluator reads the grammar from the blocks of a text. -/
theorem evaluateTokens_read (tokens : List Token) :
    (evaluateTokens context tokens).toOption.map Condition.value =
      Expression.read (meaning context).blocks maxDepth (collapse tokens) := by
  have reads : Agree context _ _ := agree_readNot maxDepth
  have agreed := agree_or reads tokens []
  rw [evaluateTokens, Expression.read]
  by_cases empty : tokens = []
  · subst empty
    rfl
  · rw [if_neg empty]
    generalize readOr (readNot context maxDepth) tokens [] = left,
      readDisjunction (meaning context).blocks (readFactor (meaning context).blocks maxDepth)
      (collapse tokens) = right
      at agreed
    cases agreed with
    | refused error => rfl
    | taken x rest unread _ =>
      simp only [Option.bind_some]
      cases rest with
      | nil => rfl
      | cons token rest =>
        have going : collapse (token :: rest) ≠ [] := fun none_left =>
          List.cons_ne_nil _ _ (collapse_eq_nil.mp none_left)
        rw [if_neg (by simpa using going)]
        cases token <;> rfl

end Simulation

/-! ## Conditions and the grammar -/

section Conditions
variable (context : RunContext)

def Holds (expression : String) (verdict : Verdict) : Prop :=
  ∃ condition, evaluateCondition context expression = .ok condition ∧ condition.value = verdict

/-- Accepted exactly as the grammar has it, with the verdict of the parse tree. -/
def ReadsGrammar (expression : String) : Prop :=
  ∀ verdict, Holds context expression verdict ↔
    ∃ tokens, tokenize expression = .ok tokens ∧ Says (meaning context) maxDepth tokens verdict

/-- What the tokens say once the parentheses directly around an operand are no more than a mark on it. -/
def SaysBlocks (tokens : List Token) (verdict : Verdict) : Prop :=
  Says (meaning context).blocks maxDepth (collapse tokens) verdict

/-- Every operand has as many `)`s directly after it as `(`s directly before it, or none on one side. -/
def Tidy (tokens : List Token) : Prop := Balanced (collapse tokens)

variable {context}

theorem evaluateTokens_iff {tokens : List Token} {verdict : Verdict} :
    (∃ condition, evaluateTokens context tokens = .ok condition ∧ condition.value = verdict) ↔
      SaysBlocks context tokens verdict := by
  rw [SaysBlocks, ← read_iff, ← evaluateTokens_read]
  cases evaluateTokens context tokens with
  | error error =>
    constructor
    · rintro ⟨_, same, -⟩
      cases same
    · intro same
      cases same
  | ok condition =>
    constructor
    · rintro ⟨_, same, rfl⟩
      obtain rfl := Except.ok.inj same
      rfl
    · intro same
      exact ⟨condition, rfl, Option.some.inj same⟩

theorem holds_iff {expression : String} {verdict : Verdict} :
    Holds context expression verdict ↔ ∃ tokens, tokenize expression = .ok tokens ∧
    SaysBlocks context tokens verdict := by
  rw [Holds, evaluateCondition]
  cases tokenize expression with
  | error error =>
    constructor
    · rintro ⟨_, same, -⟩
      cases same
    · rintro ⟨_, same, -⟩
      cases same
  | ok tokens =>
    refine evaluateTokens_iff.trans ⟨fun said => ⟨tokens, rfl, said⟩, ?_⟩
    rintro ⟨_, same, said⟩
    obtain rfl := Except.ok.inj same
    exact said

theorem saysBlocks_tidy {tokens : List Token} (tidy : Tidy tokens) (verdict : Verdict) :
    SaysBlocks context tokens verdict ↔ Says (meaning context) maxDepth tokens verdict := by
  rw [SaysBlocks, says_expand maxDepth tidy, expand_collapse]

/-- A condition is read as the grammar has it exactly when its blocks say what its tokens say, as
they do where every operand is closed as often as it is opened. -/
theorem evaluateCondition_readsGrammar (context : RunContext) (expression : String) :
    (ReadsGrammar context expression ↔ ∀ tokens, tokenize expression = .ok tokens →
      ∀ verdict, SaysBlocks context tokens verdict ↔ Says (meaning context) maxDepth tokens verdict) ∧
    ((∀ tokens, tokenize expression = .ok tokens → Tidy tokens) → ReadsGrammar context expression) := by
  have exactly : ReadsGrammar context expression ↔ ∀ tokens, tokenize expression = .ok tokens →
      ∀ verdict, SaysBlocks context tokens verdict ↔ Says (meaning context) maxDepth tokens verdict := by
    constructor
    · intro reads tokens text verdict
      have same := holds_iff.symm.trans (reads verdict)
      rw [text] at same
      constructor
      · intro said
        obtain ⟨_, ⟨⟩, parsed⟩ := same.mp ⟨tokens, rfl, said⟩
        exact parsed
      · intro parsed
        obtain ⟨_, ⟨⟩, said⟩ := same.mpr ⟨tokens, rfl, parsed⟩
        exact said
    · intro agree verdict
      refine holds_iff.trans ⟨?_, ?_⟩
      · rintro ⟨tokens, text, said⟩
        exact ⟨tokens, text, (agree tokens text verdict).mp said⟩
      · rintro ⟨tokens, text, parsed⟩
        exact ⟨tokens, text, (agree tokens text verdict).mpr parsed⟩
  exact ⟨exactly, fun tidy => exactly.mpr fun tokens text => saysBlocks_tidy (tidy tokens text)⟩

end Conditions

/-- A run that carries its ref and no more. -/
def mainRun : RunContext where
  value path := if path = "github.ref" then some "refs/heads/main" else none
  casefold := lower

theorem repeatedParentheses_readsGrammar :
    ReadsGrammar mainRun "!((github.ref)) == 'x'" ∧
    Holds mainRun "((github.ref)) == 'refs/heads/MAIN'" (some true) := by
  refine ⟨(evaluateCondition_readsGrammar _ _).2 fun tokens text => ?_, ⟨some true, []⟩, ?_, rfl⟩
  · obtain rfl : [.operator .not, .operator .opens, .operator .opens, .atom ⟨.path, "github.ref"⟩,
        .operator .closes,
        .operator .closes, .operator .eq, .atom ⟨.string, "'x'"⟩] = tokens :=
      Except.ok.inj ((show tokenize "!((github.ref)) == 'x'" = .ok _ by decide +kernel).symm.trans text)
    unfold Tidy
    decide
  · decide +kernel

/-- A well-formed condition refused, an unbalanced one accepted, and a skipped job run. -/
theorem groups_not_readsGrammar :
    ¬ReadsGrammar mainRun "((true) && false)" ∧ ¬ReadsGrammar mainRun "(true))" ∧
      ¬ReadsGrammar mainRun "((true) || (false)) && (false)" := by
  refine ⟨fun reads => ?_, fun reads => ?_, fun reads => ?_⟩
  · obtain ⟨condition, accepted, -⟩ := (reads (some false)).mpr
      ⟨[.operator .opens, .operator .opens, .atom ⟨.path, "true"⟩, .operator .closes, .operator .and,
        .atom ⟨.path, "false"⟩, .operator .closes], by decide +kernel, read_iff.mp (by decide +kernel)⟩
    have refused : evaluateCondition mainRun "((true) && false)" = .error (.unreadable ")") := by
      decide +kernel
    cases accepted.symm.trans refused
  · obtain ⟨tokens, text, parsed⟩ := (reads (some true)).mp ⟨⟨some true, []⟩, by decide +kernel, rfl⟩
    obtain rfl : [.operator .opens, .atom ⟨.path, "true"⟩, .operator .closes, .operator .closes] =
        tokens :=
      Except.ok.inj ((show tokenize "(true))" = .ok _ by decide +kernel).symm.trans text)
    exact absurd (read_iff.mpr parsed) (by decide +kernel)
  · obtain ⟨tokens, text, parsed⟩ := (reads (some true)).mp ⟨⟨some true, []⟩, by decide +kernel, rfl⟩
    obtain rfl : [.operator .opens, .operator .opens, .atom ⟨.path, "true"⟩, .operator .closes,
        .operator .or,
        .operator .opens, .atom ⟨.path, "false"⟩, .operator .closes, .operator .closes, .operator .and,
        .operator .opens, .atom ⟨.path, "false"⟩, .operator .closes] = tokens :=
      Except.ok.inj
      ((show tokenize "((true) || (false)) && (false)" = .ok _ by decide +kernel).symm.trans text)
    exact absurd (read_iff.mpr parsed) (by decide +kernel)

end Cindral.Workflow

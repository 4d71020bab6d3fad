import Cindral.Workflow.Condition

/-!
# What more context can change

Two runs read one condition, and the second carries whatever the first does. They take the same tokens in
the same steps, and what the first run could settle the second settles the same way.
-/

namespace Cindral.Workflow
open Base Base.Expression

/-- The second run carries every path of the first, with its value. -/
structure Carries (context context' : RunContext) : Prop where
  value : ∀ path value, context.value path = some value → context'.value path = some value
  casefold : context'.casefold = context.casefold

/-- How one reading goes in the two runs, past the paths found missing `before`. A result that lacks
something has named a path, and any other is the same in the second run. -/
inductive Grown {ρ : Type} (lacks : ρ → Prop) (before : List String) :
    Except ConditionError (ρ × List Token × List String) →
    Except ConditionError (ρ × List Token × List String) → Prop where
  | refused (error : ConditionError) : Grown lacks before (.error error) (.error error)
  | read (x y : ρ) (rest : List Token) (unread unread' : List String) (settled : ¬lacks x → y = x)
    (kept : before ≠ [] → unread ≠ []) (named : lacks x → unread ≠ []) :
    Grown lacks before (.ok (x, rest, unread)) (.ok (y, rest, unread'))

def Undecided (verdict : Verdict) : Prop := verdict = none

def Missing (value : Value) : Prop := value.text = none

def Grows {ρ : Type} (lacks : ρ → Prop) (code code' : Read ρ) : Prop :=
  ∀ tokens unread unread', Grown lacks unread (code tokens unread) (code' tokens unread')

section Combined
variable {left left' right right' : Verdict}

theorem settled_either (decisive : Bool) (settledLeft : ¬Undecided left → left' = left)
    (settledRight : ¬Undecided right → right' = right)
    (decided : ¬Undecided (either left right decisive)) :
    either left' right' decisive = either left right decisive := by
  cases left with
  | some a =>
    obtain rfl := settledLeft (Option.some_ne_none a)
    cases right with
    | some b =>
      obtain rfl := settledRight (Option.some_ne_none b)
      rfl
    | none =>
      -- only a decisive left operand settles the pair
      have settles : some a = some decisive := by
        by_contra other
        exact decided (by simp [either, Undecided, other])
      simp [either, settles]
  | none =>
    cases right with
    | some b =>
      obtain rfl := settledRight (Option.some_ne_none b)
      have settles : some b = some decisive := by
        by_contra other
        exact decided (by simp [either, Undecided, other])
      simp [either, settles]
    | none => exact absurd rfl decided

theorem undecided_either {decisive : Bool} (h : Undecided (either left right decisive)) :
    Undecided left ∨ Undecided right := by
  cases left with
  | none => exact Or.inl rfl
  | some a =>
    cases right with
    | none => exact Or.inr rfl
    | some b =>
      unfold either Undecided at h
      split at h
      · cases h
      · simp at h

end Combined

section Reading
variable {context context' : RunContext} {code code' : Read Verdict} {operand operand' : Read Value}

/-- Two readings one after the other. -/
theorem Grown.bind {ρ τ : Type} {lacks : ρ → Prop} {lacks' : τ → Prop} {before : List String}
    {first first' : Except ConditionError (ρ × List Token × List String)}
    {next next' : ρ × List Token × List String → Except ConditionError (τ × List Token × List String)}
    (h : Grown lacks before first first')
    (grows : ∀ x y rest unread unread', (¬lacks x → y = x) → (before ≠ [] → unread ≠ []) →
      (lacks x → unread ≠ []) →
      Grown lacks' unread (next (x, rest, unread)) (next' (y, rest, unread'))) :
    Grown lacks' before (first >>= next) (first' >>= next') := by
  cases h with
  | refused error => exact .refused error
  | read x y rest unread unread' settled kept named =>
    have after := grows x y rest unread unread' settled kept named
    show Grown lacks' before (next (x, rest, unread)) (next' (y, rest, unread'))
    generalize next (x, rest, unread) = second, next' (y, rest, unread') = second' at after
    cases after with
    | refused error => exact .refused error
    | read x' y' rest' left left' settled' kept' named' =>
      exact .read x' y' rest' left left' settled' (fun some_before => kept' (kept some_before)) named'

theorem grown_while (o : Operator) (decisive : Bool) (grows : Grows Undecided code code') (n : Nat)
    (v w : Verdict)
    (tokens : List Token) (unread unread' : List String) (settled : ¬Undecided v → w = v)
    (named : Undecided v → unread ≠ []) :
    Grown Undecided unread (eitherWhile o decisive code n v tokens unread)
    (eitherWhile o decisive code' n w tokens unread') := by
  induction n generalizing v w tokens unread unread' with
  | zero => exact .read v w _ _ _ settled id named
  | succ n ih =>
    cases tokens with
    | nil => exact .read v w _ _ _ settled id named
    | cons token tail =>
      cases token with
      | atom a => exact .read v w _ _ _ settled id named
      | operator p =>
        simp only [eitherWhile]
        split
        · refine (grows tail unread unread').bind
            fun x y rest left left' settledRight kept namedRight => ?_
          exact ih (either v x decisive) (either w y decisive) rest left left'
            (settled_either decisive settled settledRight)
            fun lacks => (undecided_either lacks).elim (fun here => kept (named here)) namedRight
        · exact .read v w _ _ _ settled id named

theorem grows_either (o : Operator) (decisive : Bool) (grows : Grows Undecided code code') :
    Grows Undecided (readEither o decisive code) (readEither o decisive code') := by
  intro tokens unread unread'
  refine (grows tokens unread unread').bind fun v w rest left left' settled _ named => ?_
  exact grown_while o decisive grows _ v w rest left left' settled named

theorem grows_or (grows : Grows Undecided code code') : Grows Undecided (readOr code) (readOr code') :=
  grows_either .or true (grows_either .and false grows)

theorem atomValue_carried (carries : Carries context context') {atom : Atom}
    (present : ¬Missing (atomValue context atom)) :
    atomValue context' atom = atomValue context atom := by
  unfold Missing at present
  cases kind : atom.kind with
  | string | number => simp only [atomValue, kind]
  | path =>
    simp only [atomValue, kind] at present ⊢
    cases literal : literal? (lower atom.text) with
    | some text => rfl
    | none =>
      cases known : context.value atom.text with
      | some value => simp only [carries.value _ _ known]
      | none => simp [literal, known] at present

theorem grown_atom (carries : Carries context context') (atom : Atom) (rest : List Token)
    (unread unread' : List String) :
    Grown Missing unread (.ok (atomValue context atom, rest, atomUnread context atom unread))
      (.ok (atomValue context' atom, rest, atomUnread context' atom unread')) := by
  refine .read _ _ _ _ _ (atomValue_carried carries) (fun some_before => ?_) fun missing => ?_
  · unfold atomUnread
    split
    · exact List.ne_nil_of_mem (List.mem_insert_self)
    · exact some_before
  · have here : (atomValue context atom).text = none := missing
    rw [atomUnread, if_pos here]
    exact List.ne_nil_of_mem (List.mem_insert_self)

theorem grows_operand (carries : Carries context context') (room : Nat)
    (grows : Grows Undecided code code') :
    Grows Missing (readOperand context room code) (readOperand context' room code') := by
  intro tokens unread unread'
  cases tokens with
  | nil => exact .refused _
  | cons token rest =>
    cases token with
    | atom a => exact grown_atom carries a rest unread unread'
    | operator o =>
      cases o with
      | opens =>
        simp only [readOperand]
        cases loneOperand rest with
        | some found =>
          obtain ⟨index, atom, after⟩ := found
          simp only
          split
          · exact grown_atom carries atom _ unread unread'
          · exact .refused _
        | none =>
          refine (grows rest unread unread').bind fun v w rest left left' settled kept named => ?_
          simp only
          split
          · refine .read _ _ _ _ _ (fun present => ?_) id fun missing => ?_
            · have decided : ¬Undecided v := fun lacks => present (by rw [lacks]; rfl)
              rw [settled decided]
            · refine named ?_
              cases v with
              | none => rfl
              | some b => cases b <;> cases missing
          · exact .refused _
      | _ => exact .refused _

theorem undecided_truth {x : Value} : Undecided (truth x) ↔ Missing x := by
  unfold truth Undecided Missing
  split
  · exact Option.map_eq_none_iff
  · exact Option.map_eq_none_iff

theorem undecided_compare {equals : Bool} {x y : Value} :
    Undecided (compareValues context equals x y) ↔ Missing x ∨ Missing y := by
  unfold compareValues Undecided Missing
  cases x.text with
  | none => simp
  | some l => cases y.text <;> simp

theorem compareValues_carried (carries : Carries context context') (equals : Bool) (x y : Value) :
    compareValues context' equals x y = compareValues context equals x y := by
  have same (l r : String) (k k' : ValueKind) : equal context' l k r k' = equal context l k r k' := by
    simp only [equal, carries.casefold]
  simp only [compareValues, same]

theorem grows_comparison (carries : Carries context context') (grows : Grows Missing operand operand') :
    Grows Undecided (readComparison context operand) (readComparison context' operand') := by
  have alone (x y : Value) (rest : List Token) (left left' : List String) (settled : ¬Missing x → y = x)
      (named : Missing x → left ≠ []) : Grown Undecided left (.ok (truth x, rest, left))
      (.ok (truth y, rest, left')) := by
    refine .read _ _ _ _ _ (fun decided => ?_) id fun undecided => named (undecided_truth.mp undecided)
    rw [settled fun missing => decided (undecided_truth.mpr missing)]
  have pair (equals : Bool) (x y : Value) (tail : List Token) (left left' : List String)
      (settled : ¬Missing x → y = x)
      (named : Missing x → left ≠ []) :
      Grown Undecided left (compareWith context operand equals x tail left)
        (compareWith context' operand' equals y tail left') := by
    refine (grows tail left left').bind fun x' y' rest over' over'' settledRight kept namedRight => ?_
    refine .read _ _ _ _ _ (fun decided => ?_) id fun undecided => ?_
    · have both : ¬Missing x ∧ ¬Missing x' :=
        not_or.mp fun missing => decided (undecided_compare.mpr missing)
      rw [settled both.1, settledRight both.2, compareValues_carried carries]
    · exact (undecided_compare.mp undecided).elim (fun missing => kept (named missing)) namedRight
  intro tokens unread unread'
  refine (grows tokens unread unread').bind fun x y rest left left' settled kept named => ?_
  simp only
  split
  · exact pair true x y _ left left' settled named
  · exact pair false x y _ left left' settled named
  · exact alone x y _ left left' settled named

theorem grows_not (carries : Carries context context') (room : Nat) {group group' : Read Verdict}
    (deeper : Grows Undecided code code') (grows : Grows Undecided group group') :
    Grows Undecided (notWith context room code group) (notWith context' room code' group') := by
  have plain := grows_comparison carries (grows_operand carries room grows)
  intro tokens unread unread'
  cases tokens with
  | nil => exact plain [] unread unread'
  | cons token tail =>
    cases token with
    | atom a => exact plain _ unread unread'
    | operator o =>
      cases o with
      | not =>
        refine (deeper tail unread unread').bind fun v w rest left left' settled kept named => ?_
        refine .read _ _ _ _ _ (fun decided => ?_) id fun undecided =>
          named (Option.map_eq_none_iff.mp undecided)
        rw [settled fun lacks => decided (Option.map_eq_none_iff.mpr lacks)]
      | _ => exact plain _ unread unread'

/-- The induction is on the room that is left, as in the source on the depth. -/
theorem grows_readNot (carries : Carries context context') (room : Nat) :
    Grows Undecided (readNot context room) (readNot context' room) := by
  have refused (what : String) : Grows Undecided (refuse (.nests what)) (refuse (.nests what)) :=
    fun _ _ _ => .refused _
  induction room with
  | zero => exact grows_not carries 0 (refused "terms") (refused "parentheses")
  | succ room ih => exact grows_not carries (room + 1) ih (grows_or ih)

theorem evaluateTokens_grown (carries : Carries context context') (tokens : List Token)
    {verdict : Condition}
    (h : evaluateTokens context tokens = .ok verdict) :
    (verdict.value = none ↔ verdict.unread ≠ []) ∧ ∃ verdict', evaluateTokens context' tokens = .ok
      verdict' ∧
      ∀ value, verdict.value = some value → verdict'.value = some value := by
  unfold evaluateTokens at h ⊢
  split at h
  · cases h
  · rename_i some_token
    rw [if_neg some_token]
    have read := grows_or (grows_readNot carries maxDepth) tokens [] []
    generalize readOr (readNot context maxDepth) tokens [] = first,
      readOr (readNot context' maxDepth) tokens [] = second at read h
    cases read with
    | refused error => cases h
    | read v w rest unread unread' settled kept named =>
      cases rest with
      | cons token rest =>
        cases token with
        | atom a => cases h
        | operator o => cases h
      | nil =>
        obtain rfl := Except.ok.inj h
        refine ⟨?_, _, rfl, fun value decided => ?_⟩
        · cases v with
          | some value => simp
          | none =>
            have sorted : unread.mergeSort ≠ [] := fun empty =>
              named rfl (List.length_eq_zero_iff.mp (by rw [← List.length_mergeSort, empty]; rfl))
            exact iff_of_true rfl sorted
        · have same : w = v :=
            settled (by rw [show v = some value from decided]; exact Option.some_ne_none value)
          exact same.trans decided

theorem evaluateCondition_grown (carries : Carries context context') {expression : String}
    {verdict : Condition}
    (h : evaluateCondition context expression = .ok verdict) :
    (verdict.value = none ↔ verdict.unread ≠ []) ∧ ∃ verdict', evaluateCondition context'
      expression = .ok verdict' ∧
      ∀ value, verdict.value = some value → verdict'.value = some value := by
  unfold evaluateCondition at h ⊢
  cases tokens : tokenize expression with
  | error error =>
    rw [tokens] at h
    cases h
  | ok tokens' =>
    rw [tokens] at h
    exact evaluateTokens_grown carries tokens' h

end Reading

/-- A condition that is decided names no path, and one that is not names some. What it is decided to
be stays so for a run that carries more. -/
theorem condition_monotone {context : RunContext} {expression : String} {verdict : Condition}
    (h : evaluateCondition context expression = .ok verdict) :
    (verdict.unread = [] ↔ verdict.value.isSome = true) ∧
    ∀ context', Carries context context' → ∀ value, verdict.value = some value →
      ∃ verdict', evaluateCondition context' expression = .ok verdict' ∧ verdict'.value = some value := by
  have own := (evaluateCondition_grown ⟨fun _ _ same => same, rfl⟩ h).1
  refine ⟨?_, fun context' carries value decided => ?_⟩
  · rw [Option.isSome_iff_ne_none, ne_eq, own, not_not]
  · obtain ⟨verdict', evaluated, same⟩ := (evaluateCondition_grown carries h).2
    exact ⟨verdict', evaluated, same value decided⟩

def bareRun : RunContext where
  value path := if path = "github.event_name" then some "push" else none
  casefold := lower

def branchRun : RunContext where
  value path := if path = "github.event_name" then some "push" else if path =
    "github.ref" then some "refs/heads/main" else none
  casefold := lower

/-- The event settles the second operand, and the branch the first run does not know is never missed. -/
theorem push_settles_unknown_branch :
    ∃ verdict', evaluateCondition branchRun
      "github.ref == 'refs/heads/dev' || github.event_name == 'push'" = .ok verdict' ∧
      verdict'.value = some true := by
  have settles : evaluateCondition bareRun
      "github.ref == 'refs/heads/dev' || github.event_name == 'push'" =
      .ok ⟨some true, []⟩ := by decide +kernel
  refine (condition_monotone settles).2 branchRun ⟨fun path value known => ?_, rfl⟩ true rfl
  simp only [bareRun] at known
  split at known
  · rename_i event
    obtain rfl := Option.some.inj known
    simp only [branchRun, if_pos event]
  · cases known

end Cindral.Workflow

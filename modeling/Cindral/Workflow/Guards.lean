import Cindral.Base.Outcome
import Cindral.Workflow.Expansion
import Cindral.Workflow.Grammar
import Cindral.Workflow.Lexing

/-!
# The guards of an inlined job

An inlined job has the guards of the calls on its path and its own, joined text by text.
`inlinedJob_guards` says when the joined text is the conjunction of what the guards say.
-/

namespace Cindral.Workflow
open Base Base.Expression

/-! ## The guards on a path -/

section Paths
variable {Path Inputs : Type} (repository : Repository Path Inputs)

/-- A job of the expanded jobs, with the guards of the calls that lead to it and its own. -/
inductive Inlined : Fields → Option Inputs → String → List (Option String) → Prop where
  | own {jobs : Fields} {inputs : Option Inputs} {id : String} {job : Json} (member : (id, job) ∈ jobs)
    (plain : uses job = none) : Inlined jobs inputs id [conditionOf job]
  | call {jobs : Fields} {inputs : Option Inputs} {id : String} {job : Json} {path : Path}
      {called : String}
    {calledJobs : Fields} {calledEnv : List (String × String)} {calledId : String} {guard : Option String}
    {guards : List (Option String)} (member : (id, job) ∈ jobs) (calls : uses job = some called)
    (read : repository.readCall path called id (job.get "with") = .ok (calledJobs, calledEnv))
    (guarded : callerGuard repository id job inputs = .ok guard)
    (inner : Inlined calledJobs none calledId guards) :
    Inlined jobs inputs s!"{id}/{calledId}" (guard :: guards)

def joinedText (guards : List (Option String)) : Option String := guards.foldr combinedCondition none

theorem combinedCondition_none (condition : Option String) :
    combinedCondition condition none = condition := by
  cases condition <;> rfl

theorem mem_setField {key name : String} {value job : Json} {fields : Fields}
    (h : (name, job) ∈ setField key value fields) :
    (name, job) ∈ fields ∨ (name = key ∧ job = value) := by
  unfold setField at h
  split at h
  · obtain ⟨field, member, same⟩ := List.mem_map.mp h
    split at same
    · cases same
      exact Or.inr ⟨rfl, rfl⟩
    · cases same
      exact Or.inl member
  · rcases List.mem_append.mp h with member | member
    · exact Or.inl member
    · cases List.mem_singleton.mp member
      exact Or.inr ⟨rfl, rfl⟩

theorem conditionOf_conditionJson (condition : Option String) (fields : Fields) :
    conditionOf (.obj (setField "if" (conditionJson condition) fields)) = condition := by
  unfold conditionOf
  rw [get_setField_self]
  cases condition <;> rfl

variable {repository}

theorem mergedJob_condition {jobId : String} {rawJob : Json} {inputs : Option Inputs}
    {env : List (String × String)}
    {calledJob merged : Fields} (h : mergedJob repository jobId rawJob inputs env calledJob = .ok
    merged) :
    ∃ guard, callerGuard repository jobId rawJob inputs = .ok guard ∧
      conditionOf (.obj merged) = combinedCondition guard (conditionOf (.obj calledJob)) := by
  obtain ⟨own, -, h⟩ := bind_ok h
  obtain ⟨guard, guarded, h⟩ := bind_ok h
  cases h
  exact ⟨guard, guarded, conditionOf_conditionJson _ _⟩

/-- What holds of every job of an expansion: its condition is the joined text of the guards on a
path to it. -/
def Explained (repository : Repository Path Inputs) (jobs : Fields) (inputs : Option Inputs)
    (expanded : Fields) : Prop :=
  ∀ id merged, (id, merged) ∈ expanded → ∃ guards, Inlined repository jobs inputs id guards ∧
    conditionOf merged = joinedText guards

theorem inlineJobs_explained {jobs : Fields} {inputs : Option Inputs} {jobId called : String}
    {rawJob : Json} {path : Path}
    {calledJobs : Fields} {calledEnv : List (String × String)} (member : (jobId, rawJob) ∈ jobs)
    (calls : uses rawJob = some called)
    (read : repository.readCall path called jobId (rawJob.get "with") = .ok (calledJobs, calledEnv))
    {inner expanded result : Fields} (explained : Explained repository calledJobs none inner)
    (before : Explained repository jobs inputs expanded)
    (h : inlineJobs repository jobId rawJob inputs calledEnv expanded inner = .ok result) :
    Explained repository jobs inputs result := by
  induction inner generalizing expanded with
  | nil =>
    cases h
    exact before
  | cons job rest ih =>
    obtain ⟨calledId, calledJob⟩ := job
    have rest_explained : Explained repository calledJobs none rest := fun id merged inside =>
      explained id merged (List.mem_cons_of_mem _ inside)
    cases calledJob with
    | obj fields =>
      obtain ⟨merged, made, h⟩ := bind_ok h
      refine ih rest_explained (fun id job inside => ?_) h
      rcases mem_setField inside with old | ⟨rfl, rfl⟩
      · exact before id job old
      · obtain ⟨guards, inlined, condition⟩ := explained calledId (.obj fields) List.mem_cons_self
        obtain ⟨guard, guarded, joined⟩ := mergedJob_condition made
        exact ⟨guard :: guards, .call member calls read guarded inlined, by rw [joined, condition]; rfl⟩
    | _ => exact ih rest_explained before h

variable [DecidableEq Path]

theorem expandJobs_explained {deeper : Fields → List Path → Except WorkflowError Fields}
    {seen : List Path}
    {inputs : Option Inputs}
    (inner : ∀ jobs seen result, deeper jobs seen = .ok result → Explained repository jobs none result)
    {jobs left expanded result : Fields} (here : ∀ job ∈ left, job ∈ jobs)
    (before : Explained repository jobs inputs expanded)
    (h : expandJobs repository deeper seen inputs expanded left = .ok result) :
    Explained repository jobs inputs result := by
  induction left generalizing expanded with
  | nil =>
    cases h
    exact before
  | cons job rest ih =>
    obtain ⟨jobId, rawJob⟩ := job
    have here_rest : ∀ job ∈ rest, job ∈ jobs :=
      fun job inside => here job (List.mem_cons_of_mem _ inside)
    have member := here _ List.mem_cons_self
    rw [expandJobs] at h
    split at h
    · rename_i called calls
      obtain ⟨path, -, h⟩ := bind_ok h
      obtain ⟨_, -, h⟩ := bind_ok h
      obtain ⟨⟨calledJobs, calledEnv⟩, read, h⟩ := bind_ok h
      obtain ⟨found, inside, h⟩ := bind_ok h
      obtain ⟨added, inlined, h⟩ := bind_ok h
      exact ih here_rest (inlineJobs_explained member calls read (inner _ _ _ inside) before inlined) h
    · rename_i plain
      refine ih here_rest (fun id merged inside => ?_) h
      rcases mem_setField inside with old | ⟨rfl, rfl⟩
      · exact before id merged old
      · exact ⟨_, .own member plain, (combinedCondition_none _).symm⟩

/-- Every job of an expansion has the joined text of the guards on a path to it. -/
theorem expandCalls_explained {turns : Nat} {jobs : Fields} {seen : List Path}
    {inputs : Option Inputs} {expanded : Fields}
    (h : expandCalls repository turns jobs seen inputs = .ok expanded) :
    Explained repository jobs inputs expanded := by
  induction turns generalizing jobs seen inputs expanded with
  | zero => cases h
  | succ turns ih =>
    exact expandJobs_explained (fun jobs seen result inner => ih inner) (fun job member => member)
      (fun id merged inside => absurd inside List.not_mem_nil) h

end Paths

/-! ## What guards say -/

section Verdicts
variable (context : RunContext)

/-- No guard is a guard that holds. -/
def GuardReads : Option String → Verdict → Prop
  | none, verdict => verdict = some true
  | some guard, verdict => Holds context guard verdict

def conjunction (verdicts : List Verdict) : Verdict := verdicts.foldr kleeneAnd (some true)

/-- Where every guard is read, the condition says their conjunction, and the job runs if each of
them lets it. -/
def GuardsKept (jobId : String) (guards : List (Option String)) (condition : Option String) : Prop :=
  ∀ verdicts, List.Forall₂ (GuardReads context) guards verdicts →
    GuardReads context condition (conjunction verdicts) ∧
      (jobRuns jobId condition (.ok context) = .ok true ↔
        ∀ guard ∈ guards, jobRuns jobId guard (.ok context) = .ok true)

def TokensOf : Option String → Option (List Token) → Prop
  | none, tokens => tokens = none
  | some guard, tokens => ∃ text, tokenize guard = .ok text ∧ tokens = some text

def combinedTokens : Option (List Token) → Option (List Token) → Option (List Token)
  | some left, some right => some (.operator .opens :: (left ++ .operator .closes :: .operator .and ::
      .operator .opens :: (right ++ [.operator .closes])))
  | some left, none => some left
  | none, right => right

def joinedTokens (tokens : List (Option (List Token))) : Option (List Token) :=
  tokens.foldr combinedTokens none

/-- `SaysBlocks` of a guard. -/
def GuardSays : Option (List Token) → Verdict → Prop
  | none, verdict => verdict = some true
  | some tokens, verdict => SaysBlocks context tokens verdict

/-- The blocks of the joined guards say the conjunction of what the blocks of each say. -/
def BlocksJoin (guards : List (Option String)) : Prop :=
  ∀ tokens verdicts, List.Forall₂ TokensOf guards tokens → List.Forall₂ (GuardSays context) tokens
    verdicts →
    GuardSays context (joinedTokens tokens) (conjunction verdicts)

variable {context}

theorem kleeneAnd_true (verdict : Verdict) : kleeneAnd verdict (some true) = verdict := by
  cases verdict with
  | none => rfl
  | some value => cases value <;> rfl

theorem conjunction_true_cons (verdicts : List Verdict) :
    conjunction (some true :: verdicts) = conjunction verdicts := by
  show kleeneAnd (some true) (conjunction verdicts) = _
  cases conjunction verdicts with
  | none => rfl
  | some value => cases value <;> rfl

theorem kleeneAnd_eq_true {left right : Verdict} :
    kleeneAnd left right = some true ↔ left = some true ∧ right = some true := by
  cases left with
  | none =>
    cases right with
    | none => simp [kleeneAnd]
    | some r => cases r <;> simp [kleeneAnd]
  | some l =>
    cases right with
    | none => cases l <;> simp [kleeneAnd]
    | some r => cases l <;> cases r <;> simp [kleeneAnd]

theorem tokensOf_joined {guards : List (Option String)} {tokens : List (Option (List Token))}
    (h : List.Forall₂ TokensOf guards tokens) : TokensOf (joinedText guards) (joinedTokens tokens) := by
  induction h with
  | nil => exact rfl
  | @cons guard text guards texts here _ ih =>
    show TokensOf (combinedCondition guard (joinedText guards)) (combinedTokens text (joinedTokens texts))
    cases guard with
    | none =>
      obtain rfl := here
      exact ih
    | some guard =>
      obtain ⟨left, lexed, rfl⟩ := here
      cases joined : joinedText guards with
      | none =>
        rw [joined] at ih
        have none_left : joinedTokens texts = none := ih
        rw [none_left]
        exact ⟨left, lexed, rfl⟩
      | some rest =>
        rw [joined] at ih
        obtain ⟨right, lexed', same⟩ := ih
        rw [same]
        exact ⟨_, tokenize_combined lexed lexed', rfl⟩

theorem guardReads_iff {guard : Option String} {tokens : Option (List Token)} (h : TokensOf guard tokens)
    (verdict : Verdict) : GuardReads context guard verdict ↔ GuardSays context tokens verdict := by
  cases guard with
  | none =>
    obtain rfl := h
    exact Iff.rfl
  | some guard =>
    obtain ⟨text, lexed, rfl⟩ := h
    refine holds_iff.trans ⟨?_, fun said => ⟨text, lexed, said⟩⟩
    rintro ⟨text', lexed', said⟩
    obtain rfl := Except.ok.inj (lexed.symm.trans lexed')
    exact said

theorem guardReads_tokens {guard : Option String} {verdict : Verdict}
    (h : GuardReads context guard verdict) :
    ∃ tokens, TokensOf guard tokens := by
  cases guard with
  | none => exact ⟨none, rfl⟩
  | some guard =>
    obtain ⟨text, lexed, -⟩ := holds_iff.mp h
    exact ⟨some text, text, lexed, rfl⟩

theorem guardsRead_tokens {guards : List (Option String)} {verdicts : List Verdict}
    (h : List.Forall₂ (GuardReads context) guards verdicts) :
    ∃ tokens, List.Forall₂ TokensOf guards tokens ∧ List.Forall₂ (GuardSays context) tokens verdicts := by
  induction h with
  | nil => exact ⟨[], .nil, .nil⟩
  | cons here _ ih =>
    obtain ⟨tokens, texts, said⟩ := ih
    obtain ⟨first, text⟩ := guardReads_tokens here
    exact ⟨first :: tokens, .cons text texts, .cons ((guardReads_iff text _).mp here) said⟩

theorem guardsSay_read {guards : List (Option String)} {tokens : List (Option (List Token))}
    {verdicts : List Verdict}
    (texts : List.Forall₂ TokensOf guards tokens)
    (said : List.Forall₂ (GuardSays context) tokens verdicts) :
    List.Forall₂ (GuardReads context) guards verdicts := by
  induction texts generalizing verdicts with
  | nil =>
    cases said
    exact .nil
  | cons text _ ih =>
    cases said with
    | cons here rest => exact .cons ((guardReads_iff text _).mpr here) (ih rest)

/-! ## Running -/

theorem jobRuns_iff {jobId : String} {guard : Option String} {verdict : Verdict}
    (h : GuardReads context guard verdict) :
    jobRuns jobId guard (.ok context) = .ok true ↔ verdict = some true := by
  cases guard with
  | none =>
    obtain rfl := h
    exact ⟨fun _ => rfl, fun _ => rfl⟩
  | some guard =>
    obtain ⟨⟨value, unread⟩, evaluated, rfl⟩ := h
    unfold jobRuns
    simp only [evaluated]
    cases value with
    | none =>
      constructor
      · intro same
        cases same
      · intro same
        cases same
    | some value =>
      constructor
      · intro same
        cases same
        rfl
      · intro same
        cases same
        rfl

theorem conjunction_true {guards : List (Option String)} {verdicts : List Verdict} {jobId : String}
    (h : List.Forall₂ (GuardReads context) guards verdicts) :
    conjunction verdicts = some true ↔ ∀ guard ∈ guards, jobRuns jobId guard (.ok context) = .ok
    true := by
  induction h with
  | nil => exact ⟨fun _ guard member => absurd member List.not_mem_nil, fun _ => rfl⟩
  | @cons guard verdict guards verdicts here _ ih =>
    show kleeneAnd verdict (conjunction verdicts) = some true ↔ _
    rw [kleeneAnd_eq_true, ih, List.forall_mem_cons, jobRuns_iff here]

theorem guardsKept_iff {jobId : String} {guards : List (Option String)} :
    GuardsKept context jobId guards (joinedText guards) ↔ BlocksJoin context guards := by
  constructor
  · intro kept tokens verdicts texts said
    exact (guardReads_iff (tokensOf_joined texts) _).mp (kept verdicts (guardsSay_read texts said)).1
  · intro join verdicts read
    obtain ⟨tokens, texts, said⟩ := guardsRead_tokens read
    have whole := (guardReads_iff (tokensOf_joined texts) _).mpr (join tokens verdicts texts said)
    exact ⟨whole, (jobRuns_iff whole).trans (conjunction_true read)⟩

end Verdicts

/-! ## Tidy guards -/

section Tidiness
variable (context : RunContext)

/-- The tokens are an expression of the grammar that nests at most `room` deep. -/
def NestsWithin (room : Nat) (tokens : List Token) : Prop :=
  ∃ d : Disjunction Atom, d.tokens = tokens ∧ d.depth (meaning context) ≤ room

/-- Each guard still fits, in the parentheses the ones before it are joined by. -/
def GuardsNest : Nat → List (Option (List Token)) → Prop
  | _, [] => True
  | room, none :: rest => GuardsNest room rest
  | room, some tokens :: rest =>
    if joinedTokens rest = none then NestsWithin context room tokens
    else ∃ inner, room = inner + 1 ∧ NestsWithin context inner tokens ∧ GuardsNest inner rest

def GuardTidy : Option (List Token) → Prop
  | none => True
  | some tokens => Tidy tokens

/-- Every operand of the guards, and of the joined guards, is closed as often as it is opened, and
the joined guards nest no deeper than a condition may. -/
def Orderly (guards : List (Option String)) : Prop :=
  ∀ tokens, List.Forall₂ TokensOf guards tokens →
    (∀ text ∈ tokens, GuardTidy text) ∧ GuardTidy (joinedTokens tokens) ∧
    GuardsNest context maxDepth tokens

variable {context}

theorem term_lone {t : Term Atom} {value : Value} (h : (t.meaning (meaning context)).lone = some value) :
    truth value = (t.meaning (meaning context)).verdict := by
  cases t with
  | single o =>
    obtain rfl := Option.some.inj h
    rfl
  | compare equal left right => cases h

/-- A group's verdict is the truth of its value. -/
theorem truth_operand (d : Disjunction Atom) :
    truth ((meaning context).operand (d.meaning (meaning context))) =
    (d.meaning (meaning context)).verdict := by
  cases single : (d.meaning (meaning context)).lone with
  | none =>
    rw [Meaning.operand, single]
    exact truth_cast context _
  | some value =>
    rw [Meaning.operand, single]
    cases d with
    | or d c => cases single
    | one c =>
      cases c with
      | and c f => cases single
      | one f =>
        cases f with
        | negated f => cases single
        | term t => exact term_lone single

theorem says_combined {room : Nat} {left right : List Token} {v w : Verdict}
    (hl : Says (meaning context) room left v)
    (hr : Says (meaning context) room right w) :
    Says (meaning context) (room + 1) (.operator .opens :: (left ++ .operator .closes :: .operator .and ::
      .operator .opens :: (right ++ [.operator .closes]))) (kleeneAnd v w) := by
  obtain ⟨l, rfl, fits, rfl⟩ := hl
  obtain ⟨r, rfl, small, rfl⟩ := hr
  refine ⟨.one (.and (.one (.term (.single (.group l)))) (.term (.single (.group r)))), ?_, ?_, ?_⟩
  · simp only [Disjunction.tokens, Conjunction.tokens, Factor.tokens, Term.tokens, Operand.tokens,
      List.cons_append,
      List.append_assoc, List.nil_append]
  · exact Nat.max_le.mpr ⟨Nat.succ_le_succ fits, Nat.succ_le_succ small⟩
  · show kleeneAnd (truth ((meaning context).operand _)) (truth ((meaning context).operand _)) = _
    rw [truth_operand, truth_operand]

theorem says_unique {room : Nat} {tokens : List Token} {v w : Verdict}
    (hv : Says (meaning context) room tokens v)
    (hw : Says (meaning context) room tokens w) : v = w :=
  Option.some.inj ((read_iff.mpr hv).symm.trans (read_iff.mpr hw))

theorem says_within {room : Nat} (low : room ≤ maxDepth) {tokens : List Token} {verdict : Verdict}
    (h : Says (meaning context) maxDepth tokens verdict) (fits : NestsWithin context room tokens) :
    Says (meaning context) room tokens verdict := by
  obtain ⟨d, rfl, small⟩ := fits
  obtain rfl := says_unique h ⟨d, rfl, Nat.le_trans small low, rfl⟩
  exact ⟨d, rfl, small, rfl⟩

theorem joinedTokens_none {tokens : List (Option (List Token))} {verdicts : List Verdict}
    (said : List.Forall₂ (GuardSays context) tokens verdicts) (h : joinedTokens tokens = none) :
    conjunction verdicts = some true := by
  induction said with
  | nil => rfl
  | @cons text verdict texts verdicts here _ ih =>
    cases text with
    | none =>
      obtain rfl := here
      rw [conjunction_true_cons]
      exact ih h
    | some left =>
      have joined : combinedTokens (some left) (joinedTokens texts) = none := h
      cases rest : joinedTokens texts <;> rw [rest] at joined <;> cases joined

/-- What the grammar says of a guard that nests at most `room` deep. -/
def GrammarSays (context : RunContext) (room : Nat) : Option (List Token) → Verdict → Prop
  | none, verdict => verdict = some true
  | some tokens, verdict => Says (meaning context) room tokens verdict

theorem guardsNest_says {room : Nat} (low : room ≤ maxDepth) {tokens : List (Option (List Token))}
    {verdicts : List Verdict}
    (nest : GuardsNest context room tokens) (tidy : ∀ text ∈ tokens, GuardTidy text)
    (said : List.Forall₂ (GuardSays context) tokens verdicts) :
    GrammarSays context room (joinedTokens tokens) (conjunction verdicts) := by
  induction said generalizing room with
  | nil => exact rfl
  | @cons text verdict texts verdicts here rest_said ih =>
    have tidy_rest : ∀ text ∈ texts, GuardTidy text :=
      fun text member => tidy text (List.mem_cons_of_mem _ member)
    cases text with
    | none =>
      obtain rfl := here
      rw [conjunction_true_cons]
      exact ih low nest tidy_rest
    | some left =>
      have whole : Says (meaning context) maxDepth left verdict :=
        (saysBlocks_tidy (tidy _ List.mem_cons_self) _).mp here
      show GrammarSays context room (combinedTokens (some left) (joinedTokens texts))
        (kleeneAnd verdict (conjunction verdicts))
      unfold GuardsNest at nest
      split at nest
      · rename_i last
        rw [last, joinedTokens_none rest_said last, kleeneAnd_true]
        exact says_within low whole nest
      · rename_i more
        obtain ⟨inner, rfl, fits, nest⟩ := nest
        have low' : inner ≤ maxDepth := Nat.le_of_succ_le low
        have rest := ih low' nest tidy_rest
        cases joined : joinedTokens texts with
        | none => exact absurd joined more
        | some right =>
          rw [joined] at rest
          exact says_combined (says_within low' whole fits) rest

theorem orderly_blocksJoin {guards : List (Option String)} (orderly : Orderly context guards) :
    BlocksJoin context guards := by
  intro tokens verdicts texts said
  obtain ⟨tidy, tidy_joined, nest⟩ := orderly tokens texts
  have whole := guardsNest_says (Nat.le_refl _) nest tidy said
  cases joined : joinedTokens tokens with
  | none =>
    rw [joined] at whole
    exact whole
  | some text =>
    rw [joined] at whole tidy_joined
    exact (saysBlocks_tidy tidy_joined _).mpr whole

end Tidiness

/-- Every job of an expansion has the guards of a path to it, joined. They are kept exactly when
their blocks join, as they do where every operand is closed as often as it is opened and the joined
guards do not nest too deep. -/
theorem inlinedJob_guards {Path Inputs : Type} [DecidableEq Path]
    (repository : Repository Path Inputs) (turns : Nat)
    (jobs : Fields) (seen : List Path) (inputs : Option Inputs) (expanded : Fields)
    (h : expandCalls repository turns jobs seen inputs = .ok expanded) (id : String) (job : Json)
    (member : (id, job) ∈ expanded) (context : RunContext) :
    ∃ guards, Inlined repository jobs inputs id guards ∧
      (GuardsKept context id guards (conditionOf job) ↔ BlocksJoin context guards) ∧
      (Orderly context guards → GuardsKept context id guards (conditionOf job)) := by
  obtain ⟨guards, inlined, condition⟩ := expandCalls_explained h id job member
  rw [condition]
  exact ⟨guards, inlined, guardsKept_iff, fun orderly => guardsKept_iff.mpr (orderly_blocksJoin orderly)⟩

/-- A repository whose one reusable workflow has one job, with this guard. -/
def buildRepository (guard : String) : Repository String Unit where
  resolve := .ok
  inside _ := true
  readCall _ _ _ _ := .ok ([("build", .obj [("if", .str guard)])], [])
  substitute guard _ _ := .ok guard

def callingJobs (guard : String) : Fields :=
  [("ci", .obj [("uses", .str "./.github/workflows/build.yml"), ("if", .str guard)])]

def conditions (expanded : Fields) : List (String × Option String) :=
  expanded.map fun job => (job.1, conditionOf job.2)

theorem expanded_conditions {result : Except WorkflowError Fields} {id : String}
    {condition : Option String}
    (h : result.map conditions = .ok [(id, condition)]) :
    ∃ expanded job, result = .ok expanded ∧ (id, job) ∈ expanded ∧ conditionOf job = condition := by
  cases result with
  | error e => cases h
  | ok expanded =>
    obtain ⟨field, rfl, same⟩ := List.map_eq_singleton_iff.mp (Except.ok.inj h)
    obtain ⟨name, job⟩ := field
    cases same
    exact ⟨_, job, rfl, List.mem_singleton_self _, rfl⟩

theorem inlined_build {outer inner id : String} {guards : List (Option String)}
    (h : Inlined (buildRepository inner) (callingJobs outer) none id guards) (named : id = "ci/build") :
    guards = [some outer, some inner] := by
  cases h with
  | own member plain =>
    obtain ⟨rfl, rfl⟩ := Prod.mk.inj (List.mem_singleton.mp member)
    exact absurd named (by decide)
  | call member calls read guarded within =>
    obtain ⟨rfl, rfl⟩ := Prod.mk.inj (List.mem_singleton.mp member)
    obtain ⟨rfl, rfl⟩ := Prod.mk.inj (Except.ok.inj read)
    obtain rfl := Except.ok.inj guarded
    cases within with
    | own member plain =>
      obtain ⟨rfl, rfl⟩ := Prod.mk.inj (List.mem_singleton.mp member)
      rfl
    | call member calls read guarded within =>
      obtain ⟨rfl, rfl⟩ := Prod.mk.inj (List.mem_singleton.mp member)
      cases calls

theorem branchGuards_orderly :
    Orderly mainRun [some "!false || github.ref", some "github.ref == 'refs/heads/main'"] := by
  rintro _ (_ | ⟨⟨first, lexed, rfl⟩, _ | ⟨⟨second, lexed', rfl⟩, _ | _⟩⟩)
  obtain rfl : [.operator .not, .atom ⟨.path, "false"⟩, .operator .or,
      .atom ⟨.path, "github.ref"⟩] = first :=
    Except.ok.inj ((show tokenize "!false || github.ref" = .ok _ by decide +kernel).symm.trans lexed)
  obtain rfl : [.atom ⟨.path, "github.ref"⟩, .operator .eq, .atom ⟨.string, "'refs/heads/main'"⟩] =
      second :=
    Except.ok.inj
    ((show tokenize "github.ref == 'refs/heads/main'" = .ok _ by decide +kernel).symm.trans lexed')
  refine ⟨?_, ?_, ?_⟩
  · simp only [List.forall_mem_cons, GuardTidy, Tidy]
    refine ⟨by decide, by decide, fun _ member => absurd member List.not_mem_nil⟩
  · show Tidy _
    unfold Tidy
    decide
  · refine ⟨_, rfl, ⟨.or (.one (.one (.negated (.term (.single (.atom ⟨.path, "false"⟩))))))
      (.one (.term (.single (.atom ⟨.path, "github.ref"⟩)))), rfl, by decide +kernel⟩, ?_⟩
    exact ⟨.one
      (.one (.term (.compare true (.atom ⟨.path, "github.ref"⟩)
      (.atom ⟨.string, "'refs/heads/main'"⟩)))), rfl, by decide +kernel⟩

theorem branchBuild_guards : ∃ expanded job guards,
    expandCalls (buildRepository "github.ref == 'refs/heads/main'") 2
      (callingJobs "!false || github.ref") [] none =
      .ok expanded ∧ ("ci/build", job) ∈ expanded ∧
    Inlined (buildRepository "github.ref == 'refs/heads/main'") (callingJobs "!false || github.ref")
    none "ci/build" guards ∧
    (GuardsKept mainRun "ci/build" guards (conditionOf job) ↔ BlocksJoin mainRun guards) ∧
    Orderly mainRun guards ∧ GuardsKept mainRun "ci/build" guards (conditionOf job) := by
  obtain ⟨expanded, job, h, member, -⟩ := expanded_conditions (show (expandCalls
    (buildRepository "github.ref == 'refs/heads/main'") 2 (callingJobs "!false || github.ref") []
      none).map conditions =
      .ok [("ci/build", some "(!false || github.ref) && (github.ref == 'refs/heads/main')")]
      by decide +kernel)
  obtain ⟨guards, inlined, kept, orderly⟩ :=
    inlinedJob_guards _ 2 _ [] none expanded h "ci/build" job member mainRun
  obtain rfl := inlined_build inlined rfl
  exact ⟨expanded, job, _, h, member, inlined, kept, branchGuards_orderly, orderly branchGuards_orderly⟩

/-- A job that its own guard skips runs, and a guard of two readable ones is refused one call deeper. -/
theorem joinedGuards_not_kept : ∃ expanded job,
    expandCalls (buildRepository "false") 2 (callingJobs "(true) || (true)") [] none = .ok expanded ∧
    ("ci/build", job) ∈ expanded ∧
    ¬GuardsKept mainRun "ci/build" [some "(true) || (true)", some "false"] (conditionOf job) ∧
    ¬GuardsKept mainRun "ci/build" [some "true", some "true", some "true == true"]
      (joinedText [some "true", some "true", some "true == true"]) := by
  obtain ⟨expanded, job, h, member, condition⟩ := expanded_conditions (show (expandCalls
    (buildRepository "false") 2 (callingJobs "(true) || (true)") [] none).map conditions =
      .ok [("ci/build", some "((true) || (true)) && (false)")] by decide +kernel)
  refine ⟨expanded, job, h, member, fun kept => ?_, fun kept => ?_⟩
  · rw [condition] at kept
    have read : List.Forall₂ (GuardReads mainRun) [some "(true) || (true)", some "false"]
        [some true, some false] :=
      .cons ⟨⟨some true, []⟩, by decide +kernel, rfl⟩
      (.cons ⟨⟨some false, []⟩, by decide +kernel, rfl⟩ .nil)
    obtain ⟨⟨value, unread⟩, evaluated, same⟩ := (kept _ read).1
    have runs : evaluateCondition mainRun "((true) || (true)) && (false)" = .ok
      ⟨some true, []⟩ := by decide +kernel
    cases evaluated.symm.trans runs
    cases same
  · have read : List.Forall₂ (GuardReads mainRun) [some "true", some "true", some "true == true"]
        [some true, some true, some true] :=
      .cons ⟨⟨some true, []⟩, by decide +kernel, rfl⟩ (.cons ⟨⟨some true, []⟩, by decide +kernel, rfl⟩
        (.cons ⟨⟨some true, []⟩, by decide +kernel, rfl⟩ .nil))
    have text : joinedText [some "true", some "true", some "true == true"] =
        some "(true) && ((true) && (true == true))" := by decide +kernel
    rw [text] at kept
    obtain ⟨condition, evaluated, -⟩ := (kept _ read).1
    have refused : evaluateCondition mainRun "(true) && ((true) && (true == true))" = .error
        (.unreadable ")") := by
      decide +kernel
    cases evaluated.symm.trans refused

end Cindral.Workflow

import Cindral.Base.Regex
import Cindral.Workflow.Context
import Cindral.Workflow.Contract

/-!
# What the texts of a job read

A text is expanded here, or checked and left to the engine. `expand_iff` says what an expanded text
is: every expression of it is a path, in the place of which the value stands that the run carries.
-/

namespace Cindral.Workflow
open Base Regex

/-! ## The paths that an expression names -/

def quotedText : Regex :=
  alt (sequence [one (· = '\''), star (one (· ≠ '\'')), one (· = '\'')])
  (sequence [one (· = '"'), star (one (· ≠ '"')), one (· = '"')])

def indexAccess : Regex :=
  let blanks := star (one isSpace)
  let quote := opt (one fun c => c = '\'' || c = '"')
  sequence [one (· = '['), blanks, quote,
  group 1 (atLeast 1 (one fun c => isWord c || c = '.' || c = '-')), quote, blanks, one (· = ']')]

def pathToken : Regex :=
  sequence [one fun c => isWord c && !c.isDigit, star (one isWord),
    star (seq (one (· = '.')) (atLeast 1 (one fun c => isWord c || c = '-')))]

def readableExpression (expression : List Char) : List Char :=
  sub isWord quotedText (fun _ => []) (sub isWord indexAccess (fun m => '.' :: m.group 1) expression)

def tokens (readable : List Char) : List String := (findall isWord pathToken readable).map String.ofList

/-- `EXPRESSION.findall`, in as many turns as there are characters. -/
def expressionsFrom : Nat → List Char → List (List Char)
  | turns + 1, c :: rest =>
    if ['$', '{', '{'].isPrefixOf (c :: rest) then
      match untilClose (rest.drop 2) with
      | some (inside, after) => inside :: expressionsFrom turns after
      | none => expressionsFrom turns rest
    else expressionsFrom turns rest
  | _, _ => []

def expressions (text : String) : List (List Char) := expressionsFrom text.length text.toList

def engineRoots : List String := ["job", "runner", "steps", "strategy"]
def unsuppliedRoots : List String := ["inputs", "matrix", "needs", "secrets", "vars"]

section
variable (event : Event) (label : String)

def requireToken (token : String) : Except String Unit :=
  let (root, rest) := partition token '.'
  let refused := Except.error s!"{label} reads context '{token}' that this run does not carry"
  if unsuppliedRoots.contains root then refused
  else if rest = "" || engineRoots.contains root then .ok ()
  else if (event.value token).isSome then .ok ()
  else refused

def Event.requireExpression (expression : List Char) : Except String Unit :=
  let readable := readableExpression expression
  if readable.contains '[' then .error s!"{label} reads context by index, which this run does not carry"
  else (tokens readable).forM (requireToken event label)

def Event.requireResolvable (text : String) : Except String Unit :=
  (expressions text).forM (event.requireExpression label)

end

/-! ## Services -/

section
variable (event : Event)

def expandService (service : Service) : Except String Service := do
  let label := s!"service '{service.name}'"
  let image ← event.expand s!"{label} image" service.image
  let env ← event.expandEnv service.env label
  .ok { service with image, env }

def checkService (service : Service) : Except String Service := do
  let label := s!"service '{service.name}'"
  event.requireResolvable s!"{label} image" service.image
  service.env.forM fun (name, value) => event.requireResolvable s!"{label} env '{name}'" value
  .ok service

def resolveServices (services : List Service) (native : Bool) : Except String (List Service) :=
  services.mapM fun service => if native then expandService event service else checkService event service

end

/-! ## What an expanded text is -/

def Begins (text : List Char) : Prop :=
  ∃ inside after, text = '$' :: '{' :: '{' :: inside ++ '}' :: '}' :: after

/-- A text with the values of its expressions in their place, the first `}}` ending each. -/
inductive Filled (event : Event) : List Char → List Char → Prop
  | done : Filled event [] []
  | plain {c : Char} {rest out : List Char} (bare : ¬Begins (c :: rest)) (later : Filled event rest out) :
      Filled event (c :: rest) (c :: out)
  | value {inside after out : List Char} {value : String} (first : ¬['}', '}'] <:+: inside ++ ['}'])
      (path : isContextPath (.ofList (stripChars inside)) = true)
      (carried : event.value (.ofList (stripChars inside)) = some value)
      (later : Filled event after out) :
      Filled event ('$' :: '{' :: '{' :: inside ++ '}' :: '}' :: after) (value.toList ++ out)

theorem untilClose_eq_some {cs inside after : List Char} (h : untilClose cs = some (inside, after)) :
    cs = inside ++ '}' :: '}' :: after ∧ ¬['}', '}'] <:+: inside ++ ['}'] := by
  induction cs using untilClose.induct generalizing inside after with
  | case1 rest =>
    rw [untilClose] at h
    obtain ⟨rfl, rfl⟩ := Prod.mk.inj (Option.some.inj h)
    exact ⟨rfl, by decide⟩
  | case2 c rest other ih =>
    rw [untilClose] at h
    · obtain ⟨⟨later, remains⟩, found, same⟩ := Option.map_eq_some_iff.mp h
      obtain ⟨rfl, rfl⟩ := Prod.mk.inj same
      obtain ⟨rfl, first⟩ := ih found
      refine ⟨rfl, fun double => ?_⟩
      rcases List.infix_cons_iff.mp double with starts | inside
      · obtain ⟨more, same⟩ := starts
        obtain ⟨rfl, closes⟩ := List.cons.inj same
        cases later with
        | nil => exact other ('}' :: remains) rfl rfl
        | cons d later =>
          obtain ⟨rfl, -⟩ := List.cons.inj closes
          exact other (later ++ '}' :: '}' :: remains) rfl rfl
      · exact first inside
    · exact other
  | case3 =>
    cases h

theorem untilClose_append {inside after : List Char} (first : ¬['}', '}'] <:+: inside ++ ['}']) :
    untilClose (inside ++ '}' :: '}' :: after) = some (inside, after) := by
  induction inside with
  | nil => rfl
  | cons c inside ih =>
    have later : ¬['}', '}'] <:+: inside ++ ['}'] := fun double => first (List.infix_cons double)
    rw [List.cons_append, untilClose, ih later]
    · rfl
    · rintro rest rfl closes
      apply first
      cases inside with
      | nil => exact ⟨[], [], rfl⟩
      | cons d inside =>
        obtain ⟨rfl, -⟩ := List.cons.inj closes
        exact ⟨[], inside ++ ['}'], rfl⟩

theorem untilClose_isSome (inside after : List Char) :
    (untilClose (inside ++ '}' :: '}' :: after)).isSome = true := by
  induction inside with
  | nil => rfl
  | cons c inside ih =>
    rw [List.cons_append]
    unfold untilClose
    split
    · rfl
    · rename_i same
      rw [← (List.cons.inj same).2, Option.isSome_map]
      exact ih
    · rename_i same
      cases same

theorem begins_iff {c : Char} {rest : List Char} : Begins (c :: rest) ↔
    ['$', '{', '{'].isPrefixOf (c :: rest) = true ∧ (untilClose (rest.drop 2)).isSome = true := by
  constructor
  · rintro ⟨inside, after, same⟩
    obtain ⟨rfl, rfl⟩ := List.cons.inj same
    exact ⟨rfl, untilClose_isSome inside after⟩
  · rintro ⟨starts, closes⟩
    obtain ⟨more, same⟩ := List.isPrefixOf_iff_prefix.mp starts
    obtain ⟨rfl, rfl⟩ := List.cons.inj same
    obtain ⟨⟨inside, after⟩, found⟩ := Option.isSome_iff_exists.mp closes
    exact ⟨inside, after, congrArg ('$' :: '{' :: '{' :: ·) (untilClose_eq_some found).1⟩

section
variable {event : Event} {label : String}

theorem expression_ok_iff {inside value : List Char} : expression event label inside = .ok value ↔
    isContextPath (.ofList (stripChars inside)) = true ∧
      ∃ found, event.value (.ofList (stripChars inside)) = some found ∧ found.toList = value := by
  simp only [expression]
  cases path : isContextPath (.ofList (stripChars inside)) with
  | false => simp
  | true =>
    cases event.value (.ofList (stripChars inside)) with
    | none => simp
    | some found => simp

theorem filled_of_expandFrom {turns : Nat} {cs out : List Char} (room : cs.length ≤ turns)
    (h : expandFrom event label turns cs = .ok out) : Filled event cs out := by
  induction turns generalizing cs out with
  | zero =>
    obtain rfl := List.length_eq_zero_iff.mp (Nat.le_zero.mp room)
    obtain rfl := Except.ok.inj h
    exact .done
  | succ turns ih =>
    cases cs with
    | nil =>
      obtain rfl := Except.ok.inj h
      exact .done
    | cons c rest =>
      have shorter : rest.length ≤ turns := Nat.le_of_succ_le_succ room
      rw [expandFrom] at h
      split at h
      · rename_i starts
        split at h
        · rename_i inside after found
          obtain ⟨value, expressed, h⟩ := bind_ok h
          obtain ⟨expanded, later, h⟩ := bind_ok h
          obtain rfl := Except.ok.inj h
          obtain ⟨more, same⟩ := List.isPrefixOf_iff_prefix.mp starts
          obtain ⟨rfl, rfl⟩ := List.cons.inj same
          obtain ⟨closes, first⟩ := untilClose_eq_some found
          change more = _ at closes
          subst closes
          have remains : after.length ≤ turns := by
            have long : (inside ++ '}' :: '}' :: after).length + 2 ≤ turns := shorter
            rw [List.length_append, List.length_cons, List.length_cons] at long
            omega
          obtain ⟨path, value, carried, rfl⟩ := expression_ok_iff.mp expressed
          exact .value first path carried (ih remains later)
        · rename_i none_
          obtain ⟨expanded, later, rfl⟩ := map_ok h
          refine .plain (fun begins => ?_) (ih shorter later)
          have closes := (begins_iff.mp begins).2
          rw [none_] at closes
          cases closes
      · rename_i bare
        obtain ⟨expanded, later, rfl⟩ := map_ok h
        exact .plain (fun begins => bare (begins_iff.mp begins).1) (ih shorter later)

theorem expandFrom_of_filled {cs out : List Char} (h : Filled event cs out) {turns : Nat}
    (room : cs.length ≤ turns) :
    expandFrom event label turns cs = .ok out := by
  induction h generalizing turns with
  | done => cases turns <;> rfl
  | @plain c rest out bare later ih =>
    cases turns with
    | zero => cases room
    | succ turns =>
      have rest_ok : expandFrom event label turns rest = .ok out := ih (Nat.le_of_succ_le_succ room)
      rw [expandFrom, rest_ok]
      split
      · rename_i starts
        split
        · rename_i found
          exact absurd (begins_iff.mpr ⟨starts, found ▸ rfl⟩) bare
        · rfl
      · rfl
  | @value inside after out value first path carried later ih =>
    cases turns with
    | zero => cases room
    | succ turns =>
      have remains : after.length ≤ turns := by
        have long : (inside ++ '}' :: '}' :: after).length + 2 ≤ turns := Nat.le_of_succ_le_succ room
        rw [List.length_append, List.length_cons, List.length_cons] at long
        omega
      have closes : untilClose (('{' :: '{' :: inside ++ '}' :: '}' :: after).drop 2) =
        some (inside, after) := untilClose_append first
      have expressed : expression event label inside = .ok value.toList :=
        expression_ok_iff.mpr ⟨path, value, carried, rfl⟩
      have rest_ok : expandFrom event label turns after = .ok out := ih remains
      have starts : ['$', '{', '{'].isPrefixOf
        ('$' :: '{' :: '{' :: inside ++ '}' :: '}' :: after) = true := rfl
      rw [List.cons_append] at starts ⊢
      rw [expandFrom, if_pos starts, closes]
      change (expression event label inside >>= fun value => expandFrom event label turns after >>=
          fun expanded =>
        Except.ok (value ++ expanded)) = _
      rw [expressed, rest_ok]
      rfl

/-- A text is expanded exactly when each expression of it is a path that the run carries, and to
nothing else. -/
theorem expand_iff {text expanded : String} :
    event.expand label text = .ok expanded ↔ Filled event text.toList expanded.toList := by
  constructor
  · intro h
    obtain ⟨out, filled, rfl⟩ := map_ok h
    rw [String.toList_ofList]
    exact filled_of_expandFrom (String.length_toList ▸ Nat.le_refl _) filled
  · intro filled
    rw [Event.expand, expandFrom_of_filled filled (String.length_toList ▸ Nat.le_refl _)]
    exact congrArg Except.ok String.ofList_toList

end

/-! ## What a text finds -/

/-- The engine finds what a path names, or evaluates it itself. -/
def Event.SuppliesToken (event : Event) (token : String) : Prop :=
  (partition token '.').1 ∉ unsuppliedRoots ∧
    ((partition token '.').2 = "" ∨ (partition token '.').1 ∈ engineRoots ∨ ∃ value,
    event.value token = some value)

def Event.Supplies (event : Event) (expression : List Char) : Prop :=
  '[' ∉ readableExpression expression ∧ ∀ token ∈ tokens (readableExpression expression),
  event.SuppliesToken token

/-- Nothing that an expression reads is missing: it is a path that the run carries, or all its paths
are supplied. -/
def Event.Evaluates (event : Event) (expression : List Char) : Prop :=
  (∃ value, isContextPath (.ofList (stripChars expression)) = true ∧
    event.value (.ofList (stripChars expression)) = some value) ∨
    event.Supplies expression

def Event.Carries (event : Event) (text : String) : Prop :=
  ∀ expression ∈ expressions text, event.Evaluates expression

section
variable {event : Event} {label : String}

theorem requireToken_ok {token : String} {u : Unit} (h : requireToken event label token = .ok u) :
    event.SuppliesToken token := by
  simp only [requireToken] at h
  split at h
  · cases h
  · rename_i supplied
    refine ⟨fun member => supplied (List.contains_iff_mem.mpr member), ?_⟩
    split at h
    · rename_i left_
      rcases Bool.or_eq_true_iff.mp left_ with bare | engine
      · exact .inl (of_decide_eq_true bare)
      · exact .inr (.inl (List.contains_iff_mem.mp engine))
    · split at h
      · rename_i carried
        exact .inr (.inr (Option.isSome_iff_exists.mp carried))
      · cases h

theorem requireExpression_ok {text : List Char} {u : Unit}
    (h : event.requireExpression label text = .ok u) : event.Supplies text := by
  simp only [Event.requireExpression] at h
  split at h
  · cases h
  · rename_i bare
    exact ⟨fun member => bare (List.contains_iff_mem.mpr member), fun token member =>
      requireToken_ok (forM_ok h token member)⟩

theorem requireResolvable_ok {text : String} {u : Unit}
    (h : event.requireResolvable label text = .ok u) : event.Carries text :=
  fun expression member => .inr (requireExpression_ok (forM_ok h expression member))

theorem evaluates_of_expandFrom {turns : Nat} {cs out : List Char}
    (h : expandFrom event label turns cs = .ok out) :
    ∀ inside ∈ expressionsFrom turns cs, event.Evaluates inside := by
  induction turns generalizing cs out with
  | zero => exact fun _ member => absurd member List.not_mem_nil
  | succ turns ih =>
    cases cs with
    | nil => exact fun _ member => absurd member List.not_mem_nil
    | cons c rest =>
      rw [expandFrom] at h
      rw [expressionsFrom]
      by_cases starts : ['$', '{', '{'].isPrefixOf (c :: rest) = true
      · rw [if_pos starts] at h ⊢
        rcases found : untilClose (rest.drop 2) with _ | ⟨inside, after⟩
        · rw [found] at h
          obtain ⟨expanded, later, -⟩ := map_ok h
          exact ih later
        · rw [found] at h
          obtain ⟨value, expressed, h⟩ := bind_ok h
          obtain ⟨expanded, later, -⟩ := bind_ok h
          obtain ⟨path, value, carried, -⟩ := expression_ok_iff.mp expressed
          intro expression member
          rcases List.mem_cons.mp member with rfl | inside
          · exact .inl ⟨value, path, carried⟩
          · exact ih later expression inside
      · rw [if_neg starts] at h ⊢
        obtain ⟨expanded, later, -⟩ := map_ok h
        exact ih later

theorem expand_carries {text expanded : String} (h : event.expand label text = .ok expanded) :
    event.Carries text := by
  obtain ⟨out, filled, -⟩ := map_ok h
  exact evaluates_of_expandFrom filled

/-! ## Services -/

/-- The variables with values in the place of their expressions. -/
def EnvFilled (event : Event) (env filled : List (String × String)) : Prop :=
  List.Forall₂ (fun entry filled => filled.1 = entry.1 ∧ Filled event entry.2.toList
  filled.2.toList) env filled

/-- A service with values in the place of its expressions, and nothing else changed. -/
structure ServiceFilled (event : Event) (service filled : Service) : Prop where
  image : Filled event service.image.toList filled.image.toList
  env : EnvFilled event service.env filled.env
  rest : filled = { service with image := filled.image, env := filled.env }

structure ServiceCarried (event : Event) (service : Service) : Prop where
  image : event.Carries service.image
  env : ∀ entry ∈ service.env, event.Carries entry.2

theorem expandEnv_ok {env expanded : List (String × String)}
    (h : event.expandEnv env label = .ok expanded) :
    (∀ entry ∈ env, event.Carries entry.2) ∧ EnvFilled event env expanded := by
  refine (List.forall₂_and_left env expanded).mp ((mapM_ok_iff.mp h).imp fun entry filled one => ?_)
  obtain ⟨value, value_ok, rfl⟩ := map_ok one
  exact ⟨expand_carries value_ok, rfl, expand_iff.mp value_ok⟩

/-- An environment reads the event and not itself. -/
theorem runContext_env {job : JobSpec} {workflow jobId : String} {env : List (String × String)}
    {event : Event}
    (h : runContext job workflow jobId env = .ok event) :
    EnvFilled { event with env := [] } env event.env := by
  obtain ⟨fields, -, h⟩ := bind_ok h
  obtain ⟨expanded, expands, h⟩ := bind_ok h
  obtain rfl := Except.ok.inj h
  exact (expandEnv_ok expands).2

theorem expandService_ok {service expanded : Service} (h : expandService event service = .ok expanded) :
    ServiceFilled event service expanded ∧ ServiceCarried event service := by
  obtain ⟨image, image_ok, h⟩ := bind_ok h
  obtain ⟨env, env_ok, h⟩ := bind_ok h
  obtain rfl := Except.ok.inj h
  obtain ⟨carried, filled⟩ := expandEnv_ok env_ok
  exact ⟨⟨expand_iff.mp image_ok, filled, rfl⟩, ⟨expand_carries image_ok, carried⟩⟩

theorem checkService_ok {service checked : Service} (h : checkService event service = .ok checked) :
    ServiceCarried event service := by
  obtain ⟨⟨⟩, image_ok, h⟩ := bind_ok h
  obtain ⟨⟨⟩, env_ok, -⟩ := bind_ok h
  exact ⟨requireResolvable_ok image_ok, fun entry member =>
    requireResolvable_ok (forM_ok env_ok entry member)⟩

end

end Cindral.Workflow

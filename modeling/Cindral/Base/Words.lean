import Cindral.Base.Regex

/-!
# The words of a pattern

`Spells` lists the words that a pattern can read, whatever surrounds them. `run_spells` and
`run_of_spells` say that a run reads one of them, and each of them where the pattern asks nothing of
its surroundings. The `first` lemmas follow the way that is taken first.
-/

namespace Cindral.Base.Regex

/-- A word that a pattern reads where its surroundings let it. -/
inductive Spells : Regex → List Char → Prop
  | empty : Spells empty []
  | one {accepts : Char → Bool} {c : Char} (accepted : accepts c = true) : Spells (one accepts) [c]
  | seq {r s : Regex} {u v : List Char} (first : Spells r u) (second : Spells s v) :
      Spells (seq r s) (u ++ v)
  | left {r s : Regex} {w : List Char} (read : Spells r w) : Spells (alt r s) w
  | right {r s : Regex} {w : List Char} (read : Spells s w) : Spells (alt r s) w
  | none {greedy : Bool} {r : Regex} : Spells (many greedy r) []
  | more {greedy : Bool} {r : Regex} {u v : List Char} (read : Spells r u)
      (further : Spells (many greedy r) v) :
      Spells (many greedy r) (u ++ v)
  | group {number : Nat} {r : Regex} {w : List Char} (read : Spells r w) : Spells (group number r) w
  | boundary : Spells boundary []
  | behind {text : List Char} : Spells (behind text) []
  | ahead {r : Regex} : Spells (ahead r) []

/-- Nothing is asked of what surrounds a word. -/
def plain : Regex → Bool
  | seq r s | alt r s => r.plain && s.plain
  | many _ r | group _ r => r.plain
  | boundary | behind _ | ahead _ => false
  | empty | one _ => true

def groupless : Regex → Bool
  | seq r s | alt r s => r.groupless && s.groupless
  | many _ r => r.groupless
  | group _ _ => false
  | empty | one _ | boundary | behind _ | ahead _ => true

/-- A bound on the length of a word from below. -/
def least : Regex → Nat
  | one _ => 1
  | seq r s => r.least + s.least
  | alt r s => min r.least s.least
  | group _ r => r.least
  | empty | many _ _ | boundary | behind _ | ahead _ => 0

def Over (p : Char → Prop) (r : Regex) : Prop := ∀ w, Spells r w → ∀ c ∈ w, p c

theorem Spells.least {r : Regex} {w : List Char} (h : Spells r w) : r.least ≤ w.length := by
  induction h with
  | one => exact Nat.le_refl 1
  | seq _ _ first second =>
    rw [List.length_append]
    exact Nat.add_le_add first second
  | left _ read => exact Nat.le_trans (Nat.min_le_left _ _) read
  | right _ read => exact Nat.le_trans (Nat.min_le_right _ _) read
  | group _ read => exact read
  | _ => exact Nat.zero_le _

/-! ## Words of the built patterns -/

section
variable {r s : Regex} {p : Char → Bool} {w : List Char}

theorem spells_empty : Spells empty w ↔ w = [] :=
  ⟨fun h => by cases h; rfl, fun h => h ▸ .empty⟩

theorem spells_one : Spells (one p) w ↔ ∃ c, p c = true ∧ w = [c] := by
  constructor
  · rintro ⟨⟩
    rename_i c accepted
    exact ⟨c, accepted, rfl⟩
  · rintro ⟨c, accepted, rfl⟩
    exact .one accepted

theorem spells_seq : Spells (seq r s) w ↔ ∃ u v, Spells r u ∧ Spells s v ∧ w = u ++ v := by
  constructor
  · rintro ⟨⟩
    rename_i u v first second
    exact ⟨u, v, first, second, rfl⟩
  · rintro ⟨u, v, first, second, rfl⟩
    exact .seq first second

theorem spells_alt : Spells (alt r s) w ↔ Spells r w ∨ Spells s w := by
  constructor
  · intro h
    cases h with
    | left read => exact Or.inl read
    | right read => exact Or.inr read
  · rintro (read | read)
    · exact .left read
    · exact .right read

theorem spells_opt : Spells (opt r) w ↔ Spells r w ∨ w = [] := by rw [opt, spells_alt, spells_empty]

theorem spells_star : Spells (star (one p)) w ↔ ∀ c ∈ w, p c = true := by
  constructor
  · intro h
    generalize same : star (one p) = r at h
    induction h with
    | none => exact fun _ member => absurd member List.not_mem_nil
    | more read _ _ ih =>
      obtain ⟨rfl, rfl⟩ := Regex.many.inj same
      obtain ⟨c, accepted, rfl⟩ := spells_one.mp read
      exact List.forall_mem_cons.mpr ⟨accepted, ih rfl⟩
    | _ => cases same
  · intro all
    induction w with
    | nil => exact .none
    | cons c rest ih =>
      exact .more (u := [c]) (.one (all c List.mem_cons_self))
        (ih fun d member => all d (List.mem_cons_of_mem c member))

theorem spells_literal {text : List Char} : Spells (literal text) w ↔ w = text := by
  induction text generalizing w with
  | nil => exact spells_empty
  | cons c rest ih =>
    cases rest with
    | nil =>
      rw [literal, spells_one]
      simp
    | cons d rest =>
      rw [literal, spells_seq]
      · constructor
        · rintro ⟨u, v, first, second, rfl⟩
          obtain ⟨c', same, rfl⟩ := spells_one.mp first
          obtain rfl : c' = c := by simpa using same
          rw [ih.mp second]
          rfl
        · rintro rfl
          exact ⟨[c], d :: rest, spells_one.mpr ⟨c, by simp, rfl⟩, ih.mpr rfl, rfl⟩
      · rintro ⟨⟩

theorem spells_times {n : Nat} : Spells (times n (one p)) w ↔ w.length = n ∧ ∀ c ∈ w, p c = true := by
  induction n generalizing w with
  | zero =>
    rw [times, spells_empty, List.length_eq_zero_iff]
    exact ⟨fun h => ⟨h, by simp [h]⟩, fun h => h.1⟩
  | succ n ih =>
    cases n with
    | zero =>
      rw [times, spells_one, List.length_eq_one_iff]
      constructor
      · rintro ⟨c, accepted, rfl⟩
        exact ⟨⟨c, rfl⟩, by simpa using accepted⟩
      · rintro ⟨⟨c, rfl⟩, all⟩
        exact ⟨c, all c (List.mem_singleton_self c), rfl⟩
    | succ n =>
      rw [times, spells_seq]
      constructor
      · rintro ⟨u, v, first, second, rfl⟩
        obtain ⟨c, accepted, rfl⟩ := spells_one.mp first
        obtain ⟨length, all⟩ := ih.mp second
        exact ⟨by simp [length], List.forall_mem_cons.mpr ⟨accepted, all⟩⟩
      · rintro ⟨length, all⟩
        cases w with
        | nil => cases length
        | cons c rest =>
          obtain ⟨accepted, all⟩ := List.forall_mem_cons.mp all
          exact ⟨[c], rest, spells_one.mpr ⟨c, accepted, rfl⟩, ih.mpr ⟨Nat.succ.inj length, all⟩, rfl⟩

theorem spells_atLeast {n : Nat} : Spells (atLeast n (one p)) w ↔ n ≤ w.length ∧ ∀ c ∈ w, p c = true := by
  rw [atLeast, spells_seq]
  constructor
  · rintro ⟨u, v, first, further, rfl⟩
    obtain ⟨length, all⟩ := spells_times.mp first
    refine ⟨by rw [List.length_append, length]; exact Nat.le_add_right n _, fun c member => ?_⟩
    rcases List.mem_append.mp member with member | member
    · exact all c member
    · exact spells_star.mp further c member
  · rintro ⟨length, all⟩
    refine ⟨w.take n, w.drop n, spells_times.mpr ⟨List.length_take_of_le length, fun c member => ?_⟩,
      spells_star.mpr fun c member => ?_, (List.take_append_drop n w).symm⟩
    · exact all c (List.mem_of_mem_take member)
    · exact all c (List.mem_of_mem_drop member)

theorem spells_sequence_cons {rest : List Regex} :
    Spells (sequence (r :: rest)) w ↔ ∃ u v, Spells r u ∧ Spells (sequence rest) v ∧ w = u ++ v := by
  cases rest with
  | nil =>
    rw [sequence, sequence]
    constructor
    · exact fun h => ⟨w, [], h, .empty, (List.append_nil w).symm⟩
    · rintro ⟨u, v, read, none, rfl⟩
      rw [spells_empty.mp none, List.append_nil]
      exact read
  | cons s rest =>
    rw [sequence, spells_seq]
    rintro ⟨⟩

theorem spells_oneOf {rs : List Regex} : Spells (oneOf rs) w ↔ ∃ r ∈ rs, Spells r w := by
  induction rs using oneOf.induct with
  | case1 =>
    rw [oneOf, spells_one]
    simp
  | case2 r => simp [oneOf]
  | case3 r rest more ih =>
    rw [oneOf, spells_alt, ih]
    · simp
    · exact more

end

/-! ## Characters of the built patterns -/

section
variable {p : Char → Prop} {r s : Regex}

theorem over_one {accepts : Char → Bool} (all : ∀ c, accepts c = true → p c) : (one accepts).Over p := by
  intro w word
  obtain ⟨c, accepted, rfl⟩ := spells_one.mp word
  exact List.forall_mem_singleton.mpr (all c accepted)

theorem over_empty : empty.Over p := fun w word => by
  rw [spells_empty.mp word]
  exact fun _ member => absurd member List.not_mem_nil

theorem over_seq (first : r.Over p) (second : s.Over p) : (seq r s).Over p := by
  intro w word
  obtain ⟨u, v, read, read', rfl⟩ := spells_seq.mp word
  exact List.forall_mem_append.mpr ⟨first u read, second v read'⟩

theorem over_alt (first : r.Over p) (second : s.Over p) : (alt r s).Over p := fun w word =>
  (spells_alt.mp word).elim (first w) (second w)

theorem over_opt (all : r.Over p) : (opt r).Over p := over_alt all over_empty

theorem over_star (all : r.Over p) : (star r).Over p := by
  intro w word
  generalize same : star r = s at word
  induction word with
  | none => exact fun _ member => absurd member List.not_mem_nil
  | more read _ _ ih =>
    obtain ⟨rfl, rfl⟩ := Regex.many.inj same
    exact List.forall_mem_append.mpr ⟨all _ read, ih rfl⟩
  | _ => cases same

theorem over_literal {text : List Char} (all : ∀ c ∈ text, p c) : (literal text).Over p :=
  fun _ word => spells_literal.mp word ▸ all

theorem over_times {n : Nat} (all : r.Over p) : (times n r).Over p := by
  induction n with
  | zero => exact over_empty
  | succ n ih =>
    cases n with
    | zero => exact all
    | succ n => exact over_seq all ih

theorem over_atLeast {n : Nat} (all : r.Over p) : (atLeast n r).Over p :=
  over_seq (over_times all) (over_star all)

theorem over_sequence {rs : List Regex} (all : ∀ r ∈ rs, r.Over p) : (sequence rs).Over p := by
  induction rs with
  | nil => exact over_empty
  | cons r rest ih =>
    obtain ⟨first, later⟩ := List.forall_mem_cons.mp all
    intro w word
    obtain ⟨u, v, read, read', rfl⟩ := spells_sequence_cons.mp word
    exact List.forall_mem_append.mpr ⟨first u read, ih later v read'⟩

theorem over_oneOf {rs : List Regex} (all : ∀ r ∈ rs, r.Over p) : (oneOf rs).Over p := by
  intro w word
  obtain ⟨r, member, read⟩ := spells_oneOf.mp word
  exact all r member w read

end

/-! ## Runs -/

/-- A place after a word, whatever the groups. -/
def Mark.Reads (m e : Mark) (w : List Char) : Prop :=
  m.after = w ++ e.after ∧ e.before = w.reverse ++ m.before

theorem Mark.Reads.refl (m : Mark) : m.Reads m [] := ⟨rfl, rfl⟩

theorem Mark.Reads.trans {m d e : Mark} {u v : List Char} (first : m.Reads d u)
    (second : d.Reads e v) : m.Reads e (u ++ v) := by
  constructor
  · rw [first.1, second.1, List.append_assoc]
  · rw [second.2, first.2, List.reverse_append, List.append_assoc]

theorem Mark.Reads.unique {m e : Mark} {u v : List Char} (first : m.Reads e u)
    (second : m.Reads e v) : u = v :=
  List.append_cancel_right (first.1.symm.trans second.1)

section
variable {isWord : Char → Bool} {r s : Regex} {m d e : Mark} {w : List Char}

theorem mem_repeats_self {body : Mark → List Mark} {greedy : Bool} (fuel : Nat) (m : Mark) :
    m ∈ repeats body greedy fuel m := by
  cases fuel with
  | zero => exact List.mem_singleton_self m
  | succ fuel =>
    rw [repeats]
    cases greedy
    · exact List.mem_cons_self
    · exact List.mem_append_right _ (List.mem_singleton_self m)

theorem mem_repeats_succ {body : Mark → List Mark} {greedy : Bool} {fuel : Nat} :
    e ∈ repeats body greedy (fuel + 1) m ↔
    e = m ∨ ∃ d ∈ body m, d.after.length < m.after.length ∧ e ∈ repeats body greedy fuel d := by
  have more : e ∈ ((body m).filter fun e => e.after.length < m.after.length).flatMap
      (repeats body greedy fuel) ↔
      ∃ d ∈ body m, d.after.length < m.after.length ∧ e ∈ repeats body greedy fuel d := by
    simp only [List.mem_flatMap, List.mem_filter, decide_eq_true_eq, and_assoc]
  rw [repeats]
  cases greedy
  · rw [if_neg Bool.false_ne_true, List.mem_cons, more]
  · rw [if_pos rfl, List.mem_append, List.mem_singleton, more, or_comm]

theorem repeats_reads {body : Mark → List Mark} {greedy : Bool} {fuel : Nat}
    (reads : ∀ m, ∀ e ∈ body m, ∃ w, Spells r w ∧ m.Reads e w) (member : e ∈ repeats body greedy fuel m) :
    ∃ w, Spells (many greedy r) w ∧ m.Reads e w := by
  induction fuel generalizing m with
  | zero =>
    obtain rfl := List.mem_singleton.mp member
    exact ⟨[], .none, .refl _⟩
  | succ fuel ih =>
    rcases mem_repeats_succ.mp member with rfl | ⟨d, inside, -, later⟩
    · exact ⟨[], .none, .refl _⟩
    · obtain ⟨u, read, first⟩ := reads m d inside
      obtain ⟨v, further, second⟩ := ih later
      exact ⟨u ++ v, .more read further, first.trans second⟩

theorem mem_guard {p : Prop} [Decidable p] : e ∈ (if p then [m] else []) ↔ p ∧ e = m := by
  split
  · rename_i holds
    simp [holds]
  · rename_i fails
    simp [fails]

/-- A run reads a word of the pattern. -/
theorem run_spells (r : Regex) {m e : Mark} (member : e ∈ run isWord r m) :
    ∃ w, Spells r w ∧ m.Reads e w := by
  induction r generalizing m e with
  | empty =>
    obtain rfl := List.mem_singleton.mp member
    exact ⟨[], .empty, .refl _⟩
  | one accepts =>
    rw [run] at member
    split at member
    · cases member
    · rename_i c rest after
      obtain ⟨accepted, rfl⟩ := by simpa using member
      exact ⟨[c], .one accepted, after, rfl⟩
  | seq r s first second =>
    obtain ⟨d, inside, member⟩ := List.mem_flatMap.mp member
    obtain ⟨u, read, here⟩ := first inside
    obtain ⟨v, read', there⟩ := second member
    exact ⟨u ++ v, .seq read read', here.trans there⟩
  | alt r s first second =>
    rcases List.mem_append.mp member with member | member
    · obtain ⟨w, read, here⟩ := first member
      exact ⟨w, .left read, here⟩
    · obtain ⟨w, read, here⟩ := second member
      exact ⟨w, .right read, here⟩
  | many greedy r body => exact repeats_reads (fun m e => body) member
  | group number r body =>
    obtain ⟨d, inside, rfl⟩ := List.mem_map.mp member
    obtain ⟨w, read, here⟩ := body inside
    exact ⟨w, .group read, here⟩
  | boundary =>
    obtain ⟨-, rfl⟩ := mem_guard.mp member
    exact ⟨[], .boundary, .refl _⟩
  | behind text =>
    obtain ⟨-, rfl⟩ := mem_guard.mp member
    exact ⟨[], .behind, .refl _⟩
  | ahead r =>
    rw [run] at member
    split at member
    · cases member
    · obtain rfl := List.mem_singleton.mp member
      exact ⟨[], .ahead, .refl _⟩

theorem repeats_mono {body : Mark → List Mark} {greedy : Bool} {fuel fuel' : Nat} (more : fuel ≤ fuel')
    (member : e ∈ repeats body greedy fuel m) : e ∈ repeats body greedy fuel' m := by
  induction fuel generalizing m fuel' with
  | zero =>
    obtain rfl := List.mem_singleton.mp member
    exact mem_repeats_self fuel' e
  | succ fuel ih =>
    obtain ⟨fuel', rfl⟩ := Nat.exists_eq_add_of_le more
    rw [Nat.add_right_comm]
    rcases mem_repeats_succ.mp member with rfl | ⟨d, inside, shorter, later⟩
    · exact mem_repeats_self _ _
    · exact mem_repeats_succ.mpr (Or.inr ⟨d, inside, shorter, ih (Nat.le_add_right _ _) later⟩)

variable (isWord) in
/-- A pattern that asks nothing of its surroundings reads each of its words. -/
theorem run_of_spells (free : r.plain = true) (word : Spells r w) {rest : List Char}
    (after : m.after = w ++ rest) :
    ∃ e ∈ run isWord r m, e.after = rest := by
  induction word generalizing m rest with
  | empty => exact ⟨m, List.mem_singleton_self m, after⟩
  | @one accepts c accepted =>
    refine ⟨{ m with before := c :: m.before, after := rest }, ?_, rfl⟩
    rw [run, after]
    simp [accepted]
  | @seq r s u v _ _ first second =>
    obtain ⟨free, free'⟩ := Bool.and_eq_true_iff.mp free
    obtain ⟨d, inside, left⟩ := first free (after.trans (List.append_assoc u v rest))
    obtain ⟨e, member, left'⟩ := second free' left
    exact ⟨e, List.mem_flatMap.mpr ⟨d, inside, member⟩, left'⟩
  | left _ read =>
    obtain ⟨e, member, left⟩ := read (Bool.and_eq_true_iff.mp free).1 after
    exact ⟨e, List.mem_append_left _ member, left⟩
  | right _ read =>
    obtain ⟨e, member, left⟩ := read (Bool.and_eq_true_iff.mp free).2 after
    exact ⟨e, List.mem_append_right _ member, left⟩
  | none => exact ⟨m, mem_repeats_self _ m, after⟩
  | @more greedy r u v _ _ read further =>
    rw [List.append_assoc] at after
    obtain ⟨d, inside, left⟩ := read free after
    cases u with
    | nil => exact further free after
    | cons c u =>
      obtain ⟨e, member, left'⟩ := further (m := d) free left
      have length : m.after.length = (u.length + (v ++ rest).length) + 1 := by
        rw [after, List.cons_append, List.length_cons, List.length_append]
      have member : e ∈ repeats (run isWord r) greedy d.after.length d := member
      refine ⟨e, ?_, left'⟩
      rw [run, length]
      refine mem_repeats_succ.mpr (Or.inr ⟨d, inside, ?_, repeats_mono ?_ member⟩)
      · rw [left, length]
        omega
      · rw [left]
        exact Nat.le_add_left _ _
  | @group number r w _ read =>
    obtain ⟨d, inside, left⟩ := read free after
    exact ⟨m.close number d, List.mem_map_of_mem inside, left⟩
  | boundary | behind | ahead => cases free

variable (isWord) in
/-- A place reached by a word of a plain pattern. -/
theorem reads_of_spells (free : r.plain = true) (word : Spells r w) {rest : List Char}
    (after : m.after = w ++ rest) :
    ∃ e ∈ run isWord r m, m.Reads e w ∧ e.after = rest := by
  obtain ⟨e, member, left⟩ := run_of_spells isWord free word after
  obtain ⟨w', -, reads⟩ := run_spells r member
  have same : w' = w := by
    have both := reads.1.symm.trans after
    rw [left] at both
    exact List.append_cancel_right both
  exact ⟨e, member, same ▸ reads, left⟩

/-! ## Sequences -/

theorem mem_run_seq : e ∈ run isWord (seq r s) m ↔ ∃ d ∈ run isWord r m, e ∈ run isWord s d :=
  List.mem_flatMap

theorem mem_run_sequence_cons {rest : List Regex} : e ∈ run isWord (sequence (r :: rest)) m ↔
    ∃ d ∈ run isWord r m, e ∈ run isWord (sequence rest) d := by
  cases rest with
  | nil => simp [sequence, run]
  | cons s rest => exact mem_run_seq

theorem mem_run_sequence_nil : e ∈ run isWord (sequence []) m ↔ e = m := List.mem_singleton

theorem mem_run_boundary : e ∈ run isWord boundary m ↔ atBoundary isWord m = true ∧ e = m := mem_guard

theorem mem_run_behind {text : List Char} :
    e ∈ run isWord (behind text) m ↔ text.reverse.isPrefixOf m.before = true ∧ e = m :=
  mem_guard

theorem mem_run_ahead : e ∈ run isWord (ahead r) m ↔ run isWord r m ≠ [] ∧ e = m := by
  rw [run, ← List.isEmpty_eq_false_iff]
  cases (run isWord r m).isEmpty <;> simp

theorem groups_of_groupless (bare : r.groupless = true) {m e : Mark} (member : e ∈ run isWord r m) :
    e.groups = m.groups := by
  induction r generalizing m e with
  | one accepts =>
    rw [run] at member
    split at member
    · cases member
    · obtain ⟨-, rfl⟩ := by simpa using member
      rfl
  | seq r s first second =>
    obtain ⟨bare, bare'⟩ := Bool.and_eq_true_iff.mp bare
    obtain ⟨d, inside, member⟩ := List.mem_flatMap.mp member
    exact (second bare' member).trans (first bare inside)
  | alt r s first second =>
    obtain ⟨bare, bare'⟩ := Bool.and_eq_true_iff.mp bare
    rcases List.mem_append.mp member with member | member
    · exact first bare member
    · exact second bare' member
  | many greedy r body =>
    rw [run] at member
    generalize m.after.length = fuel at member
    induction fuel generalizing m with
    | zero => rw [List.mem_singleton.mp member]
    | succ fuel ih =>
      rcases mem_repeats_succ.mp member with rfl | ⟨d, inside, -, later⟩
      · rfl
      · exact (ih later).trans (body bare inside)
  | group => cases bare
  | empty => rw [List.mem_singleton.mp member]
  | boundary | behind => rw [(mem_guard.mp member).2]
  | ahead => rw [(mem_run_ahead.mp member).2]

/-- A group holds the word that was read in it. -/
theorem mem_run_group {number : Nat} (bare : r.groupless = true)
    (member : e ∈ run isWord (group number r) m) :
    ∃ w, Spells r w ∧ m.Reads e w ∧ e.groups = (number, w) :: m.groups := by
  obtain ⟨d, inside, rfl⟩ := List.mem_map.mp member
  obtain ⟨w, read, reads⟩ := run_spells r inside
  have word : m.read d = w := by
    rw [Mark.read, reads.1, List.length_append, Nat.add_sub_cancel, List.take_left]
  exact ⟨w, read, reads, by rw [Mark.close, word, groups_of_groupless bare inside]⟩

/-! ## The way taken first -/

theorem first_mem (h : (run isWord r m).head? = some e) : e ∈ run isWord r m := List.mem_of_head? h

theorem first_seq (h : (run isWord (seq r s) m).head? = some e) :
    ∃ d ∈ run isWord r m, (run isWord s d).head? = some e := by
  rw [run, List.head?_flatMap] at h
  exact List.exists_of_findSome?_eq_some h

theorem first_sequence_cons {rest : List Regex}
    (h : (run isWord (sequence (r :: rest)) m).head? = some e) :
    ∃ d ∈ run isWord r m, (run isWord (sequence rest) d).head? = some e := by
  cases rest with
  | nil => exact ⟨e, first_mem h, rfl⟩
  | cons s rest => exact first_seq h

theorem first_alt (h : (run isWord (alt r s) m).head? = some e) :
    (run isWord r m).head? = some e ∨ (run isWord s m).head? = some e := by
  rw [run, List.head?_append] at h
  cases first : (run isWord r m).head? with
  | none =>
    rw [first] at h
    exact Or.inr h
  | some d =>
    rw [first] at h
    exact Or.inl h

theorem head?_repeats {p : Char → Bool} {fuel : Nat} (room : m.after.length ≤ fuel)
    (h : (repeats (run isWord (one p)) true fuel m).head? = some e) :
    ∀ c, e.after.head? = some c → p c = false := by
  induction fuel generalizing m with
  | zero =>
    obtain rfl := Option.some.inj h
    rw [List.length_eq_zero_iff.mp (Nat.le_zero.mp room)]
    rintro c ⟨⟩
  | succ fuel ih =>
    have stuck (unread : run isWord (one p) m = []) : e = m := by
      rw [repeats, unread] at h
      exact (Option.some.inj h).symm
    cases after : m.after with
    | nil =>
      rw [stuck (by rw [run, after]), after]
      rintro c ⟨⟩
    | cons c rest =>
      cases accepted : p c with
      | false =>
        rw [stuck (by rw [run, after]; simp [accepted]), after]
        rintro d ⟨⟩
        exact accepted
      | true =>
        have read : run isWord (one p) m = [{ m with before := c :: m.before, after := rest }] := by
          rw [run, after]
          simp [accepted]
        have shorter : rest.length ≤ fuel := by
          rw [after] at room
          exact Nat.le_of_succ_le_succ room
        rw [repeats, read] at h
        have some_way : { m with before := c :: m.before, after := rest } ∈
            repeats (run isWord (one p)) true fuel { m with before := c :: m.before, after := rest } :=
          mem_repeats_self fuel _
        rw [List.filter_cons_of_pos (by simp [after]), List.filter_nil, List.flatMap_singleton,
          if_pos rfl,
          List.head?_append_of_ne_nil _ (List.ne_nil_of_mem some_way)] at h
        exact ih shorter h

/-- As many characters as there are. -/
theorem first_star {p : Char → Bool} (h : (run isWord (star (one p)) m).head? = some e) :
    ∀ c, e.after.head? = some c → p c = false := head?_repeats (Nat.le_refl _) h

theorem first_atLeast {n : Nat} {p : Char → Bool}
    (h : (run isWord (atLeast n (one p)) m).head? = some e) :
    ∀ c, e.after.head? = some c → p c = false := by
  obtain ⟨d, -, last⟩ := first_seq h
  exact first_star last

end

end Cindral.Base.Regex

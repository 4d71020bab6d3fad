import Cindral.Base.Words

/-!
# What rewriting makes of a text

`search_iff` says where a pattern is found. `sub_masks` lines a text up with its rewriting, and
`Masks.place` and `Masks.read` lead from a place and a word of the rewriting back to the text.
-/

namespace Cindral.Base.Regex

/-! ## Where a pattern is found -/

/-- The pattern matches at a place, the characters before it the nearest first. -/
def MatchesAt (isWord : Char → Bool) (r : Regex) (before after : List Char) : Prop :=
  (matchAt isWord r { before, after }).isSome = true

section
variable {isWord : Char → Bool} {r : Regex} {m e : Mark} {before after text : List Char}

theorem matchAt_first (h : matchAt isWord r m = some e) :
    (run isWord r m).head? = some e ∧ e.after.length < m.after.length := by
  obtain ⟨first, shorter⟩ := Option.filter_eq_some_iff.mp h
  exact ⟨first, of_decide_eq_true shorter⟩

theorem matchesAt_iff (reads : 0 < r.least) :
    MatchesAt isWord r before after ↔ ∃ e, e ∈ run isWord r { before, after } := by
  constructor
  · intro found
    obtain ⟨e, h⟩ := Option.isSome_iff_exists.mp found
    exact ⟨e, first_mem (matchAt_first h).1⟩
  · rintro ⟨e, member⟩
    cases h : (run isWord r { before, after }).head? with
    | none => exact absurd (List.head?_eq_none_iff.mp h) (List.ne_nil_of_mem member)
    | some first =>
      obtain ⟨w, word, same, -⟩ := run_spells r (first_mem h)
      have shorter : first.after.length < after.length := by
        have long := word.least
        have length : after.length = (w ++ first.after).length := congrArg List.length same
        rw [List.length_append] at length
        omega
      rw [MatchesAt, matchAt, h]
      simp [shorter]

theorem searchFrom_iff {fuel : Nat} (bare : m.groups = []) : searchFrom isWord r fuel m = true ↔
    ∃ u y, m.after = u ++ y ∧ u.length < fuel ∧ MatchesAt isWord r (u.reverse ++ m.before) y := by
  induction fuel generalizing m with
  | zero => simp [searchFrom]
  | succ fuel ih =>
    obtain ⟨before, after, groups⟩ := m
    obtain rfl : groups = [] := bare
    rw [searchFrom, Bool.or_eq_true, ih rfl]
    constructor
    · rintro (here | ⟨u, y, split, few, there⟩)
      · exact ⟨[], after, rfl, Nat.succ_pos _, here⟩
      · cases after with
        | nil =>
          obtain ⟨rfl, rfl⟩ := List.append_eq_nil_iff.mp split.symm
          exact ⟨[], [], rfl, Nat.succ_pos _, there⟩
        | cons c rest => 
          refine ⟨c :: u, y, congrArg (c :: ·) split, Nat.succ_lt_succ few, ?_⟩
          rw [List.reverse_cons, List.append_assoc]
          exact there
    · rintro ⟨u, y, split, few, there⟩
      cases u with
      | nil =>
        obtain rfl : after = y := split
        exact Or.inl there
      | cons c u =>
        obtain rfl : after = c :: (u ++ y) := split
        refine Or.inr ⟨u, y, rfl, Nat.lt_of_succ_lt_succ few, ?_⟩
        rw [List.reverse_cons, List.append_assoc] at there
        exact there

theorem MatchesAt.ne_nil (h : MatchesAt isWord r before after) : after ≠ [] := by
  rintro rfl
  obtain ⟨e, found⟩ := Option.isSome_iff_exists.mp h
  exact absurd (matchAt_first found).2 (Nat.not_lt_zero _)

/-- The first match is rewritten, and what is before it stays. -/
theorem subFrom_of_searchFrom (fill : Mark → List Char) {fuel : Nat} (bare : m.groups = [])
    (found : searchFrom isWord r fuel m = true) :
    ∃ x y e rest, m.after = x ++ y ∧ matchAt isWord r
      { before := x.reverse ++ m.before, after := y } = some e ∧
      subFrom isWord r fill fuel m = x ++ (fill e ++ rest) := by
  induction fuel generalizing m with
  | zero => cases found
  | succ fuel ih =>
    obtain ⟨before, after, groups⟩ := m
    obtain rfl : groups = [] := bare
    cases here : matchAt isWord r { before, after } with
    | some e => exact ⟨[], after, e, _, rfl, here, by rw [subFrom, here, List.nil_append]⟩
    | none =>
      rw [searchFrom, here, Option.isSome_none, Bool.false_or] at found
      obtain ⟨x, y, e, rest, split, there, rewritten⟩ := ih rfl found
      cases after with
      | nil => exact ⟨x, y, e, rest, split, there, by rw [subFrom, here, ← rewritten]; rfl⟩
      | cons c after =>
        refine ⟨c :: x, y, e, rest, congrArg (c :: ·) split, ?_, ?_⟩
        · rw [List.reverse_cons, List.append_assoc]
          exact there
        · rw [subFrom, here, List.cons_append, ← rewritten]
          rfl

theorem sub_of_search (fill : Mark → List Char) (found : search isWord r text = true) :
    ∃ x y e rest, text = x ++ y ∧
    matchAt isWord r { before := x.reverse, after := y } = some e ∧
    sub isWord r fill text = x ++ (fill e ++ rest) := by
  obtain ⟨x, y, e, rest, split, there, rewritten⟩ := subFrom_of_searchFrom fill rfl found
  refine ⟨x, y, e, rest, split, ?_, rewritten⟩
  rwa [Mark.start, List.append_nil] at there

theorem search_iff : search isWord r text = true ↔ ∃ u y, text = u ++ y ∧
    MatchesAt isWord r u.reverse y := by
  rw [search, searchFrom_iff rfl]
  simp only [Mark.start, List.append_nil]
  constructor
  · rintro ⟨u, y, split, -, there⟩
    exact ⟨u, y, split, there⟩
  · rintro ⟨u, y, split, there⟩
    refine ⟨u, y, split, ?_, there⟩
    have some_left := List.length_pos_of_ne_nil there.ne_nil
    rw [split, List.length_append]
    omega

end

/-! ## A text beside its rewriting -/

/-- Characters that stay, and pieces with a mark in their place: `keeps` holds of the place of each
that stays, and `hides` of what is before a piece, the piece, its mark and what is after it. -/
inductive Masks (keeps : List Char → List Char → Prop)
    (hides : List Char → List Char → List Char → List Char → Prop) :
    List Char → List Char → List Char → Prop
  | done {b : List Char} : Masks keeps hides b [] []
  | keep {b rest out : List Char} {c : Char} (here : keeps b (c :: rest))
      (later : Masks keeps hides (c :: b) rest out) :
      Masks keeps hides b (c :: rest) (c :: out)
  | hide {b piece mark after out : List Char} (hidden : hides b piece mark after)
      (later : Masks keeps hides (piece.reverse ++ b) after out) :
      Masks keeps hides b (piece ++ after) (mark ++ out)

section
variable {keeps : List Char → List Char → Prop}
    {hides : List Char → List Char → List Char → List Char → Prop}

theorem Masks.mono {keeps' : List Char → List Char → Prop}
    {hides' : List Char → List Char → List Char → List Char → Prop}
    {b text out : List Char} (kept : ∀ b y, keeps b y → keeps' b y)
    (hidden : ∀ b piece mark after, hides b piece mark after → hides' b piece mark after)
    (masks : Masks keeps hides b text out) :
    Masks keeps' hides' b text out := by
  induction masks with
  | done => exact .done
  | keep here _ ih => exact .keep (kept _ _ here) ih
  | hide here _ ih => exact .hide (hidden _ _ _ _ here) ih

theorem Masks.keep_append {b kept rest out : List Char}
    (here : ∀ s t, kept = s ++ t → t ≠ [] → keeps (s.reverse ++ b) (t ++ rest))
    (later : Masks keeps hides (kept.reverse ++ b) rest out) :
    Masks keeps hides b (kept ++ rest) (kept ++ out) := by
  induction kept generalizing b with
  | nil => exact later
  | cons c kept ih =>
    refine .keep (here [] _ rfl (List.cons_ne_nil c kept)) (ih (fun s t split some => ?_) ?_)
    · have place := here (c :: s) t (congrArg (c :: ·) split) some
      rwa [List.reverse_cons, List.append_assoc] at place
    · rwa [List.reverse_cons, List.append_assoc] at later

/-- What a match rewrites: a part of it stays, and the rest is hidden. -/
structure Rewrites (keeps : List Char → List Char → Prop)
    (hides : List Char → List Char → List Char → List Char → Prop)
    (before read after filled : List Char) : Prop where
  parts : ∃ kept piece mark, read = kept ++ piece ∧ filled = kept ++ mark ∧
    hides (kept.reverse ++ before) piece mark after ∧
    ∀ s t, kept = s ++ t → t ≠ [] → keeps (s.reverse ++ before) (t ++ (piece ++ after))

theorem subFrom_masks {isWord : Char → Bool} {r : Regex} {fill : Mark → List Char} {fuel : Nat} {m : Mark}
    (idle : ∀ b y, matchAt isWord r { before := b, after := y } = none → keeps b y)
    (rewrites : ∀ b y e w, matchAt isWord r { before := b, after := y } = some e →
      Mark.Reads { before := b, after := y } e w →
      Rewrites keeps hides b w e.after (fill e))
    (bare : m.groups = []) (room : m.after.length ≤ fuel) :
    Masks keeps hides m.before m.after (subFrom isWord r fill fuel m) := by
  induction fuel generalizing m with
  | zero =>
    rw [subFrom, List.length_eq_zero_iff.mp (Nat.le_zero.mp room)]
    exact .done
  | succ fuel ih =>
    obtain ⟨before, after, groups⟩ := m
    obtain rfl : groups = [] := bare
    rw [subFrom]
    split
    · rename_i e found
      obtain ⟨first, shorter⟩ := matchAt_first found
      obtain ⟨w, -, reads⟩ := run_spells r (first_mem first)
      obtain ⟨kept, piece, mark, rfl, filled, hidden, here⟩ :=
        (rewrites before after e w found reads).parts
      have later := ih (m := { e with groups := [] }) rfl
        (Nat.le_of_lt_succ (Nat.lt_of_lt_of_le shorter room))
      obtain ⟨rfl, passed⟩ := reads
      rw [List.reverse_append, List.append_assoc] at passed
      show Masks keeps hides before (kept ++ piece ++ e.after) _
      rw [filled, List.append_assoc, List.append_assoc]
      refine .keep_append here (.hide hidden ?_)
      rw [← passed]
      exact later
    · rename_i missed
      cases after with
      | nil => 
        have later := ih (m := Mark.skip { before, after := [] }) rfl (Nat.zero_le _)
        exact later
      | cons c rest => 
        exact .keep (idle before (c :: rest) missed)
          (ih (m := Mark.skip { before, after := c :: rest }) rfl (Nat.le_of_succ_le_succ room))

theorem sub_masks {isWord : Char → Bool} {r : Regex} {fill : Mark → List Char}
    (idle : ∀ b y, matchAt isWord r { before := b, after := y } = none → keeps b y)
    (rewrites : ∀ b y e w, matchAt isWord r { before := b, after := y } = some e →
      Mark.Reads { before := b, after := y } e w →
      Rewrites keeps hides b w e.after (fill e)) (text : List Char) :
    Masks keeps hides [] text (sub isWord r fill text) :=
  subFrom_masks (m := .start text) idle rewrites rfl (Nat.le_refl _)

/-- A place of the rewriting is a place of the text, or it is inside a mark. `linked` relates what
is before it on both sides. -/
theorem Masks.place {linked : List Char → List Char → List Char → Prop} {b b' text out u y : List Char}
    (keep : ∀ b b' c rest, linked b b' (c :: rest) → linked (c :: b) (c :: b') rest)
    (hide : ∀ b b' piece mark after, hides b piece mark after → linked b b' (piece ++ after) →
      linked (piece.reverse ++ b) (mark.reverse ++ b') after)
    (masks : Masks keeps hides b text out) (start : linked b b' text) (split : out = u ++ y) :
    (∃ x z, text = x ++ z ∧ Masks keeps hides (x.reverse ++ b) z y ∧
      linked (x.reverse ++ b) (u.reverse ++ b') z) ∨
      ∃ b piece mark after s t u' rest, hides b piece mark after ∧ mark = s ++ t ∧ s ≠ [] ∧ t ≠ [] ∧
        u = u' ++ s ∧
        y = t ++ rest := by
  induction masks generalizing u b' with
  | done =>
    obtain ⟨rfl, rfl⟩ := List.append_eq_nil_iff.mp split.symm
    exact Or.inl ⟨[], [], rfl, .done, start⟩
  | @keep b rest out c here later ih =>
    cases u with
    | nil =>
      obtain rfl : c :: out = y := split
      exact Or.inl ⟨[], c :: rest, rfl, .keep here later, start⟩
    | cons c' u =>
      obtain ⟨rfl, rfl⟩ := List.cons.inj split
      rcases ih (keep _ _ _ _ start) rfl with ⟨x, z, rfl, masks, linked⟩ | inside
      · refine Or.inl ⟨c :: x, z, rfl, ?_⟩
        rw [List.reverse_cons, List.append_assoc, List.reverse_cons, List.append_assoc]
        exact ⟨masks, linked⟩
      · obtain ⟨b, piece, mark, after, s, t, u', rest, hidden, same, some_s, some_t, rfl, left⟩ := inside
        exact Or.inr ⟨b, piece, mark, after, s, t, c :: u', rest, hidden, same, some_s, some_t, rfl, left⟩
  | @hide b piece mark after out hidden later ih =>
    have onward {v : List Char} (split : out = v ++ y) : (∃ x z, piece ++ after = x ++ z ∧
        Masks keeps hides (x.reverse ++ b) z y ∧ linked (x.reverse ++ b) ((mark ++ v).reverse ++ b') z) ∨
        ∃ b piece mark' after s t u' rest, hides b piece mark' after ∧ mark' = s ++ t ∧ s ≠ [] ∧
          t ≠ [] ∧ mark ++ v = u' ++ s ∧
          y = t ++ rest := by
      rcases ih (hide _ _ _ _ _ hidden start) split with ⟨x, z, same, masks, linked⟩ | inside
      · refine Or.inl ⟨piece ++ x, z, by rw [same, List.append_assoc], ?_⟩
        rw [List.reverse_append, List.append_assoc, List.reverse_append, List.append_assoc]
        exact ⟨masks, linked⟩
      · obtain ⟨b, piece, mark', after, s, t, u', rest, hidden, same, some_s, some_t, rfl, left⟩ := inside
        exact Or.inr ⟨b, piece, mark', after, s, t, mark ++ u', rest, hidden, same, some_s, some_t,
          (List.append_assoc mark u' s).symm, left⟩
    rcases List.append_eq_append_iff.mp split with ⟨v, rfl, rest⟩ | ⟨t, same, rfl⟩
    · exact onward rest
    · rcases eq_or_ne t [] with rfl | some_t
      · rw [List.append_nil] at same
        obtain rfl := same
        have := onward (v := []) rfl
        rwa [List.append_nil] at this
      · rcases eq_or_ne u [] with rfl | some_u
        · obtain rfl : mark = t := same
          exact Or.inl ⟨[], piece ++ after, rfl, .hide hidden later, start⟩
        · exact Or.inr ⟨b, piece, mark, after, u, t, [], out, hidden, same, some_u, some_t, rfl, rfl⟩

/-- A word that no mark can be a part of, nor a part of a mark, stands in the text too. -/
theorem Masks.read {b z w y : List Char} (masks : Masks keeps hides b z (w ++ y))
    (apart : ∀ s v piece mark after, w = s ++ v → v ≠ [] → hides (s.reverse ++ b) piece mark after →
    ¬(v <+: mark ∨ mark <+: v)) :
    ∃ rest, z = w ++ rest ∧ Masks keeps hides (w.reverse ++ b) rest y ∧
      ∀ s v, w = s ++ v → v ≠ [] → keeps (s.reverse ++ b) (v ++ rest) := by
  induction w generalizing b z with
  | nil =>
    refine ⟨z, rfl, masks, fun s v split some => ?_⟩
    exact absurd (List.append_eq_nil_iff.mp split.symm).2 some
  | cons c w ih =>
    generalize whole : c :: w ++ y = out at masks
    cases masks with
    | done => cases whole
    | @keep _ rest out c' here later =>
      obtain ⟨rfl, rfl⟩ := List.cons.inj whole
      obtain ⟨rest, rfl, masks, kept⟩ := ih later fun s v piece mark after split some hidden =>
        apart (c :: s) v piece mark after (congrArg (c :: ·) split) some (by
          rw [List.reverse_cons, List.append_assoc]
          exact hidden)
      refine ⟨rest, rfl, ?_, fun s v split some => ?_⟩
      · rw [List.reverse_cons, List.append_assoc]
        exact masks
      · cases s with
        | nil =>
          obtain rfl : c :: w = v := split
          exact here
        | cons c' s =>
          obtain ⟨rfl, rfl⟩ := List.cons.inj split
          have place := kept s v rfl some
          rw [List.reverse_cons, List.append_assoc]
          exact place
    | @hide _ piece mark after out hidden later =>
      have both : (c :: w) <+: mark ∨ mark <+: (c :: w) :=
        List.prefix_or_prefix_of_prefix (List.prefix_append (c :: w) y)
        (whole ▸ List.prefix_append mark out)
      exact absurd both (apart [] (c :: w) piece mark after rfl (List.cons_ne_nil c w) hidden)

end

end Cindral.Base.Regex

import Cindral.Base.Rewriting
import Cindral.Check.Redact

/-!
# Text behind marks

A pass hides what its pattern matched behind a mark. What a pattern knows a credential by cannot
overlap a mark, so a match of a rewriting is a match of the text that was rewritten.
-/

namespace Cindral.Check
open Base Regex

-- what is said of a list is decided along the list, not over every character
local instance decidableAll {p : Char → Prop} [DecidablePred p] (l : List Char) :
    Decidable (∀ c ∈ l, p c) := List.decidableBAll p l

local instance decidableAny {p : Char → Prop} [DecidablePred p] (l : List Char) :
    Decidable (∃ c ∈ l, p c) := List.decidableBEx p l

/-- What is known of `\w`: it is as in ASCII there, and it has no blank. -/
structure WordClass (isWord : Char → Bool) : Prop where
  ascii : ∀ c, c.toNat < 128 → isWord c = asciiWord c
  blank : ∀ c, isSpace c = true → isWord c = false

theorem asciiWord_class : WordClass asciiWord := by
  refine ⟨fun _ _ => rfl, fun c space => ?_⟩
  simp [isSpace] at space
  simp only [asciiWord, isAlnum, isUpper, isDigit, Bool.or_eq_false_iff, Bool.and_eq_false_iff,
    decide_eq_false_iff_not, Char.le_def,
    UInt32.le_iff_toNat_le, Char.toNat_val]
  refine ⟨⟨⟨?_, ?_⟩, ?_⟩, ?_⟩
  · simp
    omega
  · simp
    omega
  · simp
    omega
  · rintro rfl
    simp at space

def mark : List Char := redacted.toList

/-! ## Edges -/

/-- `\b` between what is before a place, the nearest first, and what is after it. -/
def edge (isWord : Char → Bool) (before after : List Char) : Bool :=
  before.head?.any isWord != after.head?.any isWord

section
variable {isWord : Char → Bool}

theorem mem_run_edge {m e : Mark} : e ∈ run isWord boundary m ↔
    edge isWord m.before m.after = true ∧ e = m := mem_run_boundary

theorem edge_inner {b w s z : List Char} (some_w : w ≠ []) (some_s : s ≠ []) :
    edge isWord (w.reverse ++ b) (s ++ z) = edge isWord w.reverse s := by
  rw [edge, List.head?_append_of_ne_nil _ (List.reverse_ne_nil_iff.mpr some_w),
    List.head?_append_of_ne_nil _ some_s, edge]

/-! ## Marks -/

/-- A piece that goes for a mark: neither side of it runs on as a word. -/
structure Hidden (isWord : Char → Bool) (b piece instead after : List Char) : Prop where
  mark : instead = mark ∨ instead = ' ' :: mark
  some : piece ≠ []
  left : b.head?.any isWord = true → piece.head?.any isWord = false
  right : after.head?.any isWord = true → (piece.reverse ++ b).head?.any isWord = false

/-- What is before a place of a text and of its rewriting: the same up to a mark, and no new end of
a word. -/
structure Linked (isWord : Char → Bool) (b b' after : List Char) : Prop where
  front : ∀ s, s <+: b' → ']' ∉ s → s <+: b
  edge : b'.head? = b.head? ∨ b'.head? = some ']' ∧
    (after.head?.any isWord = true → b.head?.any isWord = false)

theorem linked_nil (after : List Char) : Linked isWord [] [] after := ⟨fun _ h _ => h, Or.inl rfl⟩

theorem linked_keep (b b' : List Char) (c : Char) (rest : List Char)
    (h : Linked isWord b b' (c :: rest)) :
    Linked isWord (c :: b) (c :: b') rest := by
  refine ⟨fun s here clear => ?_, Or.inl rfl⟩
  cases s with
  | nil => exact List.nil_prefix
  | cons d s =>
    obtain ⟨rfl, within⟩ := List.cons_prefix_cons.mp here
    exact List.cons_prefix_cons.mpr ⟨rfl, h.front s within fun member =>
      clear (List.mem_cons_of_mem _ member)⟩

theorem linked_read {b b' w z : List Char} (h : Linked isWord b b' (w ++ z)) :
    Linked isWord (w.reverse ++ b) (w.reverse ++ b') z := by
  induction w generalizing b b' with
  | nil => exact h
  | cons c w ih =>
    rw [List.reverse_cons, List.append_assoc, List.append_assoc]
    exact ih (linked_keep b b' c _ h)

theorem mark_reverse (b : List Char) : ∃ rest, mark.reverse ++ b = ']' :: rest := ⟨_, rfl⟩

theorem linked_hide (b b' piece instead after : List Char) (hidden : Hidden isWord b piece instead after)
    (_ : Linked isWord b b' (piece ++ after)) :
    Linked isWord (piece.reverse ++ b) (instead.reverse ++ b') after := by
  obtain ⟨rest, same⟩ : ∃ rest, instead.reverse ++ b' = ']' :: rest := by
    rcases hidden.mark with rfl | rfl
    · exact mark_reverse b'
    · rw [List.reverse_cons, List.append_assoc]
      exact mark_reverse _
  rw [same]
  refine ⟨fun s here clear => ?_, Or.inr ⟨rfl, hidden.right⟩⟩
  cases s with
  | nil => exact List.nil_prefix
  | cons d s =>
    obtain ⟨rfl, -⟩ := List.cons_prefix_cons.mp here
    exact absurd List.mem_cons_self clear

/-! ## Words that no mark touches -/

/-- A word that cannot overlap a mark. -/
structure Foreign (w : List Char) : Prop where
  opens : '[' ∉ w
  closes : ']' ∉ w
  ends : w.getLast? ≠ some ' '
  strange : ∃ c ∈ w, c ∉ mark

theorem Foreign.ne_nil {w : List Char} (h : Foreign w) : w ≠ [] := by
  rintro rfl
  obtain ⟨c, member, -⟩ := h.strange
  cases member

variable {keeps : List Char → List Char → Prop}
    {hides : List Char → List Char → List Char → List Char → Prop}
  {b b' text out u w y : List Char}

/-- A foreign word does not begin inside a mark. -/
theorem Foreign.outside (foreign : Foreign w) {piece instead after s t rest : List Char}
    (hidden : Hidden isWord b piece instead after)
    (split : instead = s ++ t) (some_s : s ≠ []) (some_t : t ≠ []) (left : w ++ y = t ++ rest) :
    False := by
  have suffix : t <:+ mark := by
    rcases hidden.mark with rfl | rfl
    · exact split ▸ List.suffix_append s t
    · obtain ⟨c, s, rfl⟩ := List.exists_cons_of_ne_nil some_s
      obtain ⟨-, same⟩ := List.cons.inj split
      exact same ▸ List.suffix_append s t
  have last : ']' ∈ t := by
    obtain ⟨front, same⟩ := suffix
    obtain ⟨c, c_last⟩ : ∃ c, t.getLast? = some c :=
      Option.isSome_iff_exists.mp (List.getLast?_isSome.mpr some_t)
    have whole : mark.getLast? = some c := by rw [← same, List.getLast?_append, c_last, Option.some_or]
    obtain rfl : ']' = c := Option.some.inj whole
    exact List.mem_of_getLast? c_last
  rcases List.prefix_or_prefix_of_prefix (List.prefix_append w y)
    (left ▸ List.prefix_append t rest) with inside | covers
  · obtain ⟨c, member, strange⟩ := foreign.strange
    exact strange (suffix.mem (inside.mem member))
  · exact foreign.closes (covers.mem last)

theorem Foreign.apart (foreign : Foreign w) {s v piece instead after : List Char}
    (split : w = s ++ v) (some_v : v ≠ [])
    (hidden : Hidden isWord b piece instead after) : ¬(v <+: instead ∨ instead <+: v) := by
  subst split
  have opens : '[' ∈ instead := by
    rcases hidden.mark with rfl | rfl <;> decide
  rintro (inside | covers)
  · obtain ⟨c, v, rfl⟩ := List.exists_cons_of_ne_nil some_v
    rcases hidden.mark with rfl | rfl
    · obtain ⟨rfl, -⟩ := List.cons_prefix_cons.mp inside
      exact foreign.opens (List.mem_append_right _ List.mem_cons_self)
    · obtain ⟨same, within⟩ := List.cons_prefix_cons.mp inside
      cases v with
      | nil => exact foreign.ends (same ▸ List.getLast?_concat)
      | cons d v =>
        obtain ⟨rfl, -⟩ := List.cons_prefix_cons.mp within
        exact foreign.opens (List.mem_append_right _ (List.mem_cons_of_mem _ List.mem_cons_self))
  · exact foreign.opens (List.mem_append_right _ (covers.mem opens))

/-- A foreign word of the rewriting stands in the text. -/
theorem Foreign.carried (foreign : Foreign w) (hidden : ∀ b piece instead after,
    hides b piece instead after → Hidden isWord b piece instead after)
    (masks : Masks keeps hides b text out) (linked : Linked isWord b b' text)
    (split : out = u ++ (w ++ y)) :
    ∃ x z, text = x ++ (w ++ z) ∧ Masks keeps hides (w.reverse ++ (x.reverse ++ b)) z y ∧
      Linked isWord (x.reverse ++ b) (u.reverse ++ b') (w ++ z) ∧ keeps (x.reverse ++ b) (w ++ z) := by
  rcases masks.place linked_keep (fun b b' piece instead after here => linked_hide b b' piece
    instead after (hidden _ _ _ _ here))
    linked split with ⟨x, z, rfl, masks, linked⟩ |
    ⟨b, piece, instead, after, s, t, u', rest, here, same, some_s, some_t, -, left⟩
  · obtain ⟨z, rfl, masks, kept⟩ := masks.read fun s v piece instead after split some_v here =>
      foreign.apart split some_v (hidden _ _ _ _ here)
    exact ⟨x, z, rfl, masks, linked, kept [] w rfl foreign.ne_nil⟩
  · exact (foreign.outside (hidden _ _ _ _ here) same some_s some_t left).elim

theorem edge_back (words : WordClass isWord) {z : List Char} (some_w : w ≠ [])
    (linked : Linked isWord b b' (w ++ z))
    (h : edge isWord b' (w ++ y) = true) : edge isWord b (w ++ z) = true := by
  unfold edge at h ⊢
  rw [List.head?_append_of_ne_nil _ some_w] at h ⊢
  rcases linked.edge with same | ⟨marked, apart⟩
  · rwa [← same]
  · have bracket : isWord ']' = false := words.ascii ']' (by decide)
    rw [List.head?_append_of_ne_nil _ some_w] at apart
    rw [marked, Option.any_some, bracket, bne_iff_ne] at h
    have starts : w.head?.any isWord = true := by simpa using h.symm
    rw [apart starts, starts]
    rfl

theorem edge_ahead (words : WordClass isWord) {z : List Char} (some_w : w ≠ [])
    (hidden : ∀ b piece instead after, hides b piece instead after → Hidden isWord b piece instead after)
    (masks : Masks keeps hides (w.reverse ++ b) z y) (h : edge isWord (w.reverse ++ b') y = true) :
    edge isWord (w.reverse ++ b) z = true := by
  have some_back := List.reverse_ne_nil_iff.mpr some_w
  unfold edge at h ⊢
  rw [List.head?_append_of_ne_nil _ some_back] at h ⊢
  cases masks with
  | done => exact h
  | keep => exact h
  | @hide _ piece instead after out here later =>
    have bracket : isWord '[' = false := words.ascii '[' (by decide)
    have space : isWord ' ' = false := words.ascii ' ' (by decide)
    have mute : (instead ++ out).head?.any isWord = false := by
      rcases (hidden _ _ _ _ here).mark with rfl | rfl
      · exact bracket
      · exact space
    have ends : w.reverse.head?.any isWord = true := by
      rw [mute, bne_iff_ne] at h
      simpa using h
    have apart := (hidden _ _ _ _ here).left
    rw [List.head?_append_of_ne_nil _ some_back] at apart
    rw [List.head?_append_of_ne_nil _ (hidden _ _ _ _ here).some, apart ends, ends]
    rfl

/-! ## Tokens -/

/-- A pattern of two parts between edges, whose words overlap no mark. -/
structure IsToken (p : Regex) : Prop where
  shape : ∃ r s, p = sequence [boundary, r, s, boundary] ∧ r.plain = true ∧ s.plain = true ∧
    0 < r.least + s.least ∧
    ∀ w, Spells (seq r s) w → Foreign w

/-- Where a token is read: its word, between two edges. -/
def TokenAt (isWord : Char → Bool) (b w y : List Char) : Prop :=
  edge isWord b (w ++ y) = true ∧ edge isWord (w.reverse ++ b) y = true

theorem mem_run_bounded {r s : Regex} {m e : Mark}
    (member : e ∈ run isWord (sequence [boundary, r, s, boundary]) m) :
    ∃ w, Spells (seq r s) w ∧ m.Reads e w ∧ TokenAt isWord m.before w e.after := by
  simp only [mem_run_sequence_cons, mem_run_sequence_nil, mem_run_edge] at member
  obtain ⟨_, ⟨starts, rfl⟩, d, first, d', second, _, ⟨ends, rfl⟩, rfl⟩ := member
  obtain ⟨u, word, reads⟩ := run_spells r first
  obtain ⟨v, word', reads'⟩ := run_spells s second
  have whole := reads.trans reads'
  exact ⟨u ++ v, .seq word word', whole, whole.1 ▸ starts, whole.2 ▸ ends⟩

theorem matchesAt_bounded {r s : Regex} {y : List Char} (free : r.plain = true) (free' : s.plain = true)
    (long : 0 < r.least + s.least) : MatchesAt isWord (sequence [boundary, r, s, boundary]) b y ↔
    ∃ w z, y = w ++ z ∧ Spells (seq r s) w ∧ TokenAt isWord b w z := by
  rw [matchesAt_iff (by simpa [Regex.sequence, least] using long)]
  constructor
  · rintro ⟨e, member⟩
    obtain ⟨w, word, reads, between⟩ := mem_run_bounded member
    exact ⟨w, e.after, reads.1, word, between⟩
  · rintro ⟨w, z, rfl, word, starts, ends⟩
    obtain ⟨u, v, first, second, rfl⟩ := spells_seq.mp word
    obtain ⟨d, here, reads, left⟩ : ∃ d ∈ run isWord r { before := b, after := u ++ v ++ z }, _ ∧
        d.after = v ++ z :=
      reads_of_spells isWord free first (List.append_assoc u v z)
    obtain ⟨e, there, reads', rfl⟩ : ∃ e ∈ run isWord s d, _ ∧ e.after = z :=
      reads_of_spells isWord free' second left
    simp only [mem_run_sequence_cons, mem_run_sequence_nil, mem_run_edge]
    refine ⟨e, _, ⟨starts, rfl⟩, d, here, e, there, e, ⟨?_, rfl⟩, rfl⟩
    rw [(reads.trans reads').2]
    exact ends

/-- A token of a rewriting is a token of the text, at a place that stays. -/
theorem IsToken.carried {p : Regex} (token : IsToken p) (words : WordClass isWord)
    (hidden : ∀ b piece instead after, hides b piece instead after → Hidden isWord b piece instead after)
    (masks : Masks keeps hides [] text out) (found : search isWord p out = true) :
    ∃ x y, text = x ++ y ∧ MatchesAt isWord p x.reverse y ∧ keeps x.reverse y := by
  obtain ⟨r, s, rfl, free, free', long, foreign⟩ := token.shape
  obtain ⟨u, y, split, matched⟩ := search_iff.mp found
  obtain ⟨w, y, rfl, word, starts, ends⟩ := (matchesAt_bounded free free' long).mp matched
  have alien := foreign w word
  obtain ⟨x, z, rfl, later, linked, kept⟩ := alien.carried hidden masks (linked_nil text) split
  rw [List.append_nil] at later linked kept
  rw [List.append_nil] at linked
  refine ⟨x, w ++ z, rfl, (matchesAt_bounded free free' long).mpr ⟨w, z, rfl, word, ?_, ?_⟩, kept⟩
  · exact edge_back words alien.ne_nil linked starts
  · exact edge_ahead words alien.ne_nil hidden later ends

/-- The pass of a token, which leaves only what the token does not match. -/
theorem IsToken.masks {p : Regex} (token : IsToken p) (text : List Char) :
    Masks (fun b y => matchAt isWord p { before := b, after := y } = none) (Hidden isWord) [] text
      (sub isWord p (fill [.words redacted]) text) := by
  obtain ⟨r, s, rfl, -, -, -, foreign⟩ := token.shape
  refine sub_masks (fun _ _ missed => missed)
    (fun b y e w found reads => ⟨[], w, mark, rfl, ?_, ?_, ?_⟩) text
  · simp [fill, mark]
  · obtain ⟨w', word, reads', starts, ends⟩ := mem_run_bounded (first_mem (matchAt_first found).1)
    obtain rfl := reads.unique reads'
    have some_w := (foreign w word).ne_nil
    rw [edge, List.head?_append_of_ne_nil _ some_w, bne_iff_ne] at starts
    rw [edge, bne_iff_ne] at ends
    refine ⟨Or.inl rfl, some_w, fun before => ?_, fun after => ?_⟩
    · rw [List.reverse_nil, List.nil_append] at before
      simpa [before] using starts.symm
    · simpa [after] using ends
  · intro s t split some_t
    exact absurd (List.append_eq_nil_iff.mp split.symm).2 some_t

/-- A token is gone after its pass. -/
theorem IsToken.gone {p : Regex} (token : IsToken p) (words : WordClass isWord) (text : List Char) :
    search isWord p (sub isWord p (fill [.words redacted]) text) = false := by
  by_contra found
  obtain ⟨x, y, -, matched, missed⟩ :=
    token.carried words (fun _ _ _ _ h => h) (token.masks text) (Bool.eq_true_of_not_eq_false found)
  rw [MatchesAt, missed] at matched
  cases matched

end

/-! ## The patterns of tokens -/

theorem foreign_of_chars {p : Char → Bool} {w : List Char} (tame : ∀ c ∈ "[] ".toList, p c = false)
    (all : ∀ c ∈ w, p c = true)
    (strange : ∃ c ∈ w, c ∉ mark) : Foreign w := by
  have absent {c : Char} (odd : c ∈ "[] ".toList) : c ∉ w := fun member => by
    have both := all c member
    rw [tame c odd] at both
    cases both
  exact ⟨absent (by decide), absent (by decide), fun last => absent (c := ' ') (by decide)
    (List.mem_of_getLast? last), strange⟩

def tokenChar (c : Char) : Bool := isAlnum c || c = '_' || c = '-'

theorem spells_text {t : String} {w : List Char} : Spells (text t) w ↔ w = t.toList := spells_literal

theorem over_text {p : Char → Prop} {t : String} (h : ∀ c ∈ t.toList, p c) : (text t).Over p :=
  over_literal h

theorem over_anyOf {p : Char → Prop} {t : String} (h : ∀ c ∈ t.toList, p c) : (anyOf t).Over p :=
  over_one fun c member => h c (List.contains_iff_mem.mp member)

/-- A pattern is a token's if its characters are, and it begins with one that is not in a mark. -/
theorem isToken_of {r s : Regex} (odd : Char) (free : r.plain = true) (free' : s.plain = true)
    (long : 0 < r.least)
    (chars : r.Over fun c => tokenChar c = true) (chars' : s.Over fun c => tokenChar c = true)
    (strange : odd ∉ mark)
    (starts : ∀ u, Spells r u → odd ∈ u) : IsToken (sequence [boundary, r, s, boundary]) := by
  refine ⟨r, s, rfl, free, free', Nat.add_pos_left long _, fun w word => ?_⟩
  refine foreign_of_chars (p := tokenChar) (by decide) (over_seq chars chars' w word) ⟨odd, ?_, strange⟩
  obtain ⟨u, v, first, -, rfl⟩ := spells_seq.mp word
  exact List.mem_append_left v (starts u first)

theorem tokens_replacement : ∀ entry ∈ tokens, entry.replacement = [.words redacted] := by decide +kernel

theorem isToken : ∀ entry ∈ tokens, IsToken entry.pattern := by
  have alnum (c : Char) (h : isAlnum c = true) : tokenChar c = true := by simp [tokenChar, h]
  have upper (c : Char) (h : (isUpper c || isDigit c) = true) : tokenChar c = true := by
    refine alnum c ?_
    rcases Bool.or_eq_true_iff.mp h with h | h <;> simp [isAlnum, h]
  have low (c : Char) (h : (isAlnum c || decide (c = '_')) = true) : tokenChar c = true := by
    simp [tokenChar, h]
  have dash (c : Char) (h : (isAlnum c || decide (c = '-')) = true) : tokenChar c = true := by
    rcases Bool.or_eq_true_iff.mp h with h | h <;> simp [tokenChar, h]
  -- a start of fixed characters
  have worded {t : String} {n : Nat} {accepts : Char → Bool} (odd : Char)
      (long : 0 < (text t).least) (free : (text t).plain = true)
      (body : (atLeast n (one accepts)).plain = true) (chars : ∀ c ∈ t.toList, tokenChar c = true)
      (more : ∀ c, accepts c = true → tokenChar c = true) (member : odd ∈ t.toList)
      (strange : odd ∉ mark) :
      IsToken (token (text t) n accepts) :=
    isToken_of odd free body long (over_text chars) (over_atLeast (over_one more)) strange fun u word =>
    (spells_text.mp word) ▸ member
  -- a start of fixed characters, one of a few and a last one
  have marked {t chars last : String} {n : Nat} {accepts : Char → Bool} (odd : Char)
      (free : (sequence [text t, anyOf chars, text last]).plain = true)
      (body : (atLeast n (one accepts)).plain = true)
      (long : 0 < (sequence [text t, anyOf chars, text last]).least)
      (all : ∀ c ∈ t.toList ++ chars.toList ++ last.toList, tokenChar c = true)
      (more : ∀ c, accepts c = true → tokenChar c = true) (member : odd ∈ t.toList)
      (strange : odd ∉ mark) :
      IsToken (token (sequence [text t, anyOf chars, text last]) n accepts) := by
    refine isToken_of odd free body long (over_sequence ?_) (over_atLeast (over_one more)) strange
      fun u word => ?_
    · simp only [List.forall_mem_append] at all
      simp only [List.forall_mem_cons]
      exact ⟨over_text all.1.1, over_anyOf all.1.2, over_text all.2, fun _ h => by cases h⟩
    · obtain ⟨_, v, first, -, rfl⟩ := spells_sequence_cons.mp word
      exact List.mem_append_left v (spells_text.mp first ▸ member)
  simp only [tokens, List.forall_mem_cons]
  refine ⟨?_, ?_, ?_, ?_, ?_, ?_, ?_, ?_, fun _ h => by cases h⟩
  · exact marked 'g' (by decide) (by decide) (by decide) (by decide) alnum (by decide)
      (by decide)
  · exact worded 'g' (by decide) (by decide) (by decide) (by decide) low (by decide) (by decide)
  · refine isToken_of 'A' (by decide) (by decide) (by decide)
      (over_alt (over_seq (over_text (by decide)) (over_one upper))
      (over_seq (over_text (by decide)) (over_oneOf ?_)))
      (over_times (over_one upper)) (by decide) fun u word => ?_
    · rw [List.forall_mem_map]
      have letters : ∀ t ∈ ["BIA", "CCA", "GPA", "IDA", "IPA", "KIA", "NPA", "NVA", "ROA", "SCA", "SIA"],
          ∀ c ∈ t.toList, tokenChar c = true := by decide
      exact fun t member => over_text (letters t member)
    · rcases spells_alt.mp word with word | word
      all_goals
        obtain ⟨_, v, first, -, rfl⟩ := spells_seq.mp word
        exact List.mem_append_left v (spells_text.mp first ▸ by decide)
  · exact worded 'g' (by decide) (by decide) (by decide) (by decide) (fun c h => h)
      (by decide) (by decide)
  · exact marked 'x' (by decide) (by decide) (by decide) (by decide) dash (by decide) (by decide)
  · exact worded 'n' (by decide) (by decide) (by decide) (by decide) alnum (by decide)
      (by decide)
  · exact worded 'A' (by decide) (by decide) (by decide) (by decide) (fun c h => h)
      (by decide) (by decide)
  · refine isToken_of 'k' (by decide) (by decide) (by decide)
      (over_seq (over_anyOf (by decide)) (over_text (by decide)))
      (over_atLeast (over_one alnum)) (by decide) fun u word => ?_
    obtain ⟨v, _, -, last, rfl⟩ := spells_seq.mp word
    exact List.mem_append_right v (spells_text.mp last ▸ by decide)

/-! ## Names -/

theorem spells_folded {letters w : List Char} :
    Spells (sequence (letters.map fun letter => one fun c => foldCase c = letter)) w ↔
    w.map foldCase = letters := by
  induction letters generalizing w with
  | nil => rw [List.map_nil, Regex.sequence, spells_empty, List.map_eq_nil_iff]
  | cons letter letters ih =>
    rw [List.map_cons, spells_sequence_cons, List.map_eq_cons_iff]
    constructor
    · rintro ⟨u, v, first, later, rfl⟩
      obtain ⟨c, same, rfl⟩ := spells_one.mp first
      exact ⟨c, v, rfl, of_decide_eq_true same, ih.mp later⟩
    · rintro ⟨c, v, rfl, same, later⟩
      exact ⟨[c], v, .one (decide_eq_true same), ih.mpr later, rfl⟩

theorem spells_anyCase {t : String} {w : List Char} :
    Spells (anyCase t) w ↔ w.map foldCase = t.toList := spells_folded

def nameChar (c : Char) : Bool := isAlnum (foldCase c) || ['_', '.', '-'].contains (foldCase c)

theorem over_anyCase {t : String} (h : ∀ c ∈ t.toList, (isAlnum c || ['_', '.', '-'].contains c) = true) :
    (anyCase t).Over fun c => nameChar c = true := by
  refine over_sequence (List.forall_mem_map.mpr fun letter member => over_one fun c same => ?_)
  rw [nameChar, of_decide_eq_true same]
  exact h letter member

theorem foreign_of_name {w : List Char} (all : ∀ c ∈ w, nameChar c = true)
    (strange : ∃ c ∈ w, foldCase c ∉ mark) : Foreign w := by
  refine foreign_of_chars (by decide) all ?_
  obtain ⟨c, member, odd⟩ := strange
  have fixed : ∀ c ∈ mark, foldCase c = c := by decide
  exact ⟨c, member, fun inside => odd (by rwa [fixed c inside])⟩

/-- A letter of a word that no mark has. -/
theorem strange_of_anyCase {t : String} {w : List Char} (word : Spells (anyCase t) w)
    (odd : ∃ c ∈ t.toList, c ∉ mark) :
    ∃ c ∈ w, foldCase c ∉ mark := by
  obtain ⟨letter, member, odd⟩ := odd
  rw [← spells_anyCase.mp word] at member
  obtain ⟨c, inside, rfl⟩ := List.mem_map.mp member
  exact ⟨c, inside, odd⟩

theorem foreign_header {w : List Char} (word : Spells header w) : Foreign w := by
  refine foreign_of_name (over_alt (over_anyCase (by decide)) (over_anyCase (by decide)) w word) ?_
  rcases spells_alt.mp word with word | word
  · exact strange_of_anyCase word (by decide)
  · exact strange_of_anyCase word (by decide)

theorem foreign_bearer {w : List Char} (word : Spells (anyCase "bearer") w) : Foreign w :=
  foreign_of_name (over_anyCase (by decide) w word) (strange_of_anyCase word (by decide))

theorem over_twoWords {front back : String}
    (h : ∀ c ∈ front.toList ++ back.toList, (isAlnum c || ['_', '.', '-'].contains c) = true) :
    (twoWords front back).Over fun c => nameChar c = true := by
  obtain ⟨front_chars, back_chars⟩ := List.forall_mem_append.mp h
  refine over_sequence ?_
  simp only [List.forall_mem_cons]
  exact ⟨over_anyCase front_chars, over_opt (over_anyOf (by decide)), over_anyCase back_chars,
    fun _ h => by cases h⟩

theorem strange_of_twoWords {front back : String} {w : List Char} (word : Spells (twoWords front back) w)
    (odd : ∃ c ∈ front.toList, c ∉ mark) : ∃ c ∈ w, foldCase c ∉ mark := by
  obtain ⟨u, v, first, -, rfl⟩ := spells_sequence_cons.mp word
  obtain ⟨c, member, strange⟩ := strange_of_anyCase first odd
  exact ⟨c, List.mem_append_left v member, strange⟩

theorem over_credentialWords : ∀ r ∈ credentialWords, r.Over fun c => nameChar c = true := by
  simp only [credentialWords, List.forall_mem_cons]
  exact ⟨over_anyCase (by decide), over_anyCase (by decide), over_anyCase (by decide),
    over_anyCase (by decide),
    over_anyCase (by decide), over_twoWords (by decide), over_twoWords (by decide),
    over_twoWords (by decide),
    over_twoWords (by decide), over_twoWords (by decide), fun _ h => by cases h⟩

theorem strange_credentialWords : ∀ r ∈ credentialWords, ∀ w, Spells r w → ∃ c ∈ w,
    foldCase c ∉ mark := by
  have one {t : String} (odd : ∃ c ∈ t.toList, c ∉ mark) (w : List Char) (word : Spells (anyCase t) w) :
      ∃ c ∈ w, foldCase c ∉ mark := strange_of_anyCase word odd
  have two {front back : String} (odd : ∃ c ∈ front.toList, c ∉ mark) (w : List Char)
      (word : Spells (twoWords front back) w) :
      ∃ c ∈ w, foldCase c ∉ mark := strange_of_twoWords word odd
  simp only [credentialWords, List.forall_mem_cons]
  exact ⟨one (by decide), one (by decide), one (by decide), one (by decide), one (by decide),
    two (by decide), two (by decide),
    two (by decide), two (by decide), two (by decide), fun _ h => by cases h⟩

theorem foreign_named {w : List Char} (word : Spells named w) : Foreign w := by
  refine foreign_of_name (over_sequence ?_ w word) ?_
  · simp only [List.forall_mem_cons]
    exact ⟨over_star (over_seq (over_atLeast (over_one fun c h => by simp [nameChar, h]))
      (over_anyOf (by decide))),
      over_oneOf over_credentialWords, over_opt (over_anyCase (by decide)), fun _ h => by cases h⟩
  · obtain ⟨u, _, -, later, rfl⟩ := spells_sequence_cons.mp word
    obtain ⟨v, _, inside, -, rfl⟩ := spells_sequence_cons.mp later
    obtain ⟨r, member, read⟩ := spells_oneOf.mp inside
    obtain ⟨c, there, strange⟩ := strange_credentialWords r member v read
    exact ⟨c, List.mem_append_right u (List.mem_append_left _ there), strange⟩

/-! ## Settings -/

/-- Something that is set, perhaps after blanks. -/
def Valued (u : List Char) : Prop :=
  ∃ blanks c rest, u = blanks ++ c :: rest ∧ (∀ d ∈ blanks, isSpace d = true) ∧ isSpace c = false

/-- A name, a separator and what is set, at a place. -/
def KeyedAt (isWord : Char → Bool) (name separator : Regex) (b y : List Char) : Prop :=
  ∃ w s u, y = w ++ (s ++ u) ∧ Spells name w ∧ Spells separator s ∧ Valued u ∧
  edge isWord w.reverse s = true ∧ edge isWord b y = true

/-- A separator that may end in more blanks, and has no letter. -/
structure Separates (separator : Regex) : Prop where
  some : ∀ s, Spells separator s → s ≠ []
  chars : ∀ s, Spells separator s → ∀ c ∈ s, isSpace c = true ∨ c = ':' ∨ c = '='
  widen : ∀ s blanks, Spells separator s → (∀ c ∈ blanks, isSpace c = true) →
    Spells separator (s ++ blanks)

theorem spells_blanks {w : List Char} : Spells (star blank) w ↔ ∀ c ∈ w, isSpace c = true := spells_star

theorem separates_assign : Separates assign := by
  have parts {s : List Char} (word : Spells assign s) : ∃ u c v, s = u ++ c :: v ∧
      (∀ c ∈ u, isSpace c = true) ∧ (c = ':' ∨ c = '=') ∧
      ∀ c ∈ v, isSpace c = true := by
    obtain ⟨u, _, before, later, rfl⟩ := spells_sequence_cons.mp word
    obtain ⟨sign, v, one, after, rfl⟩ := spells_sequence_cons.mp later
    obtain ⟨c, among, rfl⟩ := spells_one.mp one
    exact ⟨u, c, v, rfl, spells_blanks.mp before, by simpa using among, spells_blanks.mp after⟩
  refine ⟨fun s word => ?_, fun s word => ?_, fun s blanks word all => ?_⟩
  · obtain ⟨u, c, v, rfl, -⟩ := parts word
    exact List.append_ne_nil_of_right_ne_nil u (List.cons_ne_nil c v)
  · obtain ⟨u, c, v, rfl, before, sign, after⟩ := parts word
    intro d member
    rcases List.mem_append.mp member with member | member
    · exact Or.inl (before d member)
    · rcases List.mem_cons.mp member with rfl | member
      · exact Or.inr sign
      · exact Or.inl (after d member)
  · obtain ⟨u, c, v, rfl, before, sign, after⟩ := parts word
    refine spells_sequence_cons.mpr ⟨u, c :: (v ++ blanks), spells_blanks.mpr before, ?_, by simp⟩
    refine spells_sequence_cons.mpr ⟨[c], v ++ blanks, .one (by simpa using sign), ?_, rfl⟩
    exact spells_blanks.mpr (List.forall_mem_append.mpr ⟨after, all⟩)

theorem separates_blanks : Separates (atLeast 1 blank) := by
  refine ⟨fun s word => ?_, fun s word c member => Or.inl ?_, fun s blanks word all => ?_⟩
  · exact List.ne_nil_of_length_pos (spells_atLeast.mp word).1
  · exact (spells_atLeast.mp word).2 c member
  · obtain ⟨long, blank⟩ := spells_atLeast.mp word
    refine spells_atLeast.mpr ⟨?_, List.forall_mem_append.mpr ⟨blank, all⟩⟩
    rw [List.length_append]
    exact Nat.le_add_right_of_le long

section
variable {isWord : Char → Bool} {keeps : List Char → List Char → Prop}
  {hides : List Char → List Char → List Char → List Char → Prop} {b b' text out u w y : List Char}

/-- A setting of a rewriting is a setting of the text, where a mark stands for something that is set. -/
theorem keyed_carried (words : WordClass isWord) {name separator : Regex}
    (foreign : ∀ w, Spells name w → Foreign w)
    (separates : Separates separator)
    (hidden : ∀ b piece instead after, hides b piece instead after → Hidden isWord b piece instead after)
    (firm : ∀ (w s b piece instead after : List Char), Spells name w →
      (∀ c ∈ s, isSpace c = true ∨ c = ':' ∨ c = '=') →
      hides (s.reverse ++ (w.reverse ++ b)) piece instead after → instead = mark ∧ Valued piece)
    (masks : Masks keeps hides [] text out) (split : out = u ++ y)
    (found : KeyedAt isWord name separator u.reverse y) :
    ∃ x z, text = x ++ z ∧ KeyedAt isWord name separator x.reverse z := by
  obtain ⟨w, s, v, rfl, word, sep, ⟨blanks, c, rest, rfl, blank, solid⟩, inner, starts⟩ := found
  rw [← List.append_assoc s blanks] at split starts
  have sep := separates.widen s blanks sep blank
  have some_s := separates.some s (by assumption)
  have inner : edge isWord w.reverse (s ++ blanks) = true := by
    rwa [edge, List.head?_append_of_ne_nil _ some_s]
  generalize s ++ blanks = s at split starts sep inner
  have alien := foreign w word
  have chars := separates.chars s sep
  obtain ⟨x, z, rfl, later, linked, -⟩ := alien.carried hidden masks (linked_nil text) split
  rw [List.append_nil] at later linked
  rw [List.append_nil] at linked
  obtain ⟨z, rfl, later, -⟩ := later.read fun s' v piece instead after split some_v here => by
    obtain ⟨rfl, -⟩ := firm w s' _ piece instead after word
      (fun c member => chars c (split ▸ List.mem_append_left v member)) here
    have opens : '[' ∉ v := fun member => by
      have odd := chars '[' (split ▸ List.mem_append_right s' member)
      revert odd
      decide
    rintro (inside | covers)
    · obtain ⟨c, v, rfl⟩ := List.exists_cons_of_ne_nil some_v
      obtain ⟨rfl, -⟩ := List.cons_prefix_cons.mp inside
      exact opens List.mem_cons_self
    · exact opens (covers.mem (by decide))
  have valued : Valued z := by
    generalize whole : c :: rest = out at later
    cases later with
    | done => cases whole
    | keep => 
      obtain ⟨rfl, -⟩ := List.cons.inj whole
      exact ⟨[], _, _, rfl, by simp, solid⟩
    | hide here =>
      obtain ⟨-, blanks, c, rest, rfl, blank, solid⟩ := firm w s _ _ _ _ word chars here
      exact ⟨blanks, c, _, by rw [List.append_assoc, List.cons_append], blank, solid⟩
  refine ⟨x, w ++ (s ++ z), rfl, w, s, z, rfl, word, sep, valued, inner,
    edge_back words alien.ne_nil linked starts⟩

end

end Cindral.Check

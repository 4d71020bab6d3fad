import Cindral.Base.Double
import Mathlib.Tactic.Linarith
import Mathlib.Tactic.Positivity

/-!
# Arithmetic of doubles

Sums and products are worked out exactly and then rounded. A rounding keeps order and leaves zero alone,
which is all the results about it use. `binary64` is the machine's, and `exact` rounds nothing.
-/

namespace Cindral.Base

/-! ## Order -/

namespace Double

theorem le_iff {x y : Double} :
    x.le y = true ↔ ∃ a b, x.order = some a ∧ y.order = some b ∧ a ≤ b := by
  unfold le
  cases x.order <;> cases y.order <;> simp

theorem lt_iff {x y : Double} :
    x.lt y = true ↔ ∃ a b, x.order = some a ∧ y.order = some b ∧ a < b := by
  unfold lt
  cases x.order <;> cases y.order <;> simp

theorem le_trans {x y z : Double} (xy : x.le y = true) (yz : y.le z = true) : x.le z = true := by
  obtain ⟨a, b, first, second, below⟩ := le_iff.mp xy
  obtain ⟨b', c, second', third, below'⟩ := le_iff.mp yz
  obtain rfl : b = b' := Option.some.inj (second.symm.trans second')
  exact le_iff.mpr ⟨a, c, first, third, below.trans below'⟩

theorem number_of_le {x y : Double} (xy : x.le y = true) : x ≠ nan ∧ y ≠ nan := by
  constructor
  · rintro rfl
    cases xy
  · rintro rfl
    obtain ⟨_, _, _, second, _⟩ := le_iff.mp xy
    cases second

theorem order_eq_none {x : Double} : x.order = none ↔ x = nan := by
  cases x with
  | infinite negative => cases negative <;> simp [order]
  | _ => simp [order]

/-- Two numbers compare. -/
theorem lt_iff_not_le {x y : Double} (first : x ≠ nan) (second : y ≠ nan) :
    x.lt y = true ↔ ¬y.le x = true := by
  obtain ⟨a, left⟩ := Option.ne_none_iff_exists'.mp (mt order_eq_none.mp first)
  obtain ⟨b, right⟩ := Option.ne_none_iff_exists'.mp (mt order_eq_none.mp second)
  simp [lt, le, left, right]

theorem le_finite {a b : ℚ} : (finite a).le (finite b) = true ↔ a ≤ b := by
  simp [le, order]

/-- The order of a number with its sign turned. -/
def mirror : WithBot (WithTop ℚ) → WithBot (WithTop ℚ)
  | none => (⊤ : WithTop ℚ)
  | some none => ⊥
  | some (some a) => ((-a : ℚ) : WithTop ℚ)

theorem mirror_anti {a b : WithBot (WithTop ℚ)} (h : a ≤ b) : mirror b ≤ mirror a := by
  match a, b with
  | none, _ => exact le_top
  | some _, none => cases h
  | some none, some none => exact le_rfl
  | some none, some (some b) => exact absurd (WithBot.coe_le_coe.mp h) (WithTop.not_top_le_coe b)
  | some (some a), some none => exact bot_le
  | some (some a), some (some b) =>
    have below : a ≤ b := WithTop.coe_le_coe.mp (WithBot.coe_le_coe.mp h)
    exact WithBot.coe_le_coe.mpr (WithTop.coe_le_coe.mpr (neg_le_neg_iff.mpr below))

theorem order_neg (x : Double) : x.neg.order = x.order.map mirror := by
  cases x with
  | infinite negative => cases negative <;> rfl
  | finite a =>
    by_cases zero : a = 0
    · rw [neg, if_pos zero, zero]
      rfl
    · rw [neg, if_neg zero]
      rfl
  | _ => rfl

theorem neg_le_neg {x y : Double} (xy : x.le y = true) : y.neg.le x.neg = true := by
  obtain ⟨a, b, first, second, below⟩ := le_iff.mp xy
  refine le_iff.mpr ⟨mirror b, mirror a, ?_, ?_, mirror_anti below⟩
  · rw [order_neg, second]
    rfl
  · rw [order_neg, first]
    rfl

/-! ## The nearest number -/

theorem roundHalfEven_cases (q : ℚ) :
    roundHalfEven q = ⌊q⌋ ∧ q - ⌊q⌋ ≤ 1 / 2 ∨ roundHalfEven q = ⌊q⌋ + 1 ∧ 1 / 2 ≤ q - ⌊q⌋ := by
  simp only [roundHalfEven]
  split_ifs with below above
  · exact Or.inl ⟨rfl, below.le⟩
  · exact Or.inr ⟨rfl, above.le⟩
  · exact Or.inl ⟨rfl, not_lt.mp above⟩
  · exact Or.inr ⟨rfl, not_lt.mp below⟩

theorem roundHalfEven_mono {a b : ℚ} (h : a ≤ b) : roundHalfEven a ≤ roundHalfEven b := by
  rcases (Int.floor_mono h).eq_or_lt with same | apart
  · have part : a - ⌊a⌋ ≤ b - ⌊b⌋ := by
      rw [same]
      linarith
    simp only [roundHalfEven]
    rw [same] at part ⊢
    split_ifs <;> first | omega | linarith
  · rcases roundHalfEven_cases a with ⟨low, -⟩ | ⟨low, -⟩ <;>
      rcases roundHalfEven_cases b with ⟨high, -⟩ | ⟨high, -⟩ <;> omega

theorem roundHalfEven_int (n : ℤ) : roundHalfEven n = n := by
  simp [roundHalfEven]

theorem spacing_pos (q : ℚ) : 0 < spacing q := zpow_pos two_pos _

theorem roundMagnitude_nonneg {q : ℚ} (h : 0 ≤ q) : 0 ≤ roundMagnitude q := by
  have below : roundHalfEven ((0 : ℤ) : ℚ) ≤ roundHalfEven (q / spacing q) :=
    roundHalfEven_mono (by simpa using div_nonneg h (spacing_pos q).le)
  rw [roundHalfEven_int] at below
  exact mul_nonneg (by exact_mod_cast below) (spacing_pos q).le

/-- A power of two no finer than the spacing is a whole number of spacings. -/
theorem power_spacings {q : ℚ} {p : ℤ} (coarse : spacingExponent q ≤ p) :
    ∃ n : ℤ, (2 : ℚ) ^ p = n * spacing q := by
  obtain ⟨k, rfl⟩ := Int.le.dest coarse
  refine ⟨2 ^ k, ?_⟩
  rw [zpow_add₀ two_ne_zero, zpow_natCast, mul_comm]
  push_cast
  rfl

theorem roundMagnitude_le_power {q : ℚ} {p : ℤ} (coarse : spacingExponent q ≤ p) (h : q ≤ 2 ^ p) :
    roundMagnitude q ≤ 2 ^ p := by
  obtain ⟨n, whole⟩ := power_spacings coarse
  have quotient : q / spacing q ≤ n := by
    rw [div_le_iff₀ (spacing_pos q), ← whole]
    exact h
  have rounded := roundHalfEven_mono quotient
  rw [roundHalfEven_int] at rounded
  rw [whole]
  exact mul_le_mul_of_nonneg_right (by exact_mod_cast rounded) (spacing_pos q).le

theorem power_le_roundMagnitude {q : ℚ} {p : ℤ} (coarse : spacingExponent q ≤ p) (h : 2 ^ p ≤ q) :
    2 ^ p ≤ roundMagnitude q := by
  obtain ⟨n, whole⟩ := power_spacings coarse
  have quotient : (n : ℚ) ≤ q / spacing q := by
    rw [le_div_iff₀ (spacing_pos q), ← whole]
    exact h
  have rounded := roundHalfEven_mono quotient
  rw [roundHalfEven_int] at rounded
  rw [whole]
  exact mul_le_mul_of_nonneg_right (by exact_mod_cast rounded) (spacing_pos q).le

theorem roundMagnitude_mono {a b : ℚ} (positive : 0 < a) (h : a ≤ b) :
    roundMagnitude a ≤ roundMagnitude b := by
  have exponents : Int.log 2 a ≤ Int.log 2 b := Int.log_mono_right positive h
  have spacings : spacingExponent a ≤ spacingExponent b := max_le_max (by omega) le_rfl
  rcases spacings.eq_or_lt with same | finer
  · have same : spacing a = spacing b := congrArg (fun e : ℤ => (2 : ℚ) ^ e) same
    have quotients : a / spacing a ≤ b / spacing b := by
      rw [same]
      exact div_le_div_of_nonneg_right h (spacing_pos b).le
    unfold roundMagnitude
    rw [same] at quotients ⊢
    exact mul_le_mul_of_nonneg_right (by exact_mod_cast roundHalfEven_mono quotients) (spacing_pos b).le
  · -- a power of two stands between them, and both sides can hold it
    have apart : Int.log 2 a + 1 ≤ Int.log 2 b ∧ spacingExponent b ≤ Int.log 2 b ∧
        spacingExponent a ≤ Int.log 2 b := by
      unfold spacingExponent at finer ⊢
      omega
    have low : a ≤ 2 ^ Int.log 2 b :=
      (Int.lt_zpow_succ_log_self Nat.one_lt_two a).le.trans (zpow_le_zpow_right₀ one_le_two apart.1)
    have high : 2 ^ Int.log 2 b ≤ b := Int.zpow_log_le_self Nat.one_lt_two (positive.trans_le h)
    exact (roundMagnitude_le_power apart.2.2 low).trans (power_le_roundMagnitude apart.2.1 high)

theorem nearest_nonneg_eq {q : ℚ} (h : 0 ≤ q) :
    nearest q = if 2 ^ 1024 ≤ roundMagnitude q then infinite false else finite (roundMagnitude q) := by
  simp only [nearest, abs_of_nonneg h, not_lt.mpr h, decide_false, if_false]

theorem nearest_neg (q : ℚ) (h : q < 0) : nearest q = (nearest (-q)).neg := by
  rw [nearest_nonneg_eq (neg_nonneg.mpr h.le)]
  simp only [nearest, abs_of_neg h, h, decide_true, if_true]
  split <;> rfl

theorem nearest_mono_nonneg {a b : ℚ} (positive : 0 ≤ a) (h : a ≤ b) :
    (nearest a).le (nearest b) = true := by
  have rounded : roundMagnitude a ≤ roundMagnitude b := by
    rcases positive.eq_or_lt with rfl | positive
    · have zero : roundMagnitude 0 = 0 := by simp [roundMagnitude, roundHalfEven]
      rw [zero]
      exact roundMagnitude_nonneg h
    · exact roundMagnitude_mono positive h
  rw [nearest_nonneg_eq positive, nearest_nonneg_eq (positive.trans h)]
  split_ifs with huge huge'
  · rfl
  · exact absurd (huge.trans rounded) huge'
  · simp [le, order]
  · exact le_finite.mpr rounded

theorem nearest_mono {a b : ℚ} (h : a ≤ b) : (nearest a).le (nearest b) = true := by
  rcases le_or_gt 0 a with positive | negative
  · exact nearest_mono_nonneg positive h
  · rw [nearest_neg a negative]
    rcases le_or_gt 0 b with positive | negative'
    · have zero : nearest 0 = finite 0 := by decide +kernel
      have below : (nearest (-a)).neg.le (finite 0).neg = true :=
        neg_le_neg (zero ▸ nearest_mono_nonneg le_rfl (neg_nonneg.mpr negative.le))
      have above : (finite 0).le (nearest b) = true := zero ▸ nearest_mono_nonneg le_rfl positive
      exact le_trans below (le_trans (by decide +kernel) above)
    · rw [nearest_neg b negative']
      exact neg_le_neg (nearest_mono_nonneg (neg_nonneg.mpr negative'.le) (neg_le_neg_iff.mpr h))

/-- `max(x, y)`, which keeps the first unless the second is greater, and so passes over a NaN behind
a number. -/
def max (x y : Double) : Double := if x.lt y then y else x

/-- `x or 0`. -/
def orZero (x : Double) : Double := if x.eq (finite 0) then finite 0 else x

def negative : Double → Bool
  | nan => false
  | infinite negative => negative
  | finite value => value < 0
  | negativeZero => true

/-- A number under `:g`. -/
def formatG : Double → String
  | nan => "nan"
  | infinite negative => if negative then "-inf" else "inf"
  | finite value => Base.formatG value
  | negativeZero => "-0"

theorem le_refl {x : Double} (number : x ≠ nan) : x.le x = true := by
  obtain ⟨a, same⟩ := Option.ne_none_iff_exists'.mp (mt order_eq_none.mp number)
  exact le_iff.mpr ⟨a, a, same, same, le_rfl⟩

theorem le_max_left (x y : Double) (number : x ≠ nan) : x.le (x.max y) = true := by
  unfold max
  split
  · rename_i less
    obtain ⟨a, b, first, second, below⟩ := lt_iff.mp less
    exact le_iff.mpr ⟨a, b, first, second, below.le⟩
  · exact le_refl number

theorem le_max_right (x y : Double) (numbers : x ≠ nan ∧ y ≠ nan) : y.le (x.max y) = true := by
  unfold max
  split
  · exact le_refl numbers.2
  · rename_i other
    rw [lt_iff_not_le numbers.1 numbers.2] at other
    exact not_not.mp other

end Double

/-! ## Rounded arithmetic -/

/-- How the exact result of an operation becomes a number. -/
structure Rounding where
  toDouble : ℚ → Double
  zero : toDouble 0 = .finite 0
  monotone : ∀ {a b : ℚ}, a ≤ b → (toDouble a).le (toDouble b) = true

namespace Rounding
open Double

def binary64 : Rounding := ⟨nearest, by decide +kernel, nearest_mono⟩

def exact : Rounding := ⟨finite, rfl, le_finite.mpr⟩

variable (r : Rounding)

def add : Double → Double → Double
  | nan, _ | _, nan => nan
  | infinite a, infinite b => if a = b then infinite a else nan
  | infinite a, _ | _, infinite a => infinite a
  | negativeZero, negativeZero => negativeZero
  | x, y => r.toDouble (x.value + y.value)

def sub (x y : Double) : Double := r.add x y.neg

def mul (x y : Double) : Double :=
  match x, y with
  | nan, _ | _, nan => nan
  | infinite a, y => if y.eq (finite 0) then nan else infinite (a ^^ y.negative)
  | x, infinite b => if x.eq (finite 0) then nan else infinite (x.negative ^^ b)
  | x, y =>
    if x.value * y.value = 0 ∧ (x.negative ^^ y.negative) then negativeZero else r.toDouble
      (x.value * y.value)

/-- An `int` where a `float` is wanted. -/
def ofNat (n : Nat) : Double := r.toDouble n

variable {r}

theorem number (q : ℚ) : r.toDouble q ≠ nan := (number_of_le (r.monotone le_rfl)).1

theorem toDouble_nonneg {q : ℚ} (h : 0 ≤ q) : (finite 0).le (r.toDouble q) = true := r.zero ▸ r.monotone h

/-- A number that is not below zero. -/
theorem nonneg_cases {x : Double} (nonneg : (finite 0).le x = true) :
    x = infinite false ∨ (∃ a, 0 ≤ a ∧ x = finite a) ∨ x = negativeZero := by
  cases x with
  | nan => cases nonneg
  | infinite negative =>
    cases negative with
    | true => cases nonneg
    | false => exact Or.inl rfl
  | finite a => exact Or.inr (Or.inl ⟨a, le_finite.mp nonneg, rfl⟩)
  | negativeZero => exact Or.inr (Or.inr rfl)

theorem order_zero : (r.toDouble 0).order = (finite 0).order := congrArg order r.zero

theorem mul_order {x : Double} {rate : ℚ} (positive : 0 < rate) (nonneg : (finite 0).le x = true) :
    (r.mul x (finite rate)).order =
      if x = infinite false then (infinite false).order else (r.toDouble (x.value * rate)).order := by
  have sign : (finite rate).negative = false := decide_eq_false (not_lt.mpr positive.le)
  rcases nonneg_cases nonneg with rfl | ⟨a, least, rfl⟩ | rfl
  · have other : (finite rate).eq (finite 0) = false := by
      simp [eq, order, positive.ne']
    simp only [mul, other, sign, if_true, Bool.false_eq_true, if_false, Bool.xor_false]
  · have sign' : (finite a).negative = false := decide_eq_false (not_lt.mpr least)
    simp only [mul, sign, sign', Bool.xor_false, Bool.false_eq_true, and_false, if_false, reduceCtorEq]
    rfl
  · have sign' : negativeZero.negative = true := rfl
    simp only [mul, sign, sign', value, zero_mul, Bool.xor_false, and_self, if_true, reduceCtorEq,
      if_false, order_zero]
    rfl

theorem add_order {x y : Double} (first : (finite 0).le x = true) (second : (finite 0).le y = true) :
    (r.add x y).order = if x = infinite false ∨ y = infinite false then (infinite false).order
      else (r.toDouble (x.value + y.value)).order := by
  rcases nonneg_cases first with rfl | ⟨a, -, rfl⟩ | rfl <;>
    rcases nonneg_cases second with rfl | ⟨b, -, rfl⟩ | rfl
  case inr.inr.inr.inr =>
    simp only [add, value, add_zero, order_zero, reduceCtorEq, or_self, if_false]
    rfl
  all_goals simp [add]

theorem le_top {x z : Double} (number : x ≠ nan) (top : z.order = (infinite false).order) :
    x.le z = true := by
  obtain ⟨a, first⟩ := Option.ne_none_iff_exists'.mp (mt order_eq_none.mp number)
  exact le_iff.mpr ⟨a, _, first, top, OrderTop.le_top a⟩

theorem le_congr {x x' y y' : Double} (first : x.order = x'.order) (second : y.order = y'.order) :
    x.le y = x'.le y' := by
  rw [le, le, first, second]

theorem value_nonneg {x : Double} (nonneg : (finite 0).le x = true) : 0 ≤ x.value := by
  rcases nonneg_cases nonneg with rfl | ⟨a, least, rfl⟩ | rfl
  · exact le_rfl
  · exact least
  · exact le_rfl

/-- Of two numbers the greater of which is bounded. -/
theorem values_le {x y : Double} (nonneg : (finite 0).le x = true) (xy : x.le y = true)
    (bounded : y ≠ infinite false) :
    x ≠ infinite false ∧ x.value ≤ y.value := by
  rcases nonneg_cases (le_trans nonneg xy) with rfl | ⟨b, -, rfl⟩ | rfl
  · exact absurd rfl bounded
  all_goals
    rcases nonneg_cases nonneg with rfl | ⟨a, -, rfl⟩ | rfl
    · cases xy
    · exact ⟨nofun, le_finite.mp xy⟩
    · exact ⟨nofun, le_finite.mp xy⟩

theorem nonneg_mul {x : Double} {rate : ℚ} (positive : 0 < rate) (nonneg : (finite 0).le x = true) :
    (finite 0).le (r.mul x (finite rate)) = true := by
  have product := mul_order (r := r) positive nonneg
  split at product
  · exact le_top nofun product
  · rw [le_congr rfl product]
    exact toDouble_nonneg (mul_nonneg (value_nonneg nonneg) positive.le)

theorem mul_mono {x y : Double} {rate : ℚ} (positive : 0 < rate) (nonneg : (finite 0).le x = true)
    (xy : x.le y = true) : (r.mul x (finite rate)).le (r.mul y (finite rate)) = true := by
  have greater := mul_order (r := r) positive (le_trans nonneg xy)
  by_cases top : y = infinite false
  · exact le_top (number_of_le (nonneg_mul positive nonneg)).2 (by rw [greater, if_pos top])
  · obtain ⟨bounded, values⟩ := values_le nonneg xy top
    rw [if_neg top] at greater
    rw [le_congr ((mul_order positive nonneg).trans (if_neg bounded)) greater]
    exact r.monotone (mul_le_mul_of_nonneg_right values positive.le)

theorem nonneg_add {x y : Double} (first : (finite 0).le x = true) (second : (finite 0).le y = true) :
    (finite 0).le (r.add x y) = true := by
  have sum := add_order (r := r) first second
  split at sum
  · exact le_top nofun sum
  · rw [le_congr rfl sum]
    exact toDouble_nonneg (add_nonneg (value_nonneg first) (value_nonneg second))

theorem add_mono {x y z w : Double} (first : (finite 0).le x = true) (xy : x.le y = true)
    (second : (finite 0).le z = true) (zw : z.le w = true) : (r.add x z).le (r.add y w) = true := by
  have greater := add_order (r := r) (le_trans first xy) (le_trans second zw)
  by_cases top : y = infinite false ∨ w = infinite false
  · exact le_top (number_of_le (nonneg_add first second)).2 (by rw [greater, if_pos top])
  · obtain ⟨bounded, values⟩ := values_le first xy (not_or.mp top).1
    obtain ⟨bounded', values'⟩ := values_le second zw (not_or.mp top).2
    rw [if_neg top] at greater
    rw [le_congr ((add_order first second).trans (if_neg (not_or.mpr ⟨bounded, bounded'⟩))) greater]
    exact r.monotone (add_le_add values values')

theorem exact_mul (n : Nat) {rate : ℚ} (positive : 0 < rate) :
    exact.mul (exact.ofNat n) (finite rate) = finite (n * rate) := by
  have sign : (finite rate).negative = false := decide_eq_false (not_lt.mpr positive.le)
  have sign' : (finite (n : ℚ)).negative = false := decide_eq_false (not_lt.mpr n.cast_nonneg)
  have number : exact.ofNat n = finite n := rfl
  simp only [number, mul, sign, sign', Bool.xor_false, Bool.false_eq_true, and_false, if_false]
  rfl

end Rounding
end Cindral.Base

import ConstFun.Proofs.Numerals
import Mathlib.Algebra.Order.Field.Power
import Mathlib.Algebra.Order.Field.Rat
import Mathlib.Tactic.FieldSimp
import Mathlib.Tactic.Linarith
import Mathlib.Tactic.Positivity

namespace ConstFun

/-- The finite numbers of 64 bits, as rationals. -/
def IsBinary64 (q : ℚ) : Prop :=
  ∃ m e : ℤ, |m| < 2 ^ 53 ∧ -1074 ≤ e ∧ e ≤ 971 ∧ q = m * 2 ^ e

/-- The number `r` of 64 bits is nearest to `q`. Where another one is as near, `r` is an even
multiple of the distance between the two. -/
structure RoundsTo (q r : ℚ) : Prop where
  representable : IsBinary64 r
  nearest : ∀ s, IsBinary64 s → |q - r| ≤ |q - s|
  even : ∀ s, IsBinary64 s → |q - s| = |q - r| → s ≠ r → ∃ k : ℤ, r = 2 * k * |r - s|

theorem IsBinary64.neg {q : ℚ} (representable : IsBinary64 q) : IsBinary64 (-q) := by
  obtain ⟨m, e, small, low, high, rfl⟩ := representable
  exact ⟨-m, e, by rwa [abs_neg], low, high, by push_cast; ring⟩

namespace RoundsTo

variable {q r : ℚ}

theorem neg (rounds : RoundsTo q r) : RoundsTo (-q) (-r) := by
  have mirror (a b : ℚ) : |-a - b| = |a - -b| := by rw [← abs_neg]; ring_nf
  refine ⟨rounds.representable.neg, fun s representable => ?_, fun s representable tie other => ?_⟩
  · rw [mirror, mirror, neg_neg]
    exact rounds.nearest (-s) representable.neg
  · rw [mirror, mirror, neg_neg] at tie
    have other' : -s ≠ r := fun eq => other (by rw [← eq, neg_neg])
    obtain ⟨k, multiple⟩ := rounds.even (-s) representable.neg tie other'
    refine ⟨-k, ?_⟩
    rw [mirror]
    push_cast
    linarith

/-- A number of 64 bits is rounded to itself. -/
theorem eq_of_isBinary64 (rounds : RoundsTo q r) (representable : IsBinary64 q) : r = q := by
  have near := rounds.nearest q representable
  rw [sub_self, abs_zero] at near
  exact (sub_eq_zero.mp (abs_nonpos_iff.mp near)).symm

end RoundsTo

/-- An integer at most a half away is nearest, and another one is as near only in the middle. -/
theorem nearest_integer {y : ℚ} {m : ℤ} (near : |y - m| ≤ 1 / 2) (k : ℤ) :
    |y - m| ≤ |y - k| ∧
      (|y - k| = |y - m| → k ≠ m → |y - m| = 1 / 2 ∧ |(m : ℚ) - k| = 1) := by
  by_cases same : k = m
  · subst same
    exact ⟨le_rfl, fun _ other => absurd rfl other⟩
  have apart : (1 : ℚ) ≤ |(m : ℚ) - k| := by
    exact_mod_cast Int.one_le_abs (sub_ne_zero.mpr (Ne.symm same))
  have path : |(m : ℚ) - k| ≤ |y - m| + |y - k| := by
    rw [abs_sub_comm y m]
    exact abs_sub_le _ _ _
  refine ⟨by linarith, fun tie _ => ?_⟩
  rw [tie] at path
  constructor <;> linarith

/-- On the grid of an exponent, a number of 64 bits is an integer or has less than 53 bits. -/
theorem IsBinary64.on_grid {s : ℚ} (representable : IsBinary64 s) (e : ℤ) :
    (∃ k : ℤ, s / 2 ^ e = k) ∨ -1074 < e ∧ s / 2 ^ e < 2 ^ 52 := by
  obtain ⟨m, e', small, low, _, rfl⟩ := representable
  have ratio : (m : ℚ) * 2 ^ e' / 2 ^ e = m * 2 ^ (e' - e) := by
    rw [zpow_sub₀ two_ne_zero, mul_div_assoc]
  rw [ratio]
  by_cases coarse : e ≤ e'
  · obtain ⟨n, difference⟩ := Int.eq_ofNat_of_zero_le (Int.sub_nonneg.mpr coarse)
    refine .inl ⟨m * 2 ^ n, ?_⟩
    rw [difference, zpow_natCast]
    push_cast
    rfl
  · refine .inr ⟨by omega, ?_⟩
    have bound : (m : ℚ) < 2 ^ 53 := by exact_mod_cast (abs_lt.mp small).2
    have fine : (2 : ℚ) ^ (e' - e) ≤ 2 ^ (-1 : ℤ) :=
      zpow_le_zpow_right₀ one_le_two (by omega)
    have positive : (0 : ℚ) < 2 ^ (e' - e) := zpow_pos two_pos _
    calc
      (m : ℚ) * 2 ^ (e' - e) < 2 ^ 53 * 2 ^ (e' - e) := by gcongr
      _ ≤ 2 ^ 53 * 2 ^ (-1 : ℤ) := by gcongr
      _ = 2 ^ 52 := by norm_num

/-- What is nearest on the grid of an exponent is nearest of all, if the exponent is the least one
or the number has 53 bits on the grid. -/
theorem roundsTo_of_grid {x : ℚ} {m e : ℤ} (wide : e = -1074 ∨ 2 ^ 52 ≤ x / 2 ^ e)
    (near : |x / 2 ^ e - m| ≤ 1 / 2) (tie : |x / 2 ^ e - m| = 1 / 2 → Even m)
    (representable : IsBinary64 (m * 2 ^ e)) : RoundsTo x (m * 2 ^ e) := by
  have unit : (0 : ℚ) < 2 ^ e := zpow_pos two_pos _
  have scaled (a b : ℚ) : |a - b * 2 ^ e| = |a / 2 ^ e - b| * 2 ^ e := by
    rw [← abs_of_pos unit, ← abs_mul, abs_of_pos unit, sub_mul, div_mul_cancel₀ _ unit.ne']
  have grid (s : ℚ) : s = s / 2 ^ e * 2 ^ e := (div_mul_cancel₀ _ unit.ne').symm
  -- a number that is off the grid lies below the first of 53 bits
  have below {t : ℚ} (off : -1074 < e ∧ t < 2 ^ 52) : |x / 2 ^ e - m| < |x / 2 ^ e - t| := by
    have high : 2 ^ 52 ≤ x / 2 ^ e := wide.resolve_left (by omega)
    have first := (nearest_integer near (2 ^ 52)).1
    rw [Int.cast_pow, Int.cast_ofNat, abs_of_nonneg (sub_nonneg.mpr high)] at first
    have positive : 0 < x / 2 ^ e - t := by linarith [off.2]
    rw [abs_of_pos positive]
    linarith [off.2]
  refine ⟨representable, fun s other => ?_, fun s other same apart => ?_⟩
  · rw [grid s, scaled, scaled]
    refine mul_le_mul_of_nonneg_right ?_ unit.le
    rcases other.on_grid e with ⟨k, whole⟩ | off
    · rw [whole]
      exact (nearest_integer near k).1
    · exact (below off).le
  · rw [grid s, scaled, scaled] at same
    have same := mul_right_cancel₀ unit.ne' same
    rcases other.on_grid e with ⟨k, whole⟩ | off
    · rw [whole] at same
      have differs : k ≠ m := by
        rintro rfl
        exact apart (by rw [grid s, whole])
      obtain ⟨middle, step⟩ := (nearest_integer near k).2 same differs
      obtain ⟨j, even⟩ := tie middle
      refine ⟨j, ?_⟩
      have distance : |(m : ℚ) * 2 ^ e - s| = 2 ^ e := by
        rw [grid s, whole, scaled, mul_div_assoc, div_self unit.ne', mul_one, step, one_mul]
      rw [distance, even]
      push_cast
      ring
    · exact absurd same (below off).ne'

/-- The rounded quotient is at most a half away, and even in the middle. -/
theorem roundDiv_near (num : Nat) {den : Nat} (positive : 0 < den) :
    |(num / den : ℚ) - roundDiv num den| ≤ 1 / 2 ∧
      (|(num / den : ℚ) - roundDiv num den| = 1 / 2 → Even (roundDiv num den)) := by
  have unit : (0 : ℚ) < den := by exact_mod_cast positive
  have division : (num / den : ℚ) = (num / den : Nat) + (num % den : Nat) / den := by
    have whole : (num : ℚ) = den * (num / den : Nat) + (num % den : Nat) := by
      exact_mod_cast (Nat.div_add_mod num den).symm
    rw [whole]
    field_simp
  have rest : 0 ≤ ((num % den : Nat) : ℚ) / den := by positivity
  have below : ((num % den : Nat) : ℚ) / den ≤ 1 :=
    (div_le_one unit).mpr (by exact_mod_cast (Nat.mod_lt num positive).le)
  unfold roundDiv
  dsimp only
  rw [division]
  generalize num / den = quotient
  generalize num % den = remainder at rest below ⊢
  have less : (remainder : ℚ) / den < 1 / 2 ↔ 2 * remainder < den := by
    rw [div_lt_div_iff₀ unit two_pos, one_mul, mul_comm]
    exact_mod_cast Iff.rfl
  have more : 1 / 2 < (remainder : ℚ) / den ↔ den < 2 * remainder := by
    rw [div_lt_div_iff₀ two_pos unit, one_mul, mul_comm]
    exact_mod_cast Iff.rfl
  have down : |(quotient : ℚ) + remainder / den - quotient| = remainder / den := by
    rw [add_sub_cancel_left, abs_of_nonneg rest]
  have up : remainder / den ≤ (1 : ℚ) →
      |(quotient : ℚ) + remainder / den - (quotient + 1 : Nat)| = 1 - remainder / den := by
    intro small
    rw [abs_sub_comm, abs_of_nonneg]
    · push_cast
      ring
    · push_cast
      linarith
  have middle : ¬2 * remainder < den → ¬den < 2 * remainder → (remainder : ℚ) / den = 1 / 2 :=
    fun low high => le_antisymm (not_lt.mp (mt more.mp high)) (not_lt.mp (mt less.mp low))
  split_ifs with low high even
  · have low := less.mpr low
    rw [down]
    exact ⟨low.le, fun half => absurd half low.ne⟩
  · have high := more.mpr high
    rw [up below]
    exact ⟨by linarith, fun half => by linarith⟩
  · rw [down, middle low high]
    exact ⟨le_rfl, fun _ => Nat.even_iff.mpr even⟩
  · rw [up below, middle low high]
    exact ⟨by norm_num, fun _ => Nat.even_iff.mpr (by omega)⟩

theorem scaleDown_eq (num : Nat) {den : Nat} (positive : 0 < den) (e : ℤ) :
    0 < (scaleDown num den e).2 ∧
      ((scaleDown num den e).1 / (scaleDown num den e).2 : ℚ) = num / den / 2 ^ e := by
  have power (n : Nat) : Nat.pow 2 n = 2 ^ n := rfl
  unfold scaleDown
  split_ifs with up
  · obtain ⟨n, rfl⟩ := Int.eq_ofNat_of_zero_le up
    refine ⟨Nat.mul_pos positive (Nat.two_pow_pos _), ?_⟩
    rw [Int.toNat_natCast, power, zpow_natCast, div_div]
    push_cast
    rfl
  · obtain ⟨n, rfl⟩ : ∃ n : Nat, e = -n := ⟨(-e).toNat, by omega⟩
    refine ⟨positive, ?_⟩
    rw [neg_neg, Int.toNat_natCast, power, zpow_neg, zpow_natCast, div_inv_eq_mul,
      div_mul_eq_mul_div]
    push_cast
    rfl

theorem log2_bounds {n : Nat} (positive : 0 < n) :
    (2 : ℚ) ^ (n.log2 : ℤ) ≤ n ∧ (n : ℚ) < 2 ^ (n.log2 + 1 : ℤ) := by
  have low : 2 ^ n.log2 ≤ n := Nat.log2_self_le positive.ne'
  have high : n < 2 ^ (n.log2 + 1) := Nat.lt_log2_self
  constructor
  · rw [zpow_natCast]
    exact_mod_cast low
  · exact_mod_cast high

/-- A ratio has about as many bits as the lengths of its terms say. -/
theorem log2_ratio_bounds {num den : Nat} (positive : 0 < num) (positive' : 0 < den) :
    (2 : ℚ) ^ (num.log2 - den.log2 - 1 : ℤ) ≤ num / den ∧
      (num / den : ℚ) < 2 ^ (num.log2 - den.log2 + 1 : ℤ) := by
  obtain ⟨low, high⟩ := log2_bounds positive
  obtain ⟨low', high'⟩ := log2_bounds positive'
  have below : (0 : ℚ) < den := by exact_mod_cast positive'
  constructor
  · rw [le_div_iff₀ below]
    calc
      (2 : ℚ) ^ (num.log2 - den.log2 - 1 : ℤ) * den
        ≤ 2 ^ (num.log2 - den.log2 - 1 : ℤ) * 2 ^ (den.log2 + 1 : ℤ) := by gcongr
      _ = 2 ^ (num.log2 : ℤ) := by rw [← zpow_add₀ two_ne_zero]; congr 1; ring
      _ ≤ num := low
  · rw [div_lt_iff₀ below]
    calc
      (num : ℚ) < 2 ^ (num.log2 + 1 : ℤ) := high
      _ = 2 ^ (num.log2 - den.log2 + 1 : ℤ) * 2 ^ (den.log2 : ℤ) := by
        rw [← zpow_add₀ two_ne_zero]; congr 1; ring
      _ ≤ 2 ^ (num.log2 - den.log2 + 1 : ℤ) * den := by gcongr

/-- On the grid that the lengths of its terms suggest, a ratio has 53 or 54 bits. -/
theorem suggested_bounds {num den : Nat} (positive : 0 < num) (positive' : 0 < den) :
    (2 : ℚ) ^ 52 ≤ num / den / 2 ^ (num.log2 - den.log2 - 53 : ℤ) ∧
      (num / den / 2 ^ (num.log2 - den.log2 - 53 : ℤ) : ℚ) < 2 ^ 54 := by
  obtain ⟨low, high⟩ := log2_ratio_bounds positive positive'
  have unit : (0 : ℚ) < 2 ^ (num.log2 - den.log2 - 53 : ℤ) := zpow_pos two_pos _
  have bits (n : Nat) : (2 : ℚ) ^ n * 2 ^ (num.log2 - den.log2 - 53 : ℤ) =
      2 ^ (num.log2 - den.log2 + (n - 53) : ℤ) := by
    rw [← zpow_natCast, ← zpow_add₀ two_ne_zero]
    congr 1
    ring
  rw [le_div_iff₀ unit, div_lt_iff₀ unit, bits, bits]
  exact ⟨low, high⟩

theorem le_scaleDown_iff (num : Nat) {den : Nat} (positive : 0 < den) (e : ℤ) (bound : Nat) :
    (scaleDown num den e).2 * bound ≤ (scaleDown num den e).1 ↔
      (bound : ℚ) ≤ num / den / 2 ^ e := by
  obtain ⟨below, ratio⟩ := scaleDown_eq num positive e
  have below : (0 : ℚ) < (scaleDown num den e).2 := by exact_mod_cast below
  rw [← ratio, le_div_iff₀ below, mul_comm]
  exact_mod_cast Iff.rfl

/-- On the grid of its binade a number is below 53 bits, and has 53 unless the exponent is least. -/
theorem binade_bounds {num den : Nat} (some_num : num ≠ 0) (positive : 0 < den) :
    -1074 ≤ binadeExponent num den ∧ (num / den / 2 ^ binadeExponent num den : ℚ) < 2 ^ 53 ∧
      (binadeExponent num den = -1074 ∨
        2 ^ 52 ≤ (num / den / 2 ^ binadeExponent num den : ℚ)) := by
  let guess : ℤ := num.log2 - den.log2 - 53
  let best : ℤ := if (scaleDown num den guess).2 * Nat.pow 2 53 ≤ (scaleDown num den guess).1
    then guess + 1 else guess
  have exponent : binadeExponent num den = max best (-1074) := rfl
  have guessed := suggested_bounds (Nat.pos_of_ne_zero some_num) positive
  have compared : (scaleDown num den guess).2 * Nat.pow 2 53 ≤ (scaleDown num den guess).1 ↔
      (2 : ℚ) ^ 53 ≤ num / den / 2 ^ guess := by
    rw [le_scaleDown_iff num positive, Nat.pow_eq, Nat.cast_pow, Nat.cast_ofNat]
  have bits : (num / den / 2 ^ best : ℚ) < 2 ^ 53 ∧ 2 ^ 52 ≤ (num / den / 2 ^ best : ℚ) := by
    have shift : (num / den / 2 ^ (guess + 1) : ℚ) = num / den / 2 ^ guess / 2 := by
      rw [zpow_add_one₀ two_ne_zero, div_div _ _ (2 : ℚ)]
    unfold best
    split_ifs with wide
    · rw [shift]
      have wide := compared.mp wide
      constructor <;> linarith [guessed.2]
    · exact ⟨not_le.mp (mt compared.mpr wide), guessed.1⟩
  rw [exponent]
  refine ⟨le_max_right _ _, ?_, ?_⟩
  · have finer : (2 : ℚ) ^ best ≤ 2 ^ max best (-1074) :=
      zpow_le_zpow_right₀ one_le_two (le_max_left _ _)
    have unit : (0 : ℚ) < 2 ^ best := zpow_pos two_pos _
    calc
      (num / den / 2 ^ max best (-1074) : ℚ) ≤ num / den / 2 ^ best := by gcongr
      _ < 2 ^ 53 := bits.1
  · by_cases normal : -1074 ≤ best
    · rw [max_eq_left normal]
      exact .inr bits.2
    · exact .inl (max_eq_right (by omega))

theorem numberOfDigits_dropWhile (digits : List Nat) :
    numberOfDigits 10 (digits.dropWhile (· = 0)) = numberOfDigits 10 digits := by
  induction digits with
  | nil => rfl
  | cons d digits ih =>
    by_cases zero : d = 0
    · rw [List.dropWhile_cons_of_pos (by simpa using zero), ih, zero]
      rfl
    · rw [List.dropWhile_cons_of_neg (by simpa using zero)]

theorem numberOfDigits_lt {digits : List Nat} (each : ∀ d ∈ digits, d < 10) :
    numberOfDigits 10 digits < 10 ^ digits.length := by
  rw [numberOfDigits_eq, ← List.length_reverse]
  exact Nat.ofDigits_lt_base_pow_length (by decide) fun d mem => each d (List.mem_reverse.mp mem)

/-- The number with a sign. -/
def signed (negative : Bool) (q : ℚ) : ℚ := if negative then -q else q

theorem RoundsTo.signed {q r : ℚ} (rounds : RoundsTo q r) (negative : Bool) :
    RoundsTo (signed negative q) (ConstFun.signed negative r) := by
  cases negative with
  | false => exact rounds
  | true => exact rounds.neg

theorem roundsTo_zero {x : ℚ} (small : |x / 2 ^ (-1074 : ℤ)| ≤ 1 / 2) : RoundsTo x 0 := by
  have rounds : RoundsTo x ((0 : ℤ) * 2 ^ (-1074 : ℤ)) := by
    refine roundsTo_of_grid (.inl rfl) ?_ (fun _ => Even.zero) ?_
    · simpa using small
    · exact ⟨0, -1074, by norm_num, le_rfl, by norm_num, rfl⟩
  simpa using rounds

namespace Binary64

/-- A ratio is rounded to an integer on the grid of its binade; one of 54 bits is carried to the
next grid. -/
theorem ofRatio_finite {negative sign : Bool} {num den m : Nat} {e : ℤ} (some_num : num ≠ 0)
    (positive : 0 < den) (finite : ofRatio negative num den = .finite sign m e) :
    sign = negative ∧ e ≤ 971 ∧ ∃ k : Nat,
      |(num / den / 2 ^ binadeExponent num den : ℚ) - k| ≤ 1 / 2 ∧
      (|(num / den / 2 ^ binadeExponent num den : ℚ) - k| = 1 / 2 → Even k) ∧
      (k = 2 ^ 53 ∧ m = 2 ^ 52 ∧ e = binadeExponent num den + 1 ∨
        k < 2 ^ 53 ∧ m = k ∧ e = binadeExponent num den) := by
  obtain ⟨-, below, -⟩ := binade_bounds some_num positive
  obtain ⟨unit, ratio⟩ := scaleDown_eq num positive (binadeExponent num den)
  obtain ⟨near, tie⟩ := roundDiv_near (scaleDown num den (binadeExponent num den)).1 unit
  rw [ratio] at near tie
  unfold ofRatio at finite
  rw [if_neg some_num] at finite
  extract_lets exponent at finite
  split at finite
  next n d same =>
  rw [same] at near tie
  extract_lets mantissa at finite
  have limit : mantissa ≤ 2 ^ 53 := by
    have half := (abs_le.mp near).1
    have below : (mantissa : ℚ) < (2 ^ 53 : Nat) + 1 := by
      push_cast
      linarith
    exact Nat.lt_succ_iff.mp (by exact_mod_cast below)
  split at finite
  next m' e' carried =>
  split at finite
  next => cases finite
  next high =>
  cases finite
  refine ⟨rfl, by omega, mantissa, near, tie, ?_⟩
  split at carried
  next full =>
    obtain ⟨rfl, rfl⟩ := Prod.mk.inj carried
    exact .inl ⟨full, rfl, rfl⟩
  next room =>
    obtain ⟨rfl, rfl⟩ := Prod.mk.inj carried
    exact .inr ⟨lt_of_le_of_ne limit room, rfl, rfl⟩

theorem ofRatio_rounds {negative sign : Bool} {num den m : Nat} {e : ℤ} (positive : 0 < den)
    (finite : ofRatio negative num den = .finite sign m e) :
    sign = negative ∧ RoundsTo (signed negative (num / den)) (signed negative (m * 2 ^ e)) := by
  by_cases none : num = 0
  · subst none
    cases finite
    have rounds : RoundsTo 0 0 := roundsTo_zero (by simp)
    simpa using rounds.signed negative
  obtain ⟨least, -, wide⟩ := binade_bounds none positive
  obtain ⟨rfl, high, k, near, tie, outcome⟩ := ofRatio_finite none positive finite
  have rounds (representable : IsBinary64 (k * 2 ^ binadeExponent num den)) :
      RoundsTo (num / den) (k * 2 ^ binadeExponent num den) := by
    refine roundsTo_of_grid (m := k) wide near ?_ representable
    intro middle
    exact_mod_cast tie middle
  refine ⟨rfl, RoundsTo.signed ?_ sign⟩
  rcases outcome with ⟨rfl, rfl, rfl⟩ | ⟨room, rfl, rfl⟩
  · -- the carry out of 53 bits leaves the value as it is
    have value : ((2 ^ 52 : Nat) : ℚ) * 2 ^ (binadeExponent num den + 1) =
        (2 ^ 53 : Nat) * 2 ^ binadeExponent num den := by
      rw [zpow_add_one₀ two_ne_zero]
      push_cast
      ring
    rw [value]
    refine rounds ⟨2 ^ 52, binadeExponent num den + 1, by norm_num, by omega, high, ?_⟩
    rw [← value]
    push_cast
    rfl
  · refine rounds ⟨m, binadeExponent num den, ?_, least, high, rfl⟩
    rw [Nat.abs_cast]
    exact_mod_cast room

theorem ofRatio_zero {negative sign : Bool} {m : Nat} {e : ℤ}
    (finite : ofRatio negative 0 1 = .finite sign m e) : sign = negative ∧ (m : ℚ) * 2 ^ e = 0 := by
  have zero : ofRatio negative 0 1 = .finite negative 0 (-1074) := rfl
  rw [zero] at finite
  cases finite
  exact ⟨rfl, by simp⟩

/-- A number with more than 400 zeros after the point is rounded to zero. -/
theorem roundsTo_zero_of_places {value length : Nat} {scale : ℤ} (bound : value < 10 ^ length)
    (few : length + scale < -400) : RoundsTo ((value : ℚ) * 10 ^ scale) 0 := by
  refine roundsTo_zero ?_
  have unit : (0 : ℚ) < 10 ^ scale := zpow_pos (by norm_num) _
  have tiny : (value : ℚ) * 10 ^ scale ≤ 10 ^ (-401 : ℤ) := by
    have bound : (value : ℚ) ≤ 10 ^ (length : ℤ) := by
      rw [zpow_natCast]
      exact_mod_cast bound.le
    calc
      (value : ℚ) * 10 ^ scale ≤ 10 ^ (length : ℤ) * 10 ^ scale := by gcongr
      _ = 10 ^ (length + scale) := by rw [← zpow_add₀ (by norm_num)]
      _ ≤ 10 ^ (-401 : ℤ) := zpow_le_zpow_right₀ (by norm_num) (by omega)
  have least : (10 : ℚ) ^ (-401 : ℤ) ≤ 1 / 2 * 2 ^ (-1074 : ℤ) := by
    have powers : 2 ^ 1075 ≤ 10 ^ 401 := by decide +kernel
    have halved : (1 / 2 * 2 ^ (-1074 : ℤ) : ℚ) = (2 ^ 1075)⁻¹ := by
      rw [pow_succ, mul_inv, zpow_neg, one_div, mul_comm]
      rfl
    rw [halved, zpow_neg]
    exact inv_anti₀ (by positivity) (by exact_mod_cast powers)
  have positive : (0 : ℚ) < 2 ^ (-1074 : ℤ) := zpow_pos two_pos _
  rw [abs_of_nonneg (by positivity), div_le_iff₀ positive]
  exact tiny.trans least

/-- The double of decimal digits is the number nearest to what they denote, if it is finite. -/
theorem ofDecimal_rounds {negative sign : Bool} {digits : List Nat} {scale e : ℤ} {m : Nat}
    (each : ∀ d ∈ digits, d < 10) (finite : ofDecimal negative digits scale = .finite sign m e) :
    sign = negative ∧ RoundsTo (signed negative (numberOfDigits 10 digits * 10 ^ scale))
      (signed negative (m * 2 ^ e)) := by
  have power (n : Nat) : Nat.pow 10 n = 10 ^ n := rfl
  unfold ofDecimal at finite
  extract_lets significant value places at finite
  have same : numberOfDigits 10 digits = value := (numberOfDigits_dropWhile digits).symm
  have bound : value < 10 ^ significant.length :=
    numberOfDigits_lt fun d mem => each d ((List.dropWhile_sublist _).subset mem)
  rw [same]
  split_ifs at finite with tiny huge up
  · obtain ⟨rfl, zero⟩ := ofRatio_zero finite
    rw [zero]
    refine ⟨rfl, ?_⟩
    have rounds : RoundsTo ((value : ℚ) * 10 ^ scale) 0 := by
      rcases Bool.or_eq_true_iff.mp tiny with none | few
      · have none : value = 0 := by
          unfold value
          rw [List.isEmpty_iff.mp none]
          rfl
        exact roundsTo_zero (by simp [none])
      · exact roundsTo_zero_of_places bound (of_decide_eq_true few)
    exact rounds.signed sign
  · obtain ⟨n, rfl⟩ := Int.eq_ofNat_of_zero_le up
    obtain ⟨rfl, rounds⟩ := ofRatio_rounds one_pos finite
    rw [Int.toNat_natCast, power] at rounds
    push_cast at rounds
    rw [div_one] at rounds
    rw [zpow_natCast]
    exact ⟨rfl, rounds⟩
  · obtain ⟨n, rfl⟩ : ∃ n : Nat, scale = -n := ⟨(-scale).toNat, by omega⟩
    rw [neg_neg, Int.toNat_natCast, power] at finite
    obtain ⟨rfl, rounds⟩ := ofRatio_rounds (Nat.pow_pos (by decide)) finite
    push_cast at rounds
    rw [zpow_neg, zpow_natCast, ← div_eq_mul_inv]
    exact ⟨rfl, rounds⟩

/-- An integral number is its integral part. -/
theorem truncate?_of_isIntegral {v : Binary64} (integral : v.isIntegral = true) :
    ∃ (negative : Bool) (m : Nat) (e whole : ℤ), v = .finite negative m e ∧
      v.truncate? = some whole ∧ (whole : ℚ) = signed negative (m * 2 ^ e) := by
  cases v with
  | infinite negative => cases integral
  | nan => cases integral
  | finite negative m e =>
    have part : (integralPart m e : ℚ) = m * 2 ^ e := by
      have power (n : Nat) : Nat.pow 2 n = 2 ^ n := rfl
      unfold integralPart
      split_ifs with up
      · obtain ⟨n, rfl⟩ := Int.eq_ofNat_of_zero_le up
        rw [Int.toNat_natCast, power, zpow_natCast]
        push_cast
        rfl
      · obtain ⟨n, rfl⟩ : ∃ n : Nat, e = -n := ⟨(-e).toNat, by omega⟩
        have divides : 2 ^ n ∣ m := by
          simp only [isIntegral, up, decide_false, Bool.false_or, beq_iff_eq, neg_neg,
            Int.toNat_natCast, power] at integral
          exact Nat.dvd_of_mod_eq_zero integral
        obtain ⟨k, rfl⟩ := divides
        rw [neg_neg, Int.toNat_natCast, power, Nat.mul_div_cancel_left _ (by positivity), zpow_neg,
          zpow_natCast]
        push_cast
        field_simp
    refine ⟨negative, m, e, _, rfl, rfl, ?_⟩
    rw [← part]
    cases negative with
    | false => simp [signed]
    | true => simp [signed]

end Binary64

end ConstFun

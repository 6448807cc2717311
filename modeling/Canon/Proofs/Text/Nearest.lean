import Canon.Text.Double
import Mathlib.Algebra.Order.Archimedean.Basic
import Mathlib.Algebra.Order.Field.Power
import Mathlib.Algebra.Order.Field.Rat
import Mathlib.Data.Rat.Floor
import Mathlib.Tactic.FieldSimp
import Mathlib.Tactic.Linarith
import Mathlib.Tactic.Positivity
import Mathlib.Tactic.Ring

/-!
The result of an operation on doubles is nearest to the exact one, and is the exact one if that is a double.
-/
namespace Canon

theorem Text.roundDiv_half {numerator denominator : ℕ} (positive : 0 < denominator) :
    |(roundDiv numerator denominator : ℚ) - numerator / denominator| ≤ 1 / 2 ∧
      (|(roundDiv numerator denominator : ℚ) - numerator / denominator| = 1 / 2 →
        Even (roundDiv numerator denominator)) := by
  have whole : (numerator : ℚ) / denominator = (numerator / denominator : ℕ) + (numerator % denominator : ℕ) / denominator := by
    have parts : (denominator : ℚ) * (numerator / denominator : ℕ) + (numerator % denominator : ℕ) = numerator := by
      exact_mod_cast Nat.div_add_mod numerator denominator
    field_simp
    linarith
  rw [whole]
  have less := Nat.mod_lt numerator positive
  unfold roundDiv
  dsimp only
  generalize numerator / denominator = floor at *
  generalize numerator % denominator = rest at *
  have pos : (0 : ℚ) < denominator := Nat.cast_pos.mpr positive
  split
  case isTrue down =>
    have distance : |(floor : ℚ) - (floor + rest / denominator)| = rest / denominator := by
      rw [sub_add_cancel_left, abs_neg, abs_of_nonneg (by positivity)]
    rw [distance, div_le_div_iff₀ pos two_pos, div_eq_div_iff pos.ne' two_ne_zero]
    norm_cast
    rw [Nat.even_iff]
    omega
  case isFalse up =>
    have distance : |((floor + 1 : ℕ) : ℚ) - (floor + rest / denominator)| = (denominator - rest : ℕ) / denominator := by
      have share : ((denominator - rest : ℕ) : ℚ) / denominator = 1 - rest / denominator := by
        rw [Nat.cast_sub less.le, sub_div, div_self pos.ne']
      rw [← abs_of_nonneg (by positivity : (0 : ℚ) ≤ (denominator - rest : ℕ) / denominator), share]
      push_cast
      ring_nf
    rw [distance, div_le_div_iff₀ pos two_pos, div_eq_div_iff pos.ne' two_ne_zero]
    norm_cast
    rw [Nat.even_iff]
    omega

namespace Double
variable {numerator denominator : ℕ}

def value (double : Double) : ℚ := double.mantissa * 2 ^ double.exponent

theorem two_zpow (exponent : ℤ) : (2 : ℚ) ^ exponent = 2 ^ exponent.toNat / 2 ^ (-exponent).toNat := by
  rw [← zpow_natCast, ← zpow_natCast, ← zpow_sub₀ two_ne_zero]
  congr 1
  omega

theorem value_eq_div (double : Double) : double.value = double.numerator / double.denominator := by
  rw [value, two_zpow, Double.numerator, Double.denominator, Nat.pow_eq, Nat.pow_eq]
  push_cast
  ring

theorem scaled_eq (numerator denominator : ℕ) : (scaleUp numerator denominator : ℚ) / scaleDown numerator denominator =
    numerator / denominator / 2 ^ exponentOf numerator denominator := by
  rw [two_zpow, scaleUp, scaleDown, Nat.pow_eq, Nat.pow_eq]
  push_cast
  field_simp

theorem scaled_ge (positive : 0 < numerator) :
    scaleDown numerator denominator * 2 ^ 52 ≤ scaleUp numerator denominator := by
  have above : denominator < 2 ^ (denominator.log2 + 1) := Nat.lt_log2_self
  have below : 2 ^ numerator.log2 ≤ numerator := Nat.log2_self_le positive.ne'
  unfold scaleUp scaleDown exponentOf
  dsimp only
  split
  case isTrue enough => exact enough
  case isFalse =>
    generalize near : (numerator.log2 : ℤ) - denominator.log2 - 52 - 1 = exponent
    have powers : denominator.log2 + 1 + (exponent.toNat + 52) = numerator.log2 + (-exponent).toNat := by omega
    calc denominator * 2 ^ exponent.toNat * 2 ^ 52
        = denominator * 2 ^ (exponent.toNat + 52) := by rw [pow_add, mul_assoc]
      _ ≤ 2 ^ (denominator.log2 + 1) * 2 ^ (exponent.toNat + 52) := Nat.mul_le_mul_right _ above.le
      _ = 2 ^ numerator.log2 * 2 ^ (-exponent).toNat := by rw [← pow_add, powers, pow_add]
      _ ≤ numerator * 2 ^ (-exponent).toNat := Nat.mul_le_mul_right _ below

/-- No double is nearer to a number. One that is as near is the same number, unless the mantissa is even. -/
structure Rounds (exact : ℚ) (double : Double) : Prop where
  nearest (other : Double) : |double.value - exact| ≤ |other.value - exact|
  even (other : Double) (tie : |double.value - exact| = |other.value - exact|) :
    double.value = other.value ∨ Even double.mantissa

/-- A double of a lesser exponent is not above the first natural number with as many bits as a mantissa. -/
theorem exists_natural_nearer {scaled : ℚ} (great : 2 ^ 52 ≤ scaled) (exponent : ℤ) (other : Double) :
    ∃ number : ℕ, |number - scaled| ≤ |other.value / 2 ^ exponent - scaled| ∧
      (|number - scaled| = |other.value / 2 ^ exponent - scaled| → number = other.value / 2 ^ exponent) := by
  have quotient : other.value / 2 ^ exponent = other.mantissa * 2 ^ (other.exponent - exponent) := by
    rw [value, zpow_sub₀ two_ne_zero, mul_div_assoc]
  rcases Int.lt_or_le other.exponent exponent with less | most
  · have small : other.value / 2 ^ exponent ≤ 2 ^ 52 := by
      have short : (other.mantissa : ℚ) ≤ 2 ^ 53 := by exact_mod_cast other.short
      have half : (2 : ℚ) ^ (other.exponent - exponent) ≤ 2 ^ (-1 : ℤ) := zpow_le_zpow_right₀ one_le_two (by omega)
      calc other.value / 2 ^ exponent
          = other.mantissa * 2 ^ (other.exponent - exponent) := quotient
        _ ≤ 2 ^ 53 * 2 ^ (-1 : ℤ) := mul_le_mul short half (by positivity) (by positivity)
        _ = 2 ^ 52 := by norm_num
    refine ⟨2 ^ 52, ?_, ?_⟩
    all_goals
      push_cast
      rw [abs_of_nonpos (by linarith), abs_of_nonpos (by linarith)]
      intros
      linarith
  · refine ⟨other.mantissa * 2 ^ (other.exponent - exponent).toNat, ?_⟩
    have same : ((other.mantissa * 2 ^ (other.exponent - exponent).toNat : ℕ) : ℚ) = other.value / 2 ^ exponent := by
      rw [quotient, two_zpow, show (-(other.exponent - exponent)).toNat = 0 by omega]
      push_cast
      ring
    rw [same]
    exact ⟨le_rfl, fun _ => rfl⟩

theorem half_le_abs_sub {number other : ℕ} {scaled : ℚ} (differ : number ≠ other) (half : |number - scaled| ≤ 1 / 2) :
    1 / 2 ≤ |other - scaled| := by
  have apart : (1 : ℚ) ≤ |(number : ℚ) - other| := by
    have whole : (1 : ℤ) ≤ |(number : ℤ) - other| := Int.one_le_abs (sub_ne_zero.mpr (Nat.cast_injective.ne differ))
    exact_mod_cast whole
  have triangle : |(number : ℚ) - other| ≤ |number - scaled| + |scaled - other| := abs_sub_le _ _ _
  rw [abs_sub_comm scaled] at triangle
  linarith

theorem abs_sub_scaled (number exact : ℚ) (exponent : ℤ) :
    |number - exact| = |number / 2 ^ exponent - exact / 2 ^ exponent| * 2 ^ exponent := by
  have positive : (0 : ℚ) < 2 ^ exponent := zpow_pos two_pos exponent
  rw [← sub_div, abs_div, abs_of_pos positive, div_mul_cancel₀ _ positive.ne']

theorem Rounds.of_eq {double : Double} {exact : ℚ} (same : double.value = exact) : Rounds exact double where
  nearest other := by
    rw [same, sub_self, abs_zero]
    exact abs_nonneg _
  even other tie := by
    rw [same, sub_self, abs_zero] at tie
    left
    rw [same]
    exact (sub_eq_zero.mp (abs_eq_zero.mp tie.symm)).symm

theorem Rounds.eq {double : Double} {exact : ℚ} (rounds : Rounds exact double) (other : Double)
    (same : other.value = exact) : double.value = exact := by
  have nearest := rounds.nearest other
  rw [same, sub_self, abs_zero] at nearest
  exact sub_eq_zero.mp (abs_nonpos_iff.mp nearest)

/-- A mantissa that is within half of a number with enough bits is nearest to it among all doubles. -/
theorem Rounds.of_half {double : Double} {exact : ℚ} (great : 2 ^ 52 ≤ exact / 2 ^ double.exponent)
    (half : |(double.mantissa : ℚ) - exact / 2 ^ double.exponent| ≤ 1 / 2)
    (even : |(double.mantissa : ℚ) - exact / 2 ^ double.exponent| = 1 / 2 → Even double.mantissa) :
    Rounds exact double := by
  have positive : (0 : ℚ) < 2 ^ double.exponent := zpow_pos two_pos double.exponent
  have own : double.value / 2 ^ double.exponent = double.mantissa := mul_div_cancel_right₀ _ positive.ne'
  have scaled (other : Double) := abs_sub_scaled other.value exact double.exponent
  constructor
  · intro other
    obtain ⟨number, nearer, -⟩ := exists_natural_nearer great double.exponent other
    rw [scaled, scaled other, own]
    apply mul_le_mul_of_nonneg_right _ positive.le
    rcases eq_or_ne double.mantissa number with same | differ
    · rw [same]
      exact nearer
    · exact half.trans ((half_le_abs_sub differ half).trans nearer)
  · intro other tie
    obtain ⟨number, nearer, tight⟩ := exists_natural_nearer great double.exponent other
    rw [scaled, scaled other, own] at tie
    have level := mul_right_cancel₀ positive.ne' tie
    rcases eq_or_ne double.mantissa number with same | differ
    · left
      rw [same] at level own
      have equal : double.value / 2 ^ double.exponent = other.value / 2 ^ double.exponent := own.trans (tight level)
      exact (div_left_inj' positive.ne').mp equal
    · right
      exact even (half.antisymm ((half_le_abs_sub differ half).trans (nearer.trans level.ge)))

theorem rounds_nearest (positive : 0 < denominator) : Rounds (numerator / denominator) (nearest numerator denominator) := by
  have down : 0 < scaleDown numerator denominator := Nat.mul_pos positive (Nat.two_pow_pos _)
  rcases Nat.eq_zero_or_pos numerator with rfl | some
  · apply Rounds.of_eq
    have none : (nearest 0 denominator).mantissa = 0 := by
      apply Nat.le_zero.mp
      apply Text.roundDiv_le down
      rw [scaleUp, Nat.zero_mul]
      exact Nat.zero_le _
    rw [value, none]
    simp
  · have half := @Text.roundDiv_half (scaleUp numerator denominator) _ down
    rw [scaled_eq] at half
    refine Rounds.of_half ?_ half.1 half.2
    show (2 : ℚ) ^ 52 ≤ numerator / denominator / 2 ^ exponentOf numerator denominator
    rw [← scaled_eq, le_div_iff₀ (Nat.cast_pos.mpr down), mul_comm]
    exact_mod_cast scaled_ge some

section Operations
variable (left right : Double)

theorem denominator_pos (double : Double) : 0 < double.denominator := Nat.two_pow_pos _

theorem rounds_add : Rounds (left.value + right.value) (left + right) := by
  have one : (left.denominator : ℚ) ≠ 0 := Nat.cast_ne_zero.mpr (denominator_pos left).ne'
  have two : (right.denominator : ℚ) ≠ 0 := Nat.cast_ne_zero.mpr (denominator_pos right).ne'
  have rounds := @rounds_nearest (left.numerator * right.denominator + right.numerator * left.denominator) _
    (Nat.mul_pos (denominator_pos left) (denominator_pos right))
  rw [value_eq_div, value_eq_div, div_add_div _ _ one two]
  push_cast at rounds
  rwa [mul_comm (left.denominator : ℚ) right.numerator]

theorem rounds_mul : Rounds (left.value * right.value) (left * right) := by
  have rounds := @rounds_nearest (left.numerator * right.numerator) _
    (Nat.mul_pos (denominator_pos left) (denominator_pos right))
  rw [value_eq_div, value_eq_div, div_mul_div_comm]
  push_cast at rounds
  exact rounds

theorem rounds_div (nonzero : right.value ≠ 0) : Rounds (left.value / right.value) (left / right) := by
  have some : 0 < right.numerator := by
    apply Nat.pos_of_ne_zero
    intro zero
    apply nonzero
    rw [value_eq_div, zero]
    simp
  have rounds := @rounds_nearest (left.numerator * right.denominator) _ (Nat.mul_pos (denominator_pos left) some)
  rw [value_eq_div, value_eq_div, div_div_div_eq]
  push_cast at rounds
  exact rounds

theorem rounds_natCast (number : ℕ) : Rounds number (number : Double) := by
  have rounds := @rounds_nearest number 1 one_pos
  rw [Nat.cast_one, div_one] at rounds
  exact rounds

theorem value_natCast {number : ℕ} (short : number ≤ 2 ^ 53) : (number : Double).value = number :=
  (rounds_natCast number).eq ⟨number, 0, short⟩ (by simp [value])

end Operations

theorem value_nonneg (double : Double) : 0 ≤ double.value := by
  unfold value
  positivity

theorem Rounds.pos {double : Double} {exact : ℚ} (rounds : Rounds exact double) (positive : 0 < exact) :
    0 < double.value := by
  obtain ⟨power, small⟩ := exists_pow_lt_of_lt_one positive (by norm_num : (1 / 2 : ℚ) < 1)
  have least : (⟨1, -power, by decide⟩ : Double).value = (1 / 2) ^ power := by simp [value]
  have nearest := rounds.nearest ⟨1, -power, by decide⟩
  have above : (0 : ℚ) < (1 / 2) ^ power := by positivity
  rw [least, abs_of_neg (sub_neg.mpr small)] at nearest
  have bound := (neg_le_abs _).trans nearest
  linarith

theorem render_of_value {double : Double} {number : ℕ} (same : double.value = number) (places : ℕ) :
    double.render places = Text.fixedPoint places (number * 10 ^ places) := by
  have positive := denominator_pos double
  have exact : double.numerator = double.denominator * number := by
    have nonzero : (double.denominator : ℚ) ≠ 0 := Nat.cast_ne_zero.mpr positive.ne'
    rw [value_eq_div, div_eq_iff nonzero] at same
    rw [mul_comm]
    exact_mod_cast same
  rw [render, exact, mul_assoc, Text.roundDiv_mul positive, Nat.pow_eq]

end Double
end Canon

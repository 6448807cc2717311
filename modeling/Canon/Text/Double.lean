import Canon.Text.Decimal

/-!
Doubles that are neither negative nor infinite. An operation gives the double nearest to its exact result; of two that
are equally near, the one with an even mantissa. Exponents have no bounds here: what is computed stays far from those of
the machine.
-/
namespace Canon

/-- The mantissa times a power of two. -/
structure Double where
  mantissa : Nat
  exponent : Int
  -- two to the fifty-third
  short : mantissa ≤ 9007199254740992

namespace Double

def numerator (double : Double) : Nat := double.mantissa * Nat.pow 2 double.exponent.toNat

def denominator (double : Double) : Nat := Nat.pow 2 (-double.exponent).toNat

section Nearest

/-- The exponent with which the whole part of a quotient has as many bits as a mantissa. -/
def exponentOf (numerator denominator : Nat) : Int :=
  let exponent := (numerator.log2 : Int) - denominator.log2 - 52
  if denominator * Nat.pow 2 exponent.toNat * Nat.pow 2 52 ≤ numerator * Nat.pow 2 (-exponent).toNat then exponent
  else exponent - 1

def scaleUp (numerator denominator : Nat) : Nat := numerator * Nat.pow 2 (-exponentOf numerator denominator).toNat

def scaleDown (numerator denominator : Nat) : Nat := denominator * Nat.pow 2 (exponentOf numerator denominator).toNat

theorem scaled_lt_succ {numerator denominator : Nat} (positive : 0 < denominator) {exponent : Int}
    (near : (numerator.log2 : Int) - denominator.log2 - 52 = exponent) :
    numerator * Nat.pow 2 (-exponent).toNat < denominator * Nat.pow 2 exponent.toNat * Nat.pow 2 53 := by
  simp only [Nat.pow_eq]
  have above : numerator < 2 ^ (numerator.log2 + 1) := Nat.lt_log2_self
  have below : 2 ^ denominator.log2 ≤ denominator := Nat.log2_self_le (Nat.ne_of_gt positive)
  have powers : numerator.log2 + 1 + (-exponent).toNat = denominator.log2 + (exponent.toNat + 53) := by omega
  calc numerator * 2 ^ (-exponent).toNat
      < 2 ^ (numerator.log2 + 1) * 2 ^ (-exponent).toNat := Nat.mul_lt_mul_of_pos_right above (Nat.two_pow_pos _)
    _ = 2 ^ denominator.log2 * 2 ^ (exponent.toNat + 53) := by rw [← Nat.pow_add, powers, Nat.pow_add]
    _ ≤ denominator * 2 ^ (exponent.toNat + 53) := Nat.mul_le_mul_right _ below
    _ = denominator * 2 ^ exponent.toNat * 2 ^ 53 := by rw [Nat.pow_add, Nat.mul_assoc]

/-- A quotient that is less than half of a bound stays below the bound when its exponent gets less by one. -/
theorem scaled_lt_pred {numerator denominator bound : Nat} {exponent : Int}
    (small : numerator * Nat.pow 2 (-exponent).toNat < denominator * Nat.pow 2 exponent.toNat * bound) :
    numerator * Nat.pow 2 (-(exponent - 1)).toNat < denominator * Nat.pow 2 (exponent - 1).toNat * (bound * 2) := by
  simp only [Nat.pow_eq] at small ⊢
  rcases Int.lt_or_le 0 exponent with up | down
  · have same : (-(exponent - 1)).toNat = (-exponent).toNat := by omega
    have less : exponent.toNat = (exponent - 1).toNat + 1 := by omega
    rw [less, Nat.pow_succ] at small
    rw [same]
    calc numerator * 2 ^ (-exponent).toNat
        < denominator * (2 ^ (exponent - 1).toNat * 2) * bound := small
      _ = denominator * 2 ^ (exponent - 1).toNat * (bound * 2) := by ac_rfl
  · have more : (-(exponent - 1)).toNat = (-exponent).toNat + 1 := by omega
    have same : (exponent - 1).toNat = exponent.toNat := by omega
    rw [more, same, Nat.pow_succ, ← Nat.mul_assoc, ← Nat.mul_assoc]
    omega

theorem scaled_lt {numerator denominator : Nat} (positive : 0 < denominator) :
    scaleUp numerator denominator < scaleDown numerator denominator * Nat.pow 2 53 := by
  unfold scaleUp scaleDown exponentOf
  dsimp only
  generalize near : (numerator.log2 : Int) - denominator.log2 - 52 = exponent
  split
  case isTrue => exact scaled_lt_succ positive near
  case isFalse small => exact scaled_lt_pred (Nat.not_le.mp small)

theorem roundDiv_scaled_le (numerator denominator : Nat) :
    Text.roundDiv (scaleUp numerator denominator) (scaleDown numerator denominator) ≤ 9007199254740992 := by
  rcases Nat.eq_zero_or_pos denominator with rfl | positive
  · rw [scaleDown, Nat.zero_mul]
    exact Nat.le_trans (Text.roundDiv_zero _) (by decide)
  · exact Text.roundDiv_le (Nat.mul_pos positive (Nat.two_pow_pos _)) (Nat.le_of_lt (scaled_lt positive))

def nearest (numerator denominator : Nat) : Double where
  mantissa := Text.roundDiv (scaleUp numerator denominator) (scaleDown numerator denominator)
  exponent := exponentOf numerator denominator
  short := roundDiv_scaled_le numerator denominator

end Nearest

instance : NatCast Double := ⟨fun number => nearest number 1⟩

instance (number : Nat) : OfNat Double number := ⟨nearest number 1⟩

instance : Add Double where
  add left right := nearest (left.numerator * right.denominator + right.numerator * left.denominator)
    (left.denominator * right.denominator)

instance : Mul Double where
  mul left right := nearest (left.numerator * right.numerator) (left.denominator * right.denominator)

instance : Div Double where
  div left right := nearest (left.numerator * right.denominator) (left.denominator * right.numerator)

def render (places : Nat) (double : Double) : String :=
  Text.fixedPoint places (Text.roundDiv (double.numerator * Nat.pow 10 places) double.denominator)

end Double
end Canon

/-!
Quotients of natural numbers with a fixed number of decimals.
-/
namespace Canon.Text

/-- The nearest natural number to a quotient; a half goes to the even neighbour. -/
def roundDiv (numerator denominator : Nat) : Nat :=
  let floor := numerator / denominator
  let rest := 2 * (numerator % denominator)
  if rest < denominator ∨ (rest = denominator ∧ floor % 2 = 0) then floor else floor + 1

theorem roundDiv_zero (numerator : Nat) : roundDiv numerator 0 ≤ 1 := by
  unfold roundDiv
  dsimp only
  split
  · simp
  · simp

theorem roundDiv_le {numerator denominator bound : Nat} (positive : 0 < denominator)
    (below : numerator ≤ denominator * bound) : roundDiv numerator denominator ≤ bound := by
  have floor : numerator / denominator ≤ bound := Nat.div_le_of_le_mul below
  have whole := Nat.div_add_mod numerator denominator
  unfold roundDiv
  dsimp only
  split
  · exact floor
  · rcases Nat.lt_or_eq_of_le floor with less | same
    · exact less
    · rw [same] at whole
      omega

theorem roundDiv_mul {denominator : Nat} (positive : 0 < denominator) (number : Nat) :
    roundDiv (denominator * number) denominator = number := by
  unfold roundDiv
  rw [Nat.mul_div_cancel_left _ positive, Nat.mul_mod_right]
  exact if_pos (.inl positive)

def fixedPoint (places number : Nat) : String :=
  let digits := toString (number % Nat.pow 10 places)
  toString (number / Nat.pow 10 places) ++ "." ++ String.ofList (List.replicate (places - digits.length) '0') ++ digits

end Canon.Text

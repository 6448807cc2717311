import Canon.Fault

/-!
Room in memory that is asked for in one piece. A piece has no more bytes than a signed 64-bit word can count, so
some requests can never be met; whether there is enough memory for the others is not looked at.
-/
namespace Canon.Memory

def pieceLimit : Nat := 9223372036854775807

def wordSize : Nat := 8

/-- The number of bytes that a text takes in a row of texts: an address, a length and a capacity. The characters
lie elsewhere. -/
def textSize : Nat := 3 * wordSize

def reserve (itemSize count : Nat) : Except Fault Unit :=
  if pieceLimit < itemSize * count then .error .capacityOverflow else .ok ()

theorem reserve_eq_ok_iff (itemSize count : Nat) :
    reserve itemSize count = .ok () ↔ itemSize * count ≤ pieceLimit := by
  unfold reserve
  split <;> simp <;> omega

theorem reserve_bind {α : Type} (itemSize count : Nat) (made whole : α) :
    (reserve itemSize count >>= fun _ => return made) = .ok whole ↔
      itemSize * count ≤ pieceLimit ∧ made = whole := by
  rw [← reserve_eq_ok_iff]
  cases reserve itemSize count with
  | error fault => simp [bind, Except.bind]
  | ok => simp [bind, Except.bind, pure, Except.pure]

end Canon.Memory

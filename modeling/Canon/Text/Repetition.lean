import Canon.Memory

/-!
Texts and bytes repeated a number of times, out of which long sources are made. The room for the whole is asked for
before anything is written, so a source that would not fit breaks the precondition and is not made.
-/
namespace Canon.Text

def repeatBytes (count : Nat) (bytes : List UInt8) : Except Fault (List UInt8) := do
  Memory.reserve bytes.length count
  return if bytes.isEmpty then [] else (List.replicate count bytes).flatten

def repeatText (count : Nat) (text : String) : Except Fault String := do
  Memory.reserve text.utf8ByteSize count
  return if text.isEmpty then "" else String.join (List.replicate count text)

section Room

theorem repeatBytes_eq_ok_iff {count : Nat} {bytes whole : List UInt8} : repeatBytes count bytes = .ok whole ↔
    bytes.length * count ≤ Memory.pieceLimit ∧ (List.replicate count bytes).flatten = whole := by
  have shortcut : (if bytes.isEmpty then [] else (List.replicate count bytes).flatten) =
      (List.replicate count bytes).flatten := by
    cases bytes with
    | nil => exact List.flatten_replicate_nil.symm
    | cons byte rest => rfl
  unfold repeatBytes
  rw [shortcut]
  exact Memory.reserve_bind _ _ _ _

theorem repeatText_eq_ok_iff {count : Nat} {text whole : String} : repeatText count text = .ok whole ↔
    text.utf8ByteSize * count ≤ Memory.pieceLimit ∧ String.join (List.replicate count text) = whole := by
  have shortcut : (if text.isEmpty then "" else String.join (List.replicate count text)) =
      String.join (List.replicate count text) := by
    by_cases empty : text.isEmpty = true
    · rw [if_pos empty, String.isEmpty_iff.mp empty]
      induction count with
      | zero => rfl
      | succ count ih => rw [List.replicate_succ, String.join_cons, ← ih, String.append_empty]
    · exact if_neg empty
  unfold repeatText
  rw [shortcut]
  exact Memory.reserve_bind _ _ _ _

/-- What is made takes the room that was asked for. -/
theorem utf8ByteSize_repeatText {count : Nat} {text whole : String} (made : repeatText count text = .ok whole) :
    whole.utf8ByteSize = text.utf8ByteSize * count := by
  obtain ⟨-, rfl⟩ := repeatText_eq_ok_iff.mp made
  clear made
  induction count with
  | zero => rfl
  | succ count ih => rw [List.replicate_succ, String.join_cons, String.utf8ByteSize_append, ih, Nat.mul_succ, Nat.add_comm]

end Room
end Canon.Text

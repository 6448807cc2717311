import Canon.Proofs.Text.Decoding
import Canon.Text.Delivery

/-!
What a full writer has taken. A cut between two characters leaves the text in front of it. A cut inside a character leaves
some of its bytes, which no character has, so that one replacement character stands for them.
-/
namespace Canon.Text
open String (utf8EncodeChar)

theorem Broken.of_cut {char : Char} {part : List UInt8} (front : part <+: utf8EncodeChar char)
    (short : part.length < (utf8EncodeChar char).length) (nonempty : part ≠ []) : Broken part [] where
  nonempty := nonempty
  ill other inside := by
    rw [List.append_nil] at inside
    obtain ⟨more, whole⟩ := inside.trans front
    obtain ⟨rfl, -⟩ := utf8EncodeChar_append_inj (whole.trans (List.append_nil _).symm)
    exact absurd inside.length_le (Nat.not_le.mpr short)
  short := .inr ⟨char, front⟩
  longest byte next := by cases next

theorem Lossy.encode_append (front : List Char) {bytes : List UInt8} {text : List Char} (more : Lossy bytes text) :
    Lossy (encode front ++ bytes) (front ++ text) := by
  induction front with
  | nil => exact more
  | cons char front ih =>
    rw [encode, List.flatMap_cons, List.append_assoc]
    exact .kept char ih

/-- What is well-formed is decoded to what has been encoded. -/
theorem decodeLossy_encode (text : List Char) : decodeLossy (encode text) = text := by
  have lossy := Lossy.nil.encode_append text
  rw [List.append_nil, List.append_nil] at lossy
  exact (lossy_iff.mp lossy).symm

theorem take_encode (text : List Char) {limit : Nat} (exceeds : limit < (encode text).length) :
    ∃ front char rest part, text = front ++ char :: rest ∧ (encode text).take limit = encode front ++ part ∧
      part <+: utf8EncodeChar char ∧ part.length < (utf8EncodeChar char).length := by
  induction text generalizing limit with
  | nil => cases exceeds
  | cons char text ih =>
    have bytes : encode (char :: text) = utf8EncodeChar char ++ encode text := List.flatMap_cons
    rw [bytes] at exceeds ⊢
    rcases Nat.lt_or_ge limit (utf8EncodeChar char).length with inside | behind
    · refine ⟨[], char, text, (utf8EncodeChar char).take limit, rfl, ?_, List.take_prefix _ _, ?_⟩
      · rw [List.take_append_of_le_length inside.le]
        rfl
      · rw [List.length_take_of_le inside.le]
        exact inside
    · rw [List.length_append] at exceeds
      obtain ⟨front, next, rest, part, rfl, taken, cut⟩ := @ih (limit - (utf8EncodeChar char).length) (by omega)
      refine ⟨char :: front, next, rest, part, rfl, ?_, cut⟩
      rw [List.take_append, List.take_of_length_le behind, taken, ← List.append_assoc]
      rfl

/-- A writer takes everything if that fits, or else the characters that fit. What room they leave is filled with a part
of the next character, which is read as a replacement. -/
theorem deliver_cases (limit : Nat) (text : String) :
    (encode text.toList).length ≤ limit ∧ deliver (some limit) text = (true, text) ∨
    ∃ front char rest, text.toList = front ++ char :: rest ∧ (encode front).length ≤ limit ∧
      limit < (encode (front ++ [char])).length ∧ deliver (some limit) text =
        (false, String.ofList (front ++ if (encode front).length = limit then [] else [replacement])) := by
  unfold deliver
  dsimp only
  rcases Nat.lt_or_ge limit (encode text.toList).length with exceeds | fits
  · right
    rw [if_neg (Nat.not_le.mpr exceeds)]
    obtain ⟨front, char, rest, part, whole, taken, cut, short⟩ := take_encode text.toList exceeds
    have length := congrArg List.length taken
    rw [List.length_take_of_le exceeds.le, List.length_append] at length
    have behind : (encode (front ++ [char])).length = (encode front).length + (utf8EncodeChar char).length := by
      rw [encode, List.flatMap_append, List.length_append, List.flatMap_singleton]
      rfl
    refine ⟨front, char, rest, whole, by omega, by omega, ?_⟩
    rw [taken]
    cases part with
    | nil =>
      rw [List.length_nil, Nat.add_zero] at length
      rw [List.append_nil, decodeLossy_encode, if_pos length.symm, List.append_nil]
    | cons byte part =>
      have broken := Lossy.replaced (Broken.of_cut cut short (List.cons_ne_nil byte part)) .nil
      rw [List.append_nil] at broken
      rw [List.length_cons] at length
      rw [← lossy_iff.mp (broken.encode_append front), if_neg (by omega)]
  · exact .inl ⟨fits, if_pos fits⟩

end Canon.Text

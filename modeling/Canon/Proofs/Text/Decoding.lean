import Canon.Text.Lossy
import Mathlib.Data.List.Infix

/-!
The lossy decoder and the encoding it undoes. Well-formed characters are kept. Where no character stands, one
replacement character stands for the longest sequence of bytes that could have become a character, or for a single
byte if there is none. Inside a character the decoder knows which characters the bytes may still become.
-/
namespace Canon.Text
open String (utf8EncodeChar)

def Opens (bytes : List UInt8) : Prop := ∃ char, bytes <+: utf8EncodeChar char

/-- A sequence of bytes that cannot be decoded, and what follows it. -/
structure Broken (block rest : List UInt8) : Prop where
  nonempty : block ≠ []
  /-- No character stands here. -/
  ill : ∀ char, ¬ utf8EncodeChar char <+: block ++ rest
  /-- It could have become a character, unless it is a single byte. -/
  short : block.length = 1 ∨ Opens block
  /-- With the next byte it could not. -/
  longest : ∀ byte ∈ rest.head?, ¬ Opens (block ++ [byte])

/-- Bytes, and the text that they become if what cannot be decoded is replaced. -/
inductive Lossy : List UInt8 → List Char → Prop where
  | nil : Lossy [] []
  | kept (char : Char) {rest : List UInt8} {text : List Char} (more : Lossy rest text) :
    Lossy (utf8EncodeChar char ++ rest) (char :: text)
  | replaced {block rest : List UInt8} {text : List Char} (broken : Broken block rest) (more : Lossy rest text) :
    Lossy (block ++ rest) (replacement :: text)

section Encoding

def shift : Nat → Nat → Nat
  | 0, number => number
  | places + 1, number => shift places number / 64

def digits : Nat → Nat → List Nat
  | 0, _ => []
  | places + 1, number => (shift places number % 64 + 0x80) :: digits places number

def width (number : Nat) : Nat :=
  if number < 0x80 then 0 else if number < 0x800 then 1 else if number < 0x10000 then 2 else 3

def lead (number : Nat) : Nat :=
  if number < 0x80 then number
  else if number < 0x800 then shift 1 number + 0xC0
  else if number < 0x10000 then shift 2 number + 0xE0
  else shift 3 number + 0xF0

/-- A number that begins with some bits. The byte behind these is in a range, and some places are behind that byte. -/
def Continues (bits places low high number : Nat) : Prop :=
  shift (places + 1) number = bits ∧ low ≤ shift places number % 64 + 0x80 ∧ shift places number % 64 + 0x80 ≤ high

theorem exists_shift (places number : Nat) : ∃ whole, shift places whole = number := by
  induction places generalizing number with
  | zero => exact ⟨number, rfl⟩
  | succ places ih =>
    obtain ⟨whole, same⟩ := ih (number * 64)
    exact ⟨whole, by rw [shift, same]; omega⟩

theorem map_ofNat_digits (places number : Nat) :
    ((digits places number).map UInt8.ofNat).map UInt8.toNat = digits places number := by
  induction places with
  | zero => rfl
  | succ places ih =>
    rw [digits, List.map_cons, List.map_cons, ih, UInt8.toNat_ofNat']
    congr 1
    omega

theorem isValidChar_toNat (char : Char) : char.toNat.isValidChar := char.valid

theorem toNat_ofNat {number : Nat} (valid : number.isValidChar) : (Char.ofNat number).toNat = number := by
  rw [Char.ofNat, dif_pos valid]
  rfl

theorem map_toNat_utf8EncodeChar (char : Char) :
    (utf8EncodeChar char).map UInt8.toNat = lead char.toNat :: digits (width char.toNat) char.toNat := by
  have valid := isValidChar_toNat char
  have same : char.val.toNat = char.toNat := rfl
  simp only [Nat.isValidChar] at valid
  simp only [utf8EncodeChar, lead, width, shift, same, ← Nat.lt_succ_iff, Nat.succ_eq_add_one, Nat.reduceAdd,
    apply_ite (List.map UInt8.toNat), List.map_cons, List.map_nil, UInt8.toNat_ofNat']
  split_ifs
  all_goals simp only [digits, shift, List.cons.injEq, and_true]
  all_goals omega

theorem utf8EncodeChar_eq_cons_iff {char : Char} {byte : UInt8} {tail : List UInt8} :
    utf8EncodeChar char = byte :: tail ↔
      lead char.toNat = byte.toNat ∧ tail.map UInt8.toNat = digits (width char.toNat) char.toNat := by
  have injective : Function.Injective (List.map UInt8.toNat) :=
    List.map_injective_iff.mpr fun _ _ => UInt8.toNat_inj.mp
  rw [← injective.eq_iff, map_toNat_utf8EncodeChar, List.map_cons, List.cons.injEq, eq_comm (b := tail.map _)]

end Encoding

/-- Some bytes inside a character, and what is known of it: the number of each character that begins with these bytes
continues as the decoder says, and what continues so is the number of a character. -/
structure Begun (block : List UInt8) (bits places low high : Nat) : Prop where
  nonempty : block ≠ []
  range : 0x80 ≤ low ∧ low ≤ high ∧ high ≤ 0xBF
  encodes : ∀ char tail, utf8EncodeChar char = block ++ tail ↔
    Continues bits places low high char.toNat ∧ tail.map UInt8.toNat = digits (places + 1) char.toNat
  valid : ∀ number, Continues bits places low high number → number.isValidChar
  /-- No character ends inside of the bytes. -/
  incomplete : ∀ char, ¬ utf8EncodeChar char <+: block

namespace Begun
variable {block rest : List UInt8} {bits places low high : Nat}

theorem next (begun : Begun block bits places low high) {char : Char} {tail : List UInt8}
    (encodes : utf8EncodeChar char = block ++ tail) : ∃ byte more, tail = byte :: more ∧
      low ≤ byte.toNat ∧ byte.toNat ≤ high := by
  obtain ⟨continues, same⟩ := (begun.encodes char tail).mp encodes
  cases tail with
  | nil => cases same
  | cons byte more =>
    have head : byte.toNat = shift places char.toNat % 64 + 0x80 := (List.cons.inj same).1
    exact ⟨byte, more, rfl, head ▸ continues.2⟩

theorem opens (begun : Begun block bits places low high) : Opens block := by
  obtain ⟨number, same⟩ := exists_shift places (bits * 64 + (low - 0x80))
  have range := begun.range
  have continues : Continues bits places low high number := by
    rw [Continues, shift, same]
    omega
  have valid := begun.valid number continues
  have encodes := (begun.encodes (Char.ofNat number) ((digits (places + 1) number).map UInt8.ofNat)).mpr
    (by rw [toNat_ofNat valid]; exact ⟨continues, map_ofNat_digits ..⟩)
  exact ⟨_, _, encodes.symm⟩

theorem broken (begun : Begun block bits places low high)
    (refused : ∀ byte ∈ rest.head?, ¬ (low ≤ byte.toNat ∧ byte.toNat ≤ high)) : Broken block rest where
  nonempty := begun.nonempty
  ill char stands := by
    rcases List.prefix_or_prefix_of_prefix stands (List.prefix_append block rest) with inside | ⟨tail, same⟩
    · exact begun.incomplete char inside
    · obtain ⟨byte, more, whole, within⟩ := begun.next same.symm
      rw [← same, whole, List.prefix_append_right_inj] at stands
      cases rest with
      | nil => exact absurd (List.prefix_nil.mp stands) (List.cons_ne_nil byte more)
      | cons head rest => exact refused head rfl ((List.cons_prefix_cons.mp stands).1 ▸ within)
  short := .inr begun.opens
  longest byte head := by
    rintro ⟨char, tail, same⟩
    rw [List.append_assoc] at same
    obtain ⟨other, more, whole, within⟩ := begun.next same.symm
    exact refused byte head ((List.cons.inj whole).1 ▸ within)

theorem complete (begun : Begun block bits 0 low high) {byte : UInt8}
    (within : low ≤ byte.toNat ∧ byte.toNat ≤ high) :
    utf8EncodeChar (Char.ofNat (bits * 64 + (byte.toNat - 0x80))) = block ++ [byte] := by
  have range := begun.range
  have continues : Continues bits 0 low high (bits * 64 + (byte.toNat - 0x80)) := by
    simp only [Continues, shift]
    omega
  rw [begun.encodes, toNat_ofNat (begun.valid _ continues)]
  refine ⟨continues, ?_⟩
  simp only [List.map_cons, List.map_nil, digits, shift, List.cons.injEq, and_true]
  omega

theorem step (begun : Begun block bits (places + 1) low high) {byte : UInt8}
    (within : low ≤ byte.toNat ∧ byte.toNat ≤ high) :
    Begun (block ++ [byte]) (bits * 64 + (byte.toNat - 0x80)) places 0x80 0xBF := by
  have range := begun.range
  have narrows (number : Nat) :
      Continues (bits * 64 + (byte.toNat - 0x80)) places 0x80 0xBF number ↔
        Continues bits (places + 1) low high number ∧ byte.toNat = shift (places + 1) number % 64 + 0x80 := by
    simp only [Continues, shift]
    omega
  have encodes (char : Char) (tail : List UInt8) : utf8EncodeChar char = block ++ [byte] ++ tail ↔
      Continues (bits * 64 + (byte.toNat - 0x80)) places 0x80 0xBF char.toNat ∧
        tail.map UInt8.toNat = digits (places + 1) char.toNat := by
    rw [List.append_assoc, begun.encodes, narrows, and_assoc]
    exact and_congr_right fun _ => List.cons_eq_cons
  refine ⟨List.append_ne_nil_of_right_ne_nil _ (List.cons_ne_nil _ _), by decide, encodes,
    fun number continues => begun.valid number ((narrows number).mp continues).1, fun char inside => ?_⟩
  rcases List.prefix_concat_iff.mp inside with whole | earlier
  · have none := ((encodes char []).mp (whole.trans (List.append_nil _).symm)).2
    cases none
  · exact begun.incomplete char earlier

theorem of_lead {byte : UInt8} (range : 0x80 ≤ low ∧ low ≤ high ∧ high ≤ 0xBF)
    (leads : ∀ number, number.isValidChar → (lead number = byte.toNat ↔ Continues bits places low high number))
    (wide : ∀ number, lead number = byte.toNat → width number = places + 1)
    (valid : ∀ number, Continues bits places low high number → number.isValidChar) :
    Begun [byte] bits places low high := by
  have encodes (char : Char) (tail : List UInt8) : utf8EncodeChar char = byte :: tail ↔
      Continues bits places low high char.toNat ∧ tail.map UInt8.toNat = digits (places + 1) char.toNat := by
    rw [utf8EncodeChar_eq_cons_iff, ← leads char.toNat (isValidChar_toNat char)]
    exact and_congr_right fun same => by rw [wide char.toNat same]
  refine ⟨List.cons_ne_nil _ _, range, encodes, valid, fun char inside => ?_⟩
  rcases List.prefix_concat_iff.mp (show _ <+: [] ++ [byte] from inside) with whole | none
  · have none := ((encodes char []).mp whole).2
    cases none
  · exact String.utf8EncodeChar_ne_nil (List.prefix_nil.mp none)

end Begun

namespace Progress
variable {byte : UInt8}

theorem begun_of_opening {bits missing low high : Nat}
    (opens : opening byte.toNat = ([], .inside bits missing low high)) :
    ∃ places, missing = places + 1 ∧ Begun [byte] bits places low high := by
  unfold opening at opens
  split_ifs at opens
  all_goals
    simp only [Prod.mk.injEq, inside.injEq, List.cons_ne_nil, reduceCtorEq, false_and, true_and] at opens
  all_goals
    obtain ⟨rfl, rfl, rfl, rfl⟩ := opens
    refine ⟨_, rfl, .of_lead (by decide) (fun number valid => ?_) (fun number same => ?_) fun number => ?_⟩
    · simp only [Nat.isValidChar] at valid
      simp only [lead, Continues, shift]
      split_ifs <;> omega
    · simp only [lead, shift] at same
      unfold width
      split_ifs at * <;> omega
    · simp only [Continues, shift, Nat.isValidChar]
      omega

theorem utf8EncodeChar_ascii (ascii : byte.toNat < 0x80) : utf8EncodeChar (Char.ofNat byte.toNat) = [byte] := by
  have valid : byte.toNat.isValidChar := .inl (by omega)
  rw [utf8EncodeChar_eq_cons_iff, toNat_ofNat valid, lead, width, if_pos ascii, if_pos ascii]
  exact ⟨rfl, rfl⟩

theorem not_opens {rest : List UInt8} (none : 0x80 ≤ byte.toNat ∧ byte.toNat < 0xC2 ∨ 0xF4 < byte.toNat) :
    ¬ Opens (byte :: rest) := by
  rintro ⟨char, tail, same⟩
  have first := (utf8EncodeChar_eq_cons_iff.mp same.symm).1
  have valid := isValidChar_toNat char
  simp only [Nat.isValidChar] at valid
  simp only [lead, shift] at first
  split_ifs at first <;> omega

theorem broken_single {rest : List UInt8} (none : ∀ rest, ¬ Opens (byte :: rest)) : Broken [byte] rest where
  nonempty := List.cons_ne_nil _ _
  ill char stands := by
    rcases List.prefix_cons_iff.mp stands with empty | ⟨tail, same, _⟩
    · exact String.utf8EncodeChar_ne_nil empty
    · exact none [] ⟨char, tail, same.symm⟩
  short := .inl rfl
  longest next _ := none [next]

theorem opening_cases (byte : UInt8) :
    opening byte.toNat = ([Char.ofNat byte.toNat], .between) ∧ byte.toNat < 0x80 ∨
    opening byte.toNat = ([replacement], .between) ∧ (∀ rest, ¬ Opens (byte :: rest)) ∨
    ∃ bits missing low high, opening byte.toNat = ([], .inside bits missing low high) := by
  unfold opening
  split_ifs
  case pos ascii => exact .inl ⟨rfl, ascii⟩
  case neg => exact .inr (.inl ⟨rfl, fun rest => not_opens (by omega)⟩)
  all_goals exact .inr (.inr ⟨_, _, _, _, rfl⟩)

def decode : Progress → List UInt8 → List Char
  | progress, [] => progress.pending
  | progress, byte :: rest => (progress.read byte.toNat).1 ++ (progress.read byte.toNat).2.decode rest

end Progress

theorem finish_foldl_step (decoding : Decoding) (bytes : List UInt8) :
    (bytes.foldl Decoding.step decoding).finish = decoding.text.toList ++ decoding.progress.decode bytes := by
  induction bytes generalizing decoding with
  | nil => rfl
  | cons byte rest ih =>
    rw [List.foldl_cons, ih]
    simp only [Decoding.step, Progress.decode, Array.appendList_eq_append, Array.toList_appendList, List.append_assoc]

theorem decodeLossy_eq (bytes : List UInt8) : decodeLossy bytes = Progress.between.decode bytes :=
  finish_foldl_step Decoding.start bytes

open Progress in
/-- From outside of a character, and from inside of one whose first bytes have been read. -/
theorem lossy_decode (bytes : List UInt8) : Lossy bytes (between.decode bytes) ∧
    ∀ {block bits places low high}, Begun block bits places low high →
      Lossy (block ++ bytes) ((inside bits (places + 1) low high).decode bytes) := by
  induction bytes with
  | nil => exact ⟨.nil, fun begun => .replaced (begun.broken nofun) .nil⟩
  | cons byte rest ih =>
    have outside : Lossy (byte :: rest) ((opening byte.toNat).1 ++ (opening byte.toNat).2.decode rest) := by
      rcases opening_cases byte with ⟨opens, ascii⟩ | ⟨opens, none⟩ | ⟨bits, missing, low, high, opens⟩
      · have kept := Lossy.kept (Char.ofNat byte.toNat) ih.1
        rw [utf8EncodeChar_ascii ascii] at kept
        rw [opens]
        exact kept
      · rw [opens]
        exact .replaced (broken_single none) ih.1
      · obtain ⟨places, rfl, begun⟩ := begun_of_opening opens
        rw [opens]
        exact ih.2 begun
    refine ⟨outside, fun {block bits places low high} begun => ?_⟩
    by_cases within : low ≤ byte.toNat ∧ byte.toNat ≤ high
    · have same : block ++ byte :: rest = block ++ [byte] ++ rest := List.append_cons block byte rest
      rw [decode, Progress.read, if_pos within, same]
      cases places with
      | zero =>
        rw [← begun.complete within]
        exact .kept _ ih.1
      | succ places => exact ih.2 (begun.step within)
    · have refused : ∀ next ∈ (byte :: rest).head?, ¬ (low ≤ next.toNat ∧ next.toNat ≤ high) := by
        rintro next head
        rwa [← Option.mem_some_iff.mp head]
      rw [decode, Progress.read, if_neg within]
      exact .replaced (begun.broken refused) outside

theorem utf8EncodeChar_append_inj {char other : Char} {rest more : List UInt8}
    (same : utf8EncodeChar char ++ rest = utf8EncodeChar other ++ more) : char = other ∧ rest = more := by
  have one := ByteArray.utf8DecodeChar?_utf8EncodeChar_append (b := rest.toByteArray) (c := char)
  have two := ByteArray.utf8DecodeChar?_utf8EncodeChar_append (b := more.toByteArray) (c := other)
  rw [← List.toByteArray_append, same, List.toByteArray_append, two] at one
  obtain rfl := Option.some.inj one
  exact ⟨rfl, List.append_cancel_left same⟩

namespace Broken

theorem not_kept {block rest : List UInt8} (broken : Broken block rest) {char : Char} {more : List UInt8} :
    block ++ rest ≠ utf8EncodeChar char ++ more := fun same => broken.ill char ⟨more, same.symm⟩

theorem not_longer {block rest more behind : List UInt8} {byte : UInt8} (broken : Broken block rest)
    (longer : Broken (block ++ byte :: more) behind) : block ++ rest ≠ block ++ byte :: more ++ behind := by
  intro same
  have head : rest = byte :: (more ++ behind) := by
    rw [List.append_assoc] at same
    exact List.append_cancel_left same
  rcases longer.short with single | ⟨char, opens⟩
  · have one := List.length_pos_iff.mpr broken.nonempty
    rw [List.length_append, List.length_cons] at single
    omega
  · refine broken.longest byte (head ▸ rfl) ⟨char, .trans ?_ opens⟩
    exact (List.prefix_append_right_inj block).mpr (List.prefix_append [byte] more)

theorem unique {block rest other more : List UInt8} (broken : Broken block rest) (others : Broken other more)
    (same : block ++ rest = other ++ more) : block = other ∧ rest = more := by
  rcases List.append_eq_append_iff.mp same with ⟨middle, whole, split⟩ | ⟨middle, whole, split⟩
  · cases middle with
    | nil => exact ⟨(whole.trans (List.append_nil block)).symm, split⟩
    | cons byte middle =>
      subst whole
      exact absurd same (broken.not_longer others)
  · cases middle with
    | nil => exact ⟨whole.trans (List.append_nil other), split.symm⟩
    | cons byte middle =>
      subst whole
      exact absurd same.symm (others.not_longer broken)

end Broken

theorem Lossy.unique {bytes : List UInt8} {text other : List Char} (lossy : Lossy bytes text)
    (others : Lossy bytes other) : text = other := by
  induction lossy generalizing other with
  | nil =>
    generalize none : ([] : List UInt8) = bytes at others
    cases others with
    | nil => rfl
    | kept char => exact absurd (List.append_eq_nil_iff.mp none.symm).1 String.utf8EncodeChar_ne_nil
    | replaced broken => exact absurd (List.append_eq_nil_iff.mp none.symm).1 broken.nonempty
  | @kept char rest text more ih =>
    generalize same : utf8EncodeChar char ++ rest = bytes at others
    cases others with
    | nil => exact absurd (List.append_eq_nil_iff.mp same).1 String.utf8EncodeChar_ne_nil
    | kept second others =>
      obtain ⟨rfl, rfl⟩ := utf8EncodeChar_append_inj same
      rw [ih others]
    | replaced broken => exact absurd same.symm broken.not_kept
  | @replaced block rest text broken more ih =>
    generalize same : block ++ rest = bytes at others
    cases others with
    | nil => exact absurd (List.append_eq_nil_iff.mp same).1 broken.nonempty
    | kept => exact absurd same broken.not_kept
    | replaced second others =>
      obtain ⟨rfl, rfl⟩ := broken.unique second same
      rw [ih others]

/-- The decoder makes of some bytes the one text that they become if what cannot be decoded is replaced. -/
theorem lossy_iff {bytes : List UInt8} {text : List Char} : Lossy bytes text ↔ text = decodeLossy bytes := by
  have decoded : Lossy bytes (decodeLossy bytes) := decodeLossy_eq bytes ▸ (lossy_decode bytes).1
  exact ⟨fun lossy => lossy.unique decoded, fun same => same ▸ decoded⟩

end Canon.Text

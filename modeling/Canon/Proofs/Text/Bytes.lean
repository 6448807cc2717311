import Canon.Proofs.Text.Decoding
import Canon.Proofs.Text.Iteration
import Canon.Proofs.Text.Pieces

/-!
The words of bytes. Behind a character beyond ASCII the scanner does not depend on which character it was, and more of
them change nothing. So the words are the same whether a run of such bytes becomes one character or several, and
whether it can be decoded or not.
-/
namespace Canon.Text
open String (utf8EncodeChar)

/-- A character that has no part in a word or a number, nor in where a comment or a quoted literal begins or ends. -/
def Plain (char : Char) : Prop :=
  continuesWord true char = false ∧ char ∉ ['.', '\x22', '\x27', '/', '*', '\\', '\n']

instance (char : Char) : Decidable (Plain char) := inferInstanceAs (Decidable (_ ∧ _))

/-- Bytes are read one by one: those of ASCII as themselves, each of the others as some plain character. -/
def Bytewise (stand : UInt8 → Char) : Prop :=
  ∀ byte, (byte.toNat < 0x80 → stand byte = Char.ofNat byte.toNat) ∧ (0x80 ≤ byte.toNat → Plain (stand byte))

/-- Some bytes, at least one and none of ASCII. -/
def High (block : List UInt8) : Prop := block ≠ [] ∧ ∀ byte ∈ block, 0x80 ≤ byte.toNat

instance (block : List UInt8) : Decidable (High block) :=
  @instDecidableAnd _ _ _ (List.decidableBAll _ block)

section Plain
variable {dollar : Bool} {char : Char}

theorem plain_of_high (high : 0x80 ≤ char.toNat) : Plain char := by
  refine ⟨?_, fun member => ?_⟩
  · rw [Bool.eq_false_iff]
    intro continues
    have small := Char.utf8Size_eq_one_iff.mp (continuesWord_narrow continues)
    rw [UInt32.le_iff_toNat_le] at small
    exact absurd small (Nat.not_le.mpr high)
  · have small : ['.', '\x22', '\x27', '/', '*', '\\', '\n'].all (·.toNat < 0x80) = true := by decide
    have ascii := of_decide_eq_true (List.all_eq_true.mp small char member)
    exact absurd ascii (Nat.not_lt.mpr high)

theorem Plain.word (plain : Plain char) : continuesWord dollar char = false := by
  have word := plain.1
  cases dollar with
  | true => exact word
  | false =>
    simp only [continuesWord, Bool.or_eq_false_iff] at word ⊢
    exact ⟨word.1, rfl⟩

theorem Plain.number (plain : Plain char) : continuesNumber char = false := by
  obtain ⟨word, others⟩ := plain
  simp only [continuesWord, Bool.or_eq_false_iff] at word
  have point : char ≠ '.' := fun same => others (same ▸ List.mem_cons_self)
  simp only [continuesNumber, word.1, beq_false_of_ne point, Bool.or_false]

end Plain

namespace Mode
variable {dollar : Bool} {mode : Mode} {char : Char}

/-- The quote of a literal is one of the two quotes. -/
def Genuine : Mode → Prop
  | .quoted quote | .escaped quote => quote = '\x22' ∨ quote = '\x27'
  | _ => True

/-- What the scanner is inside of behind a plain character. -/
def lingering : Mode → Mode
  | .quoted quote | .escaped quote => .quoted quote
  | .lineComment => .lineComment
  | .blockComment _ => .blockComment false
  | .outside | .word _ | .number | .slash => .outside

theorem lingering_lingering (mode : Mode) : mode.lingering.lingering = mode.lingering := by cases mode <;> rfl

theorem pending_lingering (mode : Mode) : mode.lingering.pending = [] := by cases mode <;> rfl

theorem Genuine.lingering (genuine : mode.Genuine) : mode.lingering.Genuine := by
  cases mode with
  | quoted | escaped => exact genuine
  | _ => trivial

theorem genuine_opening (dollar : Bool) (char : Char) : (opening dollar char).Genuine := by
  unfold opening
  split_ifs
  · trivial
  · trivial
  · next quotes =>
    rw [Bool.or_eq_true, beq_iff_eq, beq_iff_eq] at quotes
    exact quotes
  · trivial
  · trivial

theorem Genuine.read (genuine : mode.Genuine) (char : Char) : (mode.read dollar char).2.Genuine := by
  cases mode with
  | outside => exact genuine_opening dollar char
  | escaped => exact genuine
  | word | number | slash | quoted | lineComment | blockComment =>
    dsimp only [Mode.read]
    split_ifs
    all_goals first | exact genuine | exact genuine_opening dollar char | trivial

theorem genuine_ofChars (dollar : Bool) (text : List Char) : (Scan.ofChars dollar text).mode.Genuine := by
  induction text using List.reverseRecOn with
  | nil => trivial
  | append_singleton text char ih =>
    rw [Scan.ofChars, List.foldl_append]
    exact ih.read char

theorem opening_plain (plain : Plain char) : opening dollar char = .outside := by
  obtain ⟨-, double, single, slash, -⟩ := by simpa using plain.2
  have word : beginsWord dollar char = false := by
    rw [Bool.eq_false_iff]
    intro begins
    have continues := continuesWord_of_beginsWord begins
    rw [plain.word] at continues
    cases continues
  have digit : isDigit char = false := by
    have stops : continuesWord dollar char = false := plain.word
    simp only [continuesWord, Bool.or_eq_false_iff] at stops
    exact stops.1.1.2
  exact opening_other word digit ⟨double, single⟩ slash

theorem read_plain (genuine : mode.Genuine) (plain : Plain char) :
    mode.read dollar char = (mode.pending, mode.lingering) := by
  obtain ⟨-, double, single, slash, star, escape, newline⟩ := by simpa using plain.2
  have opens : opening dollar char = .outside := opening_plain plain
  cases mode with
  | outside => exact congrArg (Prod.mk []) opens
  | word read =>
    rw [Mode.read, plain.word, opens]
    rfl
  | number =>
    rw [Mode.read, plain.number, opens]
    rfl
  | slash =>
    rw [Mode.read, beq_false_of_ne slash, beq_false_of_ne star, opens]
    rfl
  | quoted quote =>
    have quote : char ≠ quote := by rcases genuine with rfl | rfl <;> assumption
    rw [Mode.read, beq_false_of_ne escape, beq_false_of_ne newline, beq_false_of_ne quote]
    rfl
  | escaped quote => rfl
  | lineComment =>
    rw [Mode.read, beq_false_of_ne newline]
    rfl
  | blockComment star =>
    rw [Mode.read, beq_false_of_ne slash, beq_false_of_ne ‹char ≠ '*'›, Bool.and_false]
    rfl

theorem Genuine.run_plain (genuine : mode.Genuine) {block : List Char} (some : block ≠ [])
    (plain : ∀ char ∈ block, Plain char) (rest : List Char) :
    mode.run dollar (block ++ rest) = mode.pending ++ mode.lingering.run dollar rest := by
  induction block generalizing mode with
  | nil => exact absurd rfl some
  | cons char block ih =>
    rw [List.forall_mem_cons] at plain
    rw [List.cons_append, Mode.run, read_plain genuine plain.1]
    cases block with
    | nil => rfl
    | cons next block =>
      rw [ih genuine.lingering (List.cons_ne_nil _ _) plain.2, pending_lingering, lingering_lingering]
      rfl

end Mode

section Encoding

theorem high_of_mem_digits {places number byte : Nat} (member : byte ∈ digits places number) : 0x80 ≤ byte := by
  induction places with
  | zero => cases member
  | succ places ih =>
    rcases List.mem_cons.mp member with rfl | later
    · omega
    · exact ih later

theorem high_lead {number : Nat} (high : 0x80 ≤ number) : 0x80 ≤ lead number := by
  unfold lead
  split_ifs <;> omega

/-- A character is a byte of ASCII, or none of its bytes is. -/
theorem utf8EncodeChar_cases (char : Char) :
    (∃ byte, utf8EncodeChar char = [byte] ∧ byte.toNat < 0x80 ∧ Char.ofNat byte.toNat = char) ∨
      0x80 ≤ char.toNat ∧ High (utf8EncodeChar char) := by
  by_cases ascii : char.toNat < 0x80
  · have number : (UInt8.ofNat char.toNat).toNat = char.toNat := by
      rw [UInt8.toNat_ofNat']
      omega
    have small : (UInt8.ofNat char.toNat).toNat < 0x80 := by rwa [number]
    have encodes := Progress.utf8EncodeChar_ascii small
    rw [number, Char.ofNat_toNat] at encodes
    exact .inl ⟨UInt8.ofNat char.toNat, encodes, small, by rw [number, Char.ofNat_toNat]⟩
  · have high := Nat.not_lt.mp ascii
    refine .inr ⟨high, String.utf8EncodeChar_ne_nil, fun byte member => ?_⟩
    have among := List.mem_map_of_mem (f := UInt8.toNat) member
    rw [map_toNat_utf8EncodeChar] at among
    rcases List.mem_cons.mp among with first | later
    · exact first ▸ high_lead high
    · exact high_of_mem_digits later

theorem Broken.high {block rest : List UInt8} (broken : Broken block rest) : High block := by
  have ascii_alone {byte : UInt8} (ascii : byte.toNat < 0x80) : block ≠ [byte] := by
    rintro rfl
    exact broken.ill (Char.ofNat byte.toNat) (Progress.utf8EncodeChar_ascii ascii ▸ List.prefix_append _ _)
  refine ⟨broken.nonempty, fun byte member => Nat.not_lt.mp fun ascii => ?_⟩
  rcases broken.short with single | ⟨char, opens⟩
  · obtain ⟨other, rfl⟩ := List.length_eq_one_iff.mp single
    exact ascii_alone ascii (List.mem_singleton.mp member ▸ rfl)
  · rcases utf8EncodeChar_cases char with ⟨other, encodes, small, _⟩ | ⟨_, high⟩
    · rw [encodes] at opens
      rcases List.prefix_concat_iff.mp (show _ <+: [] ++ [other] from opens) with whole | none
      · exact ascii_alone small whole
      · exact broken.nonempty (List.prefix_nil.mp none)
    · exact absurd (high.2 byte (opens.subset member)) (Nat.not_le.mpr ascii)

end Encoding

section Reading
variable {stand : UInt8 → Char} {dollar : Bool}

theorem High.plain {block : List UInt8} (high : High block) (bytewise : Bytewise stand) :
    block.map stand ≠ [] ∧ ∀ char ∈ block.map stand, Plain char := by
  refine ⟨mt List.map_eq_nil_iff.mp high.1, fun char member => ?_⟩
  obtain ⟨byte, among, rfl⟩ := List.mem_map.mp member
  exact (bytewise byte).2 (high.2 byte among)

theorem run_lossy {bytes : List UInt8} {text : List Char} (lossy : Lossy bytes text) (bytewise : Bytewise stand)
    {mode : Mode} (genuine : mode.Genuine) : mode.run dollar text = mode.run dollar (bytes.map stand) := by
  have blurred {mode : Mode} (genuine : mode.Genuine) {block rest : List UInt8} {text : List Char} {char : Char}
      (plain : Plain char) (high : High block)
      (ih : mode.lingering.run dollar text = mode.lingering.run dollar (rest.map stand)) :
      mode.run dollar (char :: text) = mode.run dollar ((block ++ rest).map stand) := by
    obtain ⟨some, plains⟩ := high.plain bytewise
    rw [List.map_append, genuine.run_plain some plains, ← ih]
    exact genuine.run_plain (List.cons_ne_nil char []) (List.forall_mem_singleton.mpr plain) text
  induction lossy generalizing mode with
  | nil => rfl
  | @kept char rest text _ ih =>
    rcases utf8EncodeChar_cases char with ⟨byte, encodes, ascii, same⟩ | ⟨beyond, high⟩
    · rw [encodes, List.map_append, List.map_singleton, (bytewise byte).1 ascii, same, List.singleton_append, Mode.run,
        Mode.run, ih (genuine.read char)]
    · exact blurred genuine (plain_of_high beyond) high (ih genuine.lingering)
  | replaced broken _ ih => exact blurred genuine (by decide) broken.high (ih genuine.lingering)

theorem words_lossy {bytes : List UInt8} {text : List Char} (lossy : Lossy bytes text) (bytewise : Bytewise stand) :
    words dollar text = words dollar (bytes.map stand) := by
  rw [words_eq_run, words_eq_run]
  exact run_lossy lossy bytewise trivial

theorem words_high {front block other rest : List UInt8} (bytewise : Bytewise stand) (high : High block)
    (others : High other) :
    words dollar ((front ++ block ++ rest).map stand) = words dollar ((front ++ other ++ rest).map stand) := by
  obtain ⟨some, plain⟩ := high.plain bytewise
  obtain ⟨more, plains⟩ := others.plain bytewise
  have genuine := Mode.genuine_ofChars dollar (front.map stand)
  simp only [List.map_append, List.append_assoc]
  rw [words_append, words_append, genuine.run_plain some plain, genuine.run_plain more plains]

end Reading

/-- The words of a decoded text are those of its bytes, read one by one with some plain character for each byte beyond
ASCII. Decoding keeps what is well-formed and replaces the rest, and no other text comes of that. In place of bytes that
cannot be decoded there may be any others beyond ASCII. -/
theorem bytes_have_the_words_of_their_text {stand : UInt8 → Char} (bytewise : Bytewise stand) (dollar : Bool)
    (bytes : List UInt8) :
    words dollar (decodeLossy bytes) = words dollar (bytes.map stand) ∧
    (∀ text, Lossy bytes text ↔ text = decodeLossy bytes) ∧
    ∀ front block rest other, bytes = front ++ block ++ rest → High block → High other →
      words dollar (decodeLossy bytes) = words dollar (decodeLossy (front ++ other ++ rest)) := by
  have read (bytes : List UInt8) : words dollar (decodeLossy bytes) = words dollar (bytes.map stand) :=
    words_lossy (lossy_iff.mpr rfl) bytewise
  refine ⟨read bytes, fun text => lossy_iff, ?_⟩
  rintro front block rest other rfl high others
  rw [read, read]
  exact words_high bytewise high others

/-- Each byte as the character of its number. In a literal a backslash is followed by half of a character, and between
two letters stands a byte that no character has. -/
theorem broken_characters_part_words :
    let stand : UInt8 → Char := fun byte => Char.ofNat byte.toNat
    let bytes : List UInt8 := [0x22, 0x5C, 0xE2, 0x82, 0x22, 0x61, 0xFF, 0x62]
    Bytewise stand ∧ words false (decodeLossy bytes) = words false (bytes.map stand) ∧
      words false (bytes.map stand) = ["a", "b"] ∧ High [0xFF] ∧ High [0xC3, 0xA9] ∧
      words false (decodeLossy bytes) =
        words false (decodeLossy [0x22, 0x5C, 0xE2, 0x82, 0x22, 0x61, 0xC3, 0xA9, 0x62]) := by
  intro stand bytes
  have bytewise : Bytewise stand := by
    refine fun byte => ⟨fun _ => rfl, fun high => plain_of_high ?_⟩
    have valid : byte.toNat.isValidChar := .inl (Nat.lt_trans byte.toNat_lt (by decide))
    rwa [toNat_ofNat valid]
  obtain ⟨same, -, blurred⟩ := bytes_have_the_words_of_their_text bytewise false bytes
  have one : High [0xFF] := by decide
  have two : High [0xC3, 0xA9] := by decide
  exact ⟨bytewise, same, by decide +kernel, one, two,
    blurred [0x22, 0x5C, 0xE2, 0x82, 0x22, 0x61] [0xFF] [0x62] [0xC3, 0xA9] rfl one two⟩

end Canon.Text

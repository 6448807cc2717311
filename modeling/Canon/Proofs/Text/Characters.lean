import Canon.Proofs.Text.Iteration

/-!
The characters of words: the scanner puts nothing into a word but characters that may continue one.
-/
namespace Canon.Text
variable {dollar : Bool}

def Wordlike (dollar : Bool) (chars : List Char) : Prop := ∀ char ∈ chars, continuesWord dollar char = true

instance (dollar : Bool) (chars : List Char) : Decidable (Wordlike dollar chars) :=
  List.decidableBAll (fun char => continuesWord dollar char = true) chars

theorem Wordlike.widen {chars : List Char} (wordlike : Wordlike dollar chars) : Wordlike true chars := by
  intro char member
  have continues := wordlike char member
  unfold continuesWord at continues ⊢
  cases dollar
  · simp only [Bool.false_and, Bool.or_false] at continues
    rw [continues, Bool.true_or]
  · exact continues

namespace Mode

/-- Nothing but characters that may continue a word has been read into a word. -/
def Proper (dollar : Bool) : Mode → Prop
  | .word read => Wordlike dollar read
  | _ => True

theorem proper_opening (dollar : Bool) (char : Char) : (opening dollar char).Proper dollar := by
  unfold opening
  split
  · next begins =>
    intro other member
    rw [List.mem_singleton.mp member]
    exact continuesWord_of_beginsWord begins
  · split
    · trivial
    · split
      · trivial
      · split <;> trivial

theorem Proper.pending {mode : Mode} (proper : mode.Proper dollar) :
    ∀ word ∈ mode.pending, Wordlike dollar word.toList := by
  intro word member
  cases mode with
  | word read =>
    rw [List.mem_singleton.mp member, String.toList_ofList]
    intro char among
    exact proper char (List.mem_reverse.mp among)
  | _ => cases member

theorem Proper.read {mode : Mode} (proper : mode.Proper dollar) (char : Char) :
    (∀ word ∈ (mode.read dollar char).1, Wordlike dollar word.toList) ∧ (mode.read dollar char).2.Proper dollar := by
  have nothing : ∀ word ∈ ([] : List String), Wordlike dollar word.toList := List.forall_mem_nil _
  cases mode with
  | outside => exact ⟨nothing, proper_opening dollar char⟩
  | word chars =>
    by_cases continues : continuesWord dollar char = true
    · rw [Mode.read, if_pos continues]
      exact ⟨nothing, List.forall_mem_cons.mpr ⟨continues, proper⟩⟩
    · rw [Mode.read, if_neg continues]
      exact ⟨proper.pending, proper_opening dollar char⟩
  | escaped quote => exact ⟨nothing, trivial⟩
  | number | slash | quoted | lineComment | blockComment =>
    refine ⟨nothing, ?_⟩
    dsimp only [Mode.read]
    split_ifs
    all_goals first | trivial | exact proper_opening dollar char

theorem Proper.run {mode : Mode} (proper : mode.Proper dollar) (text : List Char) :
    ∀ word ∈ mode.run dollar text, Wordlike dollar word.toList := by
  induction text generalizing mode with
  | nil => exact proper.pending
  | cons char rest ih =>
    obtain ⟨ended, next⟩ := proper.read char
    intro word member
    rcases List.mem_append.mp member with here | there
    · exact ended word here
    · exact ih next word there

end Mode

theorem wordlike_of_mem_words {text : List Char} {word : String} (member : word ∈ words dollar text) :
    Wordlike dollar word.toList := by
  rw [words_eq_run] at member
  have proper : Mode.outside.Proper dollar := trivial
  exact proper.run text word member

end Canon.Text

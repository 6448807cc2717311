import Canon.Proofs.Text.Characters

/-!
Where words stand in a text. A word is as long as it can be on the right. On the left it could be longer only behind a
number: where the dollar sign counts as a letter it may begin a word, but it does not continue a number.
-/
namespace Canon.Text

def textOf (segments : List (Kind × List Char)) : List Char := (segments.map Prod.snd).flatten

/-- Some segments end in a character that may continue a word, which a word right behind them leaves out. -/
def Joins (dollar : Bool) (front : List (Kind × List Char)) : Prop :=
  ∃ last ∈ (textOf front).getLast?, continuesWord dollar last = true

section Segments
variable {dollar : Bool} {text : List Char} {front later : List (Kind × List Char)} {kind : Kind}
  {segment : List Char}

theorem Segmentation.text_eq {segments : List (Kind × List Char)} (cuts : Segmentation dollar text segments) :
    text = textOf segments := by
  induction cuts with
  | nil => rfl
  | cons _ _ ih =>
    rw [ih]
    rfl

theorem Segmentation.of_append (cuts : Segmentation dollar text (front ++ later)) :
    Segmentation dollar (textOf later) later := by
  induction front generalizing text with
  | nil => exact cuts.text_eq ▸ cuts
  | cons _ _ ih =>
    cases cuts with
    | cons _ more => exact ih more

theorem Segmentation.lexeme (cuts : Segmentation dollar text (front ++ (kind, segment) :: later)) :
    Lexeme dollar kind segment (textOf later) := by
  have more := cuts.of_append
  generalize textOf ((kind, segment) :: later) = text at more
  cases more with
  | cons lexeme more => exact more.text_eq ▸ lexeme

theorem joins_concat {last : Char} (ends : segment.getLast? = some last) :
    Joins dollar (front ++ [(kind, segment)]) ↔ continuesWord dollar last = true := by
  have same : (textOf (front ++ [(kind, segment)])).getLast? = some last := by
    rw [textOf, List.map_append, List.flatten_append, List.getLast?_append]
    simp [ends]
  simp only [Joins, same, Option.mem_some_iff, exists_eq_left']

end Segments

section Margins
variable {dollar : Bool} {kind : Kind} {segment rest : List Char} {first last : Char}

theorem Lexeme.exists_last (lexeme : Lexeme dollar kind segment rest) : ∃ last, segment.getLast? = some last := by
  obtain ⟨first, tail, same, _⟩ := lexeme.cut_eq
  exact ⟨_, List.getLast?_eq_some_getLast (same ▸ List.cons_ne_nil first tail)⟩

theorem dollar_of_begins (begins : beginsWord dollar first = true) (stops : continuesNumber first = false) :
    dollar = true ∧ first = '$' := by
  simp only [continuesNumber, Bool.or_eq_false_iff] at stops
  simpa [beginsWord, stops] using begins

theorem continuesNumber_of_isDigit (digit : isDigit first = true) : continuesNumber first = true := by
  simp only [continuesNumber, digit, Bool.or_true, Bool.true_or]

theorem continuesWord_iff (continues : continuesNumber last = true) : continuesWord dollar last = true ↔ last ≠ '.' := by
  constructor
  · rintro word rfl
    cases dollar <;> cases word
  · intro point
    simp only [continuesNumber, Bool.or_eq_true, beq_iff_eq, or_iff_left point] at continues
    simp only [continuesWord, Bool.or_eq_true, beq_iff_eq, continues, true_or]

theorem Lexeme.number_joins (lexeme : Lexeme dollar .number segment rest) (ends : segment.getLast? = some last) :
    continuesWord dollar last = true ↔ last ≠ '.' := by
  cases lexeme with
  | @number first run _ digit continues =>
    have inside : ∀ char ∈ first :: run, continuesNumber char = true :=
      List.forall_mem_cons.mpr ⟨continuesNumber_of_isDigit digit, continues⟩
    exact continuesWord_iff (inside last (List.mem_of_getLast? ends))

/-- In front of a word only a number ends in a character that may continue a word. -/
theorem Lexeme.margin (lexeme : Lexeme dollar kind segment (first :: rest)) (begins : beginsWord dollar first = true)
    (ends : segment.getLast? = some last) (continues : continuesWord dollar last = true) : kind = .number := by
  have break_of (char : Char) (same : char = last) (breaks : continuesWord dollar char = false) : False := by
    rw [← same, breaks] at continues
    cases continues
  cases lexeme with
  | word _ _ stops =>
    have stopped := stops first rfl
    rw [continuesWord_of_beginsWord begins] at stopped
    cases stopped
  | number => rfl
  | @quoted quote last body _ quotes _ closes =>
    rw [← List.cons_append, List.getLast?_concat] at ends
    refine (break_of last (Option.some.inj ends) ?_).elim
    rcases closes with rfl | rfl
    · rcases quotes with rfl | rfl <;> cases dollar <;> decide
    · cases dollar <;> decide
  | lineComment _ stops =>
    have line : first = '\n' := bne_eq_false_iff_eq.mp (stops first rfl)
    subst line
    cases dollar <;> cases begins
  | blockComment =>
    rw [closing, List.append_cons, ← List.cons_append, ← List.cons_append, List.getLast?_concat] at ends
    exact (break_of '/' (Option.some.inj ends) (by cases dollar <;> decide)).elim
  | @other char _ word number =>
    refine (break_of char (Option.some.inj ends) ?_).elim
    simp only [beginsWord, Bool.or_eq_false_iff] at word
    simp only [continuesWord, word, number, Bool.or_false]

end Margins

section Words
variable {dollar : Bool} {text word : List Char} {front later : List (Kind × List Char)}

theorem Segmentation.joins_iff (cuts : Segmentation dollar text (front ++ (.word, word) :: later)) :
    Joins dollar front ↔
      ∃ earlier number, front = earlier ++ [(.number, number)] ∧ number.getLast? ≠ some '.' := by
  obtain ⟨first, run, rfl, begins⟩ : ∃ first run, word = first :: run ∧ beginsWord dollar first = true := by
    cases cuts.lexeme with
    | word begins => exact ⟨_, _, rfl, begins⟩
  constructor
  · rcases List.eq_nil_or_concat' front with rfl | ⟨earlier, ⟨kind, segment⟩, rfl⟩
    · rintro ⟨last, none, _⟩
      cases none
    · intro joins
      rw [List.append_assoc] at cuts
      have lexeme : Lexeme dollar kind segment (first :: (run ++ textOf later)) := cuts.lexeme
      obtain ⟨last, ends⟩ := lexeme.exists_last
      have continues := (joins_concat ends).mp joins
      obtain rfl := lexeme.margin begins ends continues
      refine ⟨earlier, segment, rfl, fun point => ?_⟩
      rw [ends] at point
      exact (lexeme.number_joins ends).mp continues (Option.some.inj point)
  · rintro ⟨earlier, number, rfl, point⟩
    rw [List.append_assoc] at cuts
    obtain ⟨last, ends⟩ := cuts.lexeme.exists_last
    rw [joins_concat ends, cuts.lexeme.number_joins ends]
    rintro rfl
    exact point ends

theorem Segmentation.dollar_of_number {earlier : List (Kind × List Char)} {number : List Char}
    (cuts : Segmentation dollar text (earlier ++ (.number, number) :: (.word, word) :: later)) :
    dollar = true ∧ word.head? = some '$' := by
  have follows : Segmentation dollar text (earlier ++ [(.number, number)] ++ (.word, word) :: later) := by
    rwa [List.append_assoc]
  cases follows.lexeme with
  | @word first run _ begins =>
    cases cuts.lexeme with
    | number _ _ stops =>
      obtain ⟨letter, rfl⟩ := dollar_of_begins begins (stops first rfl)
      exact ⟨letter, rfl⟩

end Words

theorem segmentation_number_dollar : Segmentation true ['1', '$', 'a'] [(.number, ['1']), (.word, ['$', 'a'])] := by
  have number : Lexeme true .number ['1'] ['$', 'a'] :=
    .number (by decide) (List.forall_mem_nil _) (stops_cons (by decide))
  have word : Lexeme true .word ['$', 'a'] [] :=
    .word (by decide) (List.forall_mem_singleton.mpr (by decide)) fun char none =>
      absurd none (Option.not_mem_none char)
  exact .cons number (.cons word .nil)

/-- The words of a text are as long as they can be on both sides, but for one thing: where the dollar sign counts as a
letter, a word that begins with one may stand right behind a number that does not end in a point. -/
theorem only_numbers_shorten_words (dollar : Bool) (text : List Char) :
    ∃ segments, Segmentation dollar text segments ∧ words dollar text = (wordsOf segments).map String.ofList ∧
      ∀ front word later, segments = front ++ (.word, word) :: later →
        Wordlike dollar word ∧ Stops (continuesWord dollar) (textOf later) ∧
        (Joins dollar front ↔
          ∃ earlier number, front = earlier ++ [(.number, number)] ∧ number.getLast? ≠ some '.') ∧
        (Joins dollar front → dollar = true ∧ word.head? = some '$') := by
  obtain ⟨segments, cuts⟩ := exists_segmentation dollar text
  refine ⟨segments, cuts, ?_, ?_⟩
  · rw [words_eq_run, run_segmentation cuts (settled_outside text)]
    rfl
  · rintro front word later rfl
    refine ⟨?_, ?_, cuts.joins_iff, fun joins => ?_⟩
    · cases cuts.lexeme with
      | word begins continues => exact List.forall_mem_cons.mpr ⟨continuesWord_of_beginsWord begins, continues⟩
    · cases cuts.lexeme with
      | word _ _ stops => exact stops
    · obtain ⟨earlier, number, rfl, _⟩ := cuts.joins_iff.mp joins
      rw [List.append_assoc] at cuts
      exact cuts.dollar_of_number

/-- A word that is cut on the left: what continues it stands right in front of it. -/
theorem dollar_behind_number_begins_word :
    words true ['1', '$', 'a'] = ["$a"] ∧
      Segmentation true ['1', '$', 'a'] ([(.number, ['1'])] ++ (.word, ['$', 'a']) :: []) ∧
      Joins true [(.number, ['1'])] :=
  ⟨by decide, segmentation_number_dollar, '1', rfl, by decide⟩

theorem word_behind_number_is_shortened :
    [(Kind.number, ['1']), (.word, ['$', 'a'])] = [(Kind.number, ['1'])] ++ (.word, ['$', 'a']) :: [] ∧
      Wordlike true ['$', 'a'] ∧ Stops (continuesWord true) (textOf []) ∧ Joins true [(.number, ['1'])] ∧
      true = true ∧ ['$', 'a'].head? = some '$' := by
  obtain ⟨segments, cuts, -, margins⟩ := only_numbers_shorten_words true ['1', '$', 'a']
  obtain rfl := cuts.unique segmentation_number_dollar
  obtain ⟨wordlike, stops, joins, dollar⟩ := margins [(.number, ['1'])] ['$', 'a'] [] rfl
  have shortened : Joins true [(.number, ['1'])] := joins.mpr ⟨[], ['1'], rfl, by decide⟩
  exact ⟨rfl, wordlike, stops, shortened, dollar shortened⟩

end Canon.Text

import Canon.Proofs.Text.Grammar

/-!
The scanner finds the words of the grammar. Between two segments it may still be in the mode of the segment behind
it, but reads the next character as if it were outside of everything; a segment takes it from such a place to another.
-/
namespace Canon.Text

namespace Mode

def run (dollar : Bool) (mode : Mode) : List Char → List String
  | [] => mode.pending
  | char :: rest => (mode.read dollar char).1 ++ (mode.read dollar char).2.run dollar rest

def reads (dollar : Bool) (mode : Mode) : List Char → List String × Mode
  | [] => ([], mode)
  | char :: rest =>
    ((mode.read dollar char).1 ++ ((mode.read dollar char).2.reads dollar rest).1,
      ((mode.read dollar char).2.reads dollar rest).2)

/-- The next character does not go on with what the mode is inside of. -/
def Settled (dollar : Bool) (mode : Mode) (rest : List Char) : Prop :=
  ∀ char ∈ rest.head?, mode.read dollar char = (mode.pending, opening dollar char)

theorem reads_append (dollar : Bool) (mode : Mode) (front rest : List Char) :
    mode.reads dollar (front ++ rest) =
      ((mode.reads dollar front).1 ++ ((mode.reads dollar front).2.reads dollar rest).1,
        ((mode.reads dollar front).2.reads dollar rest).2) := by
  induction front generalizing mode with
  | nil => rfl
  | cons char front ih =>
    rw [List.cons_append, reads, reads, ih]
    exact Prod.ext (List.append_assoc ..).symm rfl

theorem run_eq_reads (dollar : Bool) (mode : Mode) (text : List Char) :
    mode.run dollar text = (mode.reads dollar text).1 ++ (mode.reads dollar text).2.pending := by
  induction text generalizing mode with
  | nil => rfl
  | cons char text ih =>
    rw [run, ih, ← List.append_assoc]
    rfl

theorem run_append (dollar : Bool) (mode : Mode) (front rest : List Char) : mode.run dollar (front ++ rest) =
    (mode.reads dollar front).1 ++ (mode.reads dollar front).2.run dollar rest := by
  rw [run_eq_reads, run_eq_reads, reads_append, List.append_assoc]

end Mode

theorem foldl_step (dollar : Bool) (scan : Scan) (text : List Char) :
    (text.foldl (Scan.step dollar) scan).words.toList = scan.words.toList ++ (scan.mode.reads dollar text).1 ∧
      (text.foldl (Scan.step dollar) scan).mode = (scan.mode.reads dollar text).2 := by
  induction text generalizing scan with
  | nil => exact ⟨(List.append_nil _).symm, rfl⟩
  | cons char rest ih =>
    obtain ⟨words, mode⟩ := ih (scan.step dollar char)
    refine ⟨?_, mode⟩
    rw [List.foldl_cons, words]
    simp only [Scan.step, Mode.reads, Array.appendList_eq_append, Array.toList_appendList, List.append_assoc]

theorem finish_foldl (dollar : Bool) (scan : Scan) (text : List Char) :
    (text.foldl (Scan.step dollar) scan).finish = scan.words.toList ++ scan.mode.run dollar text := by
  obtain ⟨words, mode⟩ := foldl_step dollar scan text
  rw [Scan.finish, words, mode, List.append_assoc, ← Mode.run_eq_reads]

theorem words_eq_run (dollar : Bool) (text : List Char) : words dollar text = Mode.outside.run dollar text :=
  finish_foldl dollar Scan.start text

theorem mode_ofChars (dollar : Bool) (text : List Char) :
    (Scan.ofChars dollar text).mode = (Mode.outside.reads dollar text).2 :=
  (foldl_step dollar Scan.start text).2

section Reads
variable {dollar : Bool} {rest : List Char}

theorem reads_word {chars run : List Char} (continues : ∀ char ∈ run, continuesWord dollar char = true) :
    (Mode.word chars).reads dollar run = ([], .word (run.reverse ++ chars)) := by
  induction run generalizing chars with
  | nil => rfl
  | cons char run ih =>
    rw [List.forall_mem_cons] at continues
    rw [Mode.reads, Mode.read, if_pos continues.1, ih continues.2, List.reverse_cons, List.append_assoc]
    rfl

theorem reads_number {run : List Char} (continues : ∀ char ∈ run, continuesNumber char = true) :
    Mode.number.reads dollar run = ([], .number) := by
  induction run with
  | nil => rfl
  | cons char run ih =>
    rw [List.forall_mem_cons] at continues
    rw [Mode.reads, Mode.read, if_pos continues.1, ih continues.2]
    rfl

theorem reads_lineComment {run : List Char} (line : ∀ char ∈ run, char ≠ '\n') :
    Mode.lineComment.reads dollar run = ([], .lineComment) := by
  induction run with
  | nil => rfl
  | cons char run ih =>
    rw [List.forall_mem_cons] at line
    have stays : Mode.lineComment.read dollar char = ([], .lineComment) :=
      congrArg (Prod.mk []) (if_neg (mt eq_of_beq line.1))
    rw [Mode.reads, stays, ih line.2]
    rfl

theorem reads_inner {quote : Char} {body : List Char} (inner : Inner quote body) :
    (Mode.quoted quote).reads dollar body = ([], .quoted quote) := by
  induction inner with
  | nil => rfl
  | @plain char _ escape ends breaks _ ih =>
    have stays : (Mode.quoted quote).read dollar char = ([], .quoted quote) := by
      simp only [Mode.read, beq_iff_eq, Bool.or_eq_true, if_neg escape, if_neg (not_or.mpr ⟨breaks, ends⟩)]
    rw [Mode.reads, stays, ih]
    rfl
  | @escaped char body _ ih =>
    show ([] ++ ([] ++ ((Mode.quoted quote).reads dollar body).1), ((Mode.quoted quote).reads dollar body).2) = _
    rw [ih]
    rfl

theorem reads_clear {star : Bool} {body : List Char} (clear : Clear star body) (dollar : Bool) :
    ∃ starred, (Mode.blockComment star).reads dollar body = ([], .blockComment starred) := by
  induction body generalizing star with
  | nil => exact ⟨star, rfl⟩
  | cons char body ih =>
    rw [clear_cons] at clear
    have stays : (Mode.blockComment star).read dollar char = ([], .blockComment (char = '*')) := by
      simp only [Mode.read, Bool.and_eq_true, beq_iff_eq, if_neg clear.1]
      rfl
    obtain ⟨starred, same⟩ := ih clear.2
    refine ⟨starred, ?_⟩
    rw [Mode.reads, stays, same]
    rfl

def wordOf (kind : Kind) (segment : List Char) : List String :=
  if kind = .word then [String.ofList segment] else []

theorem settled_outside (rest : List Char) : Mode.outside.Settled dollar rest := fun _ _ => rfl

theorem settled_nil (mode : Mode) : mode.Settled dollar [] := fun _ head => absurd head (Option.not_mem_none _)

/-- From a place between two segments on, characters are read as from outside of everything. -/
theorem reads_settled {mode : Mode} {first : Char} {tail : List Char}
    (settled : mode.Settled dollar (first :: tail ++ rest)) :
    mode.reads dollar (first :: tail) =
      (mode.pending ++ (Mode.outside.reads dollar (first :: tail)).1, (Mode.outside.reads dollar (first :: tail)).2) := by
  rw [Mode.reads, settled first rfl]
  rfl

theorem settled_word {chars : List Char} (stops : Stops (continuesWord dollar) rest) :
    (Mode.word chars).Settled dollar rest := by
  intro char head
  rw [Mode.read, stops char head]
  rfl

theorem settled_number (stops : Stops continuesNumber rest) : Mode.number.Settled dollar rest := by
  intro char head
  rw [Mode.read, stops char head]
  rfl

theorem settled_slash (plain : Stops (fun next => next == '/' || next == '*') rest) :
    Mode.slash.Settled dollar rest := by
  intro char head
  have neither : (char == '/') = false ∧ (char == '*') = false := Bool.or_eq_false_iff.mp (plain char head)
  rw [Mode.read, neither.1, neither.2]
  rfl

theorem settled_lineComment (stops : Stops (· != '\n') rest) : Mode.lineComment.Settled dollar rest := by
  intro char head
  have line : char = '\n' := bne_eq_false_iff_eq.mp (stops char head)
  rw [line]
  cases dollar <;> rfl

theorem opening_word {first : Char} (begins : beginsWord dollar first = true) :
    Mode.opening dollar first = .word [first] := if_pos begins

theorem opening_number {first : Char} (digit : isDigit first = true) : Mode.opening dollar first = .number := by
  rw [Mode.opening, digit_not_begins digit, digit]
  rfl

theorem opening_quoted {quote : Char} (quotes : quote = '\x22' ∨ quote = '\x27') :
    Mode.opening dollar quote = .quoted quote := by
  rcases quotes with same | same <;> rw [same] <;> cases dollar <;> rfl

theorem opening_slash : Mode.opening dollar '/' = .slash := by cases dollar <;> rfl

theorem opening_other {char : Char} (word : beginsWord dollar char = false) (number : isDigit char = false)
    (quoted : char ≠ '\x22' ∧ char ≠ '\x27') (slash : char ≠ '/') : Mode.opening dollar char = .outside := by
  simp only [Mode.opening, word, number, beq_false_of_ne quoted.1, beq_false_of_ne quoted.2, beq_false_of_ne slash,
    Bool.or_false, Bool.false_eq_true, if_false]

theorem reads_first {first : Char} {tail : List Char} {behind : Mode}
    (goes : (Mode.opening dollar first).reads dollar tail = ([], behind)) :
    Mode.outside.reads dollar (first :: tail) = ([], behind) := by
  rw [Mode.reads, Mode.read, goes]
  rfl

section Openings
variable {quote last : Char} {body : List Char}

theorem reads_quotedOpen (quotes : quote = '\x22' ∨ quote = '\x27') (inner : Inner quote body) :
    Mode.outside.reads dollar (quote :: body) = ([], .quoted quote) := by
  apply reads_first
  rw [opening_quoted quotes, reads_inner inner]

theorem reads_quotedEscape (quotes : quote = '\x22' ∨ quote = '\x27') (inner : Inner quote body) :
    Mode.outside.reads dollar (quote :: (body ++ ['\\'])) = ([], .escaped quote) := by
  apply reads_first
  rw [opening_quoted quotes, Mode.reads_append, reads_inner inner]
  rfl

theorem reads_quoted (quotes : quote = '\x22' ∨ quote = '\x27') (inner : Inner quote body)
    (ends : last = quote ∨ last = '\n') : Mode.outside.reads dollar (quote :: (body ++ [last])) = ([], .outside) := by
  apply reads_first
  rw [opening_quoted quotes, Mode.reads_append, reads_inner inner]
  rcases ends with rfl | rfl
  · rcases quotes with rfl | rfl <;> rfl
  · rfl

theorem reads_blockCommentOpen (never : ¬ closing <:+: body) (dollar : Bool) :
    ∃ star, Mode.outside.reads dollar ('/' :: '*' :: body) = ([], .blockComment star) := by
  have clear : Clear false body := never
  obtain ⟨star, same⟩ := reads_clear clear dollar
  refine ⟨star, reads_first ?_⟩
  rw [opening_slash]
  show ([] ++ ((Mode.blockComment false).reads dollar body).1, ((Mode.blockComment false).reads dollar body).2) = _
  rw [same]
  rfl

theorem reads_blockComment (first : ¬ closing <:+: body) :
    Mode.outside.reads dollar ('/' :: '*' :: (body ++ closing)) = ([], .outside) := by
  obtain ⟨star, same⟩ := reads_blockCommentOpen first dollar
  show Mode.outside.reads dollar (('/' :: '*' :: body) ++ closing) = _
  rw [Mode.reads_append, same]
  cases star <;> rfl

theorem reads_lineCommentOpen (line : ∀ char ∈ body, char ≠ '\n') :
    Mode.outside.reads dollar ('/' :: '/' :: body) = ([], .lineComment) := by
  apply reads_first
  rw [opening_slash]
  show ([] ++ (Mode.lineComment.reads dollar body).1, (Mode.lineComment.reads dollar body).2) = _
  rw [reads_lineComment line]
  rfl

end Openings

/-- What the scanner does with a segment: it goes from a place between two segments to another. -/
theorem reads_lexeme {kind : Kind} {segment : List Char} (lexeme : Lexeme dollar kind segment rest) :
    ∃ behind : Mode, Mode.outside.reads dollar segment = ([], behind) ∧ behind.Settled dollar rest ∧
      behind.pending = wordOf kind segment := by
  cases lexeme with
  | @word first run _ begins continues stops =>
    refine ⟨.word (run.reverse ++ [first]), reads_first ?_, settled_word stops, ?_⟩
    · rw [opening_word begins, reads_word continues]
    · simp only [Mode.pending, wordOf, if_true, List.reverse_append, List.reverse_reverse, List.reverse_singleton,
        List.singleton_append]
  | @number first run _ begins continues stops =>
    refine ⟨.number, reads_first ?_, settled_number stops, rfl⟩
    rw [opening_number begins, reads_number continues]
  | quoted quotes inner ends => exact ⟨_, reads_quoted quotes inner ends, settled_outside rest, rfl⟩
  | quotedOpen quotes inner => exact ⟨_, reads_quotedOpen quotes inner, settled_nil _, rfl⟩
  | quotedEscape quotes inner => exact ⟨_, reads_quotedEscape quotes inner, settled_nil _, rfl⟩
  | lineComment line stops => exact ⟨_, reads_lineCommentOpen line, settled_lineComment stops, rfl⟩
  | blockComment first => exact ⟨_, reads_blockComment first, settled_outside rest, rfl⟩
  | blockCommentOpen never =>
    obtain ⟨star, same⟩ := reads_blockCommentOpen never dollar
    exact ⟨_, same, settled_nil _, rfl⟩
  | @other char _ word number quoted comment =>
    by_cases slash : char = '/'
    · subst char
      exact ⟨.slash, reads_first (by rw [opening_slash]; rfl), settled_slash (comment rfl), rfl⟩
    · exact ⟨.outside, reads_first (by rw [opening_other word number quoted slash]; rfl), settled_outside rest, rfl⟩

theorem run_lexeme {kind : Kind} {segment : List Char} {mode : Mode} (lexeme : Lexeme dollar kind segment rest)
    (settled : mode.Settled dollar (segment ++ rest)) :
    ∃ behind : Mode, behind.Settled dollar rest ∧ behind.pending = wordOf kind segment ∧
      mode.reads dollar segment = (mode.pending, behind) := by
  obtain ⟨behind, goes, between, ended⟩ := reads_lexeme lexeme
  obtain ⟨first, tail, rfl, -⟩ := lexeme.cut_eq
  refine ⟨behind, between, ended, ?_⟩
  rw [reads_settled settled, goes, List.append_nil]

end Reads

section Segmentations
variable {dollar : Bool} {text : List Char} {segments : List (Kind × List Char)} {mode : Mode}

theorem run_segmentation (cuts : Segmentation dollar text segments) (settled : mode.Settled dollar text) :
    mode.run dollar text = mode.pending ++ (wordsOf segments).map String.ofList := by
  -- The mode may be that of the segment before, whose word is then still pending.
  induction cuts generalizing mode with
  | nil => exact (List.append_nil _).symm
  | @cons kind segment rest segments lexeme _ ih =>
    obtain ⟨behind, between, ended, same⟩ := run_lexeme lexeme settled
    rw [Mode.run_append, same, ih between, ended]
    by_cases word : kind = .word
    · simp [wordOf, wordsOf, word]
    · simp [wordOf, wordsOf, word]

/-- Behind a text the scanner is inside of what its last segment alone brings it into. -/
theorem mode_segmentation (cuts : Segmentation dollar text segments) (settled : mode.Settled dollar text)
    {last : Kind × List Char} (ends : last ∈ segments.getLast?) :
    (mode.reads dollar text).2 = (Mode.outside.reads dollar last.2).2 ∧ Lexeme dollar last.1 last.2 [] := by
  induction cuts generalizing mode with
  | nil => cases ends
  | @cons kind segment rest segments lexeme more ih =>
    obtain ⟨behind, between, -, same⟩ := run_lexeme lexeme settled
    rw [Mode.reads_append, same]
    cases segments with
    | nil =>
      cases more
      obtain rfl : (kind, segment) = last := Option.mem_some_iff.mp ends
      obtain ⟨other, goes, -⟩ := reads_lexeme lexeme
      obtain ⟨first, tail, rfl, -⟩ := lexeme.cut_eq
      rw [reads_settled settled] at same
      exact ⟨(congrArg Prod.snd same).symm, lexeme⟩
    | cons next segments =>
      rw [List.getLast?_cons_cons] at ends
      exact ih between ends

end Segmentations

end Canon.Text

import Canon.Proofs.Text.Scanning

/-!
Texts put together from pieces. Where the next character does not go on with what the scanner is inside of, a text may
be cut: the words of the two pieces are the words of the whole. A newline is such a place in all modes but two, and a
comment or a quoted literal between two such places holds no words.
-/
namespace Canon.Text

namespace Mode

/-- Neither inside a comment or a literal nor behind a slash that may open a comment. -/
def Idle : Mode → Prop
  | .outside | .word _ | .number => True
  | .slash | .quoted _ | .escaped _ | .lineComment | .blockComment _ => False

/-- Neither inside a block comment nor right behind a backslash that escapes. -/
def Yields : Mode → Prop
  | .outside | .word _ | .number | .slash | .quoted _ | .lineComment => True
  | .escaped _ | .blockComment _ => False

end Mode

/-- Segments that a text ends inside of: a slash that may yet open a comment, a comment, or a literal without its last
quote. -/
inductive Kind.Unended : Kind → List Char → Prop where
  | slash : Unended .other ['/']
  | quoted {quote : Char} {body : List Char} (quotes : quote = '\x22' ∨ quote = '\x27') (inner : Inner quote body) :
    Unended .quoted (quote :: body)
  | escape {quote : Char} {body : List Char} (quotes : quote = '\x22' ∨ quote = '\x27') (inner : Inner quote body) :
    Unended .quoted (quote :: (body ++ ['\\']))
  | lineComment {body : List Char} (line : ∀ char ∈ body, char ≠ '\n') : Unended .lineComment ('/' :: '/' :: body)
  | blockComment {body : List Char} (never : ¬ closing <:+: body) : Unended .blockComment ('/' :: '*' :: body)

/-- Those of them that a newline does not end. -/
inductive Kind.Swallows : Kind → List Char → Prop where
  | escape {quote : Char} {body : List Char} (quotes : quote = '\x22' ∨ quote = '\x27') (inner : Inner quote body) :
    Swallows .quoted (quote :: (body ++ ['\\']))
  | blockComment {body : List Char} (never : ¬ closing <:+: body) : Swallows .blockComment ('/' :: '*' :: body)

section Endings
variable {dollar : Bool} {text : List Char} {segments : List (Kind × List Char)} {kind : Kind} {segment : List Char}

theorem reads_unended (unended : kind.Unended segment) (dollar : Bool) :
    ¬ (Mode.outside.reads dollar segment).2.Idle := by
  cases unended with
  | slash =>
    rw [Mode.reads, Mode.read, opening_slash]
    exact id
  | quoted quotes inner =>
    rw [reads_quotedOpen quotes inner]
    exact id
  | escape quotes inner =>
    rw [reads_quotedEscape quotes inner]
    exact id
  | lineComment line =>
    rw [reads_lineCommentOpen line]
    exact id
  | blockComment never =>
    obtain ⟨star, same⟩ := reads_blockCommentOpen never dollar
    rw [same]
    exact id

theorem reads_swallows (swallows : kind.Swallows segment) (dollar : Bool) :
    ¬ (Mode.outside.reads dollar segment).2.Yields := by
  cases swallows with
  | escape quotes inner =>
    rw [reads_quotedEscape quotes inner]
    exact id
  | blockComment never =>
    obtain ⟨star, same⟩ := reads_blockCommentOpen never dollar
    rw [same]
    exact id

/-- What the scanner is inside of behind the last segment of a text, if it is inside of anything. -/
theorem Lexeme.ending (lexeme : Lexeme dollar kind segment []) :
    (kind.Unended segment ∨ (Mode.outside.reads dollar segment).2.Idle) ∧
      (kind.Swallows segment ∨ (Mode.outside.reads dollar segment).2.Yields) := by
  cases lexeme with
  | @word first run _ begins continues _ =>
    have inside : Mode.outside.reads dollar (first :: run) = ([], .word (run.reverse ++ [first])) :=
      reads_first (by rw [opening_word begins, reads_word continues])
    rw [inside]
    exact ⟨.inr trivial, .inr trivial⟩
  | @number first run _ begins continues _ =>
    have inside : Mode.outside.reads dollar (first :: run) = ([], .number) :=
      reads_first (by rw [opening_number begins, reads_number continues])
    rw [inside]
    exact ⟨.inr trivial, .inr trivial⟩
  | quoted quotes inner ends =>
    rw [reads_quoted quotes inner ends]
    exact ⟨.inr trivial, .inr trivial⟩
  | quotedOpen quotes inner =>
    rw [reads_quotedOpen quotes inner]
    exact ⟨.inl (.quoted quotes inner), .inr trivial⟩
  | quotedEscape quotes inner => exact ⟨.inl (.escape quotes inner), .inl (.escape quotes inner)⟩
  | lineComment line _ =>
    rw [reads_lineCommentOpen line]
    exact ⟨.inl (.lineComment line), .inr trivial⟩
  | blockComment first =>
    rw [reads_blockComment first]
    exact ⟨.inr trivial, .inr trivial⟩
  | blockCommentOpen never => exact ⟨.inl (.blockComment never), .inl (.blockComment never)⟩
  | @other char _ word number quoted _ =>
    have inside : Mode.outside.reads dollar [char] = ([], .opening dollar char) := reads_first rfl
    rw [inside]
    by_cases slash : char = '/'
    · rw [slash, opening_slash]
      exact ⟨.inl .slash, .inr trivial⟩
    · rw [opening_other word number quoted slash]
      exact ⟨.inr trivial, .inr trivial⟩

/-- What holds behind a text unless its last segment is open, if it holds behind each segment that is not. -/
theorem Segmentation.mode_iff {Holds : Mode → Prop} {Open : Kind → List Char → Prop}
    (cuts : Segmentation dollar text segments) (outside : Holds .outside)
    (inside : ∀ {kind segment}, Open kind segment → ¬ Holds (Mode.outside.reads dollar segment).2)
    (behind : ∀ {kind segment}, Lexeme dollar kind segment [] →
      Open kind segment ∨ Holds (Mode.outside.reads dollar segment).2) :
    Holds (Scan.ofChars dollar text).mode ↔ ∀ last ∈ segments.getLast?, ¬ Open last.1 last.2 := by
  rw [mode_ofChars]
  constructor
  · intro holds last ends isOpen
    rw [(mode_segmentation cuts (settled_outside text) ends).1] at holds
    exact inside isOpen holds
  · intro closed
    cases ends : segments.getLast? with
    | none =>
      rw [List.getLast?_eq_none_iff.mp ends] at cuts
      cases cuts
      exact outside
    | some last =>
      obtain ⟨mode, lexeme⟩ := mode_segmentation cuts (settled_outside text) (Option.mem_def.mpr ends)
      rw [mode]
      exact (behind lexeme).resolve_left (closed last ends)

/-- Behind a text the scanner is idle unless the last segment of the text is unended. -/
theorem Segmentation.idle_iff (cuts : Segmentation dollar text segments) :
    (Scan.ofChars dollar text).mode.Idle ↔ ∀ last ∈ segments.getLast?, ¬ last.1.Unended last.2 :=
  cuts.mode_iff trivial (reads_unended · dollar) fun lexeme => lexeme.ending.1

/-- Behind a text the scanner yields to a newline unless the last segment of the text swallows it. -/
theorem Segmentation.yields_iff (cuts : Segmentation dollar text segments) :
    (Scan.ofChars dollar text).mode.Yields ↔ ∀ last ∈ segments.getLast?, ¬ last.1.Swallows last.2 :=
  cuts.mode_iff trivial (reads_swallows · dollar) fun lexeme => lexeme.ending.2

/-- A literal that has not ended yields, but not right behind a backslash. -/
example : (Scan.ofChars false ['\x22', 'a']).mode.Yields ∧ ¬ (Scan.ofChars false ['\x22', 'a', '\\']).mode.Yields :=
  ⟨trivial, id⟩

end Endings

/-- Puts a backslash in front of each character that would end a quoted literal, and of each backslash. -/
def escape (quote : Char) : List Char → List Char
  | [] => []
  | char :: rest =>
    if char = '\\' ∨ char = quote ∨ char = '\n' then '\\' :: char :: escape quote rest else char :: escape quote rest

theorem inner_escape (quote : Char) (text : List Char) : Inner quote (escape quote text) := by
  induction text with
  | nil => exact .nil
  | cons char rest ih =>
    rw [escape]
    split
    · exact .escaped ih
    · next plain =>
      rw [not_or, not_or] at plain
      exact .plain plain.1 plain.2.1 plain.2.2 ih

section Cuts
variable {dollar : Bool} {front segment rest : List Char} {kind : Kind} {mode : Mode}

theorem words_append (dollar : Bool) (front rest : List Char) : words dollar (front ++ rest) =
    (Scan.ofChars dollar front).words.toList ++ (Scan.ofChars dollar front).mode.run dollar rest := by
  rw [words, Scan.ofChars, List.foldl_append]
  exact finish_foldl dollar (Scan.ofChars dollar front) rest

theorem run_of_settled (settled : mode.Settled dollar rest) :
    mode.run dollar rest = mode.pending ++ words dollar rest := by
  rw [words_eq_run]
  cases rest with
  | nil => exact (List.append_nil _).symm
  | cons char rest =>
    rw [Mode.run, settled char rfl]
    rfl

/-- A text may be cut where the next character does not go on with what the scanner is inside of. -/
theorem words_append_of_settled (settled : (Scan.ofChars dollar front).mode.Settled dollar rest) :
    words dollar (front ++ rest) = words dollar front ++ words dollar rest := by
  rw [words_append, run_of_settled settled, ← List.append_assoc]
  rfl

theorem words_segment (lexeme : Lexeme dollar kind segment rest) (wordless : kind ≠ .word) :
    words dollar (segment ++ rest) = words dollar rest := by
  obtain ⟨behind, settled, ended, same⟩ := run_lexeme lexeme (settled_outside _)
  rw [words_eq_run, Mode.run_append, same, run_of_settled settled, ended, wordOf, if_neg wordless]
  rfl

theorem words_other {char : Char} (word : beginsWord dollar char = false) (number : isDigit char = false)
    (quoted : char ≠ '\x22' ∧ char ≠ '\x27') (slash : char ≠ '/') :
    words dollar (char :: rest) = words dollar rest :=
  words_segment (.other word number quoted fun same => absurd same slash) Kind.noConfusion

theorem words_space {char : Char} (space : char = ' ' ∨ char = '\n') :
    words dollar (char :: rest) = words dollar rest := by
  rcases space with rfl | rfl
  all_goals exact words_other (by cases dollar <;> decide) (by decide) (by decide) (by decide)

theorem Mode.Idle.settled (idle : mode.Idle) {char : Char} (word : continuesWord dollar char = false)
    (number : continuesNumber char = false) : mode.Settled dollar (char :: rest) := by
  cases mode with
  | outside => exact settled_outside _
  | word read => exact settled_word (stops_cons word)
  | number => exact settled_number (stops_cons number)
  | slash | quoted | escaped | lineComment | blockComment => exact idle.elim

theorem Mode.Yields.settled (yields : mode.Yields) : mode.Settled dollar ('\n' :: rest) := by
  cases mode with
  | outside => exact settled_outside _
  | word read => exact settled_word (stops_cons (by cases dollar <;> decide))
  | number => exact settled_number (stops_cons (by decide))
  | slash => exact settled_slash (stops_cons (by decide))
  | quoted quote =>
    intro char head
    rw [← Option.mem_some_iff.mp head]
    cases dollar <;> rfl
  | lineComment => exact settled_lineComment (stops_cons (by decide))
  | escaped | blockComment => exact yields.elim

theorem run_swallowed (dollar : Bool) (stays : ¬ mode.Yields) : mode.run dollar ['\n', 'x'] = [] ∧ mode.pending = [] := by
  cases mode with
  | outside | word | number | slash | quoted | lineComment => exact absurd trivial stays
  | escaped quote =>
    refine ⟨?_, rfl⟩
    simp only [Mode.run, Mode.read]
    split_ifs <;> rfl
  | blockComment star => exact ⟨by cases star <;> rfl, rfl⟩

end Cuts

/-- A newline brings the scanner back to where it begins, whatever is behind the newline, if and only if the text in
front of it ends neither inside a block comment nor right behind a backslash that escapes in a quoted literal. -/
theorem newlines_resynchronise (dollar : Bool) (front : List Char) :
    (∀ rest, words dollar (front ++ '\n' :: rest) = words dollar front ++ words dollar rest) ↔
      (Scan.ofChars dollar front).mode.Yields := by
  constructor
  · intro resynchronises
    by_contra stays
    obtain ⟨swallowed, nothing⟩ := run_swallowed dollar stays
    have inside : words dollar (front ++ ['\n', 'x']) = words dollar front := by
      rw [words_append, swallowed, ← nothing]
      rfl
    have one : words dollar ['x'] = ["x"] := by cases dollar <;> decide
    have law := resynchronises ['x']
    rw [inside, one] at law
    exact List.cons_ne_nil _ _ (List.self_eq_append_right.mp law)
  · intro yields rest
    rw [words_append_of_settled yields.settled, words_space (.inr rfl)]

section Inert
variable {dollar : Bool} {front segment rest : List Char} {kind : Kind}

theorem words_inert (settled : (Scan.ofChars dollar front).mode.Settled dollar (segment ++ rest))
    (lexeme : Lexeme dollar kind segment rest) (wordless : kind ≠ .word) :
    words dollar (front ++ (segment ++ rest)) = words dollar front ++ words dollar rest := by
  rw [words_append_of_settled settled, words_segment lexeme wordless]

theorem words_append_blank (idle : (Scan.ofChars dollar front).mode.Idle) :
    words dollar (front ++ ' ' :: rest) = words dollar front ++ words dollar rest := by
  have blank : continuesWord dollar ' ' = false := by cases dollar <;> decide
  rw [words_append_of_settled (idle.settled blank (by decide)), words_space (.inl rfl)]

end Inert

/-- Behind a text that ends neither inside a comment or a literal nor on a slash that may open a comment, a block comment
and a quoted literal are a blank, and a line comment is nothing. -/
theorem comments_and_literals_are_inert {dollar : Bool} {front : List Char}
    (idle : (Scan.ofChars dollar front).mode.Idle) (rest : List Char) :
    (∀ body, ¬ ['*', '/'] <:+: body →
      words dollar (front ++ ['/', '*'] ++ body ++ ['*', '/'] ++ rest) = words dollar (front ++ [' '] ++ rest)) ∧
    (∀ body, '\n' ∉ body →
      words dollar (front ++ ['/', '/'] ++ body ++ ['\n'] ++ rest) = words dollar (front ++ ['\n'] ++ rest)) ∧
    ∀ quote text, quote = '\x22' ∨ quote = '\x27' →
      words dollar (front ++ [quote] ++ escape quote text ++ [quote] ++ rest) =
        words dollar (front ++ [' '] ++ rest) := by
  have slash : continuesWord dollar '/' = false := by cases dollar <;> decide
  have newline : continuesWord dollar '\n' = false := by cases dollar <;> decide
  simp only [List.append_assoc, List.singleton_append, words_append_blank idle]
  refine ⟨fun body first => ?_, fun body line => ?_, fun quote text quotes => ?_⟩
  · have comment : Lexeme dollar .blockComment ('/' :: '*' :: (body ++ closing)) rest := .blockComment first
    have inert := words_inert (idle.settled slash (by decide)) comment Kind.noConfusion
    rwa [List.cons_append, List.cons_append, List.append_assoc] at inert
  · have comment : Lexeme dollar .lineComment ('/' :: '/' :: body) ('\n' :: rest) :=
      .lineComment (fun char member same => line (same ▸ member)) (stops_cons (by decide))
    have inert := words_inert (idle.settled slash (by decide)) comment Kind.noConfusion
    rw [words_append_of_settled (idle.settled newline (by decide))]
    exact inert
  · have plain : continuesWord dollar quote = false ∧ continuesNumber quote = false := by
      rcases quotes with same | same <;> rw [same] <;> cases dollar <;> decide
    have literal : Lexeme dollar .quoted (quote :: (escape quote text ++ [quote])) rest :=
      .quoted quotes (inner_escape quote text) (.inl rfl)
    have inert := words_inert (idle.settled plain.1 plain.2) literal Kind.noConfusion
    rwa [List.cons_append, List.append_assoc] at inert

/-- A word runs up to each of the three; the bodies are full of what could end them. -/
theorem bodies_full_of_ends_are_inert :
    (Scan.ofChars false ['x']).mode.Idle ∧ ¬ ['*', '/'] <:+: ['/', '*', '*'] ∧
      words false (['x'] ++ ['/', '*'] ++ ['/', '*', '*'] ++ ['*', '/'] ++ ['y']) = ["x", "y"] ∧
      '\n' ∉ ['*', '/', '\x22'] ∧
      words false (['x'] ++ ['/', '/'] ++ ['*', '/', '\x22'] ++ ['\n'] ++ ['y']) = ["x", "y"] ∧
      words false (['x'] ++ ['\x22'] ++ escape '\x22' ['\x22', '\\'] ++ ['\x22'] ++ ['y']) = ["x", "y"] := by
  have idle : (Scan.ofChars false ['x']).mode.Idle := trivial
  obtain ⟨block, line, literal⟩ := comments_and_literals_are_inert idle ['y']
  have first : ¬ ['*', '/'] <:+: ['/', '*', '*'] := by decide
  have apart : words false (['x'] ++ [' '] ++ ['y']) = ["x", "y"] := by decide
  have below : words false (['x'] ++ ['\n'] ++ ['y']) = ["x", "y"] := by decide
  exact ⟨idle, first, (block _ first).trans apart, by decide, (line _ (by decide)).trans below,
    (literal _ ['\x22', '\\'] (.inl rfl)).trans apart⟩

end Canon.Text

import Canon.Text.Words
import Mathlib.Data.List.Infix
import Mathlib.Data.List.TakeWhile

/-!
The lexical grammar of a text, as far as words are concerned. A text is cut from left to right into segments; each
is as long as its kind allows, so what may follow a segment is part of the grammar.
-/
namespace Canon.Text

inductive Kind where
  | word
  | number
  | quoted
  | lineComment
  | blockComment
  | other
  deriving DecidableEq, Repr

/-- A text that does not go on with some characters. -/
def Stops (continues : Char → Bool) (rest : List Char) : Prop := ∀ char ∈ rest.head?, continues char = false

/-- What may stand between a quote and the next that counts. A backslash makes the character behind it count as
nothing, whatever it is. -/
inductive Inner (quote : Char) : List Char → Prop where
  | nil : Inner quote []
  | plain {char : Char} {body : List Char} (escape : char ≠ '\\') (ends : char ≠ quote) (breaks : char ≠ '\n')
    (inner : Inner quote body) : Inner quote (char :: body)
  | escaped {char : Char} {body : List Char} (inner : Inner quote body) : Inner quote ('\\' :: char :: body)

def closing : List Char := ['*', '/']

inductive Lexeme (dollar : Bool) : Kind → List Char → List Char → Prop where
  | word {first : Char} {run rest : List Char} (begins : beginsWord dollar first = true)
    (continues : ∀ char ∈ run, continuesWord dollar char = true) (stops : Stops (continuesWord dollar) rest) :
    Lexeme dollar .word (first :: run) rest
  | number {first : Char} {run rest : List Char} (begins : isDigit first = true)
    (continues : ∀ char ∈ run, continuesNumber char = true) (stops : Stops continuesNumber rest) :
    Lexeme dollar .number (first :: run) rest
  | quoted {quote last : Char} {body rest : List Char} (quotes : quote = '\x22' ∨ quote = '\x27')
    (inner : Inner quote body) (ends : last = quote ∨ last = '\n') :
    Lexeme dollar .quoted (quote :: (body ++ [last])) rest
  | quotedOpen {quote : Char} {body : List Char} (quotes : quote = '\x22' ∨ quote = '\x27')
    (inner : Inner quote body) : Lexeme dollar .quoted (quote :: body) []
  | quotedEscape {quote : Char} {body : List Char} (quotes : quote = '\x22' ∨ quote = '\x27')
    (inner : Inner quote body) : Lexeme dollar .quoted (quote :: (body ++ ['\\'])) []
  | lineComment {body rest : List Char} (line : ∀ char ∈ body, char ≠ '\n') (stops : Stops (· != '\n') rest) :
    Lexeme dollar .lineComment ('/' :: '/' :: body) rest
  | blockComment {body rest : List Char} (first : ¬ closing <:+: body) :
    Lexeme dollar .blockComment ('/' :: '*' :: (body ++ closing)) rest
  | blockCommentOpen {body : List Char} (never : ¬ closing <:+: body) :
    Lexeme dollar .blockComment ('/' :: '*' :: body) []
  | other {char : Char} {rest : List Char} (word : beginsWord dollar char = false) (number : isDigit char = false)
    (quoted : char ≠ '\x22' ∧ char ≠ '\x27')
    (comment : char = '/' → Stops (fun next => next == '/' || next == '*') rest) : Lexeme dollar .other [char] rest

inductive Segmentation (dollar : Bool) : List Char → List (Kind × List Char) → Prop where
  | nil : Segmentation dollar [] []
  | cons {kind : Kind} {segment rest : List Char} {segments : List (Kind × List Char)}
    (lexeme : Lexeme dollar kind segment rest) (more : Segmentation dollar rest segments) :
    Segmentation dollar (segment ++ rest) ((kind, segment) :: segments)

def wordsOf (segments : List (Kind × List Char)) : List (List Char) :=
  (segments.filter (·.1 = .word)).map Prod.snd

def skipQuoted {α : Type} (char : α → Char) (quote : Char) : List α → List α
  | [] => []
  | [_] => []
  | item :: next :: rest =>
    if char item = '\\' then skipQuoted char quote rest
    else if char item = '\n' ∨ char item = quote then next :: rest
    else skipQuoted char quote (next :: rest)

def skipBlock {α : Type} (char : α → Char) (star : Bool) : List α → List α
  | [] => []
  | item :: rest =>
    if star = true ∧ char item = '/' then rest else skipBlock char (char item = '*') rest

def cutSlash {α : Type} (char : α → Char) : List α → Kind × List α
  | [] => (.other, [])
  | next :: rest =>
    if char next = '/' then (.lineComment, rest.dropWhile fun item => char item != '\n')
    else if char next = '*' then (.blockComment, skipBlock char false rest)
    else (.other, next :: rest)

def cut {α : Type} (char : α → Char) (dollar : Bool) (first : Char) (rest : List α) : Kind × List α :=
  if beginsWord dollar first then (.word, rest.dropWhile fun item => continuesWord dollar (char item))
  else if isDigit first then (.number, rest.dropWhile fun item => continuesNumber (char item))
  else if first = '\x22' ∨ first = '\x27' then (.quoted, skipQuoted char first rest)
  else if first = '/' then cutSlash char rest
  else (.other, rest)

section Suffixes
variable {α : Type} (char : α → Char)

theorem skipQuoted_suffix (quote : Char) (items : List α) : skipQuoted char quote items <:+ items := by
  induction items using skipQuoted.induct char quote with
  | case1 => exact List.suffix_refl []
  | case2 item => exact List.nil_suffix
  | case3 item next rest escape ih =>
    rw [skipQuoted, if_pos escape]
    exact (ih.trans (List.suffix_cons next rest)).trans (List.suffix_cons item _)
  | case4 item next rest escape ends =>
    rw [skipQuoted, if_neg escape, if_pos ends]
    exact List.suffix_cons item _
  | case5 item next rest escape goes ih =>
    rw [skipQuoted, if_neg escape, if_neg goes]
    exact ih.trans (List.suffix_cons item _)

theorem skipBlock_suffix (star : Bool) (items : List α) : skipBlock char star items <:+ items := by
  induction items generalizing star with
  | nil => exact List.suffix_refl []
  | cons item rest ih =>
    rw [skipBlock]
    split
    · exact List.suffix_cons item rest
    · exact (ih _).trans (List.suffix_cons item rest)

theorem cutSlash_suffix (items : List α) : (cutSlash char items).2 <:+ items := by
  cases items with
  | nil => exact List.suffix_refl []
  | cons next rest =>
    rw [cutSlash]
    split
    · exact (List.dropWhile_suffix _).trans (List.suffix_cons next rest)
    split
    · exact (skipBlock_suffix char false rest).trans (List.suffix_cons next rest)
    · exact List.suffix_refl _

theorem cut_suffix (dollar : Bool) (first : Char) (items : List α) : (cut char dollar first items).2 <:+ items := by
  unfold cut
  split
  · exact List.dropWhile_suffix _
  split
  · exact List.dropWhile_suffix _
  split
  · exact skipQuoted_suffix char first items
  split
  · exact cutSlash_suffix char items
  · exact List.suffix_refl items

end Suffixes

theorem dropWhile_run {continues : Char → Bool} {run rest : List Char} (inside : ∀ char ∈ run, continues char = true)
    (stops : Stops continues rest) : (run ++ rest).dropWhile continues = rest := by
  rw [List.dropWhile_append_of_pos inside]
  cases rest with
  | nil => rfl
  | cons char rest => exact List.dropWhile_cons_of_neg (by rw [stops char rfl]; exact Bool.false_ne_true)

theorem stops_dropWhile (continues : Char → Bool) (text : List Char) : Stops continues (text.dropWhile continues) := by
  intro char head
  have failing := List.head?_dropWhile_not continues text
  rw [Option.mem_def.mp head] at failing
  simpa using failing

theorem stops_cons {continues : Char → Bool} {char : Char} {rest : List Char} (stops : continues char = false) :
    Stops continues (char :: rest) := by
  intro other head
  rwa [← Option.mem_some_iff.mp head]

section Quoted
variable {quote last : Char} {body rest : List Char}

theorem skipQuoted_plain {char : Char} (escape : char ≠ '\\') (ends : char ≠ quote) (breaks : char ≠ '\n')
    (rest : List Char) : skipQuoted id quote (char :: rest) = skipQuoted id quote rest := by
  cases rest with
  | nil => rfl
  | cons next rest => exact (if_neg escape).trans (if_neg (not_or.mpr ⟨breaks, ends⟩))

theorem skipQuoted_end (sober : quote ≠ '\\') (ends : last = quote ∨ last = '\n') (rest : List Char) :
    skipQuoted id quote (last :: rest) = rest := by
  have escape : last ≠ '\\' := by
    rcases ends with same | same
    · exact same ▸ sober
    · rw [same]
      decide
  cases rest with
  | nil => rfl
  | cons next rest => exact (if_neg escape).trans (if_pos ends.symm)

theorem skipQuoted_inner (inner : Inner quote body) (rest : List Char) :
    skipQuoted id quote (body ++ rest) = skipQuoted id quote rest := by
  induction inner with
  | nil => rfl
  | plain escape ends breaks _ ih => rw [List.cons_append, skipQuoted_plain escape ends breaks, ih]
  | escaped _ ih => rw [List.cons_append, List.cons_append, skipQuoted, id, if_pos rfl, ih]

theorem skipQuoted_cases (quote : Char) (text : List Char) :
    (∃ body last, Inner quote body ∧ (last = quote ∨ last = '\n') ∧ text = body ++ last :: skipQuoted id quote text) ∨
    (Inner quote text ∧ skipQuoted id quote text = []) ∨
    ∃ body, Inner quote body ∧ text = body ++ ['\\'] ∧ skipQuoted id quote text = [] := by
  induction text using skipQuoted.induct id quote with
  | case1 => exact .inr (.inl ⟨.nil, rfl⟩)
  | case2 item =>
    by_cases escape : item = '\\'
    · exact .inr (.inr ⟨[], .nil, by rw [escape]; rfl, rfl⟩)
    · by_cases ends : item = quote ∨ item = '\n'
      · exact .inl ⟨[], item, .nil, ends, rfl⟩
      · rw [not_or] at ends
        exact .inr (.inl ⟨.plain escape ends.1 ends.2 .nil, rfl⟩)
  | case3 item next rest escape ih =>
    have escaped : item = '\\' := escape
    subst escaped
    have skips : skipQuoted id quote ('\\' :: next :: rest) = skipQuoted id quote rest := if_pos rfl
    rw [skips]
    rcases ih with ⟨body, last, inner, ends, split⟩ | ⟨inner, gone⟩ | ⟨body, inner, split, gone⟩
    · exact .inl ⟨'\\' :: next :: body, last, .escaped inner, ends, by rw [List.cons_append, List.cons_append, ← split]⟩
    · exact .inr (.inl ⟨.escaped inner, gone⟩)
    · exact .inr (.inr ⟨'\\' :: next :: body, .escaped inner, by rw [List.cons_append, List.cons_append, ← split], gone⟩)
  | case4 item next rest escape ends =>
    refine .inl ⟨[], item, .nil, Or.symm ends, ?_⟩
    have skips : skipQuoted id quote (item :: next :: rest) = next :: rest := (if_neg escape).trans (if_pos ends)
    rw [skips]
    rfl
  | case5 item next rest escape goes ih =>
    change item ≠ '\\' at escape
    rw [id, not_or] at goes
    have inner {body : List Char} : Inner quote body → Inner quote (item :: body) := .plain escape goes.2 goes.1
    rw [skipQuoted_plain escape goes.2 goes.1]
    rcases ih with ⟨body, last, plain, ends, split⟩ | ⟨plain, gone⟩ | ⟨body, plain, split, gone⟩
    · exact .inl ⟨item :: body, last, inner plain, ends, by rw [List.cons_append, ← split]⟩
    · exact .inr (.inl ⟨inner plain, gone⟩)
    · exact .inr (.inr ⟨item :: body, inner plain, by rw [List.cons_append, ← split], gone⟩)

end Quoted

section Block
variable {star : Bool} {body rest : List Char}

/-- A text in which a block comment does not end; `star` tells whether a star stands in front of it. -/
def Clear (star : Bool) (text : List Char) : Prop := ¬ closing <:+: if star then '*' :: text else text

theorem clear_cons (star : Bool) (char : Char) (text : List Char) :
    Clear star (char :: text) ↔ ¬ (star = true ∧ char = '/') ∧ Clear (char = '*') text := by
  -- If the first character is no star, no end of a comment begins with it.
  have later : Clear (char = '*') text ↔ ¬ closing <:+: char :: text := by
    by_cases same : char = '*'
    · simp only [Clear, same, decide_true, if_true]
    · have off : ¬ closing <+: char :: text := by
        intro front
        rw [closing, List.cons_prefix_cons] at front
        exact same front.1.symm
      simp only [Clear, same, decide_false, Bool.false_eq_true, if_false, List.infix_cons_iff, off, false_or]
  rw [later]
  cases star with
  | false => simp only [Clear, Bool.false_eq_true, if_false, false_and, not_false_iff, true_and]
  | true =>
    have front : closing <+: '*' :: char :: text ↔ char = '/' := by
      simp only [closing, List.cons_prefix_cons, List.nil_prefix, and_true, true_and, eq_comm]
    have either : closing <:+: '*' :: char :: text ↔ closing <+: '*' :: char :: text ∨ closing <:+: char :: text :=
      List.infix_cons_iff
    simp only [Clear, if_true, true_and, either, front, not_or]

theorem clear_nil (star : Bool) : Clear star [] := by
  cases star <;> simp [Clear, closing, List.infix_cons_iff, List.cons_prefix_cons]

theorem skipBlock_cons {char : Char} (goes : ¬ (star = true ∧ char = '/')) (rest : List Char) :
    skipBlock id star (char :: rest) = skipBlock id (char = '*') rest := if_neg goes

theorem skipBlock_closed (clear : Clear star body) (rest : List Char) :
    skipBlock id star (body ++ (closing ++ rest)) = rest := by
  induction body generalizing star with
  | nil =>
    have stays : ¬ (star = true ∧ '*' = '/') := by
      intro both
      exact absurd both.2 (by decide)
    rw [List.nil_append, closing, List.cons_append, skipBlock_cons stays]
    rfl
  | cons char body ih =>
    rw [clear_cons] at clear
    rw [List.cons_append, skipBlock_cons clear.1]
    exact ih clear.2

theorem skipBlock_open (clear : Clear star body) : skipBlock id star body = [] := by
  induction body generalizing star with
  | nil => rfl
  | cons char body ih =>
    rw [clear_cons] at clear
    rw [skipBlock_cons clear.1]
    exact ih clear.2

theorem skipBlock_cases (star : Bool) (text : List Char) :
    (∃ body, Clear star body ∧ text = body ++ (closing ++ skipBlock id star text)) ∨
    (star = true ∧ text = '/' :: skipBlock id star text) ∨
    (Clear star text ∧ skipBlock id star text = []) := by
  induction text generalizing star with
  | nil => exact .inr (.inr ⟨clear_nil star, rfl⟩)
  | cons char text ih =>
    by_cases ends : star = true ∧ char = '/'
    · have skips : skipBlock id star (char :: text) = text := if_pos ends
      refine .inr (.inl ⟨ends.1, ?_⟩)
      rw [skips, ends.2]
    · rw [skipBlock_cons ends]
      rcases ih (char = '*') with ⟨body, clear, split⟩ | ⟨starred, split⟩ | ⟨clear, gone⟩
      · refine .inl ⟨char :: body, (clear_cons ..).mpr ⟨ends, clear⟩, ?_⟩
        rw [List.cons_append, ← split]
      · refine .inl ⟨[], clear_nil star, ?_⟩
        rw [of_decide_eq_true starred] at split ⊢
        exact congrArg ('*' :: ·) split
      · exact .inr (.inr ⟨(clear_cons ..).mpr ⟨ends, clear⟩, gone⟩)

end Block

theorem quote_ne_escape {quote : Char} (quotes : quote = '\x22' ∨ quote = '\x27') : quote ≠ '\\' := by
  rcases quotes with same | same <;> rw [same] <;> decide

section Cut
variable {dollar : Bool} {first : Char}

theorem digit_not_begins (digit : isDigit first = true) : beginsWord dollar first = false := by
  have bounds : 48 ≤ first.toNat ∧ first.toNat ≤ 57 := by
    simpa [isDigit, Char.le_def, UInt32.le_iff_toNat_le] using digit
  have letter : isLetter first = false := by
    simp only [isLetter, Char.le_def, UInt32.le_iff_toNat_le, Bool.or_eq_false_iff, Bool.and_eq_false_iff,
      decide_eq_false_iff_not]
    exact ⟨.inl fun above => absurd (Nat.le_trans above bounds.2) (by decide),
      .inl fun above => absurd (Nat.le_trans above bounds.2) (by decide)⟩
  have other (char : Char) (plain : isDigit char = false) : (first == char) = false := by
    rw [beq_eq_false_iff_ne]
    intro same
    rw [← same, digit] at plain
    cases plain
  have line : (first == '_') = false := other '_' (by decide)
  have money : (first == '$') = false := other '$' (by decide)
  rw [beginsWord, letter, line, money, Bool.and_false]
  rfl

theorem quote_plain (dollar : Bool) (quotes : first = '\x22' ∨ first = '\x27') :
    beginsWord dollar first = false ∧ isDigit first = false := by
  rcases quotes with same | same <;> rw [same] <;> cases dollar <;> decide

theorem cut_word (begins : beginsWord dollar first = true) (rest : List Char) :
    cut id dollar first rest = (.word, rest.dropWhile (continuesWord dollar)) := if_pos begins

theorem cut_number (digit : isDigit first = true) (rest : List Char) :
    cut id dollar first rest = (.number, rest.dropWhile continuesNumber) := by
  have plain : ¬ beginsWord dollar first = true := by
    rw [digit_not_begins digit]
    exact Bool.false_ne_true
  exact (if_neg plain).trans (if_pos digit)

theorem cut_quoted (quotes : first = '\x22' ∨ first = '\x27') (rest : List Char) :
    cut id dollar first rest = (.quoted, skipQuoted id first rest) := by
  rcases quote_plain dollar quotes with ⟨word, digit⟩
  simp only [cut, word, digit, if_pos quotes, Bool.false_eq_true, if_false]

theorem cut_slash (rest : List Char) : cut id dollar '/' rest = cutSlash id rest := by
  cases dollar <;> rfl

theorem cut_other (word : beginsWord dollar first = false) (number : isDigit first = false)
    (quoted : first ≠ '\x22' ∧ first ≠ '\x27') (slash : first ≠ '/') (rest : List Char) :
    cut id dollar first rest = (.other, rest) := by
  simp only [cut, word, number, if_neg (not_or.mpr quoted), if_neg slash, Bool.false_eq_true, if_false]

/-- What a segment is and where it ends is decided by the text it begins. -/
theorem Lexeme.cut_eq {kind : Kind} {segment rest : List Char} (lexeme : Lexeme dollar kind segment rest) :
    ∃ first tail, segment = first :: tail ∧ cut id dollar first (tail ++ rest) = (kind, rest) := by
  cases lexeme with
  | @word first run _ begins continues stops =>
    refine ⟨first, run, rfl, ?_⟩
    rw [cut_word begins, dropWhile_run continues stops]
  | @number first run _ begins continues stops =>
    refine ⟨first, run, rfl, ?_⟩
    rw [cut_number begins, dropWhile_run continues stops]
  | @quoted quote last body _ quotes inner ends =>
    refine ⟨quote, body ++ [last], rfl, ?_⟩
    rw [cut_quoted quotes, List.append_assoc, skipQuoted_inner inner]
    exact congrArg _ (skipQuoted_end (quote_ne_escape quotes) ends rest)
  | @quotedOpen quote body quotes inner =>
    refine ⟨quote, body, rfl, ?_⟩
    rw [cut_quoted quotes, skipQuoted_inner inner]
    rfl
  | @quotedEscape quote body quotes inner =>
    refine ⟨quote, body ++ ['\\'], rfl, ?_⟩
    rw [cut_quoted quotes, List.append_assoc, skipQuoted_inner inner]
    rfl
  | @lineComment body _ line stops =>
    refine ⟨'/', '/' :: body, rfl, ?_⟩
    have inside : ∀ char ∈ body, (char != '\n') = true := fun char mem => bne_iff_ne.mpr (line char mem)
    rw [cut_slash]
    exact congrArg _ (dropWhile_run inside stops)
  | @blockComment body _ first =>
    refine ⟨'/', '*' :: (body ++ closing), rfl, ?_⟩
    have clear : Clear false body := first
    rw [cut_slash, List.cons_append, List.append_assoc]
    exact congrArg _ (skipBlock_closed clear rest)
  | @blockCommentOpen body never =>
    refine ⟨'/', '*' :: body, rfl, ?_⟩
    have clear : Clear false body := never
    rw [cut_slash, List.append_nil]
    exact congrArg _ (skipBlock_open clear)
  | @other char _ word number quoted comment =>
    refine ⟨char, [], rfl, ?_⟩
    rw [List.nil_append]
    by_cases slash : char = '/'
    · rw [slash, cut_slash]
      have stops := comment slash
      cases rest with
      | nil => rfl
      | cons next rest =>
        have plain := stops next rfl
        simp only [Bool.or_eq_false_iff, beq_eq_false_iff_ne] at plain
        exact (if_neg plain.1).trans (if_neg plain.2)
    · exact cut_other word number quoted slash rest

theorem exists_lexeme_slash (rest : List Char) :
    ∃ tail, rest = tail ++ (cutSlash id rest).2 ∧
      Lexeme dollar (cutSlash id rest).1 ('/' :: tail) (cutSlash id rest).2 := by
  have alone (rest : List Char) (plain : Stops (fun next => next == '/' || next == '*') rest) :
      Lexeme dollar .other ['/'] rest :=
    .other (by cases dollar <;> decide) (by decide) (by decide) fun _ => plain
  cases rest with
  | nil => exact ⟨[], rfl, alone [] fun char head => absurd head (Option.not_mem_none char)⟩
  | cons next rest =>
    by_cases line : next = '/'
    · have cuts : cutSlash id (next :: rest) = (.lineComment, rest.dropWhile (· != '\n')) := if_pos line
      rw [cuts, line]
      refine ⟨'/' :: rest.takeWhile (· != '\n'), ?_, .lineComment (fun char mem => ?_) (stops_dropWhile _ _)⟩
      · rw [List.cons_append, List.takeWhile_append_dropWhile]
      · have inside := List.mem_takeWhile_imp mem
        exact bne_iff_ne.mp inside
    by_cases block : next = '*'
    · have cuts : cutSlash id (next :: rest) = (.blockComment, skipBlock id false rest) :=
        (if_neg line).trans (if_pos block)
      rw [cuts, block]
      rcases skipBlock_cases false rest with ⟨body, clear, split⟩ | ⟨starred, _⟩ | ⟨clear, gone⟩
      · refine ⟨'*' :: (body ++ closing), ?_, .blockComment clear⟩
        rw [List.cons_append, List.append_assoc, ← split]
      · exact absurd starred Bool.false_ne_true
      · rw [gone]
        exact ⟨'*' :: rest, (List.append_nil _).symm, .blockCommentOpen clear⟩
    have cuts : cutSlash id (next :: rest) = (.other, next :: rest) := (if_neg line).trans (if_neg block)
    rw [cuts]
    refine ⟨[], rfl, alone _ fun char head => ?_⟩
    rw [← Option.mem_some_iff.mp head]
    exact Bool.or_eq_false_iff.mpr ⟨beq_eq_false_iff_ne.mpr line, beq_eq_false_iff_ne.mpr block⟩

theorem exists_lexeme (dollar : Bool) (first : Char) (rest : List Char) :
    ∃ tail, rest = tail ++ (cut id dollar first rest).2 ∧
      Lexeme dollar (cut id dollar first rest).1 (first :: tail) (cut id dollar first rest).2 := by
  by_cases word : beginsWord dollar first = true
  · rw [cut_word word]
    exact ⟨_, List.takeWhile_append_dropWhile.symm, .word word (fun char mem => List.mem_takeWhile_imp mem)
      (stops_dropWhile _ _)⟩
  by_cases number : isDigit first = true
  · rw [cut_number number]
    exact ⟨_, List.takeWhile_append_dropWhile.symm, .number number (fun char mem => List.mem_takeWhile_imp mem)
      (stops_dropWhile _ _)⟩
  by_cases quotes : first = '\x22' ∨ first = '\x27'
  · rw [cut_quoted quotes]
    rcases skipQuoted_cases first rest with ⟨body, last, inner, ends, split⟩ | ⟨inner, gone⟩ | ⟨body, inner, split, gone⟩
    · refine ⟨body ++ [last], ?_, .quoted quotes inner ends⟩
      rw [List.append_assoc]
      exact split
    · rw [gone]
      exact ⟨rest, (List.append_nil rest).symm, .quotedOpen quotes inner⟩
    · rw [gone]
      refine ⟨body ++ ['\\'], ?_, .quotedEscape quotes inner⟩
      rw [List.append_nil]
      exact split
  rw [Bool.not_eq_true] at word number
  rw [not_or] at quotes
  by_cases slash : first = '/'
  · rw [slash, cut_slash]
    exact exists_lexeme_slash rest
  · rw [cut_other word number quotes slash]
    exact ⟨[], rfl, .other word number quotes fun same => absurd same slash⟩

end Cut

section Segmentation
variable {dollar : Bool}

theorem Segmentation.of_nil {segments : List (Kind × List Char)} (cuts : Segmentation dollar [] segments) :
    segments = [] := by
  generalize same : ([] : List Char) = text at cuts
  cases cuts with
  | nil => rfl
  | cons lexeme _ =>
    rcases lexeme.cut_eq with ⟨first, tail, whole, _⟩
    rw [whole] at same
    exact absurd same (List.cons_ne_nil _ _).symm

theorem Segmentation.of_cons {first : Char} {rest : List Char} {segments : List (Kind × List Char)}
    (cuts : Segmentation dollar (first :: rest) segments) :
    ∃ tail more, rest = tail ++ (cut id dollar first rest).2 ∧ Segmentation dollar (cut id dollar first rest).2 more ∧
      segments = ((cut id dollar first rest).1, first :: tail) :: more := by
  generalize same : first :: rest = text at cuts
  cases cuts with
  | nil => exact absurd same (List.cons_ne_nil _ _)
  | @cons kind segment behind segments lexeme more =>
    rcases lexeme.cut_eq with ⟨head, tail, whole, decided⟩
    subst whole
    rcases List.cons.inj same with ⟨sameHead, sameTail⟩
    subst sameHead sameTail
    rw [List.append_eq, decided]
    exact ⟨tail, segments, rfl, more, rfl⟩

theorem Segmentation.unique {text : List Char} {left right : List (Kind × List Char)}
    (cuts : Segmentation dollar text left) (others : Segmentation dollar text right) : left = right := by
  induction cuts generalizing right with
  | nil => exact others.of_nil.symm
  | cons lexeme more ih =>
    rcases lexeme.cut_eq with ⟨first, tail, whole, decided⟩
    subst whole
    rcases others.of_cons with ⟨other, segments, split, rest, same⟩
    rw [List.append_eq, decided] at split rest same
    rw [same, ← List.append_cancel_right split, ih rest]

theorem exists_segmentation (dollar : Bool) (text : List Char) : ∃ segments, Segmentation dollar text segments := by
  induction size : text.length using Nat.strong_induction_on generalizing text with
  | _ length ih =>
    cases text with
    | nil => exact ⟨[], .nil⟩
    | cons first rest =>
      rcases exists_lexeme dollar first rest with ⟨tail, split, lexeme⟩
      have shorter : (cut id dollar first rest).2.length < length := by
        rw [← size]
        exact Nat.lt_succ_of_le (cut_suffix id dollar first rest).length_le
      rcases ih _ shorter _ rfl with ⟨segments, cuts⟩
      have whole := Segmentation.cons lexeme cuts
      rw [List.cons_append, ← split] at whole
      exact ⟨_, whole⟩

theorem Segmentation.length_le {text : List Char} {segments : List (Kind × List Char)}
    (cuts : Segmentation dollar text segments) : segments.length ≤ text.length := by
  induction cuts with
  | nil => exact Nat.le_refl 0
  | cons lexeme _ ih =>
    rcases lexeme.cut_eq with ⟨first, tail, whole, _⟩
    subst whole
    simp only [List.length_cons, List.length_append]
    omega

end Segmentation

end Canon.Text

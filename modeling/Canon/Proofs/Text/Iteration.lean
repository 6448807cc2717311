import Canon.Proofs.Text.Scanning
import Mathlib.Data.List.Induction

/-!
The words of a text on demand. An iterator over the characters and their byte offsets gives one word at a time, cut
out of the text at byte offsets; a cut that is not between two characters of the text would be fatal.
-/
namespace Canon.Text

def byteLength : List Char → Nat
  | [] => 0
  | char :: rest => char.utf8Size + byteLength rest

def indices (start : Nat) : List Char → List (Nat × Char)
  | [] => []
  | char :: rest => (start, char) :: indices (start + char.utf8Size) rest

/-- A text without some of its first bytes, if these end between two characters. -/
def dropBytes? : Nat → List Char → Option (List Char)
  | 0, text => some text
  | _ + 1, [] => none
  | bytes + 1, char :: rest =>
    if char.utf8Size ≤ bytes + 1 then dropBytes? (bytes + 1 - char.utf8Size) rest else none

def takeBytes? : Nat → List Char → Option (List Char)
  | 0, _ => some []
  | _ + 1, [] => none
  | bytes + 1, char :: rest =>
    if char.utf8Size ≤ bytes + 1 then (takeBytes? (bytes + 1 - char.utf8Size) rest).map (char :: ·) else none

def slice? (text : List Char) (start stop : Nat) : Option (List Char) :=
  if start ≤ stop then (dropBytes? start text).bind (takeBytes? (stop - start)) else none

def wordEnd (dollar : Bool) (start : Nat) (ahead : List (Nat × Char)) : Nat :=
  match (ahead.takeWhile fun item => continuesWord dollar item.2).getLast? with
  | some (last, _) => last + 1
  | none => start + 1

section Images
variable {α β : Type} (char : α → Char) (image : β → α)

theorem skipQuoted_map (quote : Char) (items : List β) :
    skipQuoted char quote (items.map image) = (skipQuoted (char ∘ image) quote items).map image := by
  induction items using skipQuoted.induct (char ∘ image) quote with
  | case1 => rfl
  | case2 item => rfl
  | case3 item next rest escape ih =>
    have escaped : char (image item) = '\\' := escape
    rw [List.map_cons, List.map_cons, skipQuoted, if_pos escaped, skipQuoted, if_pos escape, ih]
  | case4 item next rest escape ends =>
    have plain : ¬ char (image item) = '\\' := escape
    have leaves : char (image item) = '\n' ∨ char (image item) = quote := ends
    rw [List.map_cons, List.map_cons, skipQuoted, if_neg plain, if_pos leaves, skipQuoted, if_neg escape, if_pos ends]
    rfl
  | case5 item next rest escape goes ih =>
    have plain : ¬ char (image item) = '\\' := escape
    have stays : ¬ (char (image item) = '\n' ∨ char (image item) = quote) := goes
    rw [List.map_cons, List.map_cons, skipQuoted, if_neg plain, if_neg stays, skipQuoted, if_neg escape, if_neg goes]
    exact ih

theorem skipBlock_map (star : Bool) (items : List β) :
    skipBlock char star (items.map image) = (skipBlock (char ∘ image) star items).map image := by
  induction items generalizing star with
  | nil => rfl
  | cons item rest ih =>
    rw [List.map_cons, skipBlock, skipBlock, ih]
    exact (apply_ite (List.map image) _ _ _).symm

theorem cutSlash_map (items : List β) :
    cutSlash char (items.map image) = (cutSlash (char ∘ image) items).map id (List.map image) := by
  cases items with
  | nil => rfl
  | cons next rest =>
    rw [List.map_cons, cutSlash, cutSlash, skipBlock_map, List.dropWhile_map]
    simp only [Function.comp_apply, apply_ite (Prod.map id (List.map image))]
    rfl

theorem cut_map (dollar : Bool) (first : Char) (items : List β) :
    cut char dollar first (items.map image) = (cut (char ∘ image) dollar first items).map id (List.map image) := by
  unfold cut
  rw [skipQuoted_map, cutSlash_map, List.dropWhile_map, List.dropWhile_map]
  simp only [apply_ite (Prod.map id (List.map image))]
  rfl

end Images

theorem length_cut_le (dollar : Bool) (first : Char) (ahead : List (Nat × Char)) :
    (cut Prod.snd dollar first ahead).2.length ≤ ahead.length := (cut_suffix Prod.snd dollar first ahead).length_le

inductive Pull where
  /-- A cut that is not between two characters. -/
  | fatal
  | ended
  | found (word : List Char) (ahead : List (Nat × Char))

def pull (dollar : Bool) (text : List Char) : List (Nat × Char) → Pull
  | [] => .ended
  | (start, first) :: ahead =>
    if beginsWord dollar first then
      match slice? text start (wordEnd dollar start ahead) with
      | none => .fatal
      | some word => .found word (ahead.dropWhile fun item => continuesWord dollar item.2)
    else pull dollar text (cut Prod.snd dollar first ahead).2
termination_by ahead => ahead.length
decreasing_by exact Nat.lt_succ_of_le (length_cut_le dollar first ahead)

/-- The words that some calls to the iterator give, if the last of them finds the end and none is fatal. -/
def collect (dollar : Bool) (text : List Char) : Nat → List (Nat × Char) → Option (List (List Char))
  | 0, _ => none
  | calls + 1, ahead =>
    match pull dollar text ahead with
    | .fatal => none
    | .ended => some []
    | .found word ahead => (collect dollar text calls ahead).map (word :: ·)

section Bytes

theorem byteLength_append (front rest : List Char) :
    byteLength (front ++ rest) = byteLength front + byteLength rest := by
  induction front with
  | nil => exact (Nat.zero_add _).symm
  | cons char front ih => rw [List.cons_append, byteLength, byteLength, ih, Nat.add_assoc]

theorem exists_byteLength (char : Char) (text : List Char) :
    ∃ bytes, byteLength (char :: text) = bytes + 1 ∧ char.utf8Size ≤ bytes + 1 ∧
      bytes + 1 - char.utf8Size = byteLength text := by
  have wide := char.utf8Size_pos
  refine ⟨char.utf8Size - 1 + byteLength text, ?_, ?_, ?_⟩
  · rw [byteLength]
    omega
  · omega
  · omega

theorem dropBytes?_append (front rest : List Char) : dropBytes? (byteLength front) (front ++ rest) = some rest := by
  induction front with
  | nil => rw [List.nil_append, byteLength, dropBytes?]
  | cons char front ih =>
    rcases exists_byteLength char front with ⟨bytes, split, fits, behind⟩
    rw [split, List.cons_append, dropBytes?, if_pos fits, behind, ih]

theorem takeBytes?_append (front rest : List Char) : takeBytes? (byteLength front) (front ++ rest) = some front := by
  induction front with
  | nil => rw [List.nil_append, byteLength, takeBytes?]
  | cons char front ih =>
    rcases exists_byteLength char front with ⟨bytes, split, fits, behind⟩
    rw [split, List.cons_append, takeBytes?, if_pos fits, behind, ih]
    rfl

theorem slice?_append (front middle rest : List Char) :
    slice? (front ++ (middle ++ rest)) (byteLength front) (byteLength front + byteLength middle) = some middle := by
  rw [slice?, if_pos (Nat.le_add_right ..), dropBytes?_append, Nat.add_sub_cancel_left]
  exact takeBytes?_append middle rest

theorem indices_append (start : Nat) (front rest : List Char) :
    indices start (front ++ rest) = indices start front ++ indices (start + byteLength front) rest := by
  induction front generalizing start with
  | nil => rfl
  | cons char front ih =>
    rw [List.cons_append, indices, indices, ih, byteLength, Nat.add_assoc]
    rfl

theorem map_indices (start : Nat) (text : List Char) : (indices start text).map Prod.snd = text := by
  induction text generalizing start with
  | nil => rfl
  | cons char text ih => rw [indices, List.map_cons, ih]

end Bytes

section Words
variable {dollar : Bool}

theorem continuesWord_narrow {char : Char} (continues : continuesWord dollar char = true) : char.utf8Size = 1 := by
  rw [Char.utf8Size_eq_one_iff, UInt32.le_iff_toNat_le]
  simp only [continuesWord, isLetter, isDigit, Char.le_def, UInt32.le_iff_toNat_le, Bool.or_eq_true, Bool.and_eq_true,
    decide_eq_true_eq, beq_iff_eq] at continues
  rcases continues with ((letter | digit) | line) | money
  · rcases letter with lower | upper
    · exact Nat.le_trans lower.2 (by decide)
    · exact Nat.le_trans upper.2 (by decide)
  · exact Nat.le_trans digit.2 (by decide)
  · rw [line]
    decide
  · rw [money.2]
    decide

theorem continuesWord_of_beginsWord {char : Char} (begins : beginsWord dollar char = true) :
    continuesWord dollar char = true := by
  simp only [beginsWord, continuesWord, Bool.or_eq_true] at begins ⊢
  rcases begins with (letter | line) | money
  · exact .inl (.inl (.inl letter))
  · exact .inl (.inr line)
  · exact .inr money

theorem cut_indices {first : Char} {tail rest : List Char} {kind : Kind}
    (decided : cut id dollar first (tail ++ rest) = (kind, rest)) (start : Nat) :
    (cut Prod.snd dollar first (indices start (tail ++ rest))).2 = indices (start + byteLength tail) rest := by
  have image := cut_map id Prod.snd dollar first (indices start (tail ++ rest))
  rw [map_indices, decided] at image
  have same : (cut Prod.snd dollar first (indices start (tail ++ rest))).2.map Prod.snd = rest :=
    (congrArg Prod.snd image).symm
  -- Both sides are suffixes of one list, and equally long.
  have left := cut_suffix Prod.snd dollar first (indices start (tail ++ rest))
  have right : indices (start + byteLength tail) rest <:+ indices start (tail ++ rest) := by
    rw [indices_append]
    exact List.suffix_append _ _
  have length : (cut Prod.snd dollar first (indices start (tail ++ rest))).2.length =
      (indices (start + byteLength tail) rest).length := by
    calc
      _ = ((cut Prod.snd dollar first (indices start (tail ++ rest))).2.map Prod.snd).length := by rw [List.length_map]
      _ = ((indices (start + byteLength tail) rest).map Prod.snd).length := by rw [same, map_indices]
      _ = (indices (start + byteLength tail) rest).length := by rw [List.length_map]
  exact (List.suffix_of_suffix_length_le left right length.le).eq_of_length length

theorem takeWhile_indices {run rest : List Char} (start : Nat)
    (continues : ∀ char ∈ run, continuesWord dollar char = true) (stops : Stops (continuesWord dollar) rest) :
    ((indices start (run ++ rest)).takeWhile fun item => continuesWord dollar item.2) = indices start run := by
  induction run generalizing start with
  | nil =>
    cases rest with
    | nil => rfl
    | cons char rest => exact List.takeWhile_cons_of_neg (by rw [stops char rfl]; exact Bool.false_ne_true)
  | cons char run ih =>
    rw [List.forall_mem_cons] at continues
    rw [List.cons_append, indices]
    exact (List.takeWhile_cons_of_pos (by exact continues.1)).trans (congrArg _ (ih _ continues.2))

/-- The end of a word is one byte behind the beginning of its last character, which is one byte wide. -/
theorem wordEnd_eq {first : Char} {run rest : List Char} (start : Nat) (begins : beginsWord dollar first = true)
    (continues : ∀ char ∈ run, continuesWord dollar char = true) (stops : Stops (continuesWord dollar) rest) :
    wordEnd dollar start (indices (start + first.utf8Size) (run ++ rest)) = start + byteLength (first :: run) := by
  have narrow := continuesWord_narrow (continuesWord_of_beginsWord begins)
  rw [wordEnd, takeWhile_indices _ continues stops, byteLength, narrow]
  rcases List.eq_nil_or_concat run with none | ⟨front, last, whole⟩
  · rw [none]
    rfl
  · have narrow : last.utf8Size = 1 := continuesWord_narrow (continues last (by simp [whole]))
    rw [whole, List.concat_eq_append, indices_append, byteLength_append, byteLength, narrow]
    simp only [indices, List.getLast?_append, List.getLast?_singleton, Option.some_or, byteLength]
    omega

variable {text rest : List Char} {start : Nat} {first : Char}

theorem pull_word {front run : List Char} (whole : text = front ++ (first :: run ++ rest))
    (begins : beginsWord dollar first = true) (continues : ∀ char ∈ run, continuesWord dollar char = true)
    (stops : Stops (continuesWord dollar) rest) :
    pull dollar text (indices (byteLength front) (first :: run ++ rest)) =
      .found (first :: run) (indices (byteLength front + byteLength (first :: run)) rest) := by
  have decided : cut id dollar first (run ++ rest) = (.word, rest) := by
    rw [cut_word begins, dropWhile_run continues stops]
  have behind := cut_indices decided (byteLength front + first.utf8Size)
  rw [cut, if_pos begins] at behind
  have cuts : slice? text (byteLength front) (byteLength front + byteLength (first :: run)) = some (first :: run) := by
    rw [whole]
    exact slice?_append front (first :: run) rest
  rw [List.cons_append, indices, pull, if_pos begins, wordEnd_eq _ begins continues stops, cuts, byteLength,
    ← Nat.add_assoc, ← behind]

theorem pull_skip {front tail : List Char} {kind : Kind} (plain : beginsWord dollar first = false)
    (decided : cut id dollar first (tail ++ rest) = (kind, rest)) :
    pull dollar text (indices (byteLength front) (first :: tail ++ rest)) =
      pull dollar text (indices (byteLength front + byteLength (first :: tail)) rest) := by
  rw [List.cons_append, indices, pull, plain, cut_indices decided, byteLength, Nat.add_assoc]
  rfl

theorem collect_congr {ahead behind : List (Nat × Char)} (same : pull dollar text ahead = pull dollar text behind)
    (calls : Nat) : collect dollar text calls ahead = collect dollar text calls behind := by
  cases calls with
  | zero => rfl
  | succ calls => rw [collect, collect, same]

end Words

/-- The iterator gives the words of the grammar, and no cut is fatal. -/
theorem collect_segmentation {dollar : Bool} {text front rest : List Char} {segments : List (Kind × List Char)}
    (cuts : Segmentation dollar rest segments) (whole : text = front ++ rest) {calls : Nat}
    (enough : (wordsOf segments).length < calls) :
    collect dollar text calls (indices (byteLength front) rest) = some (wordsOf segments) := by
  -- Only words use up calls; `front` is what lies behind the iterator and decides the byte offsets.
  induction cuts generalizing front calls with
  | nil =>
    rcases Nat.exists_eq_succ_of_ne_zero (Nat.ne_zero_of_lt enough) with ⟨left, same⟩
    rw [same, collect, indices, pull]
    rfl
  | @cons kind segment rest segments lexeme _ ih =>
    rcases lexeme.cut_eq with ⟨first, tail, same, decided⟩
    subst same
    have further : text = front ++ (first :: tail) ++ rest := by rw [whole, List.append_assoc]
    by_cases word : kind = .word
    · subst word
      have count : wordsOf ((.word, first :: tail) :: segments) = (first :: tail) :: wordsOf segments := rfl
      rw [count, List.length_cons] at enough
      rcases Nat.exists_eq_succ_of_ne_zero (Nat.ne_zero_of_lt enough) with ⟨left, total⟩
      cases lexeme with
      | word begins continues stops =>
        rw [total, collect, pull_word whole begins continues stops, count, ← byteLength_append]
        simp only [ih further (by omega : (wordsOf segments).length < left), Option.map_some]
    · have count : wordsOf ((kind, first :: tail) :: segments) = wordsOf segments := by
        simp only [wordsOf, List.filter_cons, word, decide_false, Bool.false_eq_true, if_false]
      have plain : beginsWord dollar first = false := by
        rw [Bool.eq_false_iff]
        intro begins
        rw [cut_word begins] at decided
        exact word (congrArg Prod.fst decided).symm
      rw [count] at enough ⊢
      rw [collect_congr (pull_skip plain decided), ← byteLength_append]
      exact ih further enough

theorem length_wordsOf_le {dollar : Bool} {text : List Char} {segments : List (Kind × List Char)}
    (cuts : Segmentation dollar text segments) : (wordsOf segments).length ≤ text.length := by
  rw [wordsOf, List.length_map]
  exact Nat.le_trans (List.length_filter_le _ segments) cuts.length_le

/-- A text has one segmentation, the scanner finds its words, and so does the iterator: no cut is fatal, and the call
behind the last word finds the end. -/
theorem scanner_meets_grammar (dollar : Bool) (text : List Char) :
    ∃ segments, (∀ cuts, Segmentation dollar text cuts ↔ cuts = segments) ∧
      words dollar text = (wordsOf segments).map String.ofList ∧ (wordsOf segments).length ≤ text.length ∧
      ∀ more, collect dollar text ((wordsOf segments).length + 1 + more) (indices 0 text) = some (wordsOf segments) := by
  rcases exists_segmentation dollar text with ⟨segments, whole⟩
  refine ⟨segments, fun cuts => ⟨fun other => other.unique whole, fun same => same ▸ whole⟩, ?_,
    length_wordsOf_le whole, fun more => ?_⟩
  · rw [words_eq_run, run_segmentation whole (settled_outside text)]
    rfl
  · exact collect_segmentation whole (List.nil_append text).symm (by omega)

example : words false ['a', '$', 'b', '/', '*', '/', 'c', '*', '/', '1', 'd', '\x22', '\\', '\x22'] = ["a", "b"] := by
  decide

end Canon.Text

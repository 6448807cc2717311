import Canon.Proofs.Identifier.Appearance
import Canon.Survey

/-!
What is counted while words are entered. A table that has the keywords of a dialect and any words makes of every further
word what the dialect makes of it, so the counts depend on the words and the dialect alone.
-/
namespace Canon

namespace Dialect
variable {dialect : Dialect} {word : String}

theorem standing_ne_identifier : (dialect.standing word).1 ≠ .identifier ↔ dialect.HasKeyword word := by
  rw [← isSome_keyword?, standing]
  cases dialect.keyword? word with
  | some active => simp [Token.identifier]
  | none => simp

theorem standing_extension : (dialect.standing word).2 = true ↔ dialect.HasExtension word := by
  rw [hasExtension_iff, standing]
  cases dialect.keyword? word with
  | some active => simp
  | none => simp

theorem HasExtension.hasKeyword (extension : dialect.HasExtension word) : dialect.HasKeyword word := by
  obtain ⟨entry, listed, spelled, active, -⟩ := extension
  exact ⟨entry, listed, spelled, active⟩

end Dialect

namespace Tally
open Identifier

def ofDialect (dialect : Dialect) (words : List String) : Tally :=
  ⟨words.length, words.countP (dialect.HasKeyword ·), words.countP (dialect.HasExtension ·)⟩

def plus (left right : Tally) : Tally :=
  ⟨left.words + right.words, left.keywords + right.keywords, left.extensions + right.extensions⟩

theorem add_eq {dialect : Dialect} {word : String} {record : Record}
    (standing : record.standing = dialect.standing word) (tally : Tally) :
    tally.add record = tally.plus (ofDialect dialect [word]) := by
  have token : record.token = (dialect.standing word).1 := congrArg Prod.fst standing
  have mark : record.has .extension = (dialect.standing word).2 := congrArg Prod.snd standing
  have keyword : (record.token != .identifier) = decide (dialect.HasKeyword word) := by
    rw [token, Bool.eq_iff_iff, bne_iff_ne, decide_eq_true_iff]
    exact Dialect.standing_ne_identifier
  have extension : (record.token != .identifier && record.has .extension) = decide (dialect.HasExtension word) := by
    rw [keyword, mark, Bool.eq_iff_iff, Bool.and_eq_true, decide_eq_true_iff, decide_eq_true_iff,
      Dialect.standing_extension]
    exact ⟨And.right, fun extension => ⟨extension.hasKeyword, extension⟩⟩
  unfold add plus ofDialect
  dsimp only
  rw [extension, keyword, List.countP_singleton, List.countP_singleton]
  cases decide (dialect.HasKeyword word) <;> cases decide (dialect.HasExtension word) <;> rfl

theorem plus_ofDialect_cons (tally : Tally) (dialect : Dialect) (word : String) (words : List String) :
    (tally.plus (ofDialect dialect [word])).plus (ofDialect dialect words) =
      tally.plus (ofDialect dialect (word :: words)) := by
  simp only [plus, ofDialect, List.countP_cons, List.countP_nil, List.length_cons, List.length_nil, mk.injEq]
  omega

variable {table : Table} {dialect : Dialect} {earlier : List String}

/-- A word that is got always has a record, so none goes without being counted. -/
theorem exists_record_get {word : String} (reflects : table.Reflects dialect earlier)
    (room : (table.get word).2.lexicon.size < 4294967295) :
    ∃ record, (table.get word).2.records.get? (table.get word).1 = some record ∧
      record.standing = dialect.standing word := by
  have after := reflects.get room
  have found := reflects.obeys.canonical.find?_get room word
  rw [if_pos rfl] at found
  obtain ⟨record, entered, standing⟩ := after.obeys.canonical.exists_record found
  have member : word ∈ dialect.keywords.map ActiveKeyword.spelling ++ (earlier ++ [word]) := by simp
  rw [after.standing? member, Option.some.injEq] at standing
  exact ⟨record, entered, standing.symm⟩

theorem enter_eq {word : String} (reflects : table.Reflects dialect earlier)
    (room : (table.get word).2.lexicon.size < 4294967295) (tally : Tally) :
    enter (tally, table) word = (tally.plus (ofDialect dialect [word]), (table.get word).2) := by
  obtain ⟨record, entered, standing⟩ := exists_record_get reflects room
  unfold enter
  dsimp only
  rw [entered]
  exact congrArg (·, (table.get word).2) (add_eq standing tally)

theorem foldl_enter (words : List String) (tally : Tally) (reflects : table.Reflects dialect earlier)
    (few : (earlier ++ words).eraseDups.length < 2147483648) :
    (words.foldl enter (tally, table)).1 = tally.plus (ofDialect dialect words) ∧
      (words.foldl enter (tally, table)).2.Reflects dialect (earlier ++ words) := by
  induction words generalizing tally table earlier with
  | nil => exact ⟨rfl, (List.append_nil earlier).symm ▸ reflects⟩
  | cons word rest ih =>
    have room : (table.get word).2.lexicon.size < 4294967295 := by
      have begun := length_eraseDups_le_append earlier (word :: rest)
      have size := reflects.size_le
      have count := KeywordSpelling.length_all
      have one := table.size_get_le word
      omega
    rw [List.append_cons] at few
    obtain ⟨counts, after⟩ := ih (tally.plus (ofDialect dialect [word])) (reflects.get room) few
    rw [List.foldl_cons, enter_eq reflects room, List.append_cons]
    exact ⟨counts.trans (plus_ofDialect_cons tally dialect word rest), after⟩

theorem ofWords_eq (words : List String) (reflects : table.Reflects dialect earlier)
    (few : (earlier ++ words).eraseDups.length < 2147483648) :
    (ofWords table words).1 = ofDialect dialect words ∧
      (ofWords table words).2.Reflects dialect (earlier ++ words) := by
  obtain ⟨counts, after⟩ := foldl_enter words {} reflects few
  refine ⟨counts.trans ?_, after⟩
  simp [plus, ofDialect]

end Tally
end Canon

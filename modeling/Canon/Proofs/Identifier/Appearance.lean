import Canon.Proofs.Identifier.Standing
import Canon.Proofs.Lexicon.Appearance
import Canon.Proofs.Lexicon.Stored

/-!
The order in which a table lists its spellings. A table that has had the keywords of a dialect registered, and words got
ever since, lists the keywords in the order of their registration and then the other words where they appeared first.
-/
namespace Canon

/-- What a dialect makes of a word: a keyword, perhaps only as an extension, or a plain identifier. -/
def Dialect.standing (dialect : Dialect) (word : String) : Token × Bool :=
  match dialect.keyword? word with
  | some active => (.keyword active.keyword, active.extension)
  | none => (.identifier, false)

namespace Identifier.Table
variable {table : Table} {dialect : Dialect} {words : List String}

/-- The spellings of a table are those that have appeared, and all of them are bound. -/
structure Lists (appeared : List String) (table : Table) : Prop where
  order : table.lexicon.spellings.toList = appeared.eraseDups
  bound : ∀ spelling ∈ appeared, (table.find? spelling).isSome

namespace Lists
variable {appeared : List String}

theorem empty : Table.empty.Lists [] where
  order := rfl
  bound spelling member := by cases member

theorem size_eq (lists : table.Lists appeared) : table.lexicon.size = appeared.eraseDups.length := by
  rw [← lists.order]
  exact Array.length_toList.symm

theorem get {spelling : String} (lists : table.Lists appeared) (canonical : table.Canonical)
    (room : (table.get spelling).2.lexicon.size < 4294967295) :
    (table.get spelling).2.Lists (appeared ++ [spelling]) where
  order := by
    rw [lexicon_get]
    exact canonical.faithful.spellings_intern lists.order spelling
  bound other member := by
    rw [canonical.find?_get room]
    split
    · rfl
    · next different =>
      rcases List.mem_append.mp member with old | new
      · exact lists.bound other old
      · exact absurd (List.mem_singleton.mp new) different

theorem register {active : ActiveKeyword} (lists : table.Lists appeared) (canonical : table.Canonical)
    (room : (table.register active).lexicon.size < 4294967295) :
    (table.register active).Lists (appeared ++ [active.spelling]) :=
  ⟨(lists.get canonical room).order, (lists.get canonical room).bound⟩

theorem foldl_register {keywords : List ActiveKeyword} (lists : table.Lists appeared) (canonical : table.Canonical)
    (room : (keywords.foldl Table.register table).lexicon.size < 4294967295) :
    (keywords.foldl Table.register table).Lists (appeared ++ keywords.map ActiveKeyword.spelling) := by
  induction keywords generalizing table appeared with
  | nil => exact (List.append_nil appeared).symm ▸ lists
  | cons active rest ih =>
    have before := Nat.lt_of_le_of_lt (size_le_foldl_register rest (table.register active)) room
    rw [List.map_cons, List.append_cons]
    exact ih (lists.register canonical before) (canonical.register before).1 room

end Lists

structure Reflects (dialect : Dialect) (words : List String) (table : Table) : Prop where
  obeys : table.Obeys [dialect]
  lists : table.Lists (dialect.keywords.map ActiveKeyword.spelling ++ words)

namespace Reflects

theorem ofDialect (dialect : Dialect) : (Table.ofDialect dialect).Reflects dialect [] := by
  have few := KeywordSpelling.length_all
  have small := Table.size_addKeywords_le dialect .empty
  have none : Table.empty.lexicon.size = 0 := rfl
  have room : (Table.empty.addKeywords dialect).lexicon.size < 4294967295 := by omega
  refine ⟨Obeys.empty.register room, ?_⟩
  rw [List.append_nil]
  rw [addKeywords_eq] at room
  exact Lists.empty.foldl_register canonical_empty room

theorem get {word : String} (reflects : table.Reflects dialect words)
    (room : (table.get word).2.lexicon.size < 4294967295) : (table.get word).2.Reflects dialect (words ++ [word]) where
  obeys := reflects.obeys.get room
  lists := by
    rw [← List.append_assoc]
    exact reflects.lists.get reflects.obeys.canonical room

theorem size_le (reflects : table.Reflects dialect words) :
    table.lexicon.size ≤ KeywordSpelling.all.length + words.eraseDups.length := by
  have whole := length_eraseDups_append_le (dialect.keywords.map ActiveKeyword.spelling) words
  have few : dialect.keywords.length ≤ KeywordSpelling.all.length := List.length_filterMap_le _ KeywordSpelling.all
  rw [List.length_map] at whole
  rw [reflects.lists.size_eq]
  omega

theorem standing? (reflects : table.Reflects dialect words) {word : String}
    (member : word ∈ dialect.keywords.map ActiveKeyword.spelling ++ words) :
    table.standing? word = some (dialect.standing word) := by
  have last : lastKeyword? [dialect] word = dialect.keyword? word := by
    rw [lastKeyword?, List.reverse_singleton, List.findSome?_singleton]
  unfold Dialect.standing
  cases found : dialect.keyword? word with
  | some active => exact reflects.obeys.keyword word active (last.trans found)
  | none =>
    have bound := reflects.obeys.canonical.isSome_standing?.mpr (reflects.lists.bound word member)
    obtain ⟨standing, given⟩ := Option.isSome_iff_exists.mp bound
    rw [given, reflects.obeys.plain word standing (last.trans found) given]

end Reflects

end Identifier.Table
end Canon

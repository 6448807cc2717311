import Canon.Proofs.Survey.Report
import Canon.Proofs.Text.Characters

/-!
The list of identifiers. After a survey, the table lists the keywords of its dialect, in the order in which keywords are
written down, and then every other word of the files, each where it appeared first.
-/
namespace Canon

namespace Dialect
variable {dialect : Dialect} {words : List String} {word : String}

/-- The keywords of a dialect and then the other words among some, with what the dialect makes of them. -/
def listing (dialect : Dialect) (words : List String) : List (String × Token × Bool) :=
  ((KeywordSpelling.all.filter (dialect.Activates ·)).map fun entry =>
    (entry.spelling, .keyword entry.keyword, decide (dialect.OnlyExtends entry))) ++
  (words.filter fun word => ¬dialect.HasKeyword word).eraseDups.map fun word => (word, .identifier, false)

theorem mem_spellings : word ∈ dialect.keywords.map ActiveKeyword.spelling ↔ dialect.HasKeyword word := by
  rw [List.mem_map]
  constructor
  · intro given
    obtain ⟨active, member, rfl⟩ := given
    obtain ⟨entry, listed, active, rfl⟩ := mem_keywords.mp member
    exact ⟨entry, listed, rfl, active⟩
  · intro given
    obtain ⟨entry, listed, rfl, active⟩ := given
    exact ⟨_, mem_keywords.mpr ⟨entry, listed, active, rfl⟩, rfl⟩

theorem eraseDups_appeared (dialect : Dialect) (words : List String) :
    (dialect.keywords.map ActiveKeyword.spelling ++ words).eraseDups =
      dialect.keywords.map ActiveKeyword.spelling ++ (words.filter fun word => ¬dialect.HasKeyword word).eraseDups := by
  have others : words.removeAll (dialect.keywords.map ActiveKeyword.spelling) =
      words.filter fun word => ¬dialect.HasKeyword word := by
    refine List.filter_congr fun word _ => ?_
    rw [Bool.eq_iff_iff, Bool.not_eq_true', decide_eq_true_iff, List.elem_eq_mem, decide_eq_false_iff_not,
      mem_spellings]
  rw [List.eraseDups_append, eraseDups_of_nodup dialect.nodup_keywords, others]

theorem standing_of_activates {entry : KeywordSpelling} (listed : entry ∈ KeywordSpelling.all)
    (active : dialect.Activates entry) :
    dialect.standing entry.spelling = (.keyword entry.keyword, decide (dialect.OnlyExtends entry)) := by
  rw [standing, keyword?_of_activates listed active]

theorem standing_of_not_hasKeyword (plain : ¬dialect.HasKeyword word) :
    dialect.standing word = (.identifier, false) := by
  rw [← isSome_keyword?, Option.not_isSome_iff_eq_none] at plain
  rw [standing, plain]

theorem listing_eq (dialect : Dialect) (words : List String) : dialect.listing words =
    (dialect.keywords.map ActiveKeyword.spelling ++ words).eraseDups.map fun word => (word, dialect.standing word) := by
  rw [eraseDups_appeared, List.map_append, keywords_eq, List.map_map, List.map_map, listing]
  congr 1
  · refine List.map_congr_left fun entry member => ?_
    obtain ⟨listed, active⟩ := List.mem_filter.mp member
    exact congrArg (Prod.mk entry.spelling) (standing_of_activates listed (of_decide_eq_true active)).symm
  · refine List.map_congr_left fun word member => ?_
    rw [List.mem_eraseDups, List.mem_filter] at member
    exact congrArg (Prod.mk word) (standing_of_not_hasKeyword (of_decide_eq_true member.2)).symm

theorem nodup_listing (dialect : Dialect) (words : List String) : ((dialect.listing words).map Prod.fst).Nodup := by
  rw [listing_eq, List.map_map]
  exact (List.map_id _).symm ▸ nodup_eraseDups _

end Dialect

namespace Identifier.Table.Reflects
variable {table : Table} {dialect : Dialect} {words : List String}

theorem dumpEntries_eq (reflects : table.Reflects dialect words) :
    Survey.dumpEntries table = dialect.listing words := by
  rw [Dialect.listing_eq, ← reflects.lists.order, ← Lexicon.map_snd_toList, List.map_map, Survey.dumpEntries, spellings,
    List.filterMap_filterMap, ← List.filterMap_eq_map]
  refine List.filterMap_congr fun pair member => ?_
  obtain ⟨symbol, spelling⟩ := pair
  have canonical := reflects.obeys.canonical
  have interned : table.lexicon.find? spelling = some symbol := canonical.faithful.mem_toList.mp member
  have appeared : spelling ∈ dialect.keywords.map ActiveKeyword.spelling ++ words := by
    rw [← List.mem_eraseDups, ← reflects.lists.order, canonical.faithful.mem_spellings, interned]
    rfl
  obtain ⟨id, found⟩ := Option.isSome_iff_exists.mp (reflects.lists.bound spelling appeared)
  obtain ⟨other, same, bound⟩ := find?_eq_some.mp found
  rw [interned, Option.some.injEq] at same
  obtain ⟨record, entered, standing⟩ := canonical.exists_record found
  rw [reflects.standing? appeared, Option.some.injEq] at standing
  dsimp only [Function.comp]
  rw [same, bound, Option.map_some, Option.bind_some, entered, Option.map_some, standing]
  rfl

end Identifier.Table.Reflects
end Canon

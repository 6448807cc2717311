import Mathlib.Data.List.Nodup
import Canon.Dialect.Availability

/-!
The keywords of a dialect. No spelling is listed twice, so a dialect makes at most one keyword of a word, whatever the
order in which the spellings are registered.
-/
namespace Canon

namespace Dialect

/-- A dialect has a spelling as a keyword if the spelling is common to all dialects, or if the dialect has one of its
families. -/
def Activates (dialect : Dialect) (entry : KeywordSpelling) : Prop :=
  entry.families.contains .all ∨ (dialect.c99 ∧ entry.families.contains .c99) ∨
    (dialect.gnu ∧ entry.families.contains .gnu) ∨ (dialect.microsoft ∧ entry.families.contains .microsoft) ∨
    (dialect.boolean ∧ entry.families.contains .boolean)

instance (dialect : Dialect) (entry : KeywordSpelling) : Decidable (dialect.Activates entry) :=
  inferInstanceAs (Decidable (_ ∨ _))

/-- A dialect has a spelling only as an extension if no standard provides it and one of the extensions does. -/
def OnlyExtends (dialect : Dialect) (entry : KeywordSpelling) : Prop :=
  ¬entry.families.contains .all ∧ ¬(dialect.c99 ∧ entry.families.contains .c99) ∧
    ((dialect.gnu ∧ entry.families.contains .gnu) ∨ (dialect.microsoft ∧ entry.families.contains .microsoft))

instance (dialect : Dialect) (entry : KeywordSpelling) : Decidable (dialect.OnlyExtends entry) :=
  inferInstanceAs (Decidable (_ ∧ _))

/-- A word is a keyword of a dialect if one of the spellings that the dialect has is that word. -/
def HasKeyword (dialect : Dialect) (word : String) : Prop :=
  ∃ entry ∈ KeywordSpelling.all, entry.spelling = word ∧ dialect.Activates entry

/-- A word is an extension keyword of a dialect if the dialect has it as a keyword, and only as an extension. -/
def HasExtension (dialect : Dialect) (word : String) : Prop :=
  ∃ entry ∈ KeywordSpelling.all, entry.spelling = word ∧ dialect.Activates entry ∧ dialect.OnlyExtends entry

instance (dialect : Dialect) (word : String) : Decidable (dialect.HasKeyword word) :=
  inferInstanceAs (Decidable (∃ entry ∈ _, _))

instance (dialect : Dialect) (word : String) : Decidable (dialect.HasExtension word) :=
  inferInstanceAs (Decidable (∃ entry ∈ _, _))

end Dialect

namespace KeywordSpelling

theorem mem_all_of_keyword (keyword : Keyword) : ⟨keyword.spelling, keyword, keyword.families⟩ ∈ all := by
  have listed : keyword ∈ Keyword.all := Array.mem_of_getElem? keyword.all_position
  exact List.mem_append_left alternate (List.mem_map.mpr ⟨keyword, Array.mem_toList_iff.mpr listed, rfl⟩)

theorem length_all : all.length = 89 := by decide

theorem nodup_spellings : (all.map KeywordSpelling.spelling).Nodup := by decide +kernel

theorem eq_of_spelling {left right : KeywordSpelling} (first : left ∈ all) (second : right ∈ all)
    (same : left.spelling = right.spelling) : left = right :=
  List.inj_on_of_nodup_map nodup_spellings first second same

/-- The order in which the families are looked at decides only whether a keyword counts as an extension. -/
theorem active?_eq (entry : KeywordSpelling) (dialect : Dialect) : entry.active? dialect =
    if dialect.Activates entry then some ⟨entry.spelling, entry.keyword, dialect.OnlyExtends entry⟩ else none := by
  unfold active? Families.availability Dialect.Activates Dialect.OnlyExtends
  by_cases common : entry.families.contains .all
  · simp [common]
  by_cases standard : dialect.c99 ∧ entry.families.contains .c99
  · simp [common, standard]
  by_cases gnu : dialect.gnu ∧ entry.families.contains .gnu
  · simp [common, standard, gnu]
  by_cases microsoft : dialect.microsoft ∧ entry.families.contains .microsoft
  · simp [common, standard, gnu, microsoft]
  by_cases boolean : dialect.boolean ∧ entry.families.contains .boolean
  · simp [common, standard, gnu, microsoft, boolean]
  · simp [common, standard, gnu, microsoft, boolean]

end KeywordSpelling

namespace Dialect
variable {dialect : Dialect} {word : String}

def keyword? (dialect : Dialect) (word : String) : Option ActiveKeyword :=
  dialect.keywords.find? (·.spelling = word)

theorem keywords_eq (dialect : Dialect) : dialect.keywords =
    (KeywordSpelling.all.filter (dialect.Activates ·)).map fun entry =>
      ⟨entry.spelling, entry.keyword, dialect.OnlyExtends entry⟩ := by
  unfold keywords
  simp only [KeywordSpelling.active?_eq]
  induction KeywordSpelling.all with
  | nil => rfl
  | cons entry rest ih =>
    by_cases active : dialect.Activates entry
    · simp [active, ih]
    · simp [active, ih]

theorem mem_keywords {active : ActiveKeyword} : active ∈ dialect.keywords ↔ ∃ entry ∈ KeywordSpelling.all,
    dialect.Activates entry ∧ active = ⟨entry.spelling, entry.keyword, dialect.OnlyExtends entry⟩ := by
  rw [keywords_eq, List.mem_map]
  constructor
  · intro given
    obtain ⟨entry, member, rfl⟩ := given
    obtain ⟨listed, active⟩ := List.mem_filter.mp member
    exact ⟨entry, listed, of_decide_eq_true active, rfl⟩
  · intro given
    obtain ⟨entry, listed, active, rfl⟩ := given
    exact ⟨entry, List.mem_filter.mpr ⟨listed, decide_eq_true active⟩, rfl⟩

theorem nodup_keywords (dialect : Dialect) : (dialect.keywords.map ActiveKeyword.spelling).Nodup := by
  rw [keywords_eq, List.map_map]
  exact KeywordSpelling.nodup_spellings.sublist (List.filter_sublist.map KeywordSpelling.spelling)

theorem keyword?_eq_some {active : ActiveKeyword} :
    dialect.keyword? word = some active ↔ active ∈ dialect.keywords ∧ active.spelling = word := by
  constructor
  · intro found
    exact ⟨List.mem_of_find?_eq_some found, by simpa using List.find?_some found⟩
  · intro given
    obtain ⟨member, rfl⟩ := given
    cases found : dialect.keyword? active.spelling with
    | none => exact absurd (List.find?_eq_none.mp found active member) (by simp)
    | some other =>
      have spelled : other.spelling = active.spelling := by simpa using List.find?_some found
      rw [List.inj_on_of_nodup_map dialect.nodup_keywords (List.mem_of_find?_eq_some found) member spelled]

theorem keyword?_of_activates {entry : KeywordSpelling} (listed : entry ∈ KeywordSpelling.all)
    (active : dialect.Activates entry) : dialect.keyword? entry.spelling =
      some ⟨entry.spelling, entry.keyword, dialect.OnlyExtends entry⟩ :=
  keyword?_eq_some.mpr ⟨mem_keywords.mpr ⟨entry, listed, active, rfl⟩, rfl⟩

theorem keyword?_of_not_activates {entry : KeywordSpelling} (listed : entry ∈ KeywordSpelling.all)
    (inactive : ¬dialect.Activates entry) : dialect.keyword? entry.spelling = none := by
  rw [Option.eq_none_iff_forall_ne_some]
  intro active found
  obtain ⟨member, same⟩ := keyword?_eq_some.mp found
  obtain ⟨other, also, active, rfl⟩ := mem_keywords.mp member
  exact inactive (KeywordSpelling.eq_of_spelling also listed same ▸ active)

theorem isSome_keyword? : (dialect.keyword? word).isSome ↔ dialect.HasKeyword word := by
  rw [Option.isSome_iff_exists]
  constructor
  · intro given
    obtain ⟨active, found⟩ := given
    obtain ⟨member, rfl⟩ := keyword?_eq_some.mp found
    obtain ⟨entry, listed, active, rfl⟩ := mem_keywords.mp member
    exact ⟨entry, listed, rfl, active⟩
  · intro given
    obtain ⟨entry, listed, rfl, active⟩ := given
    exact ⟨_, keyword?_of_activates listed active⟩

theorem hasExtension_iff : dialect.HasExtension word ↔
    ∃ active, dialect.keyword? word = some active ∧ active.extension := by
  constructor
  · intro given
    obtain ⟨entry, listed, rfl, active, extends_⟩ := given
    exact ⟨_, keyword?_of_activates listed active, decide_eq_true extends_⟩
  · intro given
    obtain ⟨active, found, extends_⟩ := given
    obtain ⟨member, rfl⟩ := keyword?_eq_some.mp found
    obtain ⟨entry, listed, active, rfl⟩ := mem_keywords.mp member
    exact ⟨entry, listed, rfl, active, of_decide_eq_true extends_⟩

end Dialect
end Canon

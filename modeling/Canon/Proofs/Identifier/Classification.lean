import Canon.Proofs.Identifier.Fields
import Canon.Proofs.Identifier.Growth
import Canon.Proofs.Token.Keywords

/-!
What a table makes of the spellings it has bound. Getting a spelling makes a plain identifier of it if it is new, and
registering the keywords of a dialect classifies the spellings of the dialect and leaves everything else as it is.
-/
namespace Canon.Identifier

def Record.standing (record : Record) : Token × Bool := (record.token, record.has .extension)

@[simp] theorem Record.standing_fresh (symbol : Symbol) : (fresh symbol).standing = (.identifier, false) := by
  simp [standing]

@[simp] theorem Record.standing_classify (keyword : Keyword) (extension : Bool) (record : Record) :
    (record.classify keyword extension).standing = (.keyword keyword, extension) := by
  simp [standing, classify]

/-- Two records that differ at most in their token and in their extension mark. -/
structure Record.Resembles (left right : Record) : Prop where
  builtin : left.builtin = right.builtin
  defined : left.has .defined = right.has .defined
  poisoned : left.has .poisoned = right.has .poisoned
  frontEnd : left.frontEnd = right.frontEnd
  entry : left.entry = right.entry

theorem Record.Resembles.refl (record : Record) : record.Resembles record := ⟨rfl, rfl, rfl, rfl, rfl⟩

theorem Record.Resembles.trans {first second third : Record} (early : first.Resembles second)
    (late : second.Resembles third) : first.Resembles third where
  builtin := early.builtin.trans late.builtin
  defined := early.defined.trans late.defined
  poisoned := early.poisoned.trans late.poisoned
  frontEnd := early.frontEnd.trans late.frontEnd
  entry := early.entry.trans late.entry

theorem Record.classify_resembles (keyword : Keyword) (extension : Bool) (record : Record) :
    (record.classify keyword extension).Resembles record where
  builtin := by simp [classify]
  defined := by simp [classify, has_setMark_other]
  poisoned := by simp [classify, has_setMark_other]
  frontEnd := by
    rw [classify, frontEnd_setMark]
    rfl
  entry := record.classify_entry keyword extension

namespace Table
variable {table : Table} {spelling : String} {id : IdentifierId}

def standing? (table : Table) (spelling : String) : Option (Token × Bool) :=
  (table.find? spelling).bind fun id => (table.records.get? id).map Record.standing

theorem get_of_find? (found : table.find? spelling = some id) : table.get spelling = (id, table) := by
  obtain ⟨symbol, interned, bound⟩ := find?_eq_some.mp found
  unfold get
  rw [intern_of_find? interned]
  dsimp only
  rw [bound]

theorem lexicon_get (table : Table) (spelling : String) :
    (table.get spelling).2.lexicon = (table.lexicon.intern spelling).2 := by
  unfold get
  dsimp only
  split <;> rfl

theorem size_le_get (table : Table) (spelling : String) :
    table.lexicon.size ≤ (table.get spelling).2.lexicon.size := by
  rw [lexicon_get]
  exact Lexicon.size_le_intern table.lexicon spelling

theorem size_get_le (table : Table) (spelling : String) :
    (table.get spelling).2.lexicon.size ≤ table.lexicon.size + 1 := by
  rw [lexicon_get]
  exact Lexicon.size_intern_le table.lexicon spelling

namespace Canonical

theorem exists_record (canonical : table.Canonical) (found : table.find? spelling = some id) :
    ∃ record, table.records.get? id = some record ∧ table.standing? spelling = some record.standing := by
  obtain ⟨symbol, -, bound⟩ := find?_eq_some.mp found
  obtain ⟨record, entered, -⟩ := (canonical.bound_iff symbol id).mp bound
  exact ⟨record, entered, by rw [standing?, found, Option.bind_some, entered, Option.map_some]⟩

theorem isSome_standing? (canonical : table.Canonical) :
    (table.standing? spelling).isSome ↔ (table.find? spelling).isSome := by
  cases found : table.find? spelling with
  | none => simp [standing?, found]
  | some id =>
    obtain ⟨record, -, standing⟩ := canonical.exists_record found
    simp [standing]

theorem get_of_find?_none (canonical : table.Canonical) (room : table.lexicon.size < 4294967295)
    (free : table.find? spelling = none) : (table.intern spelling).2.bound? (table.intern spelling).1 = none ∧
      table.get spelling = (table.intern spelling).2.allocate (table.intern spelling).1 := by
  have unbound : (table.intern spelling).2.bound? (table.intern spelling).1 = none := by
    rw [← find?_intern_self, canonical.find?_intern room, free]
  refine ⟨unbound, ?_⟩
  unfold get
  dsimp only
  rw [unbound]

theorem get (canonical : table.Canonical) (room : (table.get spelling).2.lexicon.size < 4294967295) :
    (table.get spelling).2.Canonical ∧ table.Extends (table.get spelling).2 := by
  cases found : table.find? spelling with
  | some id =>
    rw [get_of_find? found]
    exact ⟨canonical, .refl table⟩
  | none =>
    have before : table.lexicon.size < 4294967295 := Nat.lt_of_le_of_lt (size_le_get table spelling) room
    obtain ⟨unbound, allocated⟩ := canonical.get_of_find?_none before found
    have interned := canonical.intern before spelling
    have issued := interned.faithful.index_lt_size (table.symbol_intern spelling)
    rw [allocated] at room ⊢
    exact ⟨interned.allocate room issued unbound, (extends_intern table spelling).trans (extends_allocate unbound)⟩

theorem find?_get (canonical : table.Canonical) (room : (table.get spelling).2.lexicon.size < 4294967295)
    (other : String) : (table.get spelling).2.find? other =
      if other = spelling then some (table.get spelling).1 else table.find? other := by
  cases found : table.find? spelling with
  | some id =>
    rw [get_of_find? found]
    split
    · next same => rw [same, found]
    · rfl
  | none =>
    have before : table.lexicon.size < 4294967295 := Nat.lt_of_le_of_lt (size_le_get table spelling) room
    rw [(canonical.get_of_find?_none before found).2,
      (canonical.intern before spelling).find?_allocate (table.symbol_intern spelling), canonical.find?_intern before]

theorem get?_get {record : Record} (canonical : table.Canonical)
    (room : (table.get spelling).2.lexicon.size < 4294967295) (entered : table.records.get? id = some record) :
    (table.get spelling).2.records.get? id = some record := by
  cases found : table.find? spelling with
  | some other =>
    rw [get_of_find? found]
    exact entered
  | none =>
    have before : table.lexicon.size < 4294967295 := Nat.lt_of_le_of_lt (size_le_get table spelling) room
    have old : id.index < table.size := (Array.getElem?_eq_some_iff.mp entered).choose
    rw [(canonical.get_of_find?_none before found).2, get?_allocate, if_neg]
    · exact entered
    · exact Nat.ne_of_lt old

theorem standing?_get (canonical : table.Canonical) (room : (table.get spelling).2.lexicon.size < 4294967295)
    (other : String) : (table.get spelling).2.standing? other =
      if other = spelling then some ((table.standing? spelling).getD (.identifier, false))
      else table.standing? other := by
  have kept : ∀ {word id}, table.find? word = some id → (table.get spelling).2.find? word = some id →
      (table.get spelling).2.standing? word = table.standing? word := by
    intro word id found still
    obtain ⟨record, entered, standing⟩ := canonical.exists_record found
    rw [standing, standing?, still, Option.bind_some, canonical.get?_get room entered, Option.map_some]
  split
  · next same =>
    rw [same]
    cases found : table.find? spelling with
    | some id =>
      obtain ⟨record, -, standing⟩ := canonical.exists_record found
      have still : (table.get spelling).2.find? spelling = some id := by rw [get_of_find? found, found]
      rw [kept found still, standing]
      rfl
    | none =>
      have before : table.lexicon.size < 4294967295 := Nat.lt_of_le_of_lt (size_le_get table spelling) room
      have space : table.size < 4294967296 := by
        have fits := canonical.fits
        omega
      obtain ⟨-, allocated⟩ := canonical.get_of_find?_none before found
      rw [standing?, standing?, canonical.find?_get room, if_pos rfl, found, Option.bind_some, allocated, get?_allocate]
      rw [if_pos]
      · simp
      · exact Handle.index_atIndex space
  · next different =>
    cases found : table.find? other with
    | some id =>
      apply kept found
      rw [canonical.find?_get room, if_neg different, found]
    | none =>
      rw [standing?, standing?, canonical.find?_get room, if_neg different, found, Option.bind_none, Option.bind_none]

theorem standing?_modify (canonical : table.Canonical) (found : table.find? spelling = some id)
    (change : Record → Record) (other : String) : (table.modify id change).standing? other =
      if other = spelling then (table.records.get? id).map fun record => (change record).standing
      else table.standing? other := by
  change (table.find? other).bind (fun number => ((table.records.modify id change).get? number).map Record.standing) = _
  split
  · next same =>
    rw [same, found, Option.bind_some, Registry.get?_modify, if_pos rfl, Option.map_map]
    rfl
  · next different =>
    cases also : table.find? other with
    | none => rw [standing?, also, Option.bind_none, Option.bind_none]
    | some number =>
      have apart : Indexed.index id ≠ Indexed.index number := by
        intro same
        rw [Overlay.index_injective same] at found
        exact different (canonical.spelling_eq also found)
      rw [standing?, also, Option.bind_some, Option.bind_some, Registry.get?_modify, if_neg apart]

end Canonical

def Retains (before after : Table) : Prop :=
  ∀ id old, before.records.get? id = some old → ∃ new, after.records.get? id = some new ∧ new.Resembles old

theorem Retains.refl (table : Table) : table.Retains table := fun _ old entered => ⟨old, entered, .refl old⟩

theorem Retains.trans {first second third : Table} (early : first.Retains second) (late : second.Retains third) :
    first.Retains third := by
  intro id old entered
  obtain ⟨middle, kept, resembles⟩ := early id old entered
  obtain ⟨new, still, also⟩ := late id middle kept
  exact ⟨new, still, also.trans resembles⟩

def register (table : Table) (active : ActiveKeyword) : Table :=
  (table.get active.spelling).2.modify (table.get active.spelling).1 (·.classify active.keyword active.extension)

theorem addKeywords_eq (dialect : Dialect) (table : Table) :
    table.addKeywords dialect = dialect.keywords.foldl register table := rfl

theorem size_le_register (table : Table) (active : ActiveKeyword) :
    table.lexicon.size ≤ (table.register active).lexicon.size :=
  size_le_get table active.spelling

theorem size_le_foldl_register (keywords : List ActiveKeyword) (table : Table) :
    table.lexicon.size ≤ (keywords.foldl register table).lexicon.size := by
  induction keywords generalizing table with
  | nil => exact Nat.le_refl _
  | cons active rest ih => exact Nat.le_trans (table.size_le_register active) (ih _)

theorem size_register_le (table : Table) (active : ActiveKeyword) :
    (table.register active).lexicon.size ≤ table.lexicon.size + 1 :=
  size_get_le table active.spelling

theorem size_addKeywords_le (dialect : Dialect) (table : Table) :
    (table.addKeywords dialect).lexicon.size ≤ table.lexicon.size + KeywordSpelling.all.length := by
  have grown : ∀ (keywords : List ActiveKeyword) (table : Table),
      (keywords.foldl register table).lexicon.size ≤ table.lexicon.size + keywords.length := by
    intro keywords
    induction keywords with
    | nil => exact fun table => Nat.le_refl _
    | cons active rest ih =>
      intro table
      have one := table.size_register_le active
      have more := ih (table.register active)
      rw [List.foldl_cons, List.length_cons]
      omega
  have few : dialect.keywords.length ≤ KeywordSpelling.all.length := List.length_filterMap_le _ KeywordSpelling.all
  have whole := grown dialect.keywords table
  rw [addKeywords_eq]
  omega

namespace Canonical

theorem register {active : ActiveKeyword} (canonical : table.Canonical)
    (room : (table.register active).lexicon.size < 4294967295) :
    (table.register active).Canonical ∧ table.Extends (table.register active) ∧
      table.Retains (table.register active) := by
  obtain ⟨got, extended⟩ := canonical.get room
  refine ⟨got.modify fun record _ => record.classify_entry active.keyword active.extension,
    ⟨extended.symbols, extended.bound⟩, fun id old entered => ?_⟩
  have still := canonical.get?_get room entered
  rw [Table.register]
  change ∃ new, ((table.get active.spelling).2.records.modify _ _).get? id = some new ∧ _
  rw [Registry.get?_modify, still]
  split
  · exact ⟨_, rfl, old.classify_resembles active.keyword active.extension⟩
  · exact ⟨old, rfl, .refl old⟩

theorem standing?_register {active : ActiveKeyword} (canonical : table.Canonical)
    (room : (table.register active).lexicon.size < 4294967295) (other : String) :
    (table.register active).standing? other =
      if other = active.spelling then some (.keyword active.keyword, active.extension)
      else table.standing? other := by
  obtain ⟨got, -⟩ := canonical.get room
  have found := canonical.find?_get room active.spelling
  rw [if_pos rfl] at found
  obtain ⟨record, entered, -⟩ := got.exists_record found
  rw [Table.register, got.standing?_modify found, entered, Option.map_some, Record.standing_classify]
  split
  · rfl
  · next different => rw [canonical.standing?_get room, if_neg different]

theorem foldl_register (canonical : table.Canonical) {keywords : List ActiveKeyword}
    (room : (keywords.foldl Table.register table).lexicon.size < 4294967295)
    (distinct : (keywords.map ActiveKeyword.spelling).Nodup) :
    (keywords.foldl Table.register table).Canonical ∧ table.Extends (keywords.foldl Table.register table) ∧
      table.Retains (keywords.foldl Table.register table) ∧
      ∀ word, (keywords.foldl Table.register table).standing? word =
        ((keywords.find? (·.spelling = word)).map fun active => (Token.keyword active.keyword, active.extension)).or
          (table.standing? word) := by
  induction keywords generalizing table with
  | nil => exact ⟨canonical, .refl table, .refl table, fun word => by simp⟩
  | cons active rest ih =>
    have before := Nat.lt_of_le_of_lt (size_le_foldl_register rest (table.register active)) room
    obtain ⟨registered, extended, retained⟩ := canonical.register before
    obtain ⟨absent, distinct⟩ := List.nodup_cons.mp distinct
    obtain ⟨last, more, also, standing⟩ := ih registered room distinct
    refine ⟨last, extended.trans more, retained.trans also, fun word => ?_⟩
    rw [List.foldl_cons, standing, canonical.standing?_register before, List.find?_cons]
    by_cases same : active.spelling = word
    · have unlisted : rest.find? (·.spelling = word) = none := by
        rw [List.find?_eq_none]
        intro other member spelled
        exact absent (List.mem_map.mpr ⟨other, member, (of_decide_eq_true spelled).trans same.symm⟩)
      simp [unlisted, same]
    · simp [same, Ne.symm same]

theorem addKeywords (canonical : table.Canonical) {dialect : Dialect}
    (room : (table.addKeywords dialect).lexicon.size < 4294967295) :
    (table.addKeywords dialect).Canonical ∧ table.Extends (table.addKeywords dialect) ∧
      table.Retains (table.addKeywords dialect) ∧
      ∀ word, (table.addKeywords dialect).standing? word =
        ((dialect.keyword? word).map fun active => (Token.keyword active.keyword, active.extension)).or
          (table.standing? word) := by
  rw [addKeywords_eq] at room ⊢
  exact canonical.foldl_register room dialect.nodup_keywords

end Canonical
end Table
end Canon.Identifier

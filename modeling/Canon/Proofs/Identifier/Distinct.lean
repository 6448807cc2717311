import Canon.Identifier.Statistics
import Canon.Proofs.Identifier.Growth
import Canon.Proofs.Lexicon.Stored

/-!
A table is distinct if every record has an entry of its own, which is bound. What it is bound to does not matter:
sources may bind a spelling to the record of another one, so that looking up and naming need not agree. Still no two
records share an entry, and the statistics say nothing impossible.
-/
namespace Canon.Identifier.Table
variable {table : Table} {spelling : String} {symbol : Symbol} {id : IdentifierId}

def entries (table : Table) : List Symbol := table.records.values.map Record.entry

structure Distinct (table : Table) : Prop where
  faithful : table.lexicon.Faithful
  stores : table.lexicon.Stores
  nodup : table.entries.Nodup
  bound : ∀ symbol ∈ table.entries, (table.bound? symbol).isSome
  issued : ∀ symbol, (table.bound? symbol).isSome → symbol.index.val < table.lexicon.size

theorem distinct_empty : empty.Distinct where
  faithful := Lexicon.faithful_empty
  stores := Lexicon.stores_empty
  nodup := List.nodup_nil
  bound symbol member := by cases member
  issued symbol bound := by
    rw [bound?, empty, Overlay.get_constant] at bound
    cases bound

theorem entries_allocate (table : Table) (symbol : Symbol) :
    (table.allocate symbol).2.entries = table.entries ++ [symbol] := by
  show (table.records.records.push (Record.fresh symbol)).toList.map Record.entry = _
  rw [Array.toList_push, List.map_append]
  rfl

theorem entries_modify {change : Record → Record}
    (kept : ∀ record, table.records.get? id = some record → (change record).entry = record.entry) :
    (table.modify id change).entries = table.entries := by
  show (table.records.records.modify (Indexed.index id) change).toList.map Record.entry =
    table.records.records.toList.map Record.entry
  apply List.ext_getElem?
  intro index
  rw [List.getElem?_map, List.getElem?_map, Array.getElem?_toList, Array.getElem?_toList, Array.getElem?_modify]
  by_cases same : Indexed.index id = index
  · rw [if_pos same, ← same]
    cases entered : table.records.records[Indexed.index id]? with
    | none => rfl
    | some record => exact congrArg some (kept record entered)
  · rw [if_neg same]

theorem entries_getElem? {record : Record} (read : table.info id = .ok record) :
    table.entries[id.index]? = some record.entry := by
  have entered : table.records.records[id.index]? = some record := Registry.get_eq_ok_iff.mp read
  show (table.records.records.toList.map Record.entry)[id.index]? = some record.entry
  rw [List.getElem?_map, Array.getElem?_toList, entered]
  rfl

namespace Distinct

theorem intern (distinct : table.Distinct) (room : table.lexicon.size < 4294967295) (spelling : String) :
    (table.intern spelling).2.Distinct where
  faithful := distinct.faithful.intern room spelling
  stores := distinct.stores.intern spelling
  nodup := distinct.nodup
  bound := distinct.bound
  issued symbol bound := Nat.lt_of_lt_of_le (distinct.issued symbol bound) (Lexicon.size_le_intern _ _)

theorem allocate (distinct : table.Distinct) (interned : table.lexicon.find? spelling = some symbol)
    (unbound : table.bound? symbol = none) : (table.allocate symbol).2.Distinct where
  faithful := distinct.faithful
  stores := distinct.stores
  nodup := by
    rw [entries_allocate]
    refine List.nodup_append.mpr ⟨distinct.nodup, List.nodup_singleton symbol, ?_⟩
    intro old member new last same
    have bound := distinct.bound old member
    rw [same, List.mem_singleton.mp last, unbound] at bound
    cases bound
  bound other member := by
    rw [entries_allocate] at member
    rcases List.mem_append.mp member with old | new
    · exact (Grows.allocate table symbol).bound other (distinct.bound other old)
    · rw [Canonical.bound?_allocate, if_pos (List.mem_singleton.mp new)]
      rfl
  issued other bound := by
    rw [Canonical.bound?_allocate] at bound
    by_cases same : other = symbol
    · rw [same]
      exact distinct.faithful.index_lt_size interned
    · rw [if_neg same] at bound
      exact distinct.issued other bound

theorem bind (distinct : table.Distinct) (interned : table.lexicon.find? spelling = some symbol)
    (id : IdentifierId) : (table.bind symbol id).Distinct where
  faithful := distinct.faithful
  stores := distinct.stores
  nodup := distinct.nodup
  bound other member := (Grows.bind table symbol id).bound other (distinct.bound other member)
  issued other bound := by
    rw [bound?_bind] at bound
    by_cases same : other = symbol
    · rw [same]
      exact distinct.faithful.index_lt_size interned
    · rw [if_neg same] at bound
      exact distinct.issued other bound

theorem modify (distinct : table.Distinct) {change : Record → Record}
    (kept : ∀ record, table.records.get? id = some record → (change record).entry = record.entry) :
    (table.modify id change).Distinct where
  faithful := distinct.faithful
  stores := distinct.stores
  nodup := by
    rw [entries_modify kept]
    exact distinct.nodup
  bound := by
    rw [entries_modify kept]
    exact distinct.bound
  issued := distinct.issued

theorem find?_bind (distinct : table.Distinct) (interned : table.lexicon.find? spelling = some symbol)
    (id : IdentifierId) (other : String) :
    (table.bind symbol id).find? other = if other = spelling then some id else table.find? other := by
  show (table.lexicon.find? other).bind (table.bind symbol id).bound? = _
  by_cases same : other = spelling
  · rw [if_pos same, same, interned, Option.bind_some, bound?_bind, if_pos rfl]
  · rw [if_neg same, find?]
    cases known : table.lexicon.find? other with
    | none => rfl
    | some name =>
      rw [Option.bind_some, Option.bind_some, bound?_bind, if_neg]
      intro equal
      exact same (distinct.faithful.eq_of_find? (equal ▸ known) interned)

theorem mem_spellings (distinct : table.Distinct) :
    (spelling, id) ∈ table.spellings ↔ table.find? spelling = some id := by
  unfold spellings
  rw [List.mem_filterMap, find?_eq_some]
  constructor
  · intro member
    obtain ⟨⟨symbol, name⟩, entered, listed⟩ := member
    obtain ⟨other, bound, same⟩ := Option.map_eq_some_iff.mp listed
    obtain ⟨rfl, rfl⟩ := Prod.mk.inj same
    exact ⟨symbol, distinct.faithful.mem_toList.mp entered, bound⟩
  · intro given
    obtain ⟨symbol, interned, bound⟩ := given
    refine ⟨(symbol, spelling), distinct.faithful.mem_toList.mpr interned, ?_⟩
    exact congrArg (Option.map (spelling, ·)) bound

theorem exists_spelling (distinct : table.Distinct) (member : symbol ∈ table.entries) :
    ∃ spelling, table.lexicon.find? spelling = some symbol ∧ (table.find? spelling).isSome := by
  have bound := distinct.bound symbol member
  obtain ⟨spelling, interned⟩ := distinct.faithful.find?_of_index_lt (distinct.issued symbol bound)
  refine ⟨spelling, interned, ?_⟩
  rw [find?, interned]
  exact bound

theorem entry_eq_iff (distinct : table.Distinct) {left right : IdentifierId} {one two : Record}
    (first : table.info left = .ok one) (second : table.info right = .ok two) :
    one.entry = two.entry ↔ left = right := by
  constructor
  · intro same
    have here := entries_getElem? first
    have there := entries_getElem? second
    rw [same, ← there] at here
    have inside : left.index < table.entries.length := (List.getElem?_eq_some_iff.mp (here.trans there)).choose
    exact Handle.ext_index ((List.getElem?_inj inside distinct.nodup).mp here)
  · intro same
    rw [same, second] at first
    exact congrArg Record.entry (Except.ok.inj first).symm

theorem exists_name (distinct : table.Distinct) {record : Record} (read : table.info id = .ok record) :
    ∃ spelling, table.name id = .ok spelling ∧ table.lexicon.find? spelling = some record.entry := by
  have member : record.entry ∈ table.entries := List.mem_of_getElem? (entries_getElem? read)
  obtain ⟨spelling, interned, -⟩ := distinct.exists_spelling member
  refine ⟨spelling, name_eq_ok.mpr ⟨record, Registry.get_eq_ok_iff.mp read, ?_⟩, interned⟩
  exact (distinct.faithful.find?_iff spelling record.entry).mp interned

/-- There are no more records than bound spellings: the entries of the records are spelled differently. -/
theorem records_le_spellings (distinct : table.Distinct) :
    table.statistics.records ≤ table.statistics.spellings := by
  have spelled : ∀ symbol ∈ table.entries, ∃ spelling, table.lexicon.get? symbol = some spelling ∧
      spelling ∈ table.spellings.map Prod.fst := by
    intro symbol member
    obtain ⟨spelling, interned, bound⟩ := distinct.exists_spelling member
    obtain ⟨id, found⟩ := Option.isSome_iff_exists.mp bound
    exact ⟨spelling, (distinct.faithful.find?_iff spelling symbol).mp interned,
      List.mem_map.mpr ⟨(spelling, id), distinct.mem_spellings.mpr found, rfl⟩⟩
  have different : (table.entries.map fun symbol => (table.lexicon.get? symbol).getD "").Nodup := by
    refine List.Nodup.map_on ?_ distinct.nodup
    intro left first right second same
    obtain ⟨one, here, -⟩ := spelled left first
    obtain ⟨two, there, -⟩ := spelled right second
    rw [here, there, Option.getD_some, Option.getD_some] at same
    rw [← distinct.faithful.find?_iff] at here there
    rw [same, there] at here
    exact (Option.some.inj here).symm
  have among : (table.entries.map fun symbol => (table.lexicon.get? symbol).getD "") ⊆ table.spellings.map Prod.fst := by
    intro spelling member
    obtain ⟨symbol, entered, rfl⟩ := List.mem_map.mp member
    obtain ⟨spelling, read, listed⟩ := spelled symbol entered
    rw [read]
    exact listed
  have fewer := (List.subperm_of_subset different among).length_le
  rw [List.length_map, List.length_map, entries, List.length_map] at fewer
  show table.records.records.size ≤ (table.spellings.map (·.1.utf8ByteSize)).length
  rw [List.length_map, ← Array.length_toList]
  exact fewer

end Distinct

theorem map_fst_spellings (table : Table) : table.spellings.map Prod.fst =
    (table.lexicon.toList.filter fun entry => (table.bound? entry.1).isSome).map Prod.snd := by
  unfold spellings
  induction table.lexicon.toList with
  | nil => rfl
  | cons entry rest ih =>
    obtain ⟨symbol, spelling⟩ := entry
    rw [List.filterMap_cons, List.filter_cons]
    dsimp only
    cases table.bound? symbol with
    | none => exact ih
    | some id => exact congrArg (spelling :: ·) ih

theorem Distinct.nodup_bound (distinct : table.Distinct) : (table.spellings.map Prod.fst).Nodup := by
  rw [map_fst_spellings]
  have part := (List.filter_sublist (l := table.lexicon.toList) (p := fun entry =>
    (table.bound? entry.1).isSome)).map Prod.snd
  rw [Lexicon.map_snd_toList] at part
  exact part.nodup distinct.faithful.nodup_spellings

theorem Distinct.mem_bound (distinct : table.Distinct) :
    spelling ∈ table.spellings.map Prod.fst ↔ (table.find? spelling).isSome := by
  rw [List.mem_map, Option.isSome_iff_exists]
  constructor
  · rintro ⟨⟨name, id⟩, listed, rfl⟩
    exact ⟨id, distinct.mem_spellings.mp listed⟩
  · rintro ⟨id, found⟩
    exact ⟨(spelling, id), distinct.mem_spellings.mpr found, rfl⟩

theorem totalLength_eq (table : Table) :
    table.statistics.totalLength = Lexicon.totalLength (table.spellings.map Prod.fst) := by
  unfold Lexicon.totalLength
  rw [List.map_map]
  rfl

theorem Distinct.storedBytes_eq (distinct : table.Distinct) (settled : ∀ spelling, ¬table.Pending spelling) :
    table.statistics.storedBytes = table.statistics.totalLength := by
  have bound : ∀ entry ∈ table.lexicon.toList, (table.bound? entry.1).isSome = true := by
    intro entry member
    have interned := distinct.faithful.mem_toList.mp member
    cases unbound : table.bound? entry.1 with
    | some id => rfl
    | none => exact absurd ⟨entry.1, interned, unbound⟩ (settled entry.2)
  have all : table.spellings.map Prod.fst = table.lexicon.spellings.toList := by
    rw [map_fst_spellings, List.filter_eq_self.mpr bound, Lexicon.map_snd_toList]
  rw [totalLength_eq, all]
  exact distinct.stores

end Canon.Identifier.Table

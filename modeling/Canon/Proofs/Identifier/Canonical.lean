import Mathlib.Data.List.Dedup
import Mathlib.Data.List.Perm.Subperm
import Canon.Identifier.Table
import Canon.Proofs.Lexicon.Faithful

/-!
A table is canonical if its bindings and its records say the same: every record is bound to its own spelling, and
nothing else is bound. Then looking a spelling up and reading the name of a record are inverse to each other.
-/
namespace Canon.Identifier.Table

structure Canonical (table : Table) : Prop where
  faithful : table.lexicon.Faithful
  bound_iff : ∀ symbol id,
    table.bound? symbol = some id ↔ ∃ record, table.records.get? id = some record ∧ record.entry = symbol
  issued : ∀ symbol id, table.bound? symbol = some id → symbol.index.val < table.lexicon.size
  fits : table.size ≤ table.lexicon.size

theorem canonical_empty : empty.Canonical where
  faithful := Lexicon.faithful_empty
  bound_iff symbol id := by simp [empty, bound?]
  issued symbol id bound := by simp [empty, bound?] at bound
  fits := Nat.le_refl 0

/-- Symbols and bindings are kept. -/
structure Extends (before after : Table) : Prop where
  symbols : ∀ spelling symbol, before.lexicon.find? spelling = some symbol →
    after.lexicon.find? spelling = some symbol
  bound : ∀ symbol id, before.bound? symbol = some id → after.bound? symbol = some id

theorem Extends.refl (table : Table) : table.Extends table := ⟨fun _ _ => id, fun _ _ => id⟩

theorem Extends.trans {first second third : Table} (early : first.Extends second) (late : second.Extends third) :
    first.Extends third where
  symbols spelling symbol found := late.symbols spelling symbol (early.symbols spelling symbol found)
  bound symbol id bound := late.bound symbol id (early.bound symbol id bound)

theorem find?_eq_some {table : Table} {spelling : String} {id : IdentifierId} :
    table.find? spelling = some id ↔
      ∃ symbol, table.lexicon.find? spelling = some symbol ∧ table.bound? symbol = some id :=
  Option.bind_eq_some_iff

theorem Extends.find? {before after : Table} (extends_ : before.Extends after) {spelling : String} {id : IdentifierId}
    (found : before.find? spelling = some id) : after.find? spelling = some id := by
  obtain ⟨symbol, interned, bound⟩ := find?_eq_some.mp found
  exact find?_eq_some.mpr ⟨symbol, extends_.symbols _ _ interned, extends_.bound _ _ bound⟩

theorem name_eq_ok {table : Table} {id : IdentifierId} {spelling : String} : table.name id = .ok spelling ↔
    ∃ record, table.records.get? id = some record ∧ table.lexicon.get? record.entry = some spelling := by
  unfold name info Registry.get
  cases table.records.get? id with
  | none => simp [Bind.bind, Except.bind]
  | some record =>
    simp only [Bind.bind, Except.bind, Lexicon.get, Option.some.injEq, exists_eq_left']
    cases table.lexicon.get? record.entry with
    | none => simp
    | some name => simp

namespace Canonical
variable {table : Table} {spelling : String} {symbol : Symbol} {id : IdentifierId}

theorem name_eq_iff (canonical : table.Canonical) : table.name id = .ok spelling ↔ table.find? spelling = some id := by
  rw [name_eq_ok, find?_eq_some]
  constructor
  · intro given
    rcases given with ⟨record, entered, name⟩
    have bound := (canonical.bound_iff _ _).mpr ⟨record, entered, rfl⟩
    exact ⟨record.entry, (canonical.faithful.find?_iff _ _).mpr name, bound⟩
  · intro given
    rcases given with ⟨symbol, interned, bound⟩
    obtain ⟨record, entered, rfl⟩ := (canonical.bound_iff _ _).mp bound
    exact ⟨record, entered, (canonical.faithful.find?_iff _ _).mp interned⟩

theorem spelling_eq (canonical : table.Canonical) {other : String} (first : table.find? spelling = some id)
    (second : table.find? other = some id) : spelling = other := by
  rw [← canonical.name_eq_iff] at first second
  exact Except.ok.inj (first.symm.trans second)

theorem intern (canonical : table.Canonical) (room : table.lexicon.size < 4294967295) (spelling : String) :
    (table.intern spelling).2.Canonical where
  faithful := canonical.faithful.intern room spelling
  bound_iff := canonical.bound_iff
  issued symbol id bound := Nat.lt_of_lt_of_le (canonical.issued symbol id bound) (Lexicon.size_le_intern _ _)
  fits := Nat.le_trans canonical.fits (Lexicon.size_le_intern _ _)

theorem find?_intern (canonical : table.Canonical) (room : table.lexicon.size < 4294967295) (spelling other : String) :
    (table.intern spelling).2.find? other = table.find? other := by
  by_cases same : spelling = other
  · subst other
    change ((table.lexicon.intern spelling).2.find? spelling).bind table.bound? = (table.lexicon.find? spelling).bind _
    rw [Lexicon.find?_intern_self]
    cases known : table.lexicon.find? spelling with
    | some symbol => rw [Lexicon.intern_of_find? known]
    | none =>
      have index := Lexicon.index_intern_of_find?_none room known
      cases bound : table.bound? (table.lexicon.intern spelling).1 with
      | none => exact bound
      | some id =>
        have issued := canonical.issued _ _ bound
        omega
  · exact congrArg (·.bind table.bound?) (Lexicon.find?_intern_other _ same)

theorem entry_bound (canonical : table.Canonical) {i : Nat} {record : Record}
    (read : table.records.values[i]? = some record) (small : i < 4294967296) :
    table.bound? record.entry = some (.atIndex i) := by
  refine (canonical.bound_iff _ _).mpr ⟨record, ?_, rfl⟩
  have index : (Handle.atIndex i : IdentifierId).index = i := Handle.index_atIndex small
  change table.records.records[(Handle.atIndex i : IdentifierId).index]? = some record
  rw [index, ← read]
  exact (Array.getElem?_toList ..).symm

theorem nodup_entries (canonical : table.Canonical) : (table.records.values.map Record.entry).Nodup := by
  have fits : table.records.values.length ≤ 4294967295 := Nat.le_trans canonical.fits canonical.faithful.size_le
  rw [List.nodup_iff_getElem?_ne_getElem?]
  intro i j before inside same
  rw [List.length_map] at inside
  rw [List.getElem?_map, List.getElem?_map, List.getElem?_eq_getElem inside,
    List.getElem?_eq_getElem (Nat.lt_trans before inside)] at same
  have entry := Option.some.inj same
  have first := canonical.entry_bound (List.getElem?_eq_getElem (Nat.lt_trans before inside)) (by omega)
  have second := canonical.entry_bound (List.getElem?_eq_getElem inside) (by omega)
  rw [entry, second, Option.some.injEq] at first
  have index := congrArg Handle.index first
  rw [Handle.index_atIndex (by omega), Handle.index_atIndex (by omega)] at index
  omega

theorem mem_entries_iff (canonical : table.Canonical) :
    symbol ∈ table.records.values.map Record.entry ↔ ∃ id, table.bound? symbol = some id := by
  constructor
  · intro member
    obtain ⟨record, entered, rfl⟩ := List.mem_map.mp member
    obtain ⟨i, inside, read⟩ := List.mem_iff_getElem.mp entered
    have fits : table.records.values.length ≤ 4294967295 := Nat.le_trans canonical.fits canonical.faithful.size_le
    refine ⟨.atIndex i, canonical.entry_bound ?_ (by omega)⟩
    rw [List.getElem?_eq_getElem inside, read]
  · intro given
    rcases given with ⟨id, bound⟩
    obtain ⟨record, entered, rfl⟩ := (canonical.bound_iff _ _).mp bound
    exact List.mem_map_of_mem (Array.mem_toList_iff.mpr (Array.mem_of_getElem? entered))

theorem size_lt (canonical : table.Canonical) (issued : symbol.index.val < table.lexicon.size)
    (unbound : table.bound? symbol = none) : table.size < table.lexicon.size := by
  have new : symbol ∉ table.records.values.map Record.entry := by
    rw [canonical.mem_entries_iff, unbound]
    simp
  have distinct : ((symbol :: table.records.values.map Record.entry).map (·.index.val)).Nodup := by
    refine List.Nodup.map (fun _ _ => Symbol.ext_index) ?_
    exact List.nodup_cons.mpr ⟨new, canonical.nodup_entries⟩
  have below : (symbol :: table.records.values.map Record.entry).map (·.index.val) ⊆ List.range table.lexicon.size := by
    intro index member
    obtain ⟨other, among, rfl⟩ := List.mem_map.mp member
    rw [List.mem_range]
    rcases List.mem_cons.mp among with rfl | entered
    · exact issued
    · obtain ⟨id, bound⟩ := canonical.mem_entries_iff.mp entered
      exact canonical.issued _ _ bound
  have fewer := (List.subperm_of_subset distinct below).length_le
  rw [List.length_map, List.length_cons, List.length_map, List.length_range] at fewer
  exact fewer

theorem bound?_allocate (table : Table) (symbol other : Symbol) :
    (table.allocate symbol).2.bound? other =
      if other = symbol then some (.atIndex table.size) else table.bound? other := by
  by_cases same : other = symbol
  · subst other
    rw [if_pos rfl]
    exact Overlay.get_modify_same table.bindings symbol _
  · rw [if_neg same]
    exact Overlay.get_modify_other table.bindings _ (Ne.symm same)

theorem get?_allocate (table : Table) (symbol : Symbol) (id : IdentifierId) :
    (table.allocate symbol).2.records.get? id =
      if id.index = table.size then some (.fresh symbol) else table.records.get? id :=
  Registry.get?_enter table.records _ id

theorem allocate (canonical : table.Canonical) (room : table.lexicon.size < 4294967295)
    (issued : symbol.index.val < table.lexicon.size) (unbound : table.bound? symbol = none) :
    (table.allocate symbol).2.Canonical := by
  have space := canonical.size_lt issued unbound
  have index : (Handle.atIndex table.size : IdentifierId).index = table.size := Handle.index_atIndex (by omega)
  constructor
  · exact canonical.faithful
  · intro other id
    rw [bound?_allocate, get?_allocate]
    by_cases same : other = symbol
    · subst other
      rw [if_pos rfl, Option.some.injEq]
      constructor
      · intro same
        subst same
        exact ⟨.fresh symbol, if_pos index, rfl⟩
      · intro given
        rcases given with ⟨record, entered, entry⟩
        by_cases last : id.index = table.size
        · exact Handle.ext_index (index.trans last.symm)
        · rw [if_neg last] at entered
          rw [(canonical.bound_iff symbol id).mpr ⟨record, entered, entry⟩] at unbound
          cases unbound
    · rw [if_neg same, canonical.bound_iff]
      by_cases last : id.index = table.size
      · have beyond : table.records.get? id = none := Array.getElem?_eq_none (Nat.le_of_eq last.symm)
        simp [last, beyond, Record.fresh, Ne.symm same]
      · rw [if_neg last]
  · intro other id bound
    rw [bound?_allocate] at bound
    by_cases same : other = symbol
    · exact same ▸ issued
    · rw [if_neg same] at bound
      exact canonical.issued other id bound
  · change (table.records.enter (.fresh symbol)).2.size ≤ table.lexicon.size
    rw [Registry.size_enter]
    exact space

theorem find?_allocate (canonical : table.Canonical) (interned : table.lexicon.find? spelling = some symbol)
    (other : String) : (table.allocate symbol).2.find? other =
      if other = spelling then some (table.allocate symbol).1 else table.find? other := by
  change (table.lexicon.find? other).bind (table.allocate symbol).2.bound? = _
  by_cases same : other = spelling
  · subst other
    rw [if_pos rfl, interned, Option.bind_some, bound?_allocate, if_pos rfl]
    rfl
  · rw [if_neg same, find?]
    cases known : table.lexicon.find? other with
    | none => rfl
    | some name =>
      rw [Option.bind_some, Option.bind_some, bound?_allocate, if_neg]
      intro same
      subst same
      exact same (canonical.faithful.eq_of_find? known interned)

theorem extends_allocate (unbound : table.bound? symbol = none) : table.Extends (table.allocate symbol).2 where
  symbols _ _ := id
  bound other id bound := by
    rw [bound?_allocate, if_neg, bound]
    intro same
    subst same
    rw [unbound] at bound
    cases bound

theorem bound?_bind (bound : table.bound? symbol = some id) (other : Symbol) :
    (table.bind symbol id).bound? other = table.bound? other := by
  by_cases same : other = symbol
  · subst other
    rw [bound]
    exact Overlay.get_modify_same table.bindings symbol _
  · exact Overlay.get_modify_other table.bindings _ (Ne.symm same)

theorem bind (canonical : table.Canonical) (bound : table.bound? symbol = some id) :
    (table.bind symbol id).Canonical where
  faithful := canonical.faithful
  bound_iff other number := by
    rw [bound?_bind bound]
    exact canonical.bound_iff other number
  issued other number := by
    rw [bound?_bind bound]
    exact canonical.issued other number
  fits := canonical.fits

theorem modify (canonical : table.Canonical) {change : Record → Record}
    (kept : ∀ record, table.records.get? id = some record → (change record).entry = record.entry) :
    (table.modify id change).Canonical where
  faithful := canonical.faithful
  bound_iff symbol other := by
    change table.bound? symbol = some other ↔
      ∃ record, (table.records.modify id change).get? other = some record ∧ record.entry = symbol
    rw [canonical.bound_iff, Registry.get?_modify]
    by_cases same : Indexed.index id = Indexed.index other
    · obtain rfl := Overlay.index_injective same
      rw [if_pos rfl]
      constructor
      · intro given
        rcases given with ⟨record, entered, rfl⟩
        exact ⟨change record, by rw [entered, Option.map_some], kept record entered⟩
      · intro given
        rcases given with ⟨changed, mapped, rfl⟩
        obtain ⟨record, entered, rfl⟩ := Option.map_eq_some_iff.mp mapped
        exact ⟨record, entered, (kept record entered).symm⟩
    · rw [if_neg same]
  issued := canonical.issued
  fits := Nat.le_trans (Nat.le_of_eq (Registry.size_modify ..)) canonical.fits

theorem size_eq (canonical : table.Canonical) {spellings : List String}
    (bound : ∀ spelling, spelling ∈ spellings ↔ (table.find? spelling).isSome) :
    table.size = spellings.dedup.length := by
  have found : ∀ spelling ∈ spellings.dedup, ∃ symbol id,
      table.lexicon.find? spelling = some symbol ∧ table.bound? symbol = some id := by
    intro spelling member
    obtain ⟨id, found⟩ := Option.isSome_iff_exists.mp ((bound spelling).mp (List.mem_dedup.mp member))
    obtain ⟨symbol, interned, entered⟩ := find?_eq_some.mp found
    exact ⟨symbol, id, interned, entered⟩
  have distinct : (spellings.dedup.map fun spelling => (table.lexicon.find? spelling).getD default).Nodup := by
    refine List.Nodup.map_on ?_ (List.nodup_dedup spellings)
    intro left first right second same
    obtain ⟨symbol, -, known, -⟩ := found left first
    obtain ⟨other, -, also, -⟩ := found right second
    rw [known, also, Option.getD_some, Option.getD_some] at same
    exact canonical.faithful.eq_of_find? known (same ▸ also)
  have same : (table.records.values.map Record.entry).Perm
      (spellings.dedup.map fun spelling => (table.lexicon.find? spelling).getD default) := by
    refine (List.perm_ext_iff_of_nodup canonical.nodup_entries distinct).mpr fun symbol => ?_
    rw [canonical.mem_entries_iff, List.mem_map]
    constructor
    · intro given
      rcases given with ⟨id, entered⟩
      obtain ⟨spelling, interned⟩ := canonical.faithful.find?_of_index_lt (canonical.issued symbol id entered)
      refine ⟨spelling, List.mem_dedup.mpr ((bound spelling).mpr ?_), by rw [interned, Option.getD_some]⟩
      rw [find?_eq_some.mpr ⟨symbol, interned, entered⟩]
      rfl
    · intro given
      rcases given with ⟨spelling, member, rfl⟩
      obtain ⟨symbol, id, interned, entered⟩ := found spelling member
      exact ⟨id, by rw [interned, Option.getD_some, entered]⟩
  have length := same.length_eq
  rw [List.length_map, List.length_map] at length
  exact length

end Canonical
end Canon.Identifier.Table

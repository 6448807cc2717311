import Canon.Proofs.Identifier.Canonical

/-!
How tables grow. No operation forgets a symbol or unbinds a spelling, though one may bind a spelling to another record.
A spelling is pending from when it is interned until it is bound.
-/
namespace Canon.Identifier.Table
variable {table : Table} {spelling : String} {symbol : Symbol} {id : IdentifierId}

/-- A spelling that has been interned and is not bound. -/
def Pending (table : Table) (spelling : String) : Prop :=
  ∃ symbol, table.lexicon.find? spelling = some symbol ∧ table.bound? symbol = none

theorem not_pending_of_find? (found : table.find? spelling = some id) : ¬table.Pending spelling := by
  intro pending
  obtain ⟨symbol, interned, unbound⟩ := pending
  obtain ⟨other, also, bound⟩ := find?_eq_some.mp found
  rw [interned, Option.some.injEq] at also
  rw [also, bound] at unbound
  cases unbound

theorem intern_of_find? (interned : table.lexicon.find? spelling = some symbol) :
    table.intern spelling = (symbol, table) := by
  simp only [Table.intern, Lexicon.intern_of_find? interned]

theorem symbol_intern (table : Table) (spelling : String) :
    (table.intern spelling).2.lexicon.find? spelling = some (table.intern spelling).1 :=
  Lexicon.find?_intern_self table.lexicon spelling

theorem find?_intern_self (table : Table) (spelling : String) :
    (table.intern spelling).2.find? spelling = (table.intern spelling).2.bound? (table.intern spelling).1 := by
  rw [find?, symbol_intern]
  rfl

theorem extends_intern (table : Table) (spelling : String) : table.Extends (table.intern spelling).2 where
  symbols _ _ known := Lexicon.find?_intern_of_find? known spelling
  bound _ _ bound := bound

theorem pending_of_intern {other : String} (pending : (table.intern spelling).2.Pending other) :
    table.Pending other ∨ other = spelling := by
  by_cases same : spelling = other
  · exact .inr same.symm
  · obtain ⟨symbol, interned, unbound⟩ := pending
    have known : (table.lexicon.intern spelling).2.find? other = some symbol := interned
    rw [Lexicon.find?_intern_other _ same] at known
    exact .inl ⟨symbol, known, unbound⟩

theorem bound?_bind (table : Table) (symbol other : Symbol) (id : IdentifierId) :
    (table.bind symbol id).bound? other = if other = symbol then some id else table.bound? other := by
  by_cases same : other = symbol
  · rw [if_pos same, same]
    exact Overlay.get_modify_same table.bindings symbol _
  · rw [if_neg same]
    exact Overlay.get_modify_other table.bindings _ (Ne.symm same)

theorem find?_allocate_self (interned : table.lexicon.find? spelling = some symbol) :
    (table.allocate symbol).2.find? spelling = some (table.allocate symbol).1 := by
  apply find?_eq_some.mpr
  refine ⟨symbol, interned, ?_⟩
  rw [Canonical.bound?_allocate, if_pos rfl]
  rfl

/-- Symbols are kept, and what is bound stays bound, if only to another record. -/
structure Grows (before after : Table) : Prop where
  symbols : ∀ spelling symbol, before.lexicon.find? spelling = some symbol →
    after.lexicon.find? spelling = some symbol
  bound : ∀ symbol, (before.bound? symbol).isSome → (after.bound? symbol).isSome

namespace Grows
variable {before middle after : Table}

theorem refl (table : Table) : table.Grows table := ⟨fun _ _ known => known, fun _ bound => bound⟩

theorem trans (first : before.Grows middle) (second : middle.Grows after) : before.Grows after where
  symbols spelling symbol known := second.symbols spelling symbol (first.symbols spelling symbol known)
  bound symbol bound := second.bound symbol (first.bound symbol bound)

theorem bound?_eq_none (grows : before.Grows after) (free : after.bound? symbol = none) :
    before.bound? symbol = none := by
  cases bound : before.bound? symbol with
  | none => rfl
  | some id =>
    have still := grows.bound symbol (Option.isSome_of_mem bound)
    rw [free] at still
    cases still

theorem isSome_find? (grows : before.Grows after) (found : (before.find? spelling).isSome) :
    (after.find? spelling).isSome := by
  obtain ⟨id, found⟩ := Option.isSome_iff_exists.mp found
  obtain ⟨symbol, interned, bound⟩ := find?_eq_some.mp found
  rw [find?, grows.symbols spelling symbol interned, Option.bind_some]
  exact grows.bound symbol (Option.isSome_of_mem bound)

theorem find?_eq_none (grows : before.Grows after) (free : after.find? spelling = none) :
    before.find? spelling = none := by
  cases found : before.find? spelling with
  | none => rfl
  | some id =>
    have still := grows.isSome_find? (Option.isSome_of_mem found)
    rw [free] at still
    cases still

theorem pending (grows : before.Grows after) (same : after.lexicon = before.lexicon)
    (left : after.Pending spelling) : before.Pending spelling := by
  obtain ⟨symbol, interned, free⟩ := left
  rw [same] at interned
  exact ⟨symbol, interned, grows.bound?_eq_none free⟩

theorem intern (table : Table) (spelling : String) : table.Grows (table.intern spelling).2 :=
  ⟨(extends_intern table spelling).symbols, fun _ bound => bound⟩

theorem bind (table : Table) (symbol : Symbol) (id : IdentifierId) : table.Grows (table.bind symbol id) where
  symbols _ _ known := known
  bound other bound := by
    rw [bound?_bind]
    split
    · rfl
    · exact bound

theorem allocate (table : Table) (symbol : Symbol) : table.Grows (table.allocate symbol).2 where
  symbols _ _ known := known
  bound other bound := by
    rw [Canonical.bound?_allocate]
    split
    · rfl
    · exact bound

theorem modify (table : Table) (id : IdentifierId) (change : Record → Record) : table.Grows (table.modify id change) :=
  ⟨fun _ _ known => known, fun _ bound => bound⟩

theorem create (table : Table) (checks : Checks) (spelling : String) :
    table.Grows (table.create checks spelling).2 := by
  unfold Table.create
  dsimp only
  split
  · exact intern table spelling
  · exact (intern table spelling).trans (allocate _ _)

end Grows

theorem find?_eq_none_of_intern (unbound : (table.intern spelling).2.bound? (table.intern spelling).1 = none) :
    table.find? spelling = none := by
  apply (Grows.intern table spelling).find?_eq_none
  rw [find?_intern_self]
  exact unbound

end Canon.Identifier.Table

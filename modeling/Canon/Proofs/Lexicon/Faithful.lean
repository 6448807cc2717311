import Canon.Lexicon.Basic

/-!
A lexicon is faithful as long as it has not run out of symbols: looking a spelling up and reading a symbol back
are inverse to each other, and numbering one spelling disturbs no other.
-/
namespace Canon

namespace Symbol

theorem index_atIndex_of_lt {index : Nat} (below : index < 4294967295) : (atIndex index).index.val = index := by
  rw [index_atIndex]
  omega

end Symbol

namespace Lexicon

/-- The symbols issued are those of the spellings stored, and there was one for each. -/
structure Faithful (lexicon : Lexicon) : Prop where
  find?_iff : ∀ spelling symbol, lexicon.find? spelling = some symbol ↔ lexicon.get? symbol = some spelling
  size_le : lexicon.size ≤ 4294967295

theorem faithful_withCapacity (capacity : Nat) : (withCapacity capacity).Faithful where
  find?_iff spelling symbol := by simp [withCapacity, find?, get?]
  size_le := by simp [withCapacity, size]

theorem faithful_empty : empty.Faithful := faithful_withCapacity defaultCapacity

theorem intern_cases (lexicon : Lexicon) (spelling : String) :
    (∃ symbol, lexicon.find? spelling = some symbol ∧ lexicon.intern spelling = (symbol, lexicon)) ∨
    (lexicon.find? spelling = none ∧ lexicon.intern spelling = lexicon.add spelling) := by
  cases known : lexicon.find? spelling with
  | some symbol => exact .inl ⟨symbol, rfl, intern_of_find? known⟩
  | none => exact .inr ⟨rfl, by simp [intern, known]⟩

@[simp] theorem size_add (lexicon : Lexicon) (spelling : String) :
    (lexicon.add spelling).2.size = lexicon.size + 1 := by
  simp [add, size]

theorem find?_add (lexicon : Lexicon) (spelling other : String) :
    (lexicon.add spelling).2.find? other =
      if spelling = other then some (Symbol.atIndex lexicon.size) else lexicon.find? other := by
  simp [add, find?, size, Std.HashMap.getElem?_insert]

theorem get?_add (lexicon : Lexicon) (spelling : String) (symbol : Symbol) :
    (lexicon.add spelling).2.get? symbol =
      if symbol.index.val = lexicon.size then some spelling else lexicon.get? symbol := by
  unfold add get? size
  exact Array.getElem?_push

theorem size_le_intern (lexicon : Lexicon) (spelling : String) :
    lexicon.size ≤ (lexicon.intern spelling).2.size := by
  rcases lexicon.intern_cases spelling with ⟨symbol, -, same⟩ | ⟨-, added⟩
  · exact same ▸ Nat.le_refl _
  · rw [added, size_add]
    exact Nat.le_succ _

theorem size_intern_le (lexicon : Lexicon) (spelling : String) :
    (lexicon.intern spelling).2.size ≤ lexicon.size + 1 := by
  rcases lexicon.intern_cases spelling with ⟨symbol, -, same⟩ | ⟨-, added⟩
  · exact same ▸ Nat.le_succ _
  · exact added ▸ Nat.le_of_eq (size_add ..)

theorem find?_intern_self (lexicon : Lexicon) (spelling : String) :
    (lexicon.intern spelling).2.find? spelling = some (lexicon.intern spelling).1 := by
  rcases lexicon.intern_cases spelling with ⟨symbol, found, same⟩ | ⟨-, added⟩
  · rw [same, found]
  · rw [added, find?_add, if_pos rfl]
    rfl

theorem find?_intern_other (lexicon : Lexicon) {spelling other : String} (different : spelling ≠ other) :
    (lexicon.intern spelling).2.find? other = lexicon.find? other := by
  rcases lexicon.intern_cases spelling with ⟨symbol, -, same⟩ | ⟨-, added⟩
  · rw [same]
  · rw [added, find?_add, if_neg different]

theorem find?_intern_of_find? {lexicon : Lexicon} {other : String} {symbol : Symbol}
    (found : lexicon.find? other = some symbol) (spelling : String) :
    (lexicon.intern spelling).2.find? other = some symbol := by
  by_cases same : spelling = other
  · subst other
    rw [intern_of_find? found]
    exact found
  · rw [find?_intern_other lexicon same]
    exact found

theorem index_intern_of_find?_none {lexicon : Lexicon} {spelling : String} (room : lexicon.size < 4294967295)
    (unknown : lexicon.find? spelling = none) : (lexicon.intern spelling).1.index.val = lexicon.size := by
  rcases lexicon.intern_cases spelling with ⟨symbol, found, -⟩ | ⟨-, added⟩
  · rw [found] at unknown
    cases unknown
  · rw [added]
    exact Symbol.index_atIndex_of_lt room

namespace Faithful
variable {lexicon : Lexicon}

theorem index_lt_size (faithful : lexicon.Faithful) {spelling : String} {symbol : Symbol}
    (found : lexicon.find? spelling = some symbol) : symbol.index.val < lexicon.size := by
  have read := (faithful.find?_iff spelling symbol).mp found
  exact (Array.getElem?_eq_some_iff.mp read).choose

theorem eq_of_find? (faithful : lexicon.Faithful) {left right : String} {symbol : Symbol}
    (first : lexicon.find? left = some symbol) (second : lexicon.find? right = some symbol) : left = right := by
  have one := (faithful.find?_iff left symbol).mp first
  have two := (faithful.find?_iff right symbol).mp second
  exact Option.some.inj (one.symm.trans two)

theorem find?_of_index_lt (faithful : lexicon.Faithful) {symbol : Symbol}
    (issued : symbol.index.val < lexicon.size) : ∃ spelling, lexicon.find? spelling = some symbol := by
  refine ⟨lexicon.spellings[symbol.index.val], ?_⟩
  rw [faithful.find?_iff]
  exact Array.getElem?_eq_getElem issued

theorem mem_toList (faithful : lexicon.Faithful) {spelling : String} {symbol : Symbol} :
    (symbol, spelling) ∈ lexicon.toList ↔ lexicon.find? spelling = some symbol := by
  rw [faithful.find?_iff]
  unfold toList get?
  rw [List.mem_map]
  constructor
  · intro member
    obtain ⟨⟨name, index⟩, entered, same⟩ := member
    obtain ⟨rfl, rfl⟩ := Prod.mk.inj same
    have read := List.mem_zipIdx_iff_getElem?.mp entered
    have below : index < lexicon.size := (List.getElem?_eq_some_iff.mp read).choose
    have size := faithful.size_le
    rw [Symbol.index_atIndex_of_lt (by omega), ← Array.getElem?_toList]
    exact read
  · intro read
    refine ⟨(spelling, symbol.index.val), ?_, ?_⟩
    · rw [List.mem_zipIdx_iff_getElem?, Array.getElem?_toList]
      exact read
    · exact congrArg (·, spelling) (Indexed.atIndex_index symbol)

theorem nodup_spellings (faithful : lexicon.Faithful) : lexicon.spellings.toList.Nodup := by
  rw [List.Nodup, List.pairwise_iff_getElem]
  intro first second inside within before same
  have read (index : Nat) (inside : index < lexicon.spellings.toList.length) :
      lexicon.find? lexicon.spellings.toList[index] = some (Symbol.atIndex index) ∧ index < 4294967295 := by
    have small : index < 4294967295 := Nat.lt_of_lt_of_le inside faithful.size_le
    refine ⟨(faithful.find?_iff _ _).mpr ?_, small⟩
    rw [get?, Symbol.index_atIndex_of_lt small, ← Array.getElem?_toList, List.getElem?_eq_getElem inside]
  obtain ⟨here, small⟩ := read first inside
  obtain ⟨there, little⟩ := read second within
  rw [same, there] at here
  have indices := congrArg (·.index.val) (Option.some.inj here)
  rw [Symbol.index_atIndex_of_lt small, Symbol.index_atIndex_of_lt little] at indices
  omega

theorem intern (faithful : lexicon.Faithful) (room : lexicon.size < 4294967295) (spelling : String) :
    (lexicon.intern spelling).2.Faithful := by
  rcases lexicon.intern_cases spelling with ⟨symbol, -, same⟩ | ⟨unknown, added⟩
  · rw [same]
    exact faithful
  · rw [added]
    constructor
    · intro other symbol
      rw [find?_add, get?_add]
      have fresh := Symbol.index_atIndex_of_lt room
      by_cases same : spelling = other
      · subst other
        rw [if_pos rfl, Option.some.injEq]
        constructor
        · intro equal
          rw [← equal, if_pos fresh]
        · intro read
          by_cases last : symbol.index.val = lexicon.size
          · exact Symbol.ext_index (fresh.trans last.symm)
          · rw [if_neg last, ← faithful.find?_iff, unknown] at read
            cases read
      · rw [if_neg same]
        by_cases last : symbol.index.val = lexicon.size
        · rw [if_pos last]
          constructor
          · intro found
            have issued := faithful.index_lt_size found
            omega
          · intro equal
            exact absurd (Option.some.inj equal) same
        · rw [if_neg last]
          exact faithful.find?_iff other symbol
    · rw [size_add]
      exact room

end Faithful
end Lexicon
end Canon

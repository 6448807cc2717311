import Canon.Lexicon.Symbol
import Canon.Lexicon.Storage
import Canon.Memory
import Std.Data.HashMap

/-!
A lexicon stores every distinct spelling once and numbers the spellings in the order of their first
appearance.
-/
namespace Canon

structure Lexicon where
  spellings : Array String
  symbols : Std.HashMap String Symbol
  storage : Storage

namespace Lexicon

def withCapacity (capacity : Nat) : Lexicon := ⟨#[], ∅, .withCapacity id capacity⟩

def reserving (capacity : Nat) : Except Fault Lexicon := do
  Memory.reserve 1 capacity
  return withCapacity capacity

def defaultCapacity : Nat := 1024

def empty : Lexicon := withCapacity defaultCapacity

instance : EmptyCollection Lexicon := ⟨empty⟩
instance : Inhabited Lexicon := ⟨empty⟩

def size (lexicon : Lexicon) : Nat := lexicon.spellings.size

def find? (lexicon : Lexicon) (spelling : String) : Option Symbol := lexicon.symbols[spelling]?

def add (lexicon : Lexicon) (spelling : String) : Symbol × Lexicon :=
  match lexicon with
  | ⟨spellings, symbols, storage⟩ =>
    let symbol := Symbol.atIndex spellings.size
    (symbol, ⟨spellings.push spelling, symbols.insert spelling symbol, storage.store id spelling⟩)

def intern (lexicon : Lexicon) (spelling : String) : Symbol × Lexicon :=
  match lexicon.find? spelling with
  | some symbol => (symbol, lexicon)
  | none => lexicon.add spelling

def get? (lexicon : Lexicon) (symbol : Symbol) : Option String := lexicon.spellings[symbol.index.val]?

def get (lexicon : Lexicon) (symbol : Symbol) : Except Fault String :=
  match lexicon.get? symbol with
  | some spelling => .ok spelling
  | none => .error (.outOfBounds lexicon.size symbol.index.val)

def toList (lexicon : Lexicon) : List (Symbol × String) :=
  lexicon.spellings.toList.zipIdx.map fun (spelling, index) => (Symbol.atIndex index, spelling)

def storedBytes (lexicon : Lexicon) : Nat := lexicon.storage.size

theorem intern_of_find? {lexicon : Lexicon} {spelling : String} {symbol : Symbol}
    (known : lexicon.find? spelling = some symbol) : lexicon.intern spelling = (symbol, lexicon) := by
  simp [intern, known]

theorem get_eq_ok_iff {lexicon : Lexicon} {symbol : Symbol} {spelling : String} :
    lexicon.get symbol = .ok spelling ↔ lexicon.get? symbol = some spelling := by
  unfold get
  cases lexicon.get? symbol with
  | some stored => simp
  | none => simp

end Lexicon
end Canon

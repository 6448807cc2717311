import Canon.Fault

/-!
Handles name records by a dense 32-bit index. `Indexed` is what a dense table asks of its keys: an index
for every key, and the key of every index in use.
-/
namespace Canon

/-- Keys that are numbered densely from zero. -/
class Indexed (κ : Type) where
  index : κ → Nat
  /-- The key at a position; positions past the last key may share one. -/
  atIndex : Nat → κ
  atIndex_index : ∀ key, atIndex (index key) = key

inductive Handle.Kind where
  | directory
  | file
  | identifier
  | frontEnd
  | key
  deriving DecidableEq, Repr

def Handle.Kind.label : Handle.Kind → String
  | .directory => "dir"
  | .file => "file"
  | .identifier => "ident"
  | .frontEnd => "fe"
  | .key => "key"

/-- A handle of one kind. Handles are equal exactly when their numbers are. -/
structure Handle (kind : Handle.Kind) where
  number : UInt32
  deriving DecidableEq, Hashable, Repr

namespace Handle
variable {kind : Handle.Kind}

def reserved : Nat := 4294967295

def index (handle : Handle kind) : Nat := handle.number.toNat

/-- The handle of a dense index, whose low 32 bits it keeps. -/
def atIndex (index : Nat) : Handle kind := ⟨UInt32.ofNat index⟩

instance : Indexed (Handle kind) where
  index := index
  atIndex := atIndex
  atIndex_index := fun ⟨number⟩ => by simp [index, atIndex]

theorem index_atIndex {index : Nat} (below : index < 4294967296) : (atIndex index : Handle kind).index = index := by
  simp [atIndex, Handle.index, Nat.mod_eq_of_lt below]

theorem ext_index {left right : Handle kind} (same : left.index = right.index) : left = right := by
  cases left
  cases right
  exact congrArg Handle.mk (UInt32.toNat_inj.mp same)

/-- The handle of a dense index; without checks the high bits are dropped silently. -/
def ofIndex (checks : Checks) (index : Nat) : Except Fault (Handle kind) :=
  if checks = .enabled ∧ reserved ≤ index then .error .indexTooLarge else .ok (atIndex index)

/-- The handle with a given number; only checks refuse the reserved one. -/
def ofNumber (checks : Checks) (number : UInt32) : Except Fault (Handle kind) :=
  if checks = .enabled ∧ number.toNat = reserved then .error .reservedNumber else .ok ⟨number⟩

def render (handle : Handle kind) : String := kind.label ++ toString handle.number.toNat

end Handle

abbrev DirectoryId := Handle .directory
abbrev FileId := Handle .file
abbrev IdentifierId := Handle .identifier
abbrev FrontEndId := Handle .frontEnd
abbrev Key := Handle .key

end Canon

import Canon.Handle
import Canon.Memory

/-!
An append-only store of records. Records are named by the index they were entered at, keep that name for
good and are changed only through it.
-/
namespace Canon

structure Registry (κ : Type) (α : Type) where
  records : Array α

namespace Registry
variable {κ α : Type} [Indexed κ]

def empty : Registry κ α := ⟨#[]⟩

instance : EmptyCollection (Registry κ α) := ⟨empty⟩
instance : Inhabited (Registry κ α) := ⟨empty⟩

/-- A registry with room for a number of records of some bytes each. What fits into the room does not matter
later: a registry grows as it is filled. -/
def withCapacity (recordSize capacity : Nat) : Except Fault (Registry κ α) := do
  Memory.reserve recordSize capacity
  return empty

def size (registry : Registry κ α) : Nat := registry.records.size

def isEmpty (registry : Registry κ α) : Bool := registry.records.isEmpty

def nextKey (registry : Registry κ α) : κ := Indexed.atIndex registry.size

def enter (registry : Registry κ α) (record : α) : κ × Registry κ α :=
  (registry.nextKey, ⟨registry.records.push record⟩)

def get? (registry : Registry κ α) (key : κ) : Option α := registry.records[Indexed.index key]?

def unknown (registry : Registry κ α) (key : κ) : Fault := .outOfBounds registry.size (Indexed.index key)

def get (registry : Registry κ α) (key : κ) : Except Fault α :=
  match registry.get? key with
  | some record => .ok record
  | none => .error (registry.unknown key)

/-- Changes the record of a key in place; a key that names no record changes nothing. -/
def modify (registry : Registry κ α) (key : κ) (change : α → α) : Registry κ α :=
  ⟨registry.records.modify (Indexed.index key) change⟩

def update (registry : Registry κ α) (key : κ) (change : α → α) : Except Fault (Registry κ α) :=
  match registry.get? key with
  | some _ => .ok (registry.modify key change)
  | none => .error (registry.unknown key)

def values (registry : Registry κ α) : List α := registry.records.toList

def toList (registry : Registry κ α) : List (κ × α) :=
  registry.records.toList.zipIdx.map fun (record, index) => (Indexed.atIndex index, record)

@[simp] theorem get?_empty (key : κ) : (empty : Registry κ α).get? key = none := rfl

theorem get_eq_ok_iff {registry : Registry κ α} {key : κ} {record : α} :
    registry.get key = .ok record ↔ registry.get? key = some record := by
  unfold get
  cases registry.get? key with
  | some entered => simp
  | none => simp

theorem get?_enter (registry : Registry κ α) (record : α) (key : κ) :
    (registry.enter record).2.get? key =
      if Indexed.index key = registry.size then some record else registry.get? key := by
  unfold enter get? size
  exact Array.getElem?_push

theorem get?_modify (registry : Registry κ α) (key other : κ) (change : α → α) :
    (registry.modify key change).get? other =
      if Indexed.index key = Indexed.index other then (registry.get? other).map change else registry.get? other := by
  simp [modify, get?, Array.getElem?_modify]

@[simp] theorem size_modify (registry : Registry κ α) (key : κ) (change : α → α) :
    (registry.modify key change).size = registry.size := by
  simp [modify, size]

@[simp] theorem size_enter (registry : Registry κ α) (record : α) :
    (registry.enter record).2.size = registry.size + 1 := by
  simp [enter, size]

end Registry
end Canon

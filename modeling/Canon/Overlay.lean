import Canon.Handle

/-!
A total map over dense keys: one default value, overlaid by the slots that writes have materialised. Reading
never materialises a slot; writing materialises every slot up to the one written.
-/
namespace Canon

structure Overlay (κ : Type) (α : Type) where
  default : α
  slots : Array α

namespace Overlay
variable {κ α : Type} [Indexed κ]

def constant (default : α) : Overlay κ α := ⟨default, #[]⟩

def extent (overlay : Overlay κ α) : Nat := overlay.slots.size

def get (overlay : Overlay κ α) (key : κ) : α := overlay.slots.getD (Indexed.index key) overlay.default

def reach (overlay : Overlay κ α) (index : Nat) : Overlay κ α :=
  if index < overlay.slots.size then overlay
  else match overlay with
    | ⟨default, slots⟩ => ⟨default, slots ++ Array.replicate (index + 1 - slots.size) default⟩

def modify (overlay : Overlay κ α) (key : κ) (change : α → α) : Overlay κ α :=
  match overlay.reach (Indexed.index key) with
  | ⟨default, slots⟩ => ⟨default, slots.modify (Indexed.index key) change⟩

def set (overlay : Overlay κ α) (key : κ) (value : α) : Overlay κ α := overlay.modify key fun _ => value

def touch (overlay : Overlay κ α) (key : κ) : Overlay κ α := overlay.reach (Indexed.index key)

def toList (overlay : Overlay κ α) : List (κ × α) :=
  overlay.slots.toList.zipIdx.map fun (value, index) => (Indexed.atIndex index, value)

theorem index_injective {left right : κ} (same : Indexed.index left = Indexed.index right) : left = right := by
  rw [← Indexed.atIndex_index left, same, Indexed.atIndex_index]

@[simp] theorem get_constant (default : α) (key : κ) : (constant default : Overlay κ α).get key = default := by
  simp [constant, get]

@[simp] theorem get_reach (overlay : Overlay κ α) (index : Nat) (key : κ) :
    (overlay.reach index).get key = overlay.get key := by
  unfold reach
  split
  · rfl
  · next beyond =>
    by_cases old : Indexed.index key < overlay.slots.size
    · simp [get, Array.getD_eq_getD_getElem?, Array.getElem?_append_left old]
    · simp only [get, Array.getD_eq_getD_getElem?, Array.getElem?_append_right (Nat.le_of_not_lt old),
        Array.getElem?_eq_none (Nat.le_of_not_lt old), Array.getElem?_replicate]
      split <;> rfl

omit [Indexed κ] in
@[simp] theorem extent_reach (overlay : Overlay κ α) (index : Nat) :
    (overlay.reach index).extent = max overlay.extent (index + 1) := by
  unfold reach extent
  split
  · omega
  · simp only [Array.size_append, Array.size_replicate]
    omega

theorem get_modify_same (overlay : Overlay κ α) (key : κ) (change : α → α) :
    (overlay.modify key change).get key = change (overlay.get key) := by
  have reached : Indexed.index key < (overlay.reach (Indexed.index key)).slots.size := by
    have extent := extent_reach overlay (Indexed.index key)
    simp only [Overlay.extent] at extent
    omega
  rw [← get_reach overlay (Indexed.index key) key]
  simp [modify, get, Array.getD_eq_getD_getElem?, Array.getElem?_modify, Array.getElem?_eq_getElem reached]

theorem get_modify_other (overlay : Overlay κ α) {key other : κ} (change : α → α) (different : key ≠ other) :
    (overlay.modify key change).get other = overlay.get other := by
  have apart : Indexed.index key ≠ Indexed.index other := fun same => different (index_injective same)
  rw [← get_reach overlay (Indexed.index key) other]
  simp [modify, get, Array.getD_eq_getD_getElem?, Array.getElem?_modify, apart]

@[simp] theorem extent_modify (overlay : Overlay κ α) (key : κ) (change : α → α) :
    (overlay.modify key change).extent = max overlay.extent (Indexed.index key + 1) := by
  rw [← extent_reach]
  simp [modify, extent]

end Overlay
end Canon

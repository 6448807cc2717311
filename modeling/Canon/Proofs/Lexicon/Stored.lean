import Mathlib
import Canon.Proofs.Lexicon.Faithful

/-!
The bytes that a lexicon stores are those of its spellings: each spelling is written once, and no byte is lost when a
buffer is retired.
-/
namespace Canon

namespace Storage

theorem size_eq (storage : Storage) :
    storage.size = (storage.retired.toList.map (·.bytes.size)).sum + storage.current.bytes.size := by
  show (storage.buffers.map (·.bytes.size)).sum = _
  rw [buffers, List.map_append, List.sum_append, List.map_singleton, List.sum_singleton]

theorem size_makeRoom (grant : Nat → Nat) (storage : Storage) (length : Nat) :
    (storage.makeRoom grant length).size = storage.size := by
  unfold makeRoom
  split
  · rfl
  · rw [size_eq, size_eq, Array.toList_push, List.map_append, List.sum_append, List.map_singleton, List.sum_singleton]
    rfl

theorem size_bytes_append (buffer : Buffer) (bytes : ByteArray) :
    (buffer.append bytes).bytes.size = buffer.bytes.size + bytes.size := by
  unfold Buffer.append
  split <;> exact ByteArray.size_append

theorem size_write (storage : Storage) (bytes : ByteArray) :
    (storage.write bytes).size = storage.size + bytes.size := by
  rw [size_eq, size_eq, Nat.add_assoc, ← size_bytes_append]
  rfl

theorem size_store (grant : Nat → Nat) (storage : Storage) (text : String) :
    (storage.store grant text).size = storage.size + text.utf8ByteSize := by
  unfold store
  rw [size_write, size_makeRoom]
  rfl

end Storage

namespace Lexicon

theorem map_snd_toList (lexicon : Lexicon) : lexicon.toList.map Prod.snd = lexicon.spellings.toList := by
  unfold toList
  rw [List.map_map]
  exact List.zipIdx_map_fst 0 lexicon.spellings.toList

def totalLength (spellings : List String) : Nat := (spellings.map String.utf8ByteSize).foldr (· + ·) 0

theorem totalLength_append (left right : List String) :
    totalLength (left ++ right) = totalLength left + totalLength right := by
  show ((left ++ right).map String.utf8ByteSize).sum = _
  rw [List.map_append, List.sum_append]
  rfl

/-- The spellings are stored, each once, and nothing else is. -/
def Stores (lexicon : Lexicon) : Prop := lexicon.storedBytes = totalLength lexicon.spellings.toList

theorem stores_withCapacity (capacity : Nat) : (withCapacity capacity).Stores := rfl

theorem stores_empty : empty.Stores := stores_withCapacity defaultCapacity

theorem Stores.intern {lexicon : Lexicon} (stores : lexicon.Stores) (spelling : String) :
    (lexicon.intern spelling).2.Stores := by
  rcases lexicon.intern_cases spelling with ⟨symbol, -, same⟩ | ⟨-, added⟩
  · rw [same]
    exact stores
  · rw [added]
    show (lexicon.storage.store id spelling).size = totalLength (lexicon.spellings.push spelling).toList
    rw [Storage.size_store, Array.toList_push, totalLength_append]
    have bytes : lexicon.storage.size = totalLength lexicon.spellings.toList := stores
    rw [bytes]
    rfl

end Lexicon
end Canon

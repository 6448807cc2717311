import Canon.Lexicon.Symbol

/-!
Keys that leave no position out. Entries that are listed with the keys of their positions are listed once each, in the
order of their keys.
-/
namespace Canon.Indexed

/-- Keys that leave no position out: every position up to that of a key is the position of a key. -/
class Gapless (κ : Type) [Indexed κ] : Prop where
  index_atIndex : ∀ (key : κ) {position : Nat}, position ≤ index key → index (atIndex position : κ) = position

instance {kind : Handle.Kind} : Gapless (Handle kind) where
  index_atIndex key position below := by
    have bound : key.number.toNat < 4294967296 := key.number.toNat_lt
    exact Handle.index_atIndex (Nat.lt_of_le_of_lt below bound)

instance : Gapless Symbol where
  index_atIndex key position below := by
    have bound := key.index.isLt
    have small : position ≤ key.index.val := below
    show (Symbol.atIndex position).index.val = position
    rw [Symbol.index_atIndex]
    omega

section
variable {κ α : Type} [Indexed κ] {entries : List α}

def numbered (entries : List α) : List (κ × α) := entries.zipIdx.map fun (entry, position) => (atIndex position, entry)

theorem map_snd_numbered (entries : List α) : (numbered entries : List (κ × α)).map Prod.snd = entries := by
  unfold numbered
  rw [List.map_map]
  exact List.zipIdx_map_fst 0 entries

theorem map_index_numbered (keyed : ∀ position < entries.length, index (atIndex position : κ) = position) :
    (numbered entries : List (κ × α)).map (fun item => index item.1) = List.range entries.length := by
  have places : entries.zipIdx.map Prod.snd = List.range entries.length := by
    rw [List.zipIdx_map_snd, List.range_eq_range']
  calc
    _ = entries.zipIdx.map fun item => index (atIndex item.2 : κ) := by
      unfold numbered
      rw [List.map_map]
      rfl
    _ = entries.zipIdx.map Prod.snd := by
      apply List.map_congr_left
      intro item member
      have inside : item.2 ∈ List.range entries.length := places ▸ List.mem_map_of_mem member
      exact keyed item.2 (List.mem_range.mp inside)
    _ = List.range entries.length := places

theorem mem_numbered_iff (keyed : ∀ position < entries.length, index (atIndex position : κ) = position) (key : κ)
    (entry : α) : (key, entry) ∈ (numbered entries : List (κ × α)) ↔ entries[index key]? = some entry := by
  unfold numbered
  rw [List.mem_map]
  constructor
  · rintro ⟨⟨other, position⟩, member, same⟩
    have found : entries[position]? = some other := List.mem_zipIdx_iff_getElem?.mp member
    have inside : position < entries.length := (List.getElem?_eq_some_iff.mp found).choose
    obtain ⟨rfl, rfl⟩ := Prod.mk.inj same
    rw [keyed position inside, found]
  · intro found
    exact ⟨(entry, index key), List.mem_zipIdx_iff_getElem?.mpr found, Prod.ext (atIndex_index key) rfl⟩

end

end Canon.Indexed

import Mathlib.Data.List.Perm.Subperm
import Canon.Proofs.Lexicon.Faithful

/-!
The spellings of a lexicon are what has been interned, each where it appeared first. A list without its repetitions is
what `List.eraseDups` leaves of it.
-/
namespace Canon

section Repetitions
variable {α : Type} [BEq α] [LawfulBEq α]

theorem nodup_eraseDups (list : List α) : list.eraseDups.Nodup := by
  match list with
  | [] => exact List.nodup_nil
  | first :: rest =>
    rw [List.eraseDups_cons, List.nodup_cons]
    constructor
    · rw [List.mem_eraseDups]
      simp
    · exact nodup_eraseDups _
termination_by list.length
decreasing_by exact Nat.lt_succ_of_le (List.length_filter_le _ rest)

theorem eraseDups_of_nodup {list : List α} (distinct : list.Nodup) : list.eraseDups = list := by
  induction list with
  | nil => rfl
  | cons first rest ih =>
    obtain ⟨absent, distinct⟩ := List.nodup_cons.mp distinct
    have others : rest.filter (fun other => !other == first) = rest := by
      rw [List.filter_eq_self]
      intro other member
      have different : other ≠ first := fun same => absent (same ▸ member)
      simpa using different
    rw [List.eraseDups_cons, others, ih distinct]

theorem length_eraseDups_le_append (front rest : List α) :
    front.eraseDups.length ≤ (front ++ rest).eraseDups.length := by
  rw [List.eraseDups_append, List.length_append]
  exact Nat.le_add_right _ _

theorem length_eraseDups_le_of_subset {part whole : List α} (among : part ⊆ whole) :
    part.eraseDups.length ≤ whole.eraseDups.length := by
  refine (List.subperm_of_subset (nodup_eraseDups part) fun one member => ?_).length_le
  rw [List.mem_eraseDups] at member ⊢
  exact among member

theorem length_eraseDups_le (list : List α) : list.eraseDups.length ≤ list.length :=
  (List.subperm_of_subset (nodup_eraseDups list) fun _ member => List.mem_eraseDups.mp member).length_le

theorem length_eraseDups_append_le (front rest : List α) :
    (front ++ rest).eraseDups.length ≤ front.length + rest.eraseDups.length := by
  have front_le := length_eraseDups_le front
  have rest_le : (rest.removeAll front).eraseDups.length ≤ rest.eraseDups.length :=
    length_eraseDups_le_of_subset List.filter_sublist.subset
  rw [List.eraseDups_append, List.length_append]
  omega

theorem eraseDups_perm {left right : List α} (perm : left.Perm right) : left.eraseDups.Perm right.eraseDups := by
  refine (List.perm_ext_iff_of_nodup (nodup_eraseDups left) (nodup_eraseDups right)).mpr fun one => ?_
  rw [List.mem_eraseDups, List.mem_eraseDups, perm.mem_iff]

theorem eraseDups_concat_of_mem {list : List α} {last : α} (old : last ∈ list) :
    (list ++ [last]).eraseDups = list.eraseDups := by
  rw [List.eraseDups_append]
  simp [List.removeAll, old]

theorem eraseDups_concat_of_not_mem {list : List α} {last : α} (new : last ∉ list) :
    (list ++ [last]).eraseDups = list.eraseDups ++ [last] := by
  rw [List.eraseDups_append]
  simp [List.removeAll, new, List.eraseDups_cons]

end Repetitions

namespace Lexicon
variable {lexicon : Lexicon} {appeared : List String}

theorem Faithful.mem_spellings (faithful : lexicon.Faithful) {spelling : String} :
    spelling ∈ lexicon.spellings.toList ↔ (lexicon.find? spelling).isSome := by
  rw [Option.isSome_iff_exists]
  constructor
  · intro member
    obtain ⟨index, inside, read⟩ := List.mem_iff_getElem.mp member
    have size : index < 4294967295 := Nat.lt_of_lt_of_le inside faithful.size_le
    refine ⟨Symbol.atIndex index, (faithful.find?_iff _ _).mpr ?_⟩
    rw [get?, Symbol.index_atIndex_of_lt size, ← Array.getElem?_toList, List.getElem?_eq_getElem inside, read]
  · intro given
    obtain ⟨symbol, found⟩ := given
    have read := (faithful.find?_iff _ _).mp found
    exact Array.mem_toList_iff.mpr (Array.mem_of_getElem? read)

def Listed (lexicon : Lexicon) : Prop :=
  ∀ spelling, spelling ∈ lexicon.spellings.toList ↔ (lexicon.find? spelling).isSome

theorem Faithful.listed (faithful : lexicon.Faithful) : lexicon.Listed := fun _ => faithful.mem_spellings

theorem Listed.spellings_intern (listed : lexicon.Listed) (order : lexicon.spellings.toList = appeared.eraseDups)
    (spelling : String) : (lexicon.intern spelling).2.spellings.toList = (appeared ++ [spelling]).eraseDups := by
  have known : spelling ∈ appeared ↔ (lexicon.find? spelling).isSome := by
    rw [← listed spelling, order, List.mem_eraseDups]
  rcases lexicon.intern_cases spelling with ⟨symbol, found, same⟩ | ⟨unknown, added⟩
  · have old : spelling ∈ appeared := known.mpr (Option.isSome_of_mem found)
    rw [same, eraseDups_concat_of_mem old, order]
  · have new : spelling ∉ appeared := by
      rw [known, unknown]
      exact Bool.false_ne_true
    rw [added, eraseDups_concat_of_not_mem new, ← order]
    exact Array.toList_push

theorem Listed.intern (listed : lexicon.Listed) (spelling : String) : (lexicon.intern spelling).2.Listed := by
  rcases lexicon.intern_cases spelling with ⟨symbol, -, same⟩ | ⟨-, added⟩
  · rw [same]
    exact listed
  · intro other
    rw [added, find?_add]
    show other ∈ (lexicon.spellings.push spelling).toList ↔ _
    rw [Array.toList_push, List.mem_append, List.mem_singleton, listed other]
    by_cases same : spelling = other
    · simp [same]
    · simp [same, Ne.symm same]

theorem Faithful.spellings_intern (faithful : lexicon.Faithful) (order : lexicon.spellings.toList = appeared.eraseDups)
    (spelling : String) : (lexicon.intern spelling).2.spellings.toList = (appeared ++ [spelling]).eraseDups :=
  faithful.listed.spellings_intern order spelling

end Lexicon
end Canon

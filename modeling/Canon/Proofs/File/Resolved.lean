import Mathlib.Data.List.Find
import Canon.Proofs.File.Arrival

/-!
What look-ups that fail leave behind. Which files a catalogue has, their numbers, sizes and names, depends only on the
paths that lead to files: two catalogues agree about all files if the same paths have led somewhere in the same order,
whatever else was looked up in vain.
-/
namespace Canon.File
variable {stat : String → Except StatError Stat} {earlier paths others : List String} {path : String}
  {identity : Identity} {id : FileId}

def resolved (stat : String → Except StatError Stat) (paths : List String) : List String :=
  paths.filter fun path => (fileOf? stat path).isSome

theorem resolved_append : resolved stat (earlier ++ paths) = resolved stat earlier ++ resolved stat paths :=
  List.filter_append ..

theorem resolved_concat_nowhere (nowhere : fileOf? stat path = none) :
    resolved stat (paths ++ [path]) = resolved stat paths := by
  have last : resolved stat [path] = [] := List.filter_cons_of_neg (by simp [nowhere])
  rw [resolved_append, last, List.append_nil]

theorem Reaches.isSome (reaches : Reaches stat path identity) : (fileOf? stat path).isSome = true := by
  obtain ⟨found, leads, -⟩ := Option.map_eq_some_iff.mp reaches
  rw [leads, Option.isSome_some]

theorem find?_resolved (stat : String → Except StatError Stat) (paths : List String) (identity : Identity) :
    (resolved stat paths).find? (Reaches stat · identity) = paths.find? (Reaches stat · identity) := by
  rw [resolved, List.find?_filter]
  refine List.find?_congr fun path _ => ?_
  rw [decide_eq_decide, decide_eq_true_eq]
  exact and_iff_right_of_imp Reaches.isSome

theorem identities_resolved (stat : String → Except StatError Stat) (paths : List String) :
    identities stat (resolved stat paths) = identities stat paths := by
  rw [identities, identities, resolved, List.filterMap_filter]
  congr 1
  refine List.filterMap_congr fun path _ => ?_
  cases fileOf? stat path with
  | none => rfl
  | some found => rfl

theorem identities_prefix (stat : String → Except StatError Stat) (earlier paths : List String) :
    identities stat earlier <+: identities stat (earlier ++ paths) := by
  rw [identities, identities, List.filterMap_append, List.eraseDups_append]
  exact List.prefix_append _ _

namespace Lookups

theorem exists_split (reached : identity ∈ identities stat paths) :
    ∃ earlier first later, paths = earlier ++ first :: later ∧ Reaches stat first identity ∧
      ∀ other ∈ earlier, ¬Reaches stat other identity := by
  obtain ⟨path, member, reaches⟩ := mem_identities.mp reached
  have met : (paths.find? (Reaches stat · identity)).isSome :=
    List.find?_isSome.mpr ⟨path, member, decide_eq_true reaches⟩
  obtain ⟨first, found⟩ := Option.isSome_iff_exists.mp met
  obtain ⟨arrives, earlier, later, split, new⟩ := List.find?_eq_some_iff_append.mp found
  exact ⟨earlier, first, later, split, of_decide_eq_true arrives, fun other among => by simpa using new other among⟩

theorem getElem?_identities_of_number (few : paths.length < 2147483648)
    (number : (lookups stat paths).catalogue.fileIds[identity]? = some id) :
    (identities stat paths)[id.index]? = some identity := by
  obtain ⟨path, member, arrives, -⟩ := exists_path few number
  obtain ⟨earlier, first, later, rfl, reaches, new⟩ := exists_split (mem_identities.mpr ⟨path, member, arrives⟩)
  rw [List.append_cons] at few number ⊢
  have short : (earlier ++ [first]).length < 2147483648 := by
    rw [List.length_append] at few
    omega
  obtain ⟨old, -, given⟩ := exists_number short (List.mem_append_right earlier (List.mem_singleton.mpr rfl)) reaches
  have same := fileIds_of_earlier few given
  rw [number, Option.some.injEq] at same
  subst same
  have index := index_first short new reaches given
  obtain ⟨more, whole⟩ := identities_prefix stat (earlier ++ [first]) later
  rw [← whole, identities_concat_new new reaches, index, List.append_assoc, List.getElem?_append_right (Nat.le_refl _)]
  simp

theorem number_iff (few : paths.length < 2147483648) :
    (lookups stat paths).catalogue.fileIds[identity]? = some id ↔
      (identities stat paths)[id.index]? = some identity := by
  refine ⟨getElem?_identities_of_number few, fun read => ?_⟩
  obtain ⟨path, member, reaches⟩ := mem_identities.mp (List.mem_of_getElem? read)
  obtain ⟨other, -, number⟩ := exists_number few member reaches
  have also := getElem?_identities_of_number few number
  have inside := (List.getElem?_eq_some_iff.mp also).choose
  have same := (List.getElem?_inj inside (nodup_eraseDups _)).mp (also.trans read.symm)
  rw [number, Handle.ext_index same]

theorem size_files (stat : String → Except StatError Stat) (few : paths.length < 2147483648) :
    (lookups stat paths).catalogue.files.size = (identities stat paths).length := by
  rw [(consistent stat few).1.recounts.files.count, ← (identities_perm stat few).length_eq, List.length_map]

theorem record_of_first {first : String} {found : Stat} (few : (earlier ++ first :: others).length < 2147483648)
    (new : ∀ other ∈ earlier, ¬Reaches stat other found.identity) (leads : fileOf? stat first = some found)
    (number : (lookups stat (earlier ++ first :: others)).catalogue.fileIds[found.identity]? = some id)
    {record : FileRecord}
    (entered : (lookups stat (earlier ++ first :: others)).catalogue.files.get? id = some record) :
    record.size = found.size ∧ record.uid.toNat = id.index ∧
      (lookups stat (earlier ++ first :: others)).catalogue.resolveName record.name = .ok first := by
  have named := fileName_first few new (.of_leads leads) number
  rw [Catalogue.fileName, Registry.get_eq_ok_iff.mpr entered] at named
  rw [List.append_cons] at few number entered
  have short : (earlier ++ [first]).length < 2147483648 := by
    rw [List.length_append] at few
    omega
  have last : first ∈ earlier ++ [first] := List.mem_append_right earlier (List.mem_singleton.mpr rfl)
  obtain ⟨old, -, given⟩ := exists_number short last (.of_leads leads)
  obtain rfl := Option.some.inj ((fileIds_of_earlier few given).symm.trans number)
  have bound : old.index < (lookups stat (earlier ++ [first])).catalogue.files.size := by
    rw [size_files stat short]
    exact (List.getElem?_eq_some_iff.mp (getElem?_identities_of_number short given)).choose
  have early := Array.getElem?_eq_getElem bound
  obtain rfl := Option.some.inj (((continues stat few).file_entered early).symm.trans entered)
  obtain ⟨size, uid, -⟩ := record_first short new leads given early
  exact ⟨size, uid.trans (index_first short new (.of_leads leads) given).symm, named⟩

theorem exists_first (few : paths.length < 2147483648) {record : FileRecord}
    (entered : (lookups stat paths).catalogue.files.get? id = some record) :
    ∃ identity first found, (identities stat paths)[id.index]? = some identity ∧
      paths.find? (Reaches stat · identity) = some first ∧ fileOf? stat first = some found ∧
      record.size = found.size ∧ record.uid.toNat = id.index ∧
      (lookups stat paths).catalogue.resolveName record.name = .ok first := by
  have bound : id.index < (identities stat paths).length := by
    rw [← size_files stat few]
    exact (Array.getElem?_eq_some_iff.mp entered).choose
  have read := List.getElem?_eq_getElem bound
  obtain ⟨earlier, first, later, rfl, reaches, new⟩ := exists_split (List.mem_of_getElem? read)
  obtain ⟨found, leads, same⟩ := Option.map_eq_some_iff.mp reaches
  rw [← same] at read new
  have met : (earlier ++ first :: later).find? (Reaches stat · found.identity) = some first := by
    refine List.find?_eq_some_iff_append.mpr ⟨decide_eq_true (.of_leads leads), earlier, later, rfl, ?_⟩
    exact fun other among => by simpa using new other among
  exact ⟨found.identity, first, found, read, met, leads,
    record_of_first few new leads ((number_iff few).mpr read) entered⟩

end Lookups

namespace Catalogue

structure Alike (left right : Catalogue) (mine other : FileRecord) : Prop where
  size : mine.size = other.size
  uid : mine.uid = other.uid
  name : left.resolveName mine.name = right.resolveName other.name

structure Agrees (left right : Catalogue) : Prop where
  numbers : ∀ identity : Identity, left.fileIds[identity]? = right.fileIds[identity]?
  size : left.files.size = right.files.size
  records : ∀ id, Option.Rel (left.Alike right) (left.files.get? id) (right.files.get? id)

namespace Agrees
variable {left right : Catalogue} {mine : FileRecord}

theorem no_record (agrees : left.Agrees right) (nothing : left.files.get? id = none) : right.files.get? id = none := by
  have records := agrees.records id
  rw [nothing] at records
  generalize right.files.get? id = other at records
  cases records with
  | none => rfl

theorem exists_record (agrees : left.Agrees right) (entered : left.files.get? id = some mine) :
    ∃ other, right.files.get? id = some other ∧ left.Alike right mine other := by
  have records := agrees.records id
  rw [entered] at records
  generalize right.files.get? id = other at records
  cases records with
  | some alike => exact ⟨_, rfl, alike⟩

theorem get_error (agrees : left.Agrees right) (nothing : left.files.get? id = none) :
    left.files.get id = .error (left.files.unknown id) ∧ right.files.get id = .error (left.files.unknown id) := by
  unfold Registry.get Registry.unknown
  rw [nothing, agrees.no_record nothing, agrees.size]
  exact ⟨rfl, rfl⟩

theorem fileName (agrees : left.Agrees right) (id : FileId) : left.fileName id = right.fileName id := by
  unfold Catalogue.fileName
  cases entered : left.files.get? id with
  | none =>
    obtain ⟨here, there⟩ := agrees.get_error entered
    rw [here, there]
    rfl
  | some mine =>
    obtain ⟨other, also, alike⟩ := agrees.exists_record entered
    rw [Registry.get_eq_ok_iff.mpr entered, Registry.get_eq_ok_iff.mpr also]
    exact alike.name

theorem found_eq (agrees : left.Agrees right) {one two : Option FileId} {leads : Option Stat}
    (here : Option.Rel (Numbers left.fileIds) one leads) (there : Option.Rel (Numbers right.fileIds) two leads) :
    one = two := by
  cases here with
  | none =>
    cases there with
    | none => rfl
  | @some one found number =>
    cases there with
    | @some two found also => exact (number.symm.trans (agrees.numbers found.identity)).trans also

end Agrees
end Catalogue

theorem Lookups.alike (few : paths.length < 2147483648) (also : others.length < 2147483648)
    (same : resolved stat paths = resolved stat others) {mine other : FileRecord}
    (entered : (lookups stat paths).catalogue.files.get? id = some mine)
    (besides : (lookups stat others).catalogue.files.get? id = some other) :
    (lookups stat paths).catalogue.Alike (lookups stat others).catalogue mine other := by
  obtain ⟨identity, first, found, read, reached, leads, size, uid, name⟩ := exists_first few entered
  obtain ⟨place, head, met, reads, reaches, arrives, sized, counted, named⟩ := exists_first also besides
  rw [← identities_resolved, same, identities_resolved, reads, Option.some.injEq] at read
  subst read
  rw [← find?_resolved, same, find?_resolved, reaches, Option.some.injEq] at reached
  subst reached
  obtain rfl := Option.some.inj (leads.symm.trans arrives)
  exact ⟨size.trans sized.symm, UInt32.toNat_inj.mp (uid.trans counted.symm), name.trans named.symm⟩

theorem Lookups.agrees (few : paths.length < 2147483648) (also : others.length < 2147483648)
    (same : resolved stat paths = resolved stat others) :
    (lookups stat paths).catalogue.Agrees (lookups stat others).catalogue := by
  have met : identities stat paths = identities stat others := by
    rw [← identities_resolved stat paths, same, identities_resolved]
  have size : (lookups stat paths).catalogue.files.size = (lookups stat others).catalogue.files.size := by
    rw [size_files stat few, size_files stat also, met]
  refine ⟨fun identity => Option.ext fun id => ?_, size, fun id => ?_⟩
  · rw [number_iff few, number_iff also, met]
  · rcases Nat.lt_or_ge id.index (lookups stat paths).catalogue.files.size with inside | beyond
    · have within := Nat.lt_of_lt_of_eq inside size
      have mine : (lookups stat paths).catalogue.files.get? id = some _ := Array.getElem?_eq_getElem inside
      have other : (lookups stat others).catalogue.files.get? id = some _ := Array.getElem?_eq_getElem within
      rw [mine, other]
      exact .some (alike few also same mine other)
    · have outside := Nat.le_trans (Nat.le_of_eq size.symm) beyond
      have mine : (lookups stat paths).catalogue.files.get? id = none := Array.getElem?_eq_none beyond
      have other : (lookups stat others).catalogue.files.get? id = none := Array.getElem?_eq_none outside
      rw [mine, other]
      exact .none

end Canon.File

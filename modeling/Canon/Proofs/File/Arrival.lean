import Canon.Proofs.File.Naming
import Canon.Proofs.Lexicon.Appearance

/-!
Files in the order of their arrival. In a file system that does not change, each file gets the next number when a path
leads to it first, so its number says how many files were reached before; and its record has the name and the size that
were found then. It does not matter whether something else changes in the world of the file system.
-/
namespace Canon.File
variable {ω : Type} {system : FileSystem ω} {stat : String → Except StatError Stat}

def Unchanging (system : FileSystem ω) (stat : String → Except StatError Stat) : Prop :=
  ∀ path world, (system path world).1 = stat path

namespace Catalogue

theorem directoryBy_unchanging (unchanging : Unchanging system stat) (path : String) (catalogue : Catalogue)
    (world : ω) : ((catalogue.directoryBy (m := StateM ω) (fun _ => system) path).run world).1 =
      ((catalogue.directoryBy (m := StateM Unit) (fun _ => fixed stat) path).run ()).1 := by
  unfold directoryBy
  rcases catalogue.beginDirectory path with ⟨name, begun⟩
  cases known : begun.directoryPaths.get name with
  | found id => simp only [known]; rfl
  | missing => simp only [known]; rfl
  | unknown =>
    rcases asked : system path world with ⟨answer, later⟩
    have same : answer = stat path := (congrArg Prod.fst asked).symm.trans (unchanging path world)
    have asks : StateT.run (m := Id) (system path) world = pure (answer, later) := asked
    have fixedly : StateT.run (m := Id) (fixed stat path) () = pure (answer, ()) := by
      rw [same]
      rfl
    simp only [known, StateT.run_bind, asks, fixedly, pure_bind]
    cases Sought.directory.usable? answer with
    | none => rfl
    | some stat => rfl

theorem file_unchanging (unchanging : Unchanging system stat) (path : String) (catalogue : Catalogue) (world : ω) :
    ((catalogue.file (m := StateM ω) system path).run world).1 =
      ((catalogue.file (m := StateM Unit) (fixed stat) path).run ()).1 := by
  unfold file fileBy
  rcases catalogue.beginFile path with ⟨name, begun⟩
  cases known : begun.filePaths.get name with
  | found id => simp only [known]; rfl
  | missing => simp only [known]; rfl
  | unknown =>
    cases above : parent? path with
    | none => simp only [known]; rfl
    | some parent =>
      have nested := directoryBy_unchanging unchanging parent (begun.missFile name) world
      rcases outcome : ((begun.missFile name).directoryBy (m := StateM ω) (fun _ => system) parent).run world with
        ⟨⟨found, within⟩, later⟩
      rw [outcome] at nested
      have plain : ((begun.missFile name).directoryBy (m := StateM ω) (fun _ => system) parent).run world =
          pure ((found, within), later) := outcome
      have fixedly : ((begun.missFile name).directoryBy (m := StateM Unit) (fun _ => fixed stat) parent).run () =
          pure ((found, within), ()) := Prod.ext nested.symm rfl
      simp only [known, StateT.run_bind, plain, fixedly, pure_bind]
      cases found with
      | none => rfl
      | some directory =>
        rcases asked : system path later with ⟨answer, last⟩
        have same : answer = stat path := (congrArg Prod.fst asked).symm.trans (unchanging path later)
        have asks : StateT.run (m := Id) (system path) later = pure (answer, last) := asked
        have answers : StateT.run (m := Id) (fixed stat path) () = pure (answer, ()) := by
          rw [same]
          rfl
        simp only [StateT.run_bind, asks, answers, pure_bind]
        cases Sought.file.usable? answer with
        | none => rfl
        | some stat => rfl

end Catalogue

/-- The identities that some paths lead to, in the order in which they are reached first. -/
def identities (stat : String → Except StatError Stat) (paths : List String) : List Identity :=
  (paths.filterMap fun path => (fileOf? stat path).map Stat.identity).eraseDups

theorem mem_identities {paths : List String} {identity : Identity} :
    identity ∈ identities stat paths ↔ ∃ path ∈ paths, Reaches stat path identity := by
  rw [identities, List.mem_eraseDups, List.mem_filterMap]
  rfl

theorem identities_concat_known {paths : List String} {path other : String} {identity : Identity}
    (member : other ∈ paths) (before : Reaches stat other identity) (reaches : Reaches stat path identity) :
    identities stat (paths ++ [path]) = identities stat paths := by
  have last : [path].filterMap (fun path => (fileOf? stat path).map Stat.identity) = [identity] :=
    List.filterMap_cons_some reaches
  rw [identities, List.filterMap_append, last]
  exact eraseDups_concat_of_mem (List.mem_filterMap.mpr ⟨other, member, before⟩)

theorem identities_concat_new {paths : List String} {path : String} {identity : Identity}
    (new : ∀ other ∈ paths, ¬Reaches stat other identity) (reaches : Reaches stat path identity) :
    identities stat (paths ++ [path]) = identities stat paths ++ [identity] := by
  have absent : identity ∉ paths.filterMap fun path => (fileOf? stat path).map Stat.identity := fun member => by
    obtain ⟨other, among, leads⟩ := List.mem_filterMap.mp member
    exact new other among leads
  have last : [path].filterMap (fun path => (fileOf? stat path).map Stat.identity) = [identity] :=
    List.filterMap_cons_some reaches
  rw [identities, List.filterMap_append, last]
  exact eraseDups_concat_of_not_mem absent

namespace Lookups
variable {earlier paths : List String} {path : String} {id : FileId} {identity : Identity}

theorem file_looked (unchanging : Unchanging system stat) (few : (earlier ++ [path]).length < 2147483648)
    {found : Option FileId} {catalogue : Catalogue} {world later : ω}
    (looked : ((lookups stat earlier).catalogue.file (m := StateM ω) system path).run world =
      ((found, catalogue), later)) :
    catalogue = (lookups stat (earlier ++ [path])).catalogue ∧
      Option.Rel (Numbers (lookups stat (earlier ++ [path])).catalogue.fileIds) found (fileOf? stat path) := by
  obtain ⟨answer, plain, numbered⟩ := file_eq stat few
  have same := (lookups stat earlier).catalogue.file_unchanging unchanging path world
  rw [looked, plain] at same
  cases same
  exact ⟨rfl, numbered⟩

theorem identities_perm (stat : String → Except StatError Stat) (few : paths.length < 2147483648) :
    ((discoveries .file (lookups stat paths).log).map Finding.identity).Perm (identities stat paths) := by
  obtain ⟨consistent, -, short⟩ := consistent stat few
  have indexes := consistent.recounts.files.indexes
  refine (List.perm_ext_iff_of_nodup (nodup_discoveries _ _) (nodup_eraseDups _)).mpr fun identity => ?_
  rw [indexes.mem_identities_iff short]
  constructor
  · intro present
    obtain ⟨id, numbered⟩ := Option.ne_none_iff_exists'.mp present
    obtain ⟨path, member, reaches, -⟩ := exists_path few numbered
    exact mem_identities.mpr ⟨path, member, reaches⟩
  · intro reached
    obtain ⟨path, member, reaches⟩ := mem_identities.mp reached
    obtain ⟨id, -, numbered⟩ := exists_number few member reaches
    rw [numbered]
    exact Option.some_ne_none id

/-- The number of a file says how many files were reached before. -/
theorem index_first (few : (earlier ++ [path]).length < 2147483648)
    (new : ∀ other ∈ earlier, ¬Reaches stat other identity) (reaches : Reaches stat path identity)
    (numbered : (lookups stat (earlier ++ [path])).catalogue.fileIds[identity]? = some id) :
    id.index = (identities stat earlier).length := by
  have short : earlier.length < 2147483648 := by
    rw [List.length_append] at few
    omega
  obtain ⟨before, -, -⟩ := consistent stat short
  obtain ⟨after, -, -⟩ := consistent stat few
  have early := (identities_perm stat short).length_eq
  have late := (identities_perm stat few).length_eq
  rw [List.length_map] at early late
  have inside := after.recounts.files.indexes.index_lt numbered
  rw [identities_concat_new new reaches, List.length_append, List.length_singleton] at late
  -- A smaller number was taken before, by a file with another identity.
  have taken : ¬id.index < (discoveries .file (lookups stat earlier).log).length := fun below => by
    have read := List.getElem?_eq_getElem below
    have given := (before.recounts.files.indexes.numbered _ id).mpr (by rw [read, Option.map_some])
    obtain ⟨other, among, leads, -⟩ := exists_path short given
    have same := after.recounts.files.indexes.identity_eq (fileIds_of_earlier few given) numbered
    exact new other among (same ▸ leads)
  omega

theorem record_first {found : Stat} (few : (earlier ++ [path]).length < 2147483648)
    (new : ∀ other ∈ earlier, ¬Reaches stat other found.identity) (leads : fileOf? stat path = some found)
    (numbered : (lookups stat (earlier ++ [path])).catalogue.fileIds[found.identity]? = some id)
    {record : FileRecord} (entered : (lookups stat (earlier ++ [path])).catalogue.files.get? id = some record) :
    record.size = found.size ∧ record.uid.toNat = (identities stat earlier).length ∧
      (lookups stat (earlier ++ [path])).catalogue.resolveName record.name = .ok path := by
  obtain ⟨consistent, -, short⟩ := consistent stat few
  have recounts := consistent.recounts
  obtain ⟨discovery, read, same⟩ :=
    Option.map_eq_some_iff.mp ((recounts.files.indexes.numbered found.identity id).mp numbered)
  obtain ⟨other, also, describes⟩ := recounts.files.records id.index discovery read
  obtain rfl := Option.some.inj (also.symm.trans entered)
  have named := fileName_first few new (.of_leads leads) numbered
  have name : (lookups stat (earlier ++ [path])).catalogue.resolveName other.name = .ok discovery.path :=
    recounts.named.resolveName_eq describes.name
  have first : discovery.path = path := by
    rw [Catalogue.fileName, Registry.get_eq_ok_iff.mpr entered] at named
    exact Except.ok.inj (name.symm.trans named)
  have usable := (Visit.truthful_run stat _).usable (mem_findings_of_discovery (List.mem_of_getElem? read))
  rw [first, (fileOf?_eq_some.mp leads).2, Option.some.injEq] at usable
  refine ⟨?_, ?_, first ▸ name⟩
  · rw [describes.size, ← usable]
  · rw [describes.uid]
    exact index_first few new (.of_leads leads) numbered

end Lookups
end Canon.File

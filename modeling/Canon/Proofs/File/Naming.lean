import Mathlib.Data.List.Induction
import Canon.Proofs.File.Identity

/-!
The names of files. In a file system that does not change, a file is named by the first of the paths looked up that lead
to it, and both the number and the name stay what they are whatever is looked up later.
-/
namespace Canon.File
variable {ω : Type}

theorem Catalogue.fileName_eq_ok {catalogue : Catalogue} {id : FileId} {path : String} :
    catalogue.fileName id = .ok path ↔
      ∃ record, catalogue.files.get? id = some record ∧ catalogue.names.get? record.name = some path := by
  unfold fileName
  cases entered : catalogue.files.get id with
  | error fault =>
    constructor
    · intro named
      cases named
    · intro given
      obtain ⟨record, found, -⟩ := given
      cases (Registry.get_eq_ok_iff.mpr found).symm.trans entered
  | ok record =>
    show catalogue.names.get record.name = .ok path ↔ _
    rw [Lexicon.get_eq_ok_iff, Registry.get_eq_ok_iff.mp entered]
    simp

namespace Visit
variable {before after : Visit ω}

theorem Continues.file_entered (continues : before.Continues after) {id : FileId} {record : FileRecord}
    (entered : before.catalogue.files.get? id = some record) : after.catalogue.files.get? id = some record := by
  rw [Registry.get?, ← Array.getElem?_toList] at entered ⊢
  obtain ⟨inside, same⟩ := List.getElem?_eq_some_iff.mp entered
  rw [← same]
  exact List.prefix_iff_getElem?.mp continues.files _ inside

theorem Continues.fileName (continues : before.Continues after) (first : before.Consistent) (last : after.Consistent)
    {id : FileId} {path : String} (named : before.catalogue.fileName id = .ok path) :
    after.catalogue.fileName id = .ok path := by
  obtain ⟨record, entered, read⟩ := Catalogue.fileName_eq_ok.mp named
  have symbol := (first.recounts.named.faithful.find?_iff path record.name).mpr read
  refine Catalogue.fileName_eq_ok.mpr ⟨record, continues.file_entered entered, ?_⟩
  exact (last.recounts.named.faithful.find?_iff path record.name).mp (continues.remembers.names path _ symbol)

theorem Consistent.requested {visit : Visit ω} (consistent : visit.Consistent)
    (few : visit.calls.length + 1 < 2147483648) (system : FileSystem ω) (request : Request) {path : String}
    (known : (visit.serve system request).catalogue.fileAt path ≠ .unknown) :
    visit.catalogue.fileAt path ≠ .unknown ∨ request = .file path := by
  have names := consistent.names
  have log : visit.watched.log.length ≤ 2 * visit.calls.length := consistent.log
  have recounted : visit.catalogue.Recounts visit.watched.log := consistent.recounts
  cases request with
  | directory other =>
    rcases outcome : (visit.catalogue.directoryBy (Watched.ask system) other).run visit.watched with
      ⟨⟨answer, after⟩, later⟩
    obtain ⟨-, looked⟩ := recounted.directoryBy (by omega) (by omega) system outcome
    simp only [Visit.serve, outcome, looked.fileAt] at known
    exact .inl known
  | file other =>
    rcases outcome : (visit.catalogue.fileBy (Watched.ask system) other).run visit.watched with
      ⟨⟨answer, after⟩, later⟩
    obtain ⟨-, looked⟩ := recounted.fileBy (by omega) (by omega) system outcome
    simp only [Visit.serve, outcome] at known
    by_cases same : path = other
    · exact .inr (congrArg Request.file same.symm)
    · rw [looked.others path same] at known
      exact .inl known

theorem requested_of_known (system : FileSystem ω) (world : ω) (requests : List Request)
    (few : requests.length < 2147483648) {path : String}
    (known : (run system world requests).catalogue.fileAt path ≠ .unknown) : .file path ∈ requests := by
  induction requests using List.reverseRecOn with
  | nil => exact absurd (Catalogue.fileAt_empty path) known
  | append_singleton earlier request ih =>
    rw [List.length_append, List.length_singleton] at few
    obtain ⟨consistent, answered⟩ := consistent_run system world earlier (by omega)
    have count : (run system world earlier).calls.length = earlier.length := by
      rw [← List.length_map, answered]
    rw [run_append, serveAll_cons, serveAll_nil] at known
    rcases consistent.requested (by omega) system request known with old | rfl
    · exact List.mem_append_left _ (ih (by omega) old)
    · exact List.mem_append_right _ (List.mem_singleton.mpr rfl)

end Visit

def Reaches (stat : String → Except StatError Stat) (path : String) (identity : Identity) : Prop :=
  (fileOf? stat path).map Stat.identity = some identity

instance (stat : String → Except StatError Stat) (path : String) (identity : Identity) :
    Decidable (Reaches stat path identity) :=
  inferInstanceAs (Decidable (_ = _))

theorem Reaches.of_leads {stat : String → Except StatError Stat} {path : String} {found : Stat}
    (leads : fileOf? stat path = some found) : Reaches stat path found.identity := by
  rw [Reaches, leads, Option.map_some]

def lookups (stat : String → Except StatError Stat) (paths : List String) : Visit Unit :=
  Visit.run (fixed stat) () (paths.map .file)

namespace Lookups
variable {stat : String → Except StatError Stat} {earlier later paths : List String} {path : String} {id : FileId}
  {identity : Identity}

theorem consistent (stat : String → Except StatError Stat) (few : paths.length < 2147483648) :
    (lookups stat paths).Consistent ∧
    (lookups stat paths).calls.map Call.request = paths.map .file ∧ (lookups stat paths).log.length < 4294967296 := by
  have short : (paths.map Request.file).length < 2147483648 := List.length_map Request.file ▸ few
  obtain ⟨consistent, answered⟩ := Visit.consistent_run (fixed stat) () (paths.map .file) short
  exact ⟨consistent, answered, Visit.length_log_lt consistent answered short⟩

theorem continues (stat : String → Except StatError Stat) (few : (earlier ++ later).length < 2147483648) :
    (lookups stat earlier).Continues (lookups stat (earlier ++ later)) := by
  rw [lookups, lookups, List.map_append]
  refine Visit.continues_run (fixed stat) () _ _ ?_
  rw [← List.map_append, List.length_map]
  exact few

theorem numbered (stat : String → Except StatError Stat) (few : paths.length < 2147483648) (member : path ∈ paths) :
    ∃ answer, (lookups stat paths).catalogue.fileAt path = .ofAnswer answer ∧
      Option.Rel (Numbers (lookups stat paths).catalogue.fileIds) answer (fileOf? stat path) := by
  obtain ⟨consistent, answered, short⟩ := consistent stat few
  obtain ⟨answer, called⟩ := exists_file_call answered (List.mem_map_of_mem member)
  exact ⟨answer, consistent.stands _ called, consistent.file_numbered short (Visit.truthful_run stat _) called⟩

theorem exists_number (few : paths.length < 2147483648) (member : path ∈ paths) (reaches : Reaches stat path identity) :
    ∃ id, (lookups stat paths).catalogue.fileAt path = .found id ∧
      (lookups stat paths).catalogue.fileIds[identity]? = some id := by
  obtain ⟨answer, known, numbered⟩ := numbered stat few member
  obtain ⟨found, leads, rfl⟩ := Option.map_eq_some_iff.mp reaches
  rw [leads] at numbered
  cases numbered with
  | some here => exact ⟨_, known, here⟩

theorem exists_path (few : paths.length < 2147483648)
    (numbered : (lookups stat paths).catalogue.fileIds[identity]? = some id) :
    ∃ path ∈ paths, Reaches stat path identity ∧ (lookups stat paths).catalogue.fileName id = .ok path := by
  obtain ⟨consistent, answered, short⟩ := consistent stat few
  have indexes := consistent.recounts.files.indexes
  obtain ⟨discovery, read, same⟩ := Option.map_eq_some_iff.mp ((indexes.numbered identity id).mp numbered)
  obtain ⟨other, record, index, -, named, -⟩ := (consistent.recounts.enrols short).file id.index discovery read
  obtain rfl := Handle.ext_index index
  have found : (lookups stat paths).catalogue.fileAt discovery.path = .found other := by
    refine (indexes.found discovery.path other).mpr ⟨discovery, ?_, rfl, ?_⟩
    · exact mem_findings_of_discovery (List.mem_of_getElem? read)
    · rw [same]
      exact numbered
  have known : (lookups stat paths).catalogue.fileAt discovery.path ≠ .unknown := by
    rw [found]
    exact nofun
  have count : (paths.map Request.file).length < 2147483648 := List.length_map Request.file ▸ few
  have requested := Visit.requested_of_known (fixed stat) () (paths.map .file) count known
  obtain ⟨path, member, request⟩ := List.mem_map.mp requested
  cases request
  obtain ⟨answer, also, leads⟩ := Lookups.numbered stat few member
  rw [found] at also
  cases answer with
  | none => cases also
  | some answer =>
    cases also
    generalize reached : fileOf? stat discovery.path = place at leads
    cases leads with
    | some here => exact ⟨discovery.path, member, indexes.identity_eq here numbered ▸ .of_leads reached, named⟩

theorem fileIds_of_earlier (few : (earlier ++ later).length < 2147483648)
    (numbered : (lookups stat earlier).catalogue.fileIds[identity]? = some id) :
    (lookups stat (earlier ++ later)).catalogue.fileIds[identity]? = some id := by
  have short : earlier.length < 2147483648 := by
    rw [List.length_append] at few
    omega
  obtain ⟨path, member, reaches, -⟩ := exists_path short numbered
  obtain ⟨first, known, same⟩ := exists_number short member reaches
  obtain ⟨last, still, number⟩ := exists_number few (List.mem_append_left later member) reaches
  have kept := (continues stat few).fileAt path (by rw [known]; exact nofun)
  rw [known, still, Resolution.found.injEq] at kept
  rw [number, kept, ← same, numbered]

theorem fileName_first {first : String} (few : (earlier ++ first :: later).length < 2147483648)
    (new : ∀ other ∈ earlier, ¬Reaches stat other identity) (reaches : Reaches stat first identity)
    (numbered : (lookups stat (earlier ++ first :: later)).catalogue.fileIds[identity]? = some id) :
    (lookups stat (earlier ++ first :: later)).catalogue.fileName id = .ok first := by
  rw [List.append_cons] at few numbered ⊢
  have short : (earlier ++ [first]).length < 2147483648 := by
    rw [List.length_append] at few
    omega
  obtain ⟨old, -, given⟩ := exists_number short (List.mem_append_right earlier (List.mem_singleton.mpr rfl)) reaches
  obtain ⟨path, member, leads, named⟩ := exists_path short given
  have same : path = first := by
    rcases List.mem_append.mp member with before | last
    · exact absurd leads (new path before)
    · exact List.mem_singleton.mp last
  subst same
  rw [fileIds_of_earlier few given, Option.some.injEq] at numbered
  subst numbered
  exact (continues stat few).fileName (consistent stat short).1 (consistent stat few).1 named

theorem file_eq (stat : String → Except StatError Stat) (few : (earlier ++ [path]).length < 2147483648) :
    ∃ answer, ((lookups stat earlier).catalogue.file (m := StateM Unit) (fixed stat) path).run () =
        ((answer, (lookups stat (earlier ++ [path])).catalogue), ()) ∧
      Option.Rel (Numbers (lookups stat (earlier ++ [path])).catalogue.fileIds) answer (fileOf? stat path) := by
  have plain := (lookups stat earlier).catalogue.file_watched (fixed stat) path (lookups stat earlier).watched
  rcases outcome : ((lookups stat earlier).catalogue.fileBy (Watched.ask (fixed stat)) path).run
    (lookups stat earlier).watched with ⟨⟨answer, after⟩, watched⟩
  have served : lookups stat (earlier ++ [path]) =
      ⟨after, watched, (lookups stat earlier).calls ++ [.file path answer]⟩ := by
    rw [lookups, List.map_append, List.map_singleton, Visit.run_append, Visit.serveAll_cons, Visit.serveAll_nil]
    show (lookups stat earlier).serve (fixed stat) (.file path) = _
    simp only [Visit.serve, outcome]
  obtain ⟨consistent, -, short⟩ := consistent stat few
  have called : .file path answer ∈ (lookups stat (earlier ++ [path])).calls := by
    rw [served]
    exact List.mem_append_right _ (List.mem_singleton.mpr rfl)
  refine ⟨answer, ?_, consistent.file_numbered short (Visit.truthful_run stat _) called⟩
  rw [served]
  exact plain.trans (by rw [outcome])

end Lookups
end Canon.File

import Canon.Proofs.Run.Entries
import Canon.Proofs.Survey.Report

/-!
A survey keeps pace with the entries of a run. As long as paths can be added, it has looked up their paths, has surveyed
the files that are open and has entered their words; so what it answers next is what the next entry says.
-/
namespace Canon
open Canon.File
variable {ω : Type} {host : Host (StateM ω)} {stat : String → Except StatError Stat}
  {read : String → Except ReadError (List UInt8)} {dialect : Dialect}

namespace Run

structure Tracks (stat : String → Except StatError Stat) (dialect : Dialect) (entries : List Entry)
    (survey : Survey) : Prop where
  orderly : Orderly stat entries
  options : survey.dialect = dialect
  catalogue : survey.catalogue = (lookups stat (entries.map Entry.path)).catalogue
  surveyed : ∀ file, survey.surveyed.get file = true ↔ ∃ entry ∈ entries,
    (lookups stat (entries.map Entry.path)).catalogue.fileIds[entry.identity]? = some file
  identifiers : survey.identifiers.Reflects dialect (entries.flatMap Entry.words)

namespace Tracks
variable {entries : List Entry} {survey : Survey} {path : String} {file : FileId} {identity : Identity}

theorem start (stat : String → Except StatError Stat) (dialect : Dialect) :
    Tracks stat dialect [] (.start dialect) where
  orderly := .nil stat
  options := rfl
  catalogue := rfl
  surveyed file := by
    show (Overlay.constant false).get file = true ↔ _
    simp
  identifiers := by
    dsimp only [Survey.start, List.flatMap_nil]
    exact .ofDialect dialect

theorem surveyed_later (tracks : Tracks stat dialect entries survey)
    (few : (entries.map Entry.path ++ [path]).length < 2147483648) (file : FileId) :
    survey.surveyed.get file = true ↔ ∃ entry ∈ entries,
      (lookups stat (entries.map Entry.path ++ [path])).catalogue.fileIds[entry.identity]? = some file := by
  have short : (entries.map Entry.path).length < 2147483648 := by
    rw [List.length_append] at few
    omega
  rw [tracks.surveyed]
  constructor
  · intro given
    obtain ⟨entry, member, before⟩ := given
    exact ⟨entry, member, Lookups.fileIds_of_earlier few before⟩
  · intro given
    obtain ⟨entry, member, after⟩ := given
    obtain ⟨id, -, before⟩ :=
      Lookups.exists_number short (List.mem_map_of_mem member) (tracks.orderly.reaches entry member)
    have same := Lookups.fileIds_of_earlier few before
    rw [after, Option.some.injEq] at same
    exact ⟨entry, member, same ▸ before⟩

theorem known_iff (tracks : Tracks stat dialect entries survey)
    (few : (entries.map Entry.path ++ [path]).length < 2147483648)
    (number : (lookups stat (entries.map Entry.path ++ [path])).catalogue.fileIds[identity]? = some file) :
    survey.surveyed.get file = true ↔ ∃ entry ∈ entries, entry.identity = identity := by
  rw [tracks.surveyed_later few]
  constructor
  · intro given
    obtain ⟨entry, member, after⟩ := given
    exact ⟨entry, member, (Lookups.consistent stat few).1.recounts.files.indexes.identity_eq after number⟩
  · intro given
    obtain ⟨entry, member, rfl⟩ := given
    exact ⟨entry, member, number⟩

theorem find?_eq_none (tracks : Tracks stat dialect entries survey)
    (few : (entries.map Entry.path ++ [path]).length < 2147483648)
    (number : (lookups stat (entries.map Entry.path ++ [path])).catalogue.fileIds[identity]? = some file)
    (unknown : survey.surveyed.get file = false) : entries.find? (·.identity = identity) = none := by
  rw [List.find?_eq_none]
  intro entry member same
  have known := (tracks.known_iff few number).mpr ⟨entry, member, of_decide_eq_true same⟩
  exact Bool.false_ne_true (unknown.symm.trans known)

theorem looks (tracks : Tracks stat dialect entries survey) (unchanging : host.Unchanging stat read)
    (few : (entries.map Entry.path ++ [path]).length < 2147483648) {found : Option FileId} {catalogue : Catalogue}
    {world later : ω} (looked : (survey.catalogue.file host.stat path).run world = ((found, catalogue), later)) :
    catalogue = (lookups stat (entries.map Entry.path ++ [path])).catalogue ∧ Option.Rel
      (Numbers (lookups stat (entries.map Entry.path ++ [path])).catalogue.fileIds) found (fileOf? stat path) :=
  unchanging.looks tracks.catalogue few looked

theorem concat_repeats (tracks : Tracks stat dialect entries survey)
    (few : (entries.map Entry.path ++ [path]).length < 2147483648) {found : Stat} {first : Entry}
    (leads : fileOf? stat path = some found) (known : entries.find? (·.identity = found.identity) = some first) :
    Tracks stat dialect (entries ++ [.repeats path found.identity first.path])
      { survey with catalogue := (lookups stat (entries.map Entry.path ++ [path])).catalogue } := by
  obtain ⟨member, same⟩ := found_identity known
  have paths : (entries ++ [Entry.repeats path found.identity first.path]).map Entry.path =
      entries.map Entry.path ++ [path] := List.map_append
  have words : (entries ++ [Entry.repeats path found.identity first.path]).flatMap Entry.words =
      entries.flatMap Entry.words := by
    rw [List.flatMap_append]
    exact List.append_nil _
  refine ⟨tracks.orderly.concat_repeats leads known, tracks.options, ?_, fun file => ?_, ?_⟩
  · rw [paths]
  · rw [paths]
    refine (tracks.surveyed_later few file).trans ⟨fun given => ?_, fun given => ?_⟩
    · obtain ⟨entry, among, number⟩ := given
      exact ⟨entry, List.mem_append_left _ among, number⟩
    · obtain ⟨entry, among, number⟩ := given
      rcases List.mem_append.mp among with old | last
      · exact ⟨entry, old, number⟩
      · rw [List.mem_singleton.mp last] at number
        exact ⟨first, member, same ▸ number⟩
  · rw [words]
    exact tracks.identifiers

theorem concat_opens (tracks : Tracks stat dialect entries survey)
    (few : (entries.map Entry.path ++ [path]).length < 2147483648) {found : Stat}
    (leads : fileOf? stat path = some found) (new : entries.find? (·.identity = found.identity) = none)
    (number : (lookups stat (entries.map Entry.path ++ [path])).catalogue.fileIds[found.identity]? = some file)
    {words : List String} {table : Identifier.Table}
    (entered : table.Reflects dialect (entries.flatMap Entry.words ++ words)) :
    Tracks stat dialect
      (entries ++ [.opens path found.identity (entries.filterMap Entry.opened?).length found.size words])
      { survey with
        catalogue := (lookups stat (entries.map Entry.path ++ [path])).catalogue
        identifiers := table
        surveyed := survey.surveyed.set file true } := by
  generalize opens : Entry.opens path found.identity (entries.filterMap Entry.opened?).length found.size words = entry
  have at_path : entry.path = path := by rw [← opens]; rfl
  have at_identity : entry.identity = found.identity := by rw [← opens]; rfl
  have with_words : entry.words = words := by rw [← opens]; rfl
  have paths : (entries ++ [entry]).map Entry.path = entries.map Entry.path ++ [path] := by
    rw [List.map_append, List.map_singleton, at_path]
  refine ⟨opens ▸ tracks.orderly.concat_opens leads new words, tracks.options, ?_, fun other => ?_, ?_⟩
  · rw [paths]
  · rw [paths]
    show (survey.surveyed.set file true).get other = true ↔ _
    by_cases same : file = other
    · subst same
      rw [Overlay.set, Overlay.get_modify_same]
      refine iff_of_true rfl ⟨entry, List.mem_append_right _ (List.mem_singleton.mpr rfl), ?_⟩
      rw [at_identity]
      exact number
    · rw [Overlay.set, Overlay.get_modify_other _ _ same]
      refine (tracks.surveyed_later few other).trans ⟨fun given => ?_, fun given => ?_⟩
      · obtain ⟨old, among, entered⟩ := given
        exact ⟨old, List.mem_append_left _ among, entered⟩
      · obtain ⟨old, among, entered⟩ := given
        rcases List.mem_append.mp among with before | last
        · exact ⟨old, before, entered⟩
        · rw [List.mem_singleton.mp last, at_identity, number, Option.some.injEq] at entered
          exact absurd entered same
  · show table.Reflects dialect _
    rw [List.flatMap_append, List.flatMap_singleton, with_words]
    exact entered

theorem find?_path (tracks : Tracks stat dialect entries survey) (identity : Identity) :
    (entries.map Entry.path).find? (Reaches stat · identity) =
      (entries.find? (·.identity = identity)).map Entry.path := by
  rw [List.find?_map]
  congr 1
  refine List.find?_congr fun entry member => ?_
  have reaches := tracks.orderly.reaches entry member
  rw [Function.comp_apply, decide_eq_decide]
  exact ⟨fun arrives => Option.some.inj (reaches.symm.trans arrives), fun same => same ▸ reaches⟩

end Tracks

theorem displayName_eq {survey : Survey} {file : FileId} {record : FileRecord} {path : String}
    (entered : survey.catalogue.files.get? file = some record)
    (named : survey.catalogue.resolveName record.name = .ok path) :
    survey.displayName file = .ok (Entry.shownName survey.dialect.mainFileName record.uid.toNat path) := by
  have first : record.uid = 0 ↔ record.uid.toNat = 0 := UInt32.toNat_inj.symm
  unfold Survey.displayName Entry.shownName
  rw [Registry.get_eq_ok_iff.mpr entered]
  cases survey.dialect.mainFileName with
  | none => exact named
  | some name =>
    show (if record.uid = 0 then pure name else survey.catalogue.resolveName record.name) = _
    dsimp only
    by_cases main : record.uid = 0
    · rw [if_pos main, if_pos (first.mp main)]
      rfl
    · rw [if_neg main, if_neg (mt first.mpr main)]
      exact named

theorem outcomeLine_surveyed {survey : Survey} {path shown : String} {report : Report} {words : List String}
    (named : survey.displayName report.file = .ok shown) (tally : report.tally = .ofDialect dialect words) :
    outcomeLine survey path (.surveyed report) =
      shown ++ Entry.details dialect report.uid.toNat report.size words := by
  unfold outcomeLine Entry.details
  dsimp only
  rw [named, tally]
  simp only [String.append_assoc]
  rfl

def Kept (stat : String → Except StatError Stat) (dialect : Dialect) (entries : List Entry) (path : String)
    (answer : Except SurveyError Outcome) (after : Survey) : Except SurveyError Entry → Prop
  | .error error => answer = .error error
  | .ok entry => ∃ outcome, answer = .ok outcome ∧ outcomeLine after path outcome = entry.line dialect ∧
      Tracks stat dialect (entries ++ [entry]) after

namespace Tracks
variable {entries : List Entry} {survey : Survey} {path : String} {file : FileId}

theorem duplicate (tracks : Tracks stat dialect entries survey)
    (few : (entries.map Entry.path ++ [path]).length < 2147483648) {found : Stat} {first : Entry}
    (leads : fileOf? stat path = some found) (known : entries.find? (·.identity = found.identity) = some first)
    (number : (lookups stat (entries.map Entry.path ++ [path])).catalogue.fileIds[found.identity]? = some file)
    {catalogue : Catalogue} (looked : catalogue = (lookups stat (entries.map Entry.path ++ [path])).catalogue) :
    Kept stat dialect entries path (.ok (.duplicate file (Survey.firstPath { survey with catalogue } file)))
      { survey with catalogue } (.ok (.repeats path found.identity first.path)) := by
  subst looked
  have still : (entries.map Entry.path ++ [path]).find? (Reaches stat · found.identity) = some first.path := by
    rw [List.find?_append, tracks.find?_path, known, Option.map_some, Option.some_or]
  rw [firstPath_first few rfl still number]
  exact ⟨_, rfl, rfl, tracks.concat_repeats few leads known⟩

theorem surveys (tracks : Tracks stat dialect entries survey)
    (few : (entries.map Entry.path ++ [path]).length < 2147483648) {found : Stat}
    (leads : fileOf? stat path = some found) (new : entries.find? (·.identity = found.identity) = none)
    (number : (lookups stat (entries.map Entry.path ++ [path])).catalogue.fileIds[found.identity]? = some file)
    {catalogue : Catalogue} (looked : catalogue = (lookups stat (entries.map Entry.path ++ [path])).catalogue)
    {record : FileRecord} (entered : catalogue.files.get? file = some record) {bytes : List UInt8}
    (room : (entries.flatMap Entry.words ++
      Text.words dialect.dollarWords (Text.decodeLossy bytes)).eraseDups.length < 2147483648) :
    Kept stat dialect entries path (.ok (Survey.record { survey with catalogue } file record bytes).1)
      (Survey.record { survey with catalogue } file record bytes).2
      (.ok (.opens path found.identity (entries.filterMap Entry.opened?).length found.size
        (Text.words dialect.dollarWords (Text.decodeLossy bytes)))) := by
  subst looked
  obtain ⟨size, uid, name⟩ := Lookups.record_first few (tracks.orderly.not_reached new) leads number entered
  obtain ⟨tally, reflects⟩ := Tally.ofWords_eq _ tracks.identifiers room
  have options := tracks.options
  subst options
  rw [Survey.record_eq]
  refine ⟨_, rfl, ?_, tracks.concat_opens few leads new number reflects⟩
  rw [outcomeLine_surveyed (displayName_eq entered name) tally]
  dsimp only
  rw [uid, size, ← tracks.orderly.length_opened]
  rfl

theorem add (tracks : Tracks stat dialect entries survey) (unchanging : host.Unchanging stat read) (path : String)
    (few : entries.length + 1 < 2147483648)
    (room : ∀ entry, nextEntry stat read dialect.dollarWords entries path = .ok entry →
      ((entries ++ [entry]).flatMap Entry.words).eraseDups.length < 2147483648) (world : ω) :
    ∃ answer after later, (survey.addFile host path).run world = ((answer, after), later) ∧
      Kept stat dialect entries path answer after (nextEntry stat read dialect.dollarWords entries path) := by
  have few : (entries.map Entry.path ++ [path]).length < 2147483648 := by
    rw [List.length_append, List.length_map]
    exact few
  obtain ⟨answer, after, later, readings, plain, -, adds⟩ := Survey.addFile_adds host path survey world
  refine ⟨answer, after, later, plain, ?_⟩
  cases adds with
  | @missing found catalogue _ looked nothing =>
    obtain ⟨rfl, numbered⟩ := tracks.looks unchanging few looked
    have nowhere := leads_nowhere few numbered nothing
    rw [(Warrants.missing nowhere).eq_nextEntry]
    rfl
  | @duplicate file record catalogue _ looked entered known =>
    obtain ⟨same, numbered⟩ := tracks.looks unchanging few looked
    obtain ⟨found, leads, number⟩ := exists_found numbered
    have met : (entries.find? (·.identity = found.identity)).isSome := by
      obtain ⟨entry, member, here⟩ := (tracks.known_iff few number).mp known
      exact List.find?_isSome.mpr ⟨entry, member, decide_eq_true here⟩
    obtain ⟨first, first_found⟩ := Option.isSome_iff_exists.mp met
    rw [(Warrants.repeats leads first_found).eq_nextEntry]
    exact tracks.duplicate few leads first_found number same
  | @unreadable file record catalogue middle cause last looked entered unknown refused =>
    obtain ⟨-, numbered⟩ := tracks.looks unchanging few looked
    obtain ⟨found, leads, number⟩ := exists_found numbered
    have refused : read path = .error cause := (unchanging.read path middle).symm.trans (congrArg Prod.fst refused)
    rw [(Warrants.unreadable leads (tracks.find?_eq_none few number unknown) refused).eq_nextEntry]
    rfl
  | @surveyed file record catalogue middle bytes last looked entered unknown granted =>
    obtain ⟨same, numbered⟩ := tracks.looks unchanging few looked
    obtain ⟨found, leads, number⟩ := exists_found numbered
    have granted : read path = .ok bytes := (unchanging.read path middle).symm.trans (congrArg Prod.fst granted)
    have new := tracks.find?_eq_none few number unknown
    have opens : nextEntry stat read dialect.dollarWords entries path = _ :=
      (Warrants.opens leads new granted).eq_nextEntry
    have short := room _ opens
    rw [List.flatMap_append, List.flatMap_singleton] at short
    rw [opens]
    exact tracks.surveys few leads new number same entered short

end Tracks
end Run
end Canon

import Canon.Proofs.File.Arrival
import Canon.Proofs.Survey.Tour

/-!
Surveys over surroundings that do not change. What a path is answered can be said without a survey: it depends on what
the path leads to, on whether that can be read, and on the paths added before.
-/
namespace Canon
open Canon.File
variable {stat : String → Except StatError Stat} {read : String → Except ReadError (List UInt8)}
  {ids wider : Std.HashMap Identity FileId} {earlier paths : List String} {path : String} {identity : Identity}
  {file : FileId}

def Host.fixed (stat : String → Except StatError Stat) (read : String → Except ReadError (List UInt8)) :
    Host (StateM Unit) where
  stat := File.fixed stat
  read path := pure (read path)
  clock := pure 0

/-- A host whose files do not change, whatever else does, and whose clock may show anything. -/
structure Host.Unchanging {ω : Type} (host : Host (StateM ω)) (stat : String → Except StatError Stat)
    (read : String → Except ReadError (List UInt8)) : Prop where
  stat : File.Unchanging host.stat stat
  read : ∀ path world, ((host.read path).run world).1 = read path

theorem Host.unchanging_fixed (stat : String → Except StatError Stat) (read : String → Except ReadError (List UInt8)) :
    (Host.fixed stat read).Unchanging stat read :=
  ⟨fun _ _ => rfl, fun _ _ => rfl⟩

theorem Host.Unchanging.looks {ω : Type} {host : Host (StateM ω)} (unchanging : host.Unchanging stat read)
    {survey : Survey} (known : survey.catalogue = (lookups stat paths).catalogue)
    (few : (paths ++ [path]).length < 2147483648) {found : Option FileId} {catalogue : Catalogue} {world later : ω}
    (looked : (survey.catalogue.file host.stat path).run world = ((found, catalogue), later)) :
    catalogue = (lookups stat (paths ++ [path])).catalogue ∧
      Option.Rel (Numbers (lookups stat (paths ++ [path])).catalogue.fileIds) found (fileOf? stat path) := by
  rw [known] at looked
  exact Lookups.file_looked unchanging.stat few looked

inductive Answers (stat : String → Except StatError Stat) (read : String → Except ReadError (List UInt8))
    (ids : Std.HashMap Identity FileId) (earlier : List String) (path : String) :
    Except SurveyError Outcome → Prop where
  | missing (nowhere : fileOf? stat path = none) : Answers stat read ids earlier path (.error (.noSuchFile path))
  | unreadable {identity cause} (reaches : Reaches stat path identity) (refused : read path = .error cause) :
    Answers stat read ids earlier path (.error (.unreadable path cause))
  | surveyed {identity bytes report} (reaches : Reaches stat path identity) (granted : read path = .ok bytes)
    (new : earlier.find? (Reaches stat · identity) = none) (number : ids[identity]? = some report.file) :
    Answers stat read ids earlier path (.ok (.surveyed report))
  | duplicate {identity bytes file first} (reaches : Reaches stat path identity) (granted : read path = .ok bytes)
    (known : earlier.find? (Reaches stat · identity) = some first) (number : ids[identity]? = some file) :
    Answers stat read ids earlier path (.ok (.duplicate file first))

theorem Answers.mono {answer : Except SurveyError Outcome} (answers : Answers stat read ids earlier path answer)
    (kept : ∀ (identity : Identity) (file : FileId), ids[identity]? = some file → wider[identity]? = some file) :
    Answers stat read wider earlier path answer := by
  cases answers with
  | missing nowhere => exact .missing nowhere
  | unreadable reaches refused => exact .unreadable reaches refused
  | surveyed reaches granted new number => exact .surveyed reaches granted new (kept _ _ number)
  | duplicate reaches granted known number => exact .duplicate reaches granted known (kept _ _ number)

theorem Answers.of_reaches {answer : Except SurveyError Outcome} (answers : Answers stat read ids earlier path answer)
    (reaches : Reaches stat path identity) :
    match read path, earlier.find? (Reaches stat · identity) with
    | .error cause, _ => answer = .error (.unreadable path cause)
    | .ok _, none => ∃ report, answer = .ok (.surveyed report) ∧ ids[identity]? = some report.file
    | .ok _, some first => ∃ file, answer = .ok (.duplicate file first) ∧ ids[identity]? = some file := by
  cases answers with
  | missing nowhere =>
    rw [Reaches, nowhere] at reaches
    cases reaches
  | unreadable _ refused => rw [refused]
  | surveyed arrives granted new number =>
    obtain rfl := Option.some.inj (arrives.symm.trans reaches)
    rw [granted, new]
    exact ⟨_, rfl, number⟩
  | duplicate arrives granted known number =>
    obtain rfl := Option.some.inj (arrives.symm.trans reaches)
    rw [granted, known]
    exact ⟨_, rfl, number⟩

theorem Answers.of_nowhere {answer : Except SurveyError Outcome} (answers : Answers stat read ids earlier path answer)
    (nowhere : fileOf? stat path = none) : answer = .error (.noSuchFile path) := by
  have unreached (identity : Identity) : ¬Reaches stat path identity := by simp [Reaches, nowhere]
  cases answers with
  | missing => rfl
  | unreadable reaches => exact absurd reaches (unreached _)
  | surveyed reaches => exact absurd reaches (unreached _)
  | duplicate reaches => exact absurd reaches (unreached _)

theorem Answers.of_surveyed {report : Report} (answers : Answers stat read ids earlier path (.ok (.surveyed report))) :
    ∃ identity, Reaches stat path identity ∧ ids[identity]? = some report.file ∧
      earlier.find? (Reaches stat · identity) = none := by
  cases answers with
  | surveyed reaches granted new number => exact ⟨_, reaches, number, new⟩

/-- One of some paths leads to a file that can be read. -/
def Legible (stat : String → Except StatError Stat) (read : String → Except ReadError (List UInt8))
    (ids : Std.HashMap Identity FileId) (paths : List String) (file : FileId) : Prop :=
  ∃ path ∈ paths, ∃ identity bytes, Reaches stat path identity ∧ read path = .ok bytes ∧ ids[identity]? = some file

theorem Legible.concat_iff : Legible stat read ids (paths ++ [path]) file ↔
    Legible stat read ids paths file ∨
      ∃ identity bytes, Reaches stat path identity ∧ read path = .ok bytes ∧ ids[identity]? = some file := by
  simp only [Legible, List.mem_append, List.mem_singleton, or_and_right, exists_or, exists_eq_left]

theorem Legible.later_iff {more : List String} (few : (paths ++ more).length < 2147483648) :
    Legible stat read (lookups stat (paths ++ more)).catalogue.fileIds paths file ↔
      Legible stat read (lookups stat paths).catalogue.fileIds paths file := by
  have short : paths.length < 2147483648 := by
    rw [List.length_append] at few
    omega
  constructor
  · intro given
    obtain ⟨path, member, identity, bytes, reaches, granted, number⟩ := given
    obtain ⟨id, -, here⟩ := Lookups.exists_number short member reaches
    have same := Lookups.fileIds_of_earlier few here
    rw [number, Option.some.injEq] at same
    exact ⟨path, member, identity, bytes, reaches, granted, same ▸ here⟩
  · intro given
    obtain ⟨path, member, identity, bytes, reaches, granted, number⟩ := given
    exact ⟨path, member, identity, bytes, reaches, granted, Lookups.fileIds_of_earlier few number⟩

theorem exists_found
    (numbered : Option.Rel (Numbers ids) (some file) (fileOf? stat path)) :
    ∃ found, fileOf? stat path = some found ∧ ids[found.identity]? = some file := by
  generalize fileOf? stat path = leads at numbered
  cases numbered with
  | some number => exact ⟨_, rfl, number⟩

theorem exists_identity (numbered : Option.Rel (Numbers ids) (some file) (fileOf? stat path)) :
    ∃ identity, Reaches stat path identity ∧ ids[identity]? = some file := by
  obtain ⟨found, leads, number⟩ := exists_found numbered
  exact ⟨found.identity, .of_leads leads, number⟩

theorem leads_nowhere {found : Option FileId}
    (few : paths.length < 2147483648)
    (numbered : Option.Rel (Numbers (lookups stat paths).catalogue.fileIds) found (fileOf? stat path))
    (nothing : ∀ file, found = some file → (lookups stat paths).catalogue.files.get? file = none) :
    fileOf? stat path = none := by
  generalize fileOf? stat path = leads at numbered
  cases numbered with
  | none => rfl
  | @some file found number =>
    obtain ⟨other, -, -, named⟩ := Lookups.exists_path few number
    obtain ⟨record, entered, -⟩ := Catalogue.fileName_eq_ok.mp named
    exact absurd ((nothing file rfl).symm.trans entered) nofun

theorem reached_iff {other : FileId} {bytes : List UInt8} (reaches : Reaches stat path identity)
    (granted : read path = .ok bytes) (number : ids[identity]? = some file) :
    (∃ place content, Reaches stat path place ∧ read path = .ok content ∧ ids[place]? = some other) ↔
      file = other := by
  constructor
  · intro given
    obtain ⟨place, -, leads, -, entered⟩ := given
    rw [Option.some.inj (leads.symm.trans reaches), number, Option.some.injEq] at entered
    exact entered
  · rintro rfl
    exact ⟨identity, bytes, reaches, granted, number⟩

theorem firstPath_first {survey : Survey} {first : String} (few : paths.length < 2147483648)
    (catalogue : survey.catalogue = (lookups stat paths).catalogue)
    (found : paths.find? (Reaches stat · identity) = some first)
    (number : (lookups stat paths).catalogue.fileIds[identity]? = some file) : survey.firstPath file = first := by
  obtain ⟨reaches, before, after, rfl, new⟩ := List.find?_eq_some_iff_append.mp found
  have named := Lookups.fileName_first few (fun other among => by simpa using new other among)
    (of_decide_eq_true reaches) number
  rw [Survey.firstPath, catalogue, named]
  rfl

structure Follows (stat : String → Except StatError Stat) (read : String → Except ReadError (List UInt8))
    (paths : List String) (tour : Tour Unit) : Prop where
  order : tour.additions.map Addition.path = paths
  catalogue : tour.survey.catalogue = (lookups stat paths).catalogue
  surveyed : ∀ file, tour.survey.surveyed.get file = true ↔
    Legible stat read (lookups stat paths).catalogue.fileIds paths file
  answers : ∀ before addition, before ++ [addition] <+: tour.additions →
    Answers stat read (lookups stat paths).catalogue.fileIds (before.map Addition.path) addition.path addition.answer

namespace Follows
variable {tour : Tour Unit}

theorem start (stat : String → Except StatError Stat) (read : String → Except ReadError (List UInt8))
    (dialect : Dialect) : Follows stat read [] (.start dialect ()) where
  order := rfl
  catalogue := rfl
  surveyed file := by
    show (Overlay.constant false).get file = true ↔ _
    simp [Legible]
  answers before addition begins := absurd (List.prefix_nil.mp begins) (by simp)

theorem looks (follows : Follows stat read paths tour) (few : (paths ++ [path]).length < 2147483648)
    {found : Option FileId} {catalogue : Catalogue} {later : Unit}
    (looked : (tour.survey.catalogue.file (Host.fixed stat read).stat path).run tour.world =
      ((found, catalogue), later)) :
    catalogue = (lookups stat (paths ++ [path])).catalogue ∧
      Option.Rel (Numbers (lookups stat (paths ++ [path])).catalogue.fileIds) found (fileOf? stat path) := by
  exact (Host.unchanging_fixed stat read).looks follows.catalogue few looked

theorem concat (follows : Follows stat read paths tour) (few : (paths ++ [path]).length < 2147483648)
    {next : Tour Unit} {answer : Except SurveyError Outcome} {readings : List FileReading}
    (added : next.additions = tour.additions ++ [⟨path, answer, readings⟩])
    (catalogue : next.survey.catalogue = (lookups stat (paths ++ [path])).catalogue)
    (surveyed : ∀ file, next.survey.surveyed.get file = true ↔ tour.survey.surveyed.get file = true ∨
      ∃ identity bytes, Reaches stat path identity ∧ read path = .ok bytes ∧
        (lookups stat (paths ++ [path])).catalogue.fileIds[identity]? = some file)
    (answers : Answers stat read (lookups stat (paths ++ [path])).catalogue.fileIds paths path answer) :
    Follows stat read (paths ++ [path]) next where
  order := by rw [added, List.map_append, follows.order, List.map_singleton]
  catalogue := catalogue
  surveyed file := by rw [surveyed, follows.surveyed, Legible.concat_iff, Legible.later_iff few]
  answers before addition begins := by
    rw [added] at begins
    rcases List.prefix_concat_iff.mp begins with last | old
    · obtain ⟨same, last⟩ := List.append_inj' last rfl
      cases List.singleton_inj.mp last
      rw [same, follows.order]
      exact answers
    · exact (follows.answers before addition old).mono fun _ _ => Lookups.fileIds_of_earlier few

theorem known_iff (follows : Follows stat read paths tour) (few : (paths ++ [path]).length < 2147483648)
    (number : (lookups stat (paths ++ [path])).catalogue.fileIds[identity]? = some file) :
    tour.survey.surveyed.get file = true ↔
      ∃ other ∈ paths, Reaches stat other identity ∧ ∃ bytes, read other = .ok bytes := by
  rw [follows.surveyed, ← Legible.later_iff few]
  constructor
  · intro given
    obtain ⟨other, member, place, bytes, arrives, granted, also⟩ := given
    obtain rfl := (Lookups.consistent stat few).1.recounts.files.indexes.identity_eq also number
    exact ⟨other, member, arrives, bytes, granted⟩
  · intro given
    obtain ⟨other, member, arrives, bytes, granted⟩ := given
    exact ⟨other, member, identity, bytes, arrives, granted, number⟩

theorem add (follows : Follows stat read paths tour) (few : (paths ++ [path]).length < 2147483648)
    (alike : ∀ path other identity, Reaches stat path identity → Reaches stat other identity → read path = read other) :
    Follows stat read (paths ++ [path]) (tour.add (.fixed stat read) path) := by
  obtain ⟨answer, after, later, readings, -, added, adds⟩ := tour.add_adds (.fixed stat read) path
  rw [added]
  cases adds with
  | missing looked nothing =>
    obtain ⟨rfl, numbered⟩ := follows.looks few looked
    have nowhere := leads_nowhere few numbered nothing
    refine follows.concat few rfl rfl (fun file => (or_iff_left ?_).symm) (.missing nowhere)
    intro given
    obtain ⟨identity, bytes, reaches, -⟩ := given
    rw [Reaches, nowhere] at reaches
    cases reaches
  | @duplicate file entry catalogue later looked entered known =>
    obtain ⟨rfl, numbered⟩ := follows.looks few looked
    obtain ⟨identity, reaches, number⟩ := exists_identity numbered
    obtain ⟨other, member, arrives, bytes, allowed⟩ := (follows.known_iff few number).mp known
    have granted : read path = .ok bytes := (alike path other identity reaches arrives).trans allowed
    have met : (paths.find? (Reaches stat · identity)).isSome :=
      List.find?_isSome.mpr ⟨other, member, decide_eq_true arrives⟩
    obtain ⟨first, found⟩ := Option.isSome_iff_exists.mp met
    have still : (paths ++ [path]).find? (Reaches stat · identity) = some first := by
      rw [List.find?_append, found, Option.some_or]
    rw [firstPath_first few rfl still number]
    refine follows.concat few rfl rfl (fun other => ?_) (.duplicate reaches granted found number)
    rw [reached_iff reaches granted number]
    exact iff_self_or.mpr fun same => same ▸ known
  | @unreadable file entry catalogue later cause last looked entered new refused =>
    obtain ⟨rfl, numbered⟩ := follows.looks few looked
    obtain ⟨identity, reaches, number⟩ := exists_identity numbered
    have refused : read path = .error cause := congrArg Prod.fst refused
    refine follows.concat few rfl rfl (fun other => (or_iff_left ?_).symm) (.unreadable reaches refused)
    intro given
    obtain ⟨-, bytes, -, granted, -⟩ := given
    cases refused.symm.trans granted
  | @surveyed file entry catalogue later bytes last looked entered new granted =>
    obtain ⟨rfl, numbered⟩ := follows.looks few looked
    obtain ⟨identity, reaches, number⟩ := exists_identity numbered
    have granted : read path = .ok bytes := congrArg Prod.fst granted
    have first : paths.find? (Reaches stat · identity) = none := by
      rw [List.find?_eq_none]
      intro other member arrives
      have arrives := of_decide_eq_true arrives
      have known := (follows.known_iff few number).mpr
        ⟨other, member, arrives, bytes, (alike other path identity arrives reaches).trans granted⟩
      exact Bool.false_ne_true (new.symm.trans known)
    refine follows.concat few rfl rfl (fun other => ?_) (.surveyed reaches granted first number)
    rw [reached_iff reaches granted number]
    show (tour.survey.surveyed.set file true).get other = true ↔ _
    by_cases same : file = other
    · subst same
      rw [Overlay.set, Overlay.get_modify_same]
      exact iff_of_true rfl (.inr rfl)
    · rw [Overlay.set, Overlay.get_modify_other _ _ same]
      exact (or_iff_left same).symm

theorem run (dialect : Dialect) (few : paths.length < 2147483648)
    (alike : ∀ path other identity, Reaches stat path identity → Reaches stat other identity → read path = read other) :
    Follows stat read paths (.run (.fixed stat read) dialect () paths) := by
  induction paths using List.reverseRecOn with
  | nil => exact .start stat read dialect
  | append_singleton earlier path ih =>
    rw [Tour.run_concat]
    refine (ih ?_).add few alike
    rw [List.length_append] at few
    omega

theorem answered (follows : Follows stat read paths tour) {addition : Addition} (member : addition ∈ tour.additions) :
    ∃ before, before ++ [addition] <+: tour.additions ∧ Answers stat read (lookups stat paths).catalogue.fileIds
      (before.map Addition.path) addition.path addition.answer := by
  obtain ⟨before, after, split⟩ := List.append_of_mem member
  have begins : before ++ [addition] <+: tour.additions :=
    ⟨after, by rw [split, List.append_assoc, List.singleton_append]⟩
  exact ⟨before, begins, follows.answers before addition begins⟩

end Follows
end Canon

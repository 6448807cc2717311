import Canon.Proofs.File.Resolved
import Canon.Proofs.Survey.Duplicates
import Canon.Proofs.Survey.Report

/-!
Additions that fail. Two surveys of one file system are compared, one of which has also been asked for paths that lead
nowhere: their catalogues differ in what they remember of paths, but no answer and no name tells them apart. Nor does
an addition that fails change what has been surveyed, so a file that could not be read is read again.
-/
namespace Canon
open Canon.File
variable {ω : Type} {host : Host (StateM ω)} {stat : String → Except StatError Stat}
  {read : String → Except ReadError (List UInt8)} {dialect : Dialect} {paths others : List String} {path : String}

theorem Host.Unchanging.read_eq (unchanging : host.Unchanging stat read) {path : String} {world later : ω}
    {answer : Except ReadError (List UInt8)} (reads : (host.read path).run world = (answer, later)) (other : ω) :
    (host.read path).run other = (answer, ((host.read path).run other).2) := by
  have same := unchanging.read path world
  rw [reads] at same
  exact Prod.ext ((unchanging.read path other).trans same.symm) rfl

/-- Two surveys of the same file system that have been asked for the same files, and maybe for paths that lead
nowhere. -/
structure Survey.Alongside (stat : String → Except StatError Stat) (paths others : List String)
    (left right : Survey) : Prop where
  dialect : left.dialect = right.dialect
  identifiers : left.identifiers = right.identifiers
  surveyed : left.surveyed = right.surveyed
  mine : left.catalogue = (lookups stat paths).catalogue
  other : right.catalogue = (lookups stat others).catalogue
  led : resolved stat paths = resolved stat others

namespace Survey.Alongside
variable {left right after : Survey} {world later : ω} {answer : Except SurveyError Outcome}
  {readings : List FileReading}

theorem refl (survey : Survey) (catalogue : survey.catalogue = (lookups stat paths).catalogue) :
    Alongside stat paths paths survey survey :=
  ⟨rfl, rfl, rfl, catalogue, catalogue, rfl⟩

theorem agrees (alongside : Alongside stat paths others left right) (few : paths.length < 2147483648)
    (also : others.length < 2147483648) : left.catalogue.Agrees right.catalogue := by
  rw [alongside.mine, alongside.other]
  exact Lookups.agrees few also alongside.led

theorem displayName (alongside : Alongside stat paths others left right) (few : paths.length < 2147483648)
    (also : others.length < 2147483648) (file : FileId) : left.displayName file = right.displayName file := by
  have agrees := alongside.agrees few also
  unfold Survey.displayName
  rw [alongside.dialect]
  cases entered : left.catalogue.files.get? file with
  | none =>
    obtain ⟨here, there⟩ := agrees.get_error entered
    rw [here, there]
    rfl
  | some mine =>
    obtain ⟨other, besides, alike⟩ := agrees.exists_record entered
    rw [Registry.get_eq_ok_iff.mpr entered, Registry.get_eq_ok_iff.mpr besides]
    cases right.dialect.mainFileName with
    | none => exact alike.name
    | some name =>
      show (if mine.uid = 0 then pure name else left.catalogue.resolveName mine.name) = _
      rw [alike.uid, alike.name]
      rfl

theorem concat (alongside : Alongside stat paths others left right) (path : String) :
    resolved stat (paths ++ [path]) = resolved stat (others ++ [path]) := by
  rw [resolved_append, alongside.led, resolved_append]

theorem looks (alongside : Alongside stat paths others left right) (unchanging : host.Unchanging stat read)
    (few : (paths ++ [path]).length < 2147483648) (also : (others ++ [path]).length < 2147483648)
    {found : Option FileId} {catalogue : Catalogue}
    (looked : (left.catalogue.file host.stat path).run world = ((found, catalogue), later)) (elsewhere : ω) :
    catalogue = (lookups stat (paths ++ [path])).catalogue ∧ ∃ last,
      (right.catalogue.file host.stat path).run elsewhere =
        ((found, (lookups stat (others ++ [path])).catalogue), last) := by
  rcases looks : (right.catalogue.file host.stat path).run elsewhere with ⟨⟨other, besides⟩, last⟩
  obtain ⟨rfl, mine⟩ := unchanging.looks alongside.mine few looked
  obtain ⟨rfl, others⟩ := unchanging.looks alongside.other also looks
  obtain rfl := (Lookups.agrees few also (alongside.concat path)).found_eq mine others
  exact ⟨rfl, last, rfl⟩

theorem add (alongside : Alongside stat paths others left right) (unchanging : host.Unchanging stat read)
    (few : (paths ++ [path]).length < 2147483648) (also : (others ++ [path]).length < 2147483648)
    (adds : Adds host path left world answer after later readings) (elsewhere : ω) :
    ∃ next last, Adds host path right elsewhere answer next last readings ∧
      Alongside stat (paths ++ [path]) (others ++ [path]) after next := by
  have resolved := alongside.concat path
  have agrees := Lookups.agrees few also resolved
  have ⟨dialect, identifiers, surveyed, _, _, _⟩ := alongside
  cases adds with
  | missing looked nothing =>
    obtain ⟨rfl, middle, looks⟩ := alongside.looks unchanging few also looked elsewhere
    exact ⟨_, _, .missing looks fun file same => agrees.no_record (nothing file same), dialect, identifiers, surveyed,
      rfl, rfl, resolved⟩
  | @duplicate file entry catalogue later looked entered known =>
    obtain ⟨rfl, middle, looks⟩ := alongside.looks unchanging few also looked elsewhere
    obtain ⟨record, besides, -⟩ := agrees.exists_record entered
    rw [surveyed] at known
    have named : firstPath { left with catalogue := (lookups stat (paths ++ [path])).catalogue } file =
        firstPath { right with catalogue := (lookups stat (others ++ [path])).catalogue } file := by
      rw [firstPath, firstPath, agrees.fileName]
    rw [named]
    exact ⟨_, _, .duplicate looks besides known, dialect, identifiers, surveyed, rfl, rfl, resolved⟩
  | unreadable looked entered new refused =>
    obtain ⟨rfl, middle, looks⟩ := alongside.looks unchanging few also looked elsewhere
    obtain ⟨record, besides, -⟩ := agrees.exists_record entered
    rw [surveyed] at new
    have refuses := unchanging.read_eq refused middle
    exact ⟨_, _, .unreadable looks besides new refuses, dialect, identifiers, surveyed, rfl, rfl, resolved⟩
  | @surveyed file entry catalogue later bytes last looked entered new granted =>
    obtain ⟨rfl, middle, looks⟩ := alongside.looks unchanging few also looked elsewhere
    obtain ⟨record, besides, alike⟩ := agrees.exists_record entered
    rw [surveyed] at new
    have grants := unchanging.read_eq granted middle
    have reported : (Survey.record { left with catalogue := (lookups stat (paths ++ [path])).catalogue } file entry
        bytes).1 = (Survey.record { right with catalogue := (lookups stat (others ++ [path])).catalogue } file record
        bytes).1 := by
      rw [record_eq, record_eq]
      dsimp only
      rw [dialect, identifiers, alike.uid, alike.size]
    rw [reported]
    refine ⟨_, _, .surveyed looks besides new grants, ?_⟩
    rw [record_eq, record_eq]
    dsimp only
    exact ⟨dialect, by rw [dialect, identifiers], by rw [surveyed], rfl, rfl, resolved⟩

theorem skip (alongside : Alongside stat paths others left right) (unchanging : host.Unchanging stat read)
    (few : (paths ++ [path]).length < 2147483648)
    (adds : Adds host path left world (.error (.noSuchFile path)) after later readings) :
    Alongside stat (paths ++ [path]) others after right := by
  obtain ⟨dialect, identifiers, surveyed, mine, other, resolved⟩ := alongside
  cases adds with
  | missing looked nothing =>
    obtain ⟨rfl, numbered⟩ := unchanging.looks mine few looked
    have nowhere := leads_nowhere few numbered nothing
    exact ⟨dialect, identifiers, surveyed, rfl, other, (resolved_concat_nowhere nowhere).trans resolved⟩

end Survey.Alongside

/-- Some additions, and the same ones with others among them that have found no file. -/
inductive Interspersed : List Addition → List Addition → Prop where
  | nil : Interspersed [] []
  | concat {kept all} (before : Interspersed kept all) (addition : Addition) :
    Interspersed (kept ++ [addition]) (all ++ [addition])
  | insert {kept all addition} (before : Interspersed kept all)
    (vain : addition.answer = .error (.noSuchFile addition.path)) : Interspersed kept (all ++ [addition])

theorem Interspersed.length_le {kept all : List Addition} (interspersed : Interspersed kept all) :
    kept.length ≤ all.length := by
  induction interspersed with
  | nil => exact Nat.le_refl 0
  | concat before addition ih => simpa using ih
  | insert before vain ih => exact Nat.le_trans ih (by simp)

namespace Tour

theorem run_interspersed (unchanging : host.Unchanging stat read) (dialect : Dialect) (world elsewhere : ω)
    {kept all : List Addition} (interspersed : Interspersed kept all) (few : all.length < 2147483648)
    (ran : (run host dialect world (all.map Addition.path)).additions = all) :
    (run host dialect elsewhere (kept.map Addition.path)).additions = kept ∧
      Survey.Alongside stat (all.map Addition.path) (kept.map Addition.path)
        (run host dialect world (all.map Addition.path)).survey
        (run host dialect elsewhere (kept.map Addition.path)).survey := by
  -- The surveys stay alongside each other while the longer one takes every step and the shorter one those it shares.
  induction interspersed with
  | nil => exact ⟨rfl, .refl (.start dialect) rfl⟩
  | @concat kept all before addition ih =>
    obtain ⟨early, survey, later, whole, adds⟩ := run_split ran
    have short : all.length < 2147483648 := by
      rw [List.length_append] at few
      omega
    obtain ⟨same, alongside⟩ := ih short early
    have also := (Interspersed.concat before addition).length_le
    rw [← List.length_map Addition.path, List.map_append, List.map_singleton] at few
    obtain ⟨next, last, adds, alongside⟩ := alongside.add unchanging few (by simp at also few ⊢; omega) adds
      (run host dialect elsewhere (kept.map Addition.path)).world
    rw [whole, List.map_append, List.map_append, List.map_singleton, run_concat, add_of_adds adds, same]
    exact ⟨rfl, alongside⟩
  | @insert kept all addition before vain ih =>
    obtain ⟨early, survey, later, whole, adds⟩ := run_split ran
    have short : all.length < 2147483648 := by
      rw [List.length_append] at few
      omega
    obtain ⟨same, alongside⟩ := ih short early
    rw [← List.length_map Addition.path, List.map_append, List.map_singleton] at few
    rw [vain] at adds
    rw [whole, List.map_append, List.map_singleton]
    exact ⟨same, alongside.skip unchanging few adds⟩

end Tour

theorem number_eq {ids : Std.HashMap Identity FileId} {one file : FileId} {identity : Identity}
    (numbered : Option.Rel (Numbers ids) (some one) (fileOf? stat path)) (reaches : Reaches stat path identity)
    (number : ids[identity]? = some file) : one = file := by
  obtain ⟨place, arrives, also⟩ := exists_identity numbered
  obtain rfl := Option.some.inj (arrives.symm.trans reaches)
  exact Option.some.inj (also.symm.trans number)

namespace Survey.Adds
variable {survey after : Survey} {world later : ω} {answer : Except SurveyError Outcome}
  {readings : List FileReading} {identity : Identity} {file : FileId}

theorem error_keeps {error : SurveyError} (adds : Adds host path survey world (.error error) after later readings) :
    after.identifiers = survey.identifiers ∧ after.surveyed = survey.surveyed := by
  cases adds with
  | missing => exact ⟨rfl, rfl⟩
  | unreadable => exact ⟨rfl, rfl⟩

theorem exists_identity (unchanging : host.Unchanging stat read)
    (catalogue : survey.catalogue = (lookups stat paths).catalogue) (few : (paths ++ [path]).length < 2147483648)
    {report : Report} (adds : Adds host path survey world (.ok (.surveyed report)) after later readings) :
    ∃ identity, Reaches stat path identity ∧
      (lookups stat (paths ++ [path])).catalogue.fileIds[identity]? = some report.file := by
  cases adds with
  | surveyed looked =>
    obtain ⟨rfl, numbered⟩ := unchanging.looks catalogue few looked
    exact Canon.exists_identity numbered

theorem reached (unchanging : host.Unchanging stat read)
    (catalogue : survey.catalogue = (lookups stat paths).catalogue) (few : (paths ++ [path]).length < 2147483648)
    (adds : Adds host path survey world answer after later readings) (reaches : Reaches stat path identity)
    (number : (lookups stat (paths ++ [path])).catalogue.fileIds[identity]? = some file) :
    (survey.surveyed.get file = true ∧ ∃ first, answer = .ok (.duplicate file first)) ∨
    (survey.surveyed.get file = false ∧ readings = [⟨path, read path⟩] ∧
      (∀ cause, read path = .error cause → answer = .error (.unreadable path cause)) ∧
      ∀ bytes, read path = .ok bytes → ∃ report, answer = .ok (.surveyed report) ∧ report.file = file) := by
  cases adds with
  | missing looked nothing =>
    obtain ⟨rfl, numbered⟩ := unchanging.looks catalogue few looked
    have nowhere := leads_nowhere few numbered nothing
    have somewhere := reaches.isSome
    rw [nowhere] at somewhere
    cases somewhere
  | duplicate looked entered known =>
    obtain ⟨rfl, numbered⟩ := unchanging.looks catalogue few looked
    obtain rfl := number_eq numbered reaches number
    exact .inl ⟨known, _, rfl⟩
  | @unreadable one entry _ middle cause _ looked entered new refused =>
    obtain ⟨rfl, numbered⟩ := unchanging.looks catalogue few looked
    obtain rfl := number_eq numbered reaches number
    have same : read path = .error cause := (unchanging.read path middle).symm.trans (congrArg Prod.fst refused)
    rw [same]
    refine .inr ⟨new, rfl, fun other here => ?_, nofun⟩
    rw [Except.error.inj here]
  | @surveyed one entry _ middle bytes _ looked entered new granted =>
    obtain ⟨rfl, numbered⟩ := unchanging.looks catalogue few looked
    obtain rfl := number_eq numbered reaches number
    have same : read path = .ok bytes := (unchanging.read path middle).symm.trans (congrArg Prod.fst granted)
    rw [same]
    exact .inr ⟨new, rfl, nofun, fun _ _ => ⟨_, rfl, rfl⟩⟩

end Survey.Adds

namespace Tour
variable {world : ω} {identity : Identity} {file : FileId}

theorem catalogue_run (unchanging : host.Unchanging stat read) (dialect : Dialect) (world : ω)
    (few : paths.length < 2147483648) :
    (run host dialect world paths).survey.catalogue = (lookups stat paths).catalogue := by
  induction paths using List.reverseRecOn with
  | nil => rfl
  | append_singleton earlier path ih =>
    have short : earlier.length < 2147483648 := by
      rw [List.length_append] at few
      omega
    obtain ⟨answer, after, later, readings, -, added, adds⟩ := (run host dialect world earlier).add_adds host path
    obtain ⟨found, middle, looked⟩ := adds.looks
    rw [run_concat, added]
    exact (unchanging.looks (ih short) few looked).1

theorem surveyed_reaches (unchanging : host.Unchanging stat read) (few : paths.length < 2147483648)
    {addition : Addition} (member : addition ∈ (run host dialect world paths).additions)
    (surveyed : addition.surveyed? = some file)
    (number : (lookups stat paths).catalogue.fileIds[identity]? = some file) : Reaches stat addition.path identity := by
  obtain ⟨before, behind, split⟩ := List.append_of_mem member
  obtain ⟨report, answered, rfl⟩ := Addition.surveyed?_eq_some.mp surveyed
  obtain ⟨-, survey, later, -, adds⟩ := run_split split
  have whole := paths_run host dialect world paths
  rw [split, List.map_append, List.map_cons, List.append_cons] at whole
  rw [← whole] at few number
  have short : (before.map Addition.path ++ [addition.path]).length < 2147483648 := by
    rw [List.length_append] at few
    omega
  have shorter : (before.map Addition.path).length < 2147483648 := by
    rw [List.length_append] at short
    omega
  rw [answered] at adds
  obtain ⟨place, reaches, early⟩ :=
    adds.exists_identity unchanging (catalogue_run unchanging dialect world shorter) short
  have late := Lookups.fileIds_of_earlier few early
  obtain rfl := (Lookups.consistent stat few).1.recounts.files.indexes.identity_eq late number
  exact reaches

theorem unsurveyed_until (unchanging : host.Unchanging stat read) (earlier : List String) {additions : List Addition}
    (few : paths.length < 2147483648) (ran : (run host dialect world paths).additions =
      (run host dialect world earlier).additions ++ additions)
    (number : (lookups stat paths).catalogue.fileIds[identity]? = some file)
    (fresh : (run host dialect world earlier).survey.surveyed.get file = false)
    (none : ∀ addition ∈ additions, addition.surveyed? = some file → ¬Reaches stat addition.path identity) :
    (run host dialect world paths).survey.surveyed.get file = false := by
  rw [← Bool.not_eq_true, surveyed_iff]
  intro given
  obtain ⟨addition, member, surveyed⟩ := given
  have reaches := surveyed_reaches unchanging few member surveyed number
  rw [ran] at member
  rcases List.mem_append.mp member with old | recent
  · have known := (surveyed_iff host dialect world earlier file).mpr ⟨addition, old, surveyed⟩
    exact Bool.false_ne_true (fresh.symm.trans known)
  · exact none addition recent surveyed reaches

theorem read_again (unchanging : host.Unchanging stat read) (few : paths.length < 2147483648)
    {before between behind : List Addition} {failed again : Addition} {cause : ReadError}
    (split : (run host dialect world paths).additions = before ++ failed :: (between ++ again :: behind))
    (refused : failed.answer = .error (.unreadable failed.path cause)) (reaches : Reaches stat failed.path identity)
    (none : ∀ addition ∈ between, ¬Reaches stat addition.path identity) (returns : Reaches stat again.path identity) :
    again.readings = [⟨again.path, read again.path⟩] ∧
      (∀ cause, read again.path = .error cause → again.answer = .error (.unreadable again.path cause)) ∧
      ∀ bytes, read again.path = .ok bytes → ∃ report, again.answer = .ok (.surveyed report) := by
  obtain ⟨early, survey, later, -, fails⟩ := run_split split
  rw [← List.cons_append, ← List.append_assoc] at split
  obtain ⟨middle, next, last, -, adds⟩ := run_split split
  have whole := paths_run host dialect world paths
  rw [split, List.map_append, List.map_append, List.map_cons] at whole
  rw [← whole] at few
  simp only [List.length_append, List.length_cons] at few
  have first : (before.map Addition.path ++ [failed.path]).length < 2147483648 := by
    rw [List.length_append, List.length_singleton]
    omega
  have second : (((before ++ failed :: between).map Addition.path) ++ [again.path]).length < 2147483648 := by
    simp only [List.length_append, List.length_map, List.length_cons, List.length_nil] at few ⊢
    omega
  -- The file got its number no later than by the addition that could not read it, and was not surveyed by then.
  obtain ⟨file, -, number⟩ :=
    Lookups.exists_number first (List.mem_append_right _ (List.mem_singleton.mpr rfl)) reaches
  have fresh : (run host dialect world (before.map Addition.path)).survey.surveyed.get file = false := by
    have short : (before.map Addition.path).length < 2147483648 := by omega
    rcases fails.reached unchanging (catalogue_run unchanging dialect world short) first reaches number with
      ⟨-, other, duplicate⟩ | ⟨new, -⟩
    · cases refused.symm.trans duplicate
    · exact new
  -- Nothing in between leads to it, so it has still not been surveyed when it is reached again.
  have grown : (before ++ failed :: between).map Addition.path =
      (before.map Addition.path ++ [failed.path]) ++ between.map Addition.path := by simp
  have short : ((before ++ failed :: between).map Addition.path).length < 2147483648 := by
    rw [List.length_append] at second
    omega
  have same : (lookups stat ((before ++ failed :: between).map Addition.path)).catalogue.fileIds[identity]? =
      some file := by
    rw [grown] at short ⊢
    exact Lookups.fileIds_of_earlier short number
  have still : (run host dialect world ((before ++ failed :: between).map Addition.path)).survey.surveyed.get file =
      false := by
    refine unsurveyed_until unchanging (before.map Addition.path) short (by rw [middle, early]) same fresh ?_
    intro addition member surveyed arrives
    rcases List.mem_cons.mp member with rfl | among
    · obtain ⟨report, answered, -⟩ := Addition.surveyed?_eq_some.mp surveyed
      cases refused.symm.trans answered
    · exact none addition among arrives
  rcases adds.reached unchanging (catalogue_run unchanging dialect world short) second returns
      (Lookups.fileIds_of_earlier second same) with ⟨known, -⟩ | ⟨-, readings, refuses, grants⟩
  · exact absurd (still.symm.trans known) Bool.false_ne_true
  · refine ⟨readings, refuses, fun bytes granted => ?_⟩
    obtain ⟨report, answered, -⟩ := grants bytes granted
    exact ⟨report, answered⟩

end Tour

/-- Additions that find no file leave no trace, in a file system that does not change: without them all other additions
are answered as with them, every file is shown under the same name, and the dump is the same to the last byte. No
addition that fails, whatever the survey and the host, changes the table or the set of surveyed files. So a file that
could not be read is read again by the next addition that leads to it. -/
theorem failed_additions_leave_no_trace (stat : String → Except StatError Stat)
    (read : String → Except ReadError (List UInt8)) (host : Host (StateM ω)) (unchanging : host.Unchanging stat read)
    (dialect : Dialect) (world elsewhere : ω) (paths : List String) (few : paths.length < 2147483648) :
    let tour := Tour.run host dialect world paths
    (Survey.addFiles host paths (.start dialect)).run world =
      ((tour.additions.map Addition.answer, tour.survey), tour.world) ∧
    tour.additions.map Addition.path = paths ∧
    (∀ kept, Interspersed kept tour.additions →
      let plain := Tour.run host dialect elsewhere (kept.map Addition.path)
      (Survey.addFiles host (kept.map Addition.path) (.start dialect)).run elsewhere =
        ((kept.map Addition.answer, plain.survey), plain.world) ∧
      plain.additions = kept ∧ (∀ file, plain.survey.displayName file = tour.survey.displayName file) ∧
      plain.survey.dump = tour.survey.dump) ∧
    (∀ (changing : Host (StateM ω)) path (survey : Survey) world error after later,
      (survey.addFile changing path).run world = ((.error error, after), later) →
      after.identifiers = survey.identifiers ∧ after.surveyed = survey.surveyed) ∧
    ∀ before failed between again behind cause identity,
      tour.additions = before ++ failed :: (between ++ again :: behind) →
      failed.answer = .error (.unreadable failed.path cause) → Reaches stat failed.path identity →
      (∀ addition ∈ between, ¬Reaches stat addition.path identity) → Reaches stat again.path identity →
      again.readings = [⟨again.path, read again.path⟩] ∧
      (∀ cause, read again.path = .error cause → again.answer = .error (.unreadable again.path cause)) ∧
      ∀ bytes, read again.path = .ok bytes → ∃ report, again.answer = .ok (.surveyed report) := by
  intro tour
  have order : tour.additions.map Addition.path = paths := Tour.paths_run host dialect world paths
  refine ⟨Tour.run_unobserved host dialect world paths, order, ?_, ?_, ?_⟩
  · intro kept interspersed plain
    have whole : (Tour.run host dialect world (tour.additions.map Addition.path)).additions = tour.additions := by
      rw [order]
    rw [← order, List.length_map] at few
    obtain ⟨same, alongside⟩ := Tour.run_interspersed unchanging dialect world elsewhere interspersed few whole
    have unobserved := Tour.run_unobserved host dialect elsewhere (kept.map Addition.path)
    have fewer := interspersed.length_le
    rw [order] at alongside
    rw [same] at unobserved
    refine ⟨unobserved, same, fun file => ?_, ?_⟩
    · refine (alongside.displayName ?_ ?_ file).symm
      · rw [← order, List.length_map]
        exact few
      · rw [List.length_map]
        omega
    · rw [Survey.dump, Survey.dump]
      exact congrArg _ (by rw [alongside.identifiers])
  · intro changing path survey world error after later failed
    obtain ⟨answer, next, last, readings, plain, -, adds⟩ := Survey.addFile_adds changing path survey world
    cases plain.symm.trans failed
    exact adds.error_keeps
  · intro before failed between again behind cause identity split refused reaches none returns
    exact Tour.read_again unchanging few split refused reaches none returns

/-- A file that may not be read is read again after a path that leads nowhere, as it is without that path. -/
theorem locked_file_is_read_again :
    let host := Host.fixed aliased guarded
    ∃ first vain again, first.answer = .error (.unreadable "locked" .permissionDenied) ∧
      vain.answer = .error (.noSuchFile "none") ∧ again.readings = [⟨"locked", .error .permissionDenied⟩] ∧
      (Tour.run host (.ofStandard .gnu89) () ["locked", "none", "locked"]).additions = [first, vain, again] ∧
      (Tour.run host (.ofStandard .gnu89) () ["locked", "locked"]).additions = [first, again] := by
  intro host
  have unchanging : host.Unchanging aliased guarded := Host.unchanging_fixed aliased guarded
  have follows : Follows aliased guarded ["locked", "none", "locked"]
      (.run host (.ofStandard .gnu89) () ["locked", "none", "locked"]) :=
    .run _ (by decide) fun path other identity one two => by rw [reaches_aliased one, reaches_aliased two]
  obtain ⟨-, order, left, -, returns⟩ := failed_additions_leave_no_trace aliased guarded host unchanging
    (.ofStandard .gnu89) () () ["locked", "none", "locked"] (by decide)
  have answers := follows.answers
  generalize (Tour.run host (.ofStandard .gnu89) () ["locked", "none", "locked"]).additions = additions at *
  obtain ⟨first, rest, rfl, here, rest_order⟩ := List.map_eq_cons_iff.mp order
  obtain ⟨vain, rest, rfl, nothing, last_order⟩ := List.map_eq_cons_iff.mp rest_order
  obtain ⟨again, rest, rfl, there, none_order⟩ := List.map_eq_cons_iff.mp last_order
  obtain rfl := List.map_eq_nil_iff.mp none_order
  have reaches : Reaches aliased "locked" ⟨1, 3⟩ := by decide
  have refused : first.answer = .error (.unreadable "locked" .permissionDenied) := by
    have answer := (answers [] first ⟨_, rfl⟩).of_reaches (here ▸ reaches)
    rw [here] at answer
    exact answer
  have missing : vain.answer = .error (.noSuchFile "none") := by
    have nowhere : fileOf? aliased "none" = none := by decide
    have answer := (answers [first] vain ⟨_, rfl⟩).of_nowhere (nothing ▸ nowhere)
    rw [nothing] at answer
    exact answer
  obtain ⟨-, plain, -⟩ := left [first, again] (.concat (.insert (.concat .nil first) (nothing ▸ missing)) again)
  obtain ⟨readings, -⟩ := returns [] first [vain] again [] .permissionDenied ⟨1, 3⟩ rfl (here ▸ refused)
    (here ▸ reaches) (by simp [nothing]; decide) (there ▸ reaches)
  rw [there] at readings
  rw [List.map_cons, List.map_singleton, here, there] at plain
  exact ⟨first, vain, again, refused, missing, readings, rfl, plain⟩

end Canon

import Canon.Proofs.File.Resolved
import Canon.Proofs.Survey.Backing
import Canon.Proofs.Survey.Duplicates

/-!
The name of the main file. It is shown for the file that was found first, whether or not that could be read; every
other file is shown under the path of the first addition that leads to it.
-/
namespace Canon
open Canon.File
variable {ω : Type} {host : Host (StateM ω)} {dialect : Dialect} {world : ω} {paths : List String} {name path : String}
  {file : FileId}

theorem Survey.displayName_eq {survey : Survey} {record : FileRecord} (main : survey.dialect.mainFileName = some name)
    (entered : survey.catalogue.files.get? file = some record) :
    survey.displayName file = if record.uid = 0 then .ok name else survey.catalogue.fileName file := by
  unfold displayName Catalogue.fileName
  rw [Registry.get_eq_ok_iff.mpr entered, main]
  rfl

theorem Tour.displayName_run (main : dialect.mainFileName = some name) (few : paths.length < 2147483648)
    (leads : (run host dialect world paths).survey.catalogue.fileAt path = .found file) :
    (run host dialect world paths).survey.displayName file =
      if file.index = 0 then .ok name else (run host dialect world paths).survey.catalogue.fileName file := by
  obtain ⟨visit, backed⟩ := backed_run host dialect world few
  have recounts := backed.consistent.recounts
  rw [backed.catalogue] at recounts
  obtain ⟨record, entered, uid⟩ := recounts.exists_record leads
  rw [← dialect_run host dialect world paths] at main
  rw [Survey.displayName_eq main entered, ← uid]
  exact if_congr UInt32.toNat_inj.symm rfl rfl

theorem Tour.exists_origin (few : paths.length < 2147483648) {addition : Addition} {report : Report}
    (member : addition ∈ (run host dialect world paths).additions)
    (answered : addition.answer = .ok (.surveyed report)) :
    ∃ before origin behind, (run host dialect world paths).additions = before ++ origin :: behind ∧
      (run host dialect world paths).survey.catalogue.fileAt origin.path = .found report.file ∧
      ∀ other ∈ before, (run host dialect world paths).survey.catalogue.fileAt other.path ≠ .found report.file := by
  have leads := surveyed_leads few member answered
  have met : ((run host dialect world paths).additions.find? fun other =>
      (run host dialect world paths).survey.catalogue.fileAt other.path = .found report.file).isSome :=
    List.find?_isSome.mpr ⟨addition, member, decide_eq_true leads⟩
  obtain ⟨origin, found⟩ := Option.isSome_iff_exists.mp met
  obtain ⟨arrives, before, behind, split, new⟩ := List.find?_eq_some_iff_append.mp found
  exact ⟨before, origin, behind, split, of_decide_eq_true arrives, fun other among => by simpa using new other among⟩

/-- Whatever is added and however the host changes, the name of the main file is shown for the file that is found first:
that of the first addition that is not answered that there is no such file. That is the file which is surveyed first,
if it can be read. Every other file that is surveyed is shown under the path of the first addition that leads to it. -/
theorem main_file_name_is_of_the_first_file_found (host : Host (StateM ω)) (dialect : Dialect) (name : String)
    (main : dialect.mainFileName = some name) (world : ω) (paths : List String) (few : paths.length < 2147483648) :
    let tour := Tour.run host dialect world paths
    (Survey.addFiles host paths (.start dialect)).run world =
      ((tour.additions.map Addition.answer, tour.survey), tour.world) ∧
    tour.additions.map Addition.path = paths ∧
    ∀ earlier first later, tour.additions = earlier ++ first :: later →
      (∀ addition ∈ earlier, addition.answer = .error (.noSuchFile addition.path)) →
      first.answer ≠ .error (.noSuchFile first.path) →
      ∃ file, tour.survey.catalogue.fileAt first.path = .found file ∧ tour.survey.displayName file = .ok name ∧
        (∀ report, first.answer = .ok (.surveyed report) → report.file = file) ∧
        ∀ addition ∈ tour.additions, ∀ report, addition.answer = .ok (.surveyed report) → report.file ≠ file →
          ∃ before origin behind, tour.additions = before ++ origin :: behind ∧
            tour.survey.catalogue.fileAt origin.path = .found report.file ∧
            (∀ other ∈ before, tour.survey.catalogue.fileAt other.path ≠ .found report.file) ∧
            tour.survey.displayName report.file = .ok origin.path := by
  intro tour
  refine ⟨Tour.run_unobserved host dialect world paths, Tour.paths_run host dialect world paths, ?_⟩
  intro earlier first later split vain some
  have member : first ∈ tour.additions := split ▸ List.mem_append_right _ List.mem_cons_self
  cases Tour.fits_run few member with
  | missing nothing => exact absurd nothing some
  | @found file leads _ reported =>
    have zero := Tour.first_found few split vain leads
    refine ⟨file, leads, ?_, reported, ?_⟩
    · exact (Tour.displayName_run main few leads).trans (if_pos zero)
    · intro addition among report answered other
      obtain ⟨before, origin, behind, parts, arrives, new⟩ := Tour.exists_origin few among answered
      refine ⟨before, origin, behind, parts, arrives, new, ?_⟩
      have positive : ¬report.file.index = 0 := fun same => other (Handle.ext_index (same.trans zero.symm))
      rw [Tour.displayName_run main few arrives, if_neg positive]
      exact Tour.fileName_run few parts arrives new

/-- Every path but that of the current directory leads to a file of its own, if the lengths differ. -/
def scattered (path : String) : Except StatError Stat :=
  .ok ⟨path = ".", ⟨1, .ofNat path.length⟩, 0, 0, 0⟩

/-- Of two files that can be read, the first is shown as the main file and the second under its path. -/
theorem second_file_keeps_its_path :
    let dialect : Dialect := { mainFileName := some "main" }
    let tour := Tour.run (.fixed scattered fun _ => .ok []) dialect () ["a", "bb"]
    ∃ first second, tour.additions.filterMap Addition.surveyed? = [first, second] ∧
      tour.survey.displayName first = .ok "main" ∧ tour.survey.displayName second = .ok "bb" := by
  intro dialect tour
  have follows : Follows scattered (fun _ => .ok []) ["a", "bb"] tour := .run _ (by decide) fun _ _ _ _ _ => rfl
  obtain ⟨-, order, shown⟩ := main_file_name_is_of_the_first_file_found (.fixed scattered fun _ => .ok []) dialect
    "main" rfl () ["a", "bb"] (by decide)
  have order : tour.additions.map Addition.path = ["a", "bb"] := order
  have distinct := follows.nodup_surveyed (by decide)
  obtain ⟨first, rest, additions, here, rest_order⟩ := List.map_eq_cons_iff.mp order
  obtain ⟨second, rest, rfl, there, none_order⟩ := List.map_eq_cons_iff.mp rest_order
  obtain rfl := List.map_eq_nil_iff.mp none_order
  have reaches : Reaches scattered "a" ⟨1, 1⟩ := by decide
  have arrives : Reaches scattered "bb" ⟨1, 2⟩ := by decide
  have unmet : ([first].map Addition.path).find? (Reaches scattered · ⟨1, 2⟩) = none := by
    rw [List.map_singleton, here]
    decide
  have one := (follows.answers [] first ⟨[second], additions.symm⟩).of_reaches (here ▸ reaches)
  have two := (follows.answers [first] second ⟨[], additions.symm⟩).of_reaches (there ▸ arrives)
  rw [unmet] at two
  obtain ⟨report, answered, -⟩ := one
  obtain ⟨other, also, -⟩ := two
  have reported : tour.additions.filterMap Addition.surveyed? = [report.file, other.file] := by
    rw [additions, List.filterMap_cons_some (Addition.surveyed?_eq_some.mpr ⟨report, answered, rfl⟩),
      List.filterMap_cons_some (Addition.surveyed?_eq_some.mpr ⟨other, also, rfl⟩), List.filterMap_nil]
  have different : other.file ≠ report.file := by
    rw [reported] at distinct
    exact fun same => (List.nodup_cons.mp distinct).1 (by simp [same])
  obtain ⟨file, leads, main, named, others⟩ := shown [] first [second] additions nofun (by simp [answered])
  obtain rfl := named report answered
  refine ⟨report.file, other.file, reported, main, ?_⟩
  obtain ⟨before, origin, behind, split, found, -, shown⟩ :=
    others second (additions ▸ List.mem_cons_of_mem _ (List.mem_singleton.mpr rfl)) other also different
  have same := additions.symm.trans split
  cases before with
  | nil =>
    cases same
    exact absurd (Resolution.found.inj (found.symm.trans leads)) different
  | cons head before =>
    cases before with
    | nil =>
      cases same
      exact there ▸ shown
    | cons next before => simp at same

/-- A file that may not be read takes the name of the main file from the file that is surveyed first. -/
theorem locked_file_takes_the_main_file_name :
    let dialect : Dialect := { mainFileName := some "main" }
    let tour := Tour.run (.fixed aliased guarded) dialect () ["locked", "a"]
    ∃ locked surveyed report, tour.additions = [locked, surveyed] ∧
      locked.answer = .error (.unreadable "locked" .permissionDenied) ∧ surveyed.answer = .ok (.surveyed report) ∧
      tour.survey.displayName report.file = .ok "a" ∧ tour.survey.displayName report.file ≠ .ok "main" := by
  intro dialect tour
  have few : ["locked", "a"].length < 2147483648 := by decide
  have follows : Follows aliased guarded ["locked", "a"] tour :=
    .run _ few fun path other identity one two => by rw [reaches_aliased one, reaches_aliased two]
  obtain ⟨locked, rest, additions, here, rest_order⟩ := List.map_eq_cons_iff.mp follows.order
  obtain ⟨surveyed, rest, rfl, there, none_order⟩ := List.map_eq_cons_iff.mp rest_order
  obtain rfl := List.map_eq_nil_iff.mp none_order
  have barred : Reaches aliased "locked" ⟨1, 3⟩ := by decide
  have reaches : Reaches aliased "a" ⟨1, 2⟩ := by decide
  have new : ¬Reaches aliased "locked" ⟨1, 2⟩ := by decide
  have refused := (follows.answers [] locked ⟨[surveyed], additions.symm⟩).of_reaches (here ▸ barred)
  have granted := (follows.answers [locked] surveyed ⟨[], additions.symm⟩).of_reaches (there ▸ reaches)
  have unmet : ([locked].map Addition.path).find? (Reaches aliased · ⟨1, 2⟩) = none := by
    rw [List.map_singleton, here]
    decide
  rw [here] at refused
  rw [there, unmet] at granted
  obtain ⟨report, answered, number⟩ := granted
  refine ⟨locked, surveyed, report, additions, refused, answered, ?_⟩
  have met : identities aliased ["locked", "a"] = [⟨1, 3⟩, ⟨1, 2⟩] := by decide
  have second := (Lookups.number_iff few).mp number
  have named : tour.survey.catalogue.fileName report.file = .ok "a" := by
    have unreached : ∀ other ∈ ["locked"], ¬Reaches aliased other ⟨1, 2⟩ := by simpa using new
    have split : ["locked", "a"] = ["locked"] ++ "a" :: [] := rfl
    rw [split] at number few
    rw [follows.catalogue, split]
    exact Lookups.fileName_first few unreached reaches number
  have leads := Tour.surveyed_leads few (additions ▸ List.mem_cons_of_mem _ (List.mem_singleton.mpr rfl)) answered
  have positive : ¬report.file.index = 0 := fun zero => by
    rw [met, zero] at second
    revert second
    decide
  have shown := Tour.displayName_run rfl few leads
  rw [if_neg positive] at shown
  rw [shown, named]
  exact ⟨rfl, by decide⟩

end Canon

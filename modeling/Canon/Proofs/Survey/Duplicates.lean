import Canon.Proofs.Survey.Unchanging

/-!
Files that are reached by several paths. While the file system does not change, every file that can be read is surveyed
when it is reached first, and from then on it is a duplicate of the path that reached it first.
-/
namespace Canon
open Canon.File
variable {stat : String → Except StatError Stat} {read : String → Except ReadError (List UInt8)} {paths : List String}
  {identity : Identity} {file : FileId}

namespace Follows
variable {tour : Tour Unit}

theorem settled (follows : Follows stat read paths tour)
    (alike : ∀ path other identity, Reaches stat path identity → Reaches stat other identity → read path = read other)
    (identity : Identity) :
    (∀ addition ∈ tour.additions, Reaches stat addition.path identity →
      ∃ cause, read addition.path = .error cause ∧ addition.answer = .error (.unreadable addition.path cause)) ∨
    ∃ earlier first later bytes report, tour.additions = earlier ++ first :: later ∧
      (∀ addition ∈ earlier, ¬Reaches stat addition.path identity) ∧ Reaches stat first.path identity ∧
      read first.path = .ok bytes ∧ first.answer = .ok (.surveyed report) ∧
      ∀ addition ∈ later, Reaches stat addition.path identity →
        addition.answer = .ok (.duplicate report.file first.path) := by
  cases met : tour.additions.find? fun addition => Reaches stat addition.path identity with
  | none =>
    left
    intro addition member reaches
    exact absurd (decide_eq_true reaches) (List.find?_eq_none.mp met addition member)
  | some first =>
    obtain ⟨arrives, earlier, later, split, new⟩ := List.find?_eq_some_iff_append.mp met
    have arrives : Reaches stat first.path identity := of_decide_eq_true arrives
    have new : ∀ addition ∈ earlier, ¬Reaches stat addition.path identity := fun addition among => by
      simpa using new addition among
    have readable (addition : Addition) (reaches : Reaches stat addition.path identity) :
        read addition.path = read first.path := alike addition.path first.path identity reaches arrives
    cases outcome : read first.path with
    | error cause =>
      left
      intro addition member reaches
      obtain ⟨before, -, answers⟩ := follows.answered member
      have answer := answers.of_reaches reaches
      rw [readable addition reaches, outcome] at answer
      exact ⟨cause, (readable addition reaches).trans outcome, answer⟩
    | ok bytes =>
      right
      have unmet : (earlier.map Addition.path).find? (Reaches stat · identity) = none := by
        rw [List.find?_map, Option.map_eq_none_iff, List.find?_eq_none]
        exact fun addition among reaches => new addition among (of_decide_eq_true reaches)
      have begins : earlier ++ [first] <+: tour.additions := ⟨later, by rw [split, List.append_assoc]; rfl⟩
      have answer := (follows.answers earlier first begins).of_reaches arrives
      rw [outcome, unmet] at answer
      obtain ⟨report, surveyed, number⟩ := answer
      refine ⟨earlier, first, later, bytes, report, split, new, arrives, outcome, surveyed, ?_⟩
      intro addition member reaches
      obtain ⟨between, rest, rfl⟩ := List.append_of_mem member
      have begins : earlier ++ first :: between ++ [addition] <+: tour.additions := ⟨rest, by rw [split]; simp⟩
      have known : ((earlier ++ first :: between).map Addition.path).find? (Reaches stat · identity) =
          some first.path := by
        rw [List.map_append, List.find?_append, unmet, Option.none_or, List.map_cons, List.find?_cons_of_pos]
        exact decide_eq_true arrives
      have answer := (follows.answers _ addition begins).of_reaches reaches
      rw [readable addition reaches, outcome, known] at answer
      obtain ⟨file, duplicate, also⟩ := answer
      rw [Option.some.inj (also.symm.trans number)] at duplicate
      exact duplicate

end Follows

theorem pairwise_of_concat {α : Type} {related : α → α → Prop} {list : List α}
    (relates : ∀ before last, before ++ [last] <+: list → ∀ first ∈ before, related first last) :
    list.Pairwise related := by
  induction list using List.reverseRecOn with
  | nil => exact List.Pairwise.nil
  | append_singleton front last ih =>
    rw [List.pairwise_append]
    refine ⟨ih fun before other begins => relates before other (begins.trans (List.prefix_append _ _)),
      List.pairwise_singleton _ _, fun first member other among => ?_⟩
    rw [List.mem_singleton.mp among]
    exact relates front last (List.prefix_refl _) first member

def Addition.surveyed? (addition : Addition) : Option FileId :=
  match addition.answer with
  | .ok (.surveyed report) => some report.file
  | _ => none

theorem Addition.surveyed?_eq_some {addition : Addition} :
    addition.surveyed? = some file ↔ ∃ report, addition.answer = .ok (.surveyed report) ∧ report.file = file := by
  unfold surveyed?
  split
  · next report answered => simp [answered]
  · next other =>
    refine ⟨nofun, fun given => ?_⟩
    obtain ⟨report, answered, -⟩ := given
    exact absurd answered (other report)

theorem Tour.surveyed_iff {ω : Type} (host : Host (StateM ω)) (dialect : Dialect) (world : ω) (paths : List String)
    (file : FileId) : (Tour.run host dialect world paths).survey.surveyed.get file = true ↔
      ∃ addition ∈ (Tour.run host dialect world paths).additions, addition.surveyed? = some file := by
  induction paths using List.reverseRecOn with
  | nil =>
    show (Overlay.constant false).get file = true ↔ ∃ addition ∈ [], _
    simp
  | append_singleton earlier path ih =>
    obtain ⟨answer, after, later, readings, -, added, adds⟩ := (Tour.run host dialect world earlier).add_adds host path
    rw [Tour.run_concat, added]
    simp only [List.mem_append, List.mem_singleton, or_and_right, exists_or, exists_eq_left, ← ih]
    cases adds with
    | missing => exact (or_iff_left nofun).symm
    | duplicate => exact (or_iff_left nofun).symm
    | unreadable => exact (or_iff_left nofun).symm
    | @surveyed known =>
      show ((Tour.run host dialect world earlier).survey.surveyed.set known true).get file = true ↔ _ ∨ some known = _
      by_cases same : known = file
      · subst same
        rw [Overlay.set, Overlay.get_modify_same]
        exact iff_of_true rfl (.inr rfl)
      · rw [Overlay.set, Overlay.get_modify_other _ _ same, Option.some.injEq]
        exact (or_iff_left same).symm

theorem Follows.nodup_surveyed {tour : Tour Unit} (follows : Follows stat read paths tour)
    (few : paths.length < 2147483648) : (tour.additions.filterMap Addition.surveyed?).Nodup := by
  rw [List.Nodup, List.pairwise_filterMap]
  refine pairwise_of_concat fun before last begins first member file surveyed other again same => ?_
  subst same
  obtain ⟨report, answered, numbered⟩ := Addition.surveyed?_eq_some.mp surveyed
  obtain ⟨second, answer, also⟩ := Addition.surveyed?_eq_some.mp again
  obtain ⟨front, -, reached⟩ := follows.answered (begins.subset (List.mem_append_left [last] member))
  have arrived := follows.answers before last begins
  rw [answered] at reached
  rw [answer] at arrived
  obtain ⟨identity, reaches, number, -⟩ := reached.of_surveyed
  obtain ⟨place, -, entered, new⟩ := arrived.of_surveyed
  rw [also, ← numbered] at entered
  obtain rfl := (Lookups.consistent stat few).1.recounts.files.indexes.identity_eq number entered
  exact List.find?_eq_none.mp new first.path (List.mem_map_of_mem member) (decide_eq_true reaches)

/-- Whatever paths are added, and however they alias each other, in a file system that does not change and where
reading depends only on which file it is: a file that can be read is surveyed when it is reached first and is a
duplicate of that first path whenever it is reached later, and a file that cannot be read is an error each time. -/
theorem readable_files_are_surveyed_once (stat : String → Except StatError Stat)
    (read : String → Except ReadError (List UInt8)) (dialect : Dialect) (paths : List String)
    (few : paths.length < 2147483648)
    (alike : ∀ path other identity, Reaches stat path identity → Reaches stat other identity → read path = read other) :
    let tour := Tour.run (.fixed stat read) dialect () paths
    (Survey.addFiles (.fixed stat read) paths (.start dialect)).run () =
      ((tour.additions.map Addition.answer, tour.survey), ()) ∧
    tour.additions.map Addition.path = paths ∧
    (∀ addition ∈ tour.additions, fileOf? stat addition.path = none →
      addition.answer = .error (.noSuchFile addition.path)) ∧
    (∀ identity,
      (∀ addition ∈ tour.additions, Reaches stat addition.path identity →
        ∃ cause, read addition.path = .error cause ∧ addition.answer = .error (.unreadable addition.path cause)) ∨
      ∃ earlier first later bytes report, tour.additions = earlier ++ first :: later ∧
        (∀ addition ∈ earlier, ¬Reaches stat addition.path identity) ∧ Reaches stat first.path identity ∧
        read first.path = .ok bytes ∧ first.answer = .ok (.surveyed report) ∧
        ∀ addition ∈ later, Reaches stat addition.path identity →
          addition.answer = .ok (.duplicate report.file first.path)) ∧
    (tour.additions.filterMap Addition.surveyed?).Nodup ∧
    ∀ addition ∈ tour.additions, ∀ identity bytes, Reaches stat addition.path identity →
      read addition.path = .ok bytes →
      ∃ other ∈ tour.additions, Reaches stat other.path identity ∧ ∃ report, other.answer = .ok (.surveyed report) := by
  intro tour
  have follows : Follows stat read paths tour := .run dialect few alike
  have settled := follows.settled alike
  refine ⟨Tour.run_unobserved _ dialect () paths, follows.order, ?_, settled, follows.nodup_surveyed few, ?_⟩
  · intro addition member nowhere
    obtain ⟨before, -, answers⟩ := follows.answered member
    exact answers.of_nowhere nowhere
  · intro addition member identity bytes reaches granted
    rcases settled identity with refused | ⟨earlier, first, later, -, report, split, -, arrives, -, surveyed, -⟩
    · obtain ⟨cause, error, -⟩ := refused addition member reaches
      cases error.symm.trans granted
    · exact ⟨first, split ▸ List.mem_append_right _ List.mem_cons_self, arrives, report, surveyed⟩

/-- A current directory in which one file has two names, and another file may not be read. -/
def aliased (path : String) : Except StatError Stat :=
  if path = "." then .ok ⟨true, ⟨1, 1⟩, 0, 0, 0⟩
  else if path = "locked" then .ok ⟨false, ⟨1, 3⟩, 0, 0, 0⟩
  else if path = "a" ∨ path = "b" then .ok ⟨false, ⟨1, 2⟩, 0, 0, 0⟩
  else .error .notFound

def guarded (path : String) : Except ReadError (List UInt8) :=
  if path = "locked" then .error .permissionDenied else .ok [0x78]

theorem reaches_aliased (reaches : Reaches aliased path identity) :
    guarded path = if identity = ⟨1, 3⟩ then .error .permissionDenied else .ok [0x78] := by
  obtain ⟨found, leads, rfl⟩ := Option.map_eq_some_iff.mp reaches
  obtain ⟨leads, -⟩ := Sought.usable?_eq_some.mp (fileOf?_eq_some.mp leads).2
  unfold guarded
  unfold aliased at leads
  split at leads
  · next here =>
    cases leads
    subst here
    decide
  · split at leads
    · next here =>
      cases leads
      rw [if_pos here, if_pos rfl]
    · next elsewhere =>
      split at leads
      · cases leads
        rw [if_neg elsewhere, if_neg (by decide)]
      · cases leads

theorem two_names_are_surveyed_once :
    ∃ report, ((Survey.addFiles (.fixed aliased guarded) ["none", "a", "locked", "b"]
      (.start (.ofStandard .gnu89))).run ()).1.1 =
        [.error (.noSuchFile "none"), .ok (.surveyed report), .error (.unreadable "locked" .permissionDenied),
          .ok (.duplicate report.file "a")] := by
  obtain ⟨plain, order, missing, settled, -, -⟩ := readable_files_are_surveyed_once aliased guarded (.ofStandard .gnu89)
    ["none", "a", "locked", "b"] (by decide) fun path other identity one two => by
      rw [reaches_aliased one, reaches_aliased two]
  rw [plain]
  generalize (Tour.run (.fixed aliased guarded) (.ofStandard .gnu89) () ["none", "a", "locked", "b"]).additions =
    additions at order missing settled
  obtain ⟨⟨-, absent, one⟩, rest, rfl, rfl, rest_order⟩ := List.map_eq_cons_iff.mp order
  obtain ⟨⟨-, surveyed, two⟩, rest, rfl, rfl, late_order⟩ := List.map_eq_cons_iff.mp rest_order
  obtain ⟨⟨-, locked, three⟩, rest, rfl, rfl, last_order⟩ := List.map_eq_cons_iff.mp late_order
  obtain ⟨⟨-, again, four⟩, rest, rfl, rfl, none_order⟩ := List.map_eq_cons_iff.mp last_order
  obtain rfl := List.map_eq_nil_iff.mp none_order
  have nowhere : fileOf? aliased "none" = none := by decide
  have vacant : absent = .error (.noSuchFile "none") := missing ⟨"none", absent, one⟩ (by simp) nowhere
  have refused : locked = .error (.unreadable "locked" .permissionDenied) := by
    rcases settled ⟨1, 3⟩ with refused | ⟨-, first, -, bytes, -, -, -, reaches, granted, -⟩
    · have reaches : Reaches aliased "locked" ⟨1, 3⟩ := by decide
      obtain ⟨cause, denied, answer⟩ := refused ⟨"locked", locked, three⟩ (by simp) reaches
      cases denied
      exact answer
    · rw [reaches_aliased reaches, if_pos rfl] at granted
      cases granted
  rcases settled ⟨1, 2⟩ with denied | ⟨earlier, first, later, -, report, split, new, reaches, -, answer, others⟩
  · have reaches : Reaches aliased "a" ⟨1, 2⟩ := by decide
    obtain ⟨cause, denied, -⟩ := denied ⟨"a", surveyed, two⟩ (by simp) reaches
    cases denied
  · cases earlier with
    | nil =>
      cases split
      have unreached : ¬Reaches aliased "none" ⟨1, 2⟩ := by decide
      exact absurd reaches unreached
    | cons head earlier =>
      cases earlier with
      | nil =>
        cases split
        have reached : Reaches aliased "b" ⟨1, 2⟩ := by decide
        have duplicate := others ⟨"b", again, four⟩ (by simp) reached
        dsimp only at answer duplicate
        exact ⟨report, by simp only [List.map_cons, List.map_nil, vacant, answer, refused, duplicate]⟩
      | cons next earlier =>
        simp only [List.cons_append, List.cons.injEq] at split
        obtain ⟨-, rfl, -⟩ := split
        have reached : Reaches aliased "a" ⟨1, 2⟩ := by decide
        exact absurd reached (new ⟨"a", surveyed, two⟩ (by simp))

end Canon

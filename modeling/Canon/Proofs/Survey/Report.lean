import Mathlib.Data.List.Induction
import Canon.Proofs.Survey.Tally
import Canon.Proofs.Survey.Unchanging

/-!
What a survey reports about a file. The table of identifiers is shared by all files, and yet a report says only what the
dialect makes of the words of its own file.
-/
namespace Canon
open Canon.File
variable {ω : Type} {dialect : Dialect}

def FileReading.words (dialect : Dialect) (reading : FileReading) : List String :=
  match reading.answer with
  | .ok bytes => Text.words dialect.dollarWords (Text.decodeLossy bytes)
  | .error _ => []

/-- The words that an addition enters: those of the file, if it has been surveyed. -/
def Addition.words (dialect : Dialect) (addition : Addition) : List String :=
  match addition.answer with
  | .ok (.surveyed _) => addition.readings.flatMap (·.words dialect)
  | _ => []

namespace Survey

theorem record_eq (survey : Survey) (file : FileId) (entry : FileRecord) (bytes : List UInt8) :
    survey.record file entry bytes =
      let counted := Tally.ofWords survey.identifiers (Text.words survey.dialect.dollarWords (Text.decodeLossy bytes))
      (.surveyed ⟨file, entry.uid, entry.size, counted.1⟩,
        { survey with identifiers := counted.2, surveyed := survey.surveyed.set file true }) := rfl

theorem Adds.enters {host : Host (StateM ω)} {path : String} {survey after : Survey} {world later : ω}
    {answer : Except SurveyError Outcome} {readings : List FileReading}
    (adds : Adds host path survey world answer after later readings) (dialect : Dialect) :
    after.dialect = survey.dialect ∧
    (((∀ report, answer ≠ .ok (.surveyed report)) ∧ Addition.words dialect ⟨path, answer, readings⟩ = [] ∧
      after.identifiers = survey.identifiers) ∨
    ∃ report bytes moment, answer = .ok (.surveyed report) ∧ readings = [⟨path, .ok bytes⟩] ∧
      (host.read path).run moment = (.ok bytes, later) ∧
      Addition.words dialect ⟨path, answer, readings⟩ = Text.words dialect.dollarWords (Text.decodeLossy bytes) ∧
      (report.tally, after.identifiers) =
        Tally.ofWords survey.identifiers (Text.words survey.dialect.dollarWords (Text.decodeLossy bytes))) := by
  cases adds with
  | missing | duplicate | unreadable => exact ⟨rfl, .inl ⟨nofun, rfl, rfl⟩⟩
  | @surveyed file entry catalogue later bytes last looked entered new read =>
    rw [record_eq]
    exact ⟨rfl, .inr ⟨_, bytes, later, rfl, rfl, read, List.append_nil _, rfl⟩⟩

end Survey

namespace Tour
variable {tour : Tour ω}

def words (dialect : Dialect) (tour : Tour ω) : List String := tour.additions.flatMap (·.words dialect)

structure Reflects (dialect : Dialect) (tour : Tour ω) : Prop where
  options : tour.survey.dialect = dialect
  identifiers : tour.survey.identifiers.Reflects dialect (tour.words dialect)

theorem Reflects.start (dialect : Dialect) (world : ω) : (Tour.start dialect world).Reflects dialect where
  options := rfl
  identifiers := by
    dsimp only [Tour.start, Survey.start, words, List.flatMap_nil]
    exact .ofDialect dialect

end Tour

/-- A surveyed file was read once, by the path that was added, and the report counts what the dialect makes of its
words. -/
def Addition.Reports (host : Host (StateM ω)) (dialect : Dialect) (addition : Addition) : Prop :=
  ∀ report, addition.answer = .ok (.surveyed report) → ∃ bytes moment later,
    (host.read addition.path).run moment = (.ok bytes, later) ∧ addition.readings = [⟨addition.path, .ok bytes⟩] ∧
    report.tally = .ofDialect dialect (Text.words dialect.dollarWords (Text.decodeLossy bytes))

namespace Tour
variable {tour : Tour ω}

theorem words_concat (dialect : Dialect) {next : Tour ω} {addition : Addition}
    (added : next.additions = tour.additions ++ [addition]) :
    next.words dialect = tour.words dialect ++ addition.words dialect := by
  rw [words, added, List.flatMap_append, List.flatMap_singleton]
  rfl

theorem Reflects.add (reflects : tour.Reflects dialect) (host : Host (StateM ω)) (path : String)
    (few : ((tour.add host path).words dialect).eraseDups.length < 2147483648) :
    (tour.add host path).Reflects dialect ∧ ∃ answer readings,
      (tour.survey.addFile host path).run tour.world =
        ((answer, (tour.add host path).survey), (tour.add host path).world) ∧
      (tour.add host path).additions = tour.additions ++ [⟨path, answer, readings⟩] ∧
      Addition.Reports host dialect ⟨path, answer, readings⟩ := by
  obtain ⟨rfl, identifiers⟩ := reflects
  obtain ⟨answer, after, later, readings, plain, added, adds⟩ := tour.add_adds host path
  have more := words_concat tour.survey.dialect (congrArg Tour.additions added)
  rw [more] at few
  rw [added] at more ⊢
  obtain ⟨same, ⟨other, none_, kept⟩ | ⟨report, bytes, moment, rfl, rfl, read, entered, counted⟩⟩ :=
    adds.enters tour.survey.dialect
  · refine ⟨⟨same, ?_⟩, answer, readings, plain, rfl, fun report answered => absurd answered (other report)⟩
    rw [more, none_, List.append_nil]
    exact kept ▸ identifiers
  · rw [entered] at few more
    obtain ⟨tally, grown⟩ := Tally.ofWords_eq _ identifiers few
    rw [← counted] at tally grown
    refine ⟨⟨same, more ▸ grown⟩, _, _, plain, rfl, fun other answered => ?_⟩
    cases answered
    exact ⟨bytes, moment, later, read, rfl, tally⟩

theorem words_subset (host : Host (StateM ω)) (dialect : Dialect) (world : ω) (paths : List String)
    {possible : List String} (reads : ∀ path moment bytes later, (host.read path).run moment = (.ok bytes, later) →
      Text.words dialect.dollarWords (Text.decodeLossy bytes) ⊆ possible) :
    (run host dialect world paths).words dialect ⊆ possible := by
  induction paths using List.reverseRecOn with
  | nil => exact List.nil_subset possible
  | append_singleton earlier path ih =>
    obtain ⟨answer, after, later, readings, -, added, adds⟩ := (run host dialect world earlier).add_adds host path
    rw [run_concat, words_concat dialect (congrArg Tour.additions added), List.append_subset]
    refine ⟨ih, ?_⟩
    obtain ⟨-, ⟨-, none_, -⟩ | ⟨report, bytes, moment, -, -, read, entered, -⟩⟩ := adds.enters dialect
    · exact none_ ▸ List.nil_subset possible
    · exact entered ▸ reads path moment bytes later read

theorem length_words_le_add (host : Host (StateM ω)) (tour : Tour ω) (path : String) :
    (tour.words dialect).eraseDups.length ≤ ((tour.add host path).words dialect).eraseDups.length := by
  obtain ⟨answer, after, later, readings, -, added, -⟩ := tour.add_adds host path
  rw [words_concat dialect (congrArg Tour.additions added)]
  exact length_eraseDups_le_append _ _

theorem Reflects.run (host : Host (StateM ω)) (dialect : Dialect) (world : ω) (paths : List String)
    (few : ((run host dialect world paths).words dialect).eraseDups.length < 2147483648) :
    (run host dialect world paths).Reflects dialect ∧
      ∀ addition ∈ (run host dialect world paths).additions, addition.Reports host dialect := by
  induction paths using List.reverseRecOn with
  | nil => exact ⟨.start dialect world, fun addition member => by cases member⟩
  | append_singleton earlier path ih =>
    rw [run_concat] at few ⊢
    obtain ⟨reflects, reports⟩ := ih (Nat.lt_of_le_of_lt (length_words_le_add host _ path) few)
    obtain ⟨next, answer, readings, -, added, last⟩ := reflects.add host path few
    refine ⟨next, fun addition member => ?_⟩
    rw [added] at member
    rcases List.mem_append.mp member with old | new
    · exact reports addition old
    · rw [List.mem_singleton.mp new]
      exact last

end Tour

/-- Whatever files have been added before, and whatever the host answers and however it changes: the report about the
next file says how many words it has and what the dialect makes of them, and nothing else. -/
theorem reports_forget_history (host : Host (StateM ω)) (dialect : Dialect) (world : ω) (earlier : List String)
    (path : String)
    (few : ((Tour.run host dialect world (earlier ++ [path])).words dialect).eraseDups.length < 2147483648) :
    let before := Tour.run host dialect world earlier
    let after := Tour.run host dialect world (earlier ++ [path])
    (Survey.addFiles host earlier (.start dialect)).run world =
      ((before.additions.map Addition.answer, before.survey), before.world) ∧
    ∃ answer readings, (before.survey.addFile host path).run before.world = ((answer, after.survey), after.world) ∧
      after.additions = before.additions ++ [⟨path, answer, readings⟩] ∧
      ∀ report, answer = .ok (.surveyed report) → ∃ bytes moment later,
        (host.read path).run moment = (.ok bytes, later) ∧ readings = [⟨path, .ok bytes⟩] ∧
        let words := Text.words dialect.dollarWords (Text.decodeLossy bytes)
        report.tally.words = words.length ∧
        report.tally.keywords = words.countP (dialect.HasKeyword ·) ∧
        report.tally.extensions = words.countP (dialect.HasExtension ·) := by
  intro before after
  have next : after = before.add host path := Tour.run_concat host dialect world earlier path
  rw [Tour.run_concat] at few
  obtain ⟨reflects, -⟩ := Tour.Reflects.run host dialect world earlier
    (Nat.lt_of_le_of_lt (Tour.length_words_le_add host _ path) few)
  obtain ⟨-, answer, readings, plain, added, reports⟩ := reflects.add host path few
  refine ⟨Tour.run_unobserved host dialect world earlier, answer, readings, next ▸ plain, next ▸ added, ?_⟩
  intro report answered
  obtain ⟨bytes, moment, later, read, once, tally⟩ := reports report answered
  rw [tally]
  exact ⟨bytes, moment, later, read, once, rfl, rfl, rfl⟩

/-- A current directory in which every name is that of a file of its own kind. -/
def twoFiles (path : String) : Except StatError Stat :=
  if path = "." then .ok ⟨true, ⟨1, 1⟩, 0, 0, 0⟩
  else if path = "a" then .ok ⟨false, ⟨1, 2⟩, 0, 0, 0⟩
  else .ok ⟨false, ⟨1, 3⟩, 0, 0, 0⟩

def inlineText (_ : String) : Except ReadError (List UInt8) := .ok [0x69, 0x6e, 0x6c, 0x69, 0x6e, 0x65, 0x20, 0x78]

theorem words_inlineText {path : String} {bytes : List UInt8} (granted : inlineText path = .ok bytes) :
    Text.words true (Text.decodeLossy bytes) = ["inline", "x"] := by
  cases granted
  decide +kernel

theorem few_words_twoFiles (paths : List String) :
    ((Tour.run (.fixed twoFiles inlineText) (.ofStandard .gnu89) () paths).words
      (.ofStandard .gnu89)).eraseDups.length < 2147483648 := by
  have reads : ∀ path moment bytes later, ((Host.fixed twoFiles inlineText).read path).run moment = (.ok bytes, later) →
      Text.words (Dialect.ofStandard .gnu89).dollarWords (Text.decodeLossy bytes) ⊆ ["inline", "x"] := by
    intro path moment bytes later read
    have granted : inlineText path = .ok bytes := congrArg Prod.fst read
    rw [show (Dialect.ofStandard .gnu89).dollarWords = true from rfl, words_inlineText granted]
    exact List.Subset.refl _
  have few := length_eraseDups_le_of_subset (Tour.words_subset _ _ () paths reads)
  have short : ["inline", "x"].eraseDups.length < 2147483648 := by decide
  exact Nat.lt_of_le_of_lt few short

theorem surveyed_twoFiles : ∃ first second early late,
    (Tour.run (.fixed twoFiles inlineText) (.ofStandard .gnu89) () ["a", "b"]).additions =
      [⟨"a", .ok (.surveyed first), early⟩, ⟨"b", .ok (.surveyed second), late⟩] := by
  have follows : Follows twoFiles inlineText ["a", "b"] _ := .run (.ofStandard .gnu89) (by decide) fun _ _ _ _ _ => rfl
  generalize Tour.run (.fixed twoFiles inlineText) (.ofStandard .gnu89) () ["a", "b"] = tour at follows
  obtain ⟨⟨-, before, early⟩, rest, split, rfl, order⟩ := List.map_eq_cons_iff.mp follows.order
  obtain ⟨⟨-, answer, late⟩, rest, rfl, rfl, none_⟩ := List.map_eq_cons_iff.mp order
  obtain rfl := List.map_eq_nil_iff.mp none_
  have one : Reaches twoFiles "a" ⟨1, 2⟩ := by decide
  have two : Reaches twoFiles "b" ⟨1, 3⟩ := by decide
  have new : ["a"].find? (Reaches twoFiles · ⟨1, 3⟩) = none := by decide
  have begun := (follows.answers [] ⟨"a", before, early⟩ (split ▸ List.prefix_append _ _)).of_reaches one
  have ended := (follows.answers [⟨"a", before, early⟩] ⟨"b", answer, late⟩ (split ▸ List.prefix_refl _)).of_reaches two
  simp only [inlineText, List.map_nil, List.find?_nil] at begun
  simp only [inlineText, List.map_cons, List.map_nil, new] at ended
  obtain ⟨first, rfl, -⟩ := begun
  obtain ⟨second, rfl, -⟩ := ended
  exact ⟨first, second, early, late, split⟩

theorem second_file_is_reported_alike : ∃ first second,
    ((Survey.addFiles (.fixed twoFiles inlineText) ["a", "b"] (.start (.ofStandard .gnu89))).run ()).1.1 =
      [.ok (.surveyed first), .ok (.surveyed second)] ∧ second.tally = ⟨2, 1, 1⟩ := by
  obtain ⟨first, second, early, late, whole⟩ := surveyed_twoFiles
  obtain ⟨-, answer, readings, -, added, reports⟩ := reports_forget_history (.fixed twoFiles inlineText)
    (.ofStandard .gnu89) () ["a"] "b" (few_words_twoFiles _)
  have last : Addition.mk "b" answer readings = ⟨"b", .ok (.surveyed second), late⟩ :=
    List.singleton_inj.mp (List.append_inj' (added.symm.trans whole : _ = [_] ++ [_]) rfl).2
  obtain ⟨-, rfl, rfl⟩ := Addition.mk.inj last
  obtain ⟨bytes, moment, later, read, -, count, keywords, extensions⟩ := reports second rfl
  have granted : inlineText "b" = .ok bytes := congrArg Prod.fst read
  have words := words_inlineText granted
  rw [show (Dialect.ofStandard .gnu89).dollarWords = true from rfl, words] at count keywords extensions
  refine ⟨first, second, ?_, ?_⟩
  · rw [Tour.run_unobserved, whole]
    rfl
  · calc
      second.tally = ⟨second.tally.words, second.tally.keywords, second.tally.extensions⟩ := rfl
      _ = ⟨2, 1, 1⟩ := by
        rw [count, keywords, extensions]
        decide +kernel

end Canon

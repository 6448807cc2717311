import Canon.Proofs.Survey.Listing
import Canon.Proofs.Token.Rendering

/-!
The dump of a survey shows its list of identifiers, one line for each. No spelling has a blank or a newline in it, so
that the list can be read off the text again, however long the spellings are.
-/
namespace Canon
open Canon.Text

theorem append_cons_inj_of_not_mem {α : Type} {mark : α} {left right first second : List α} (clear : mark ∉ left)
    (clearToo : mark ∉ right) (same : left ++ mark :: first = right ++ mark :: second) :
    left = right ∧ first = second := by
  induction left generalizing right with
  | nil =>
    cases right with
    | nil => exact ⟨rfl, List.tail_eq_of_cons_eq same⟩
    | cons head right =>
      cases same
      exact absurd List.mem_cons_self clearToo
  | cons head left ih =>
    cases right with
    | nil =>
      cases same
      exact absurd List.mem_cons_self clear
    | cons other right =>
      rw [List.cons_append, List.cons_append, List.cons.injEq] at same
      obtain ⟨rfl, same⟩ := same
      obtain ⟨rfl, rest⟩ := ih (List.not_mem_of_not_mem_cons clear) (List.not_mem_of_not_mem_cons clearToo) same
      exact ⟨rfl, rest⟩

def remark (extension : Bool) : List Char := if extension then " [extension]".toList else []

/-- A line without its newline: a spelling, filled up with blanks to twenty-four characters, one blank more, the token
and a remark on extensions. -/
def shown (entry : String × Token × Bool) : List Char :=
  entry.1.toList ++ List.replicate (24 - entry.1.length) ' ' ++ ' ' :: (entry.2.1.render.toList ++ remark entry.2.2)

def layout (entries : List (String × Token × Bool)) : List Char := entries.flatMap fun entry => shown entry ++ ['\n']

theorem toList_dumpLine (spelling : String) (token : Token) (extension : Bool) :
    (Survey.dumpLine spelling token extension).toList = shown (spelling, token, extension) ++ ['\n'] := by
  cases extension with
  | false =>
    simp only [Survey.dumpLine, padRight, shown, remark, String.toList_append, String.toList_ofList]
    simp [Survey.spellingWidth]
  | true =>
    simp only [Survey.dumpLine, padRight, shown, remark, String.toList_append, String.toList_ofList]
    simp [Survey.spellingWidth]

theorem toList_dump (survey : Survey) : survey.dump.toList = layout (Survey.dumpEntries survey.identifiers) := by
  rw [Survey.dump, String.toList_join, List.flatMap_map, layout]
  refine List.flatMap_congr fun entry _ => ?_
  exact toList_dumpLine entry.1 entry.2.1 entry.2.2

theorem render_remark_inj {left right : Token} {first second : Bool}
    (same : left.render.toList ++ remark first = right.render.toList ++ remark second) :
    left = right ∧ first = second := by
  have apart (plain remarked : Token) : plain.render.toList ≠ remarked.render.toList ++ " [extension]".toList := by
    intro equal
    refine (Token.render_clear plain).2 ?_
    rw [equal, List.getLast?_append]
    rfl
  cases first with
  | false =>
    cases second with
    | false => exact ⟨Token.render_injective (String.toList_inj.mp (List.append_cancel_right same)), rfl⟩
    | true => exact absurd ((List.append_nil _).symm.trans same) (apart left right)
  | true =>
    cases second with
    | false => exact absurd ((List.append_nil _).symm.trans same.symm) (apart right left)
    | true => exact ⟨Token.render_injective (String.toList_inj.mp (List.append_cancel_right same)), rfl⟩

section Shape
variable {entry other : String × Token × Bool}

theorem newline_not_mem_shown (wordlike : Wordlike true entry.1.toList) : '\n' ∉ shown entry := by
  have spelling : '\n' ∉ entry.1.toList := fun member => absurd (wordlike '\n' member) (by decide)
  have fill (count : Nat) : '\n' ∉ List.replicate count ' ' := fun member =>
    absurd (List.eq_of_mem_replicate member) (by decide)
  have token := (Token.render_clear entry.2.1).1
  have extension : '\n' ∉ remark entry.2.2 := by cases entry.2.2 <;> decide
  simp only [shown, List.mem_append, List.mem_cons, not_or]
  exact ⟨⟨spelling, fill _⟩, by decide, token, extension⟩

theorem shown_inj (wordlike : Wordlike true entry.1.toList) (likewise : Wordlike true other.1.toList)
    (same : shown entry = shown other) : entry = other := by
  have blank {spelling : String} (wordlike : Wordlike true spelling.toList) : ' ' ∉ spelling.toList := fun member =>
    absurd (wordlike ' ' member) (by decide)
  have turned (count : Nat) (rest : List Char) :
      List.replicate count ' ' ++ ' ' :: rest = ' ' :: (List.replicate count ' ' ++ rest) := by
    rw [← List.singleton_append, ← List.append_assoc, ← List.replicate_succ', List.replicate_succ, List.cons_append]
  rw [shown, shown, List.append_assoc, List.append_assoc, turned, turned] at same
  obtain ⟨spelling, rest⟩ := append_cons_inj_of_not_mem (blank wordlike) (blank likewise) same
  rw [String.toList_inj] at spelling
  rw [spelling] at rest
  obtain ⟨token, extension⟩ := render_remark_inj (List.append_cancel_left rest)
  exact Prod.ext spelling (Prod.ext token extension)

end Shape

theorem layout_inj {entries others : List (String × Token × Bool)}
    (wordlike : ∀ entry ∈ entries, Wordlike true entry.1.toList)
    (likewise : ∀ entry ∈ others, Wordlike true entry.1.toList) (same : layout entries = layout others) :
    entries = others := by
  induction entries generalizing others with
  | nil =>
    cases others with
    | nil => rfl
    | cons other others => simp [layout] at same
  | cons entry entries ih =>
    cases others with
    | nil => simp [layout] at same
    | cons other others =>
      rw [List.forall_mem_cons] at wordlike likewise
      rw [layout, layout, List.flatMap_cons, List.flatMap_cons, List.append_assoc, List.append_assoc] at same
      obtain ⟨line, rest⟩ := append_cons_inj_of_not_mem (newline_not_mem_shown wordlike.1)
        (newline_not_mem_shown likewise.1) same
      rw [shown_inj wordlike.1 likewise.1 line, ih wordlike.2 likewise.2 rest]

theorem KeywordSpelling.wordlike {entry : KeywordSpelling} (listed : entry ∈ all) :
    Wordlike true entry.spelling.toList := by
  have wordlike : ∀ entry ∈ all, Wordlike true entry.spelling.toList := by decide +kernel
  exact wordlike entry listed

theorem Dialect.wordlike_listing {dialect : Dialect} {words : List String}
    (wordlike : ∀ word ∈ words, Wordlike true word.toList) :
    ∀ entry ∈ dialect.listing words, Wordlike true entry.1.toList := by
  intro entry member
  rcases List.mem_append.mp member with keyword | other
  · obtain ⟨spelling, active, rfl⟩ := List.mem_map.mp keyword
    exact KeywordSpelling.wordlike (List.mem_of_mem_filter active)
  · obtain ⟨word, among, rfl⟩ := List.mem_map.mp other
    rw [List.mem_eraseDups] at among
    exact wordlike word (List.mem_of_mem_filter among)

theorem Tour.wordlike_words {ω : Type} (tour : Tour ω) (dialect : Dialect) :
    ∀ word ∈ tour.words dialect, Wordlike true word.toList := by
  intro word member
  obtain ⟨addition, -, added⟩ := List.mem_flatMap.mp member
  unfold Addition.words at added
  split at added
  · obtain ⟨reading, -, read⟩ := List.mem_flatMap.mp added
    unfold FileReading.words at read
    split at read
    · exact (wordlike_of_mem_words read).widen
    · cases read
  · cases added

/-- Whatever files have been added: the dump has one line for each keyword of the dialect, in the order in which
keywords are written down, and then one for every other word of the files surveyed, in the order of first appearance.
It shows what the dialect makes of them, and is the dump of no other list of words. -/
theorem dumps_list_each_identifier_once {ω : Type} (host : Host (StateM ω)) (dialect : Dialect) (world : ω)
    (paths : List String)
    (few : ((Tour.run host dialect world paths).words dialect).eraseDups.length < 2147483648) :
    let tour := Tour.run host dialect world paths
    let listed := dialect.listing (tour.words dialect)
    (Survey.addFiles host paths (.start dialect)).run world =
      ((tour.additions.map Addition.answer, tour.survey), tour.world) ∧
    (∀ addition ∈ tour.additions, ∀ report, addition.answer = .ok (.surveyed report) → ∃ bytes moment later,
      (host.read addition.path).run moment = (.ok bytes, later) ∧ addition.readings = [⟨addition.path, .ok bytes⟩] ∧
      addition.words dialect = Text.words dialect.dollarWords (Text.decodeLossy bytes)) ∧
    tour.survey.dump.toList = listed.flatMap (shown · ++ ['\n']) ∧
    (∀ entry ∈ listed, Wordlike true entry.1.toList ∧ '\n' ∉ shown entry) ∧
    (listed.map Prod.fst).Nodup ∧
    ∀ entries others : List (String × Token × Bool), (∀ entry ∈ entries, Wordlike true entry.1.toList) →
      (∀ entry ∈ others, Wordlike true entry.1.toList) →
      entries.flatMap (shown · ++ ['\n']) = others.flatMap (shown · ++ ['\n']) → entries = others := by
  intro tour listed
  obtain ⟨reflects, reports⟩ := Tour.Reflects.run host dialect world paths few
  have wordlike : ∀ entry ∈ listed, Wordlike true entry.1.toList :=
    Dialect.wordlike_listing (tour.wordlike_words dialect)
  refine ⟨Tour.run_unobserved host dialect world paths, ?_, ?_, ?_, dialect.nodup_listing _, ?_⟩
  · intro addition member report answered
    obtain ⟨bytes, moment, later, read, once, -⟩ := reports addition member report answered
    refine ⟨bytes, moment, later, read, once, ?_⟩
    rw [Addition.words, answered, once]
    exact List.append_nil _
  · rw [toList_dump, reflects.identifiers.dumpEntries_eq]
    rfl
  · exact fun entry member => ⟨wordlike entry member, newline_not_mem_shown (wordlike entry member)⟩
  · exact fun entries others first second same => layout_inj first second same

theorem inline_is_dumped_as_keyword_only :
    ((Survey.addFiles (.fixed twoFiles inlineText) ["a", "b"] (.start (.ofStandard .gnu89))).run ()).1.2.dump.toList =
      layout ((Dialect.ofStandard .gnu89).listing []) ++ "x                        an identifier\n".toList := by
  obtain ⟨plain, texts, dump, -⟩ := dumps_list_each_identifier_once (.fixed twoFiles inlineText) (.ofStandard .gnu89) ()
    ["a", "b"] (few_words_twoFiles _)
  obtain ⟨first, second, early, late, whole⟩ := surveyed_twoFiles
  have words : (Tour.run (.fixed twoFiles inlineText) (.ofStandard .gnu89) () ["a", "b"]).words (.ofStandard .gnu89) =
      ["inline", "x", "inline", "x"] := by
    have each (addition : Addition) (report : Report)
        (member : addition ∈ (Tour.run (.fixed twoFiles inlineText) (.ofStandard .gnu89) () ["a", "b"]).additions)
        (answered : addition.answer = .ok (.surveyed report)) :
        addition.words (.ofStandard .gnu89) = ["inline", "x"] := by
      obtain ⟨bytes, moment, later, read, -, entered⟩ := texts addition member report answered
      have granted : inlineText addition.path = .ok bytes := congrArg Prod.fst read
      exact entered.trans (words_inlineText granted)
    rw [Tour.words, whole, List.flatMap_cons, List.flatMap_cons, List.flatMap_nil,
      each _ first (by rw [whole]; simp) rfl, each _ second (by rw [whole]; simp) rfl]
    rfl
  rw [plain]
  dsimp only
  rw [dump, words]
  have listed : (Dialect.ofStandard .gnu89).listing ["inline", "x", "inline", "x"] =
      (Dialect.ofStandard .gnu89).listing [] ++ [("x", .identifier, false)] := by
    decide +kernel
  rw [listed, List.flatMap_append]
  rfl

end Canon

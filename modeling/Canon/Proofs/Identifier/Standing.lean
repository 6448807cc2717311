import Mathlib.Data.List.Induction
import Canon.Proofs.Identifier.Solitary

/-!
Keywords follow the dialects that are registered. In a run without sources in which nothing else changes tokens and
extension marks, a spelling is what the last dialect that has it as a keyword says, and a plain identifier if no dialect
registered has it. Registering a dialect changes nothing but the tokens and the extension marks of its keywords.
-/
namespace Canon.Identifier
variable {S σ : Type}

def Deed.dialects : Deed → List Dialect
  | .registered dialect => [dialect]
  | _ => []

def registrations (history : List Moment) : List Dialect := history.flatMap (·.deed.dialects)

theorem registrations_concat (history : List Moment) (moment : Moment) :
    registrations (history ++ [moment]) = registrations history ++ moment.deed.dialects := by
  rw [registrations, List.flatMap_append, List.flatMap_singleton]
  rfl

/-- What a table with the keywords of some dialects, registered one after another, makes of its spellings. -/
structure Table.Classified (dialects : List Dialect) (table : Table) : Prop where
  /-- A keyword of a dialect registered is bound and read as that keyword; the last dialect that has it says whether it
  is one only as an extension. -/
  keyword : ∀ entry ∈ KeywordSpelling.all, ∀ dialect, (dialects.filter (·.Activates entry)).getLast? = some dialect →
    ∃ id record, table.find? entry.spelling = some id ∧ table.info id = .ok record ∧
      record.token = .keyword entry.keyword ∧ (record.has .extension ↔ dialect.OnlyExtends entry)
  /-- Other spellings that are bound are plain identifiers. -/
  plain : ∀ spelling, (∀ dialect ∈ dialects, ¬dialect.HasKeyword spelling) → ∀ id, table.find? spelling = some id →
    ∃ record, table.info id = .ok record ∧ record.token = .identifier ∧ record.has .extension = false

/-- What registering a dialect leaves of a table: the other fields of its records and its bindings, beside which only
the keywords of the dialect are bound. -/
structure Table.Registers (dialect : Dialect) (before after : Table) : Prop where
  records : before.Retains after
  bindings : ∀ spelling id, before.find? spelling = some id → after.find? spelling = some id
  bound : ∀ spelling, (after.find? spelling).isSome ↔ (before.find? spelling).isSome ∨ dialect.HasKeyword spelling

def Table.Unmoved (before after : Table) : Prop :=
  ∀ id old, before.info id = .ok old → ∃ new, after.info id = .ok new ∧ new.token = old.token ∧
    new.has .extension = old.has .extension

/-- Tokens and extension marks are changed only by registering dialects. -/
def Spared (history : List Moment) : Prop :=
  ∀ earlier moment, earlier ++ [moment] <+: history → (∀ dialect, moment.deed ≠ .registered dialect) →
    (tableAfter earlier).Unmoved moment.table

def lastKeyword? (dialects : List Dialect) (word : String) : Option ActiveKeyword :=
  dialects.reverse.findSome? (·.keyword? word)

theorem lastKeyword?_concat (dialects : List Dialect) (dialect : Dialect) (word : String) :
    lastKeyword? (dialects ++ [dialect]) word = (dialect.keyword? word).or (lastKeyword? dialects word) := by
  unfold lastKeyword?
  rw [List.reverse_concat, List.findSome?_cons]
  cases dialect.keyword? word with
  | some active => rfl
  | none => rfl

theorem lastKeyword?_of_getLast? {dialects : List Dialect} {dialect : Dialect} {entry : KeywordSpelling}
    (listed : entry ∈ KeywordSpelling.all) (last : (dialects.filter (·.Activates entry)).getLast? = some dialect) :
    lastKeyword? dialects entry.spelling = some ⟨entry.spelling, entry.keyword, dialect.OnlyExtends entry⟩ := by
  induction dialects using List.reverseRecOn with
  | nil => cases last
  | append_singleton earlier latest ih =>
    rw [lastKeyword?_concat]
    by_cases active : latest.Activates entry
    · rw [List.filter_append, List.filter_singleton, decide_eq_true active] at last
      simp only [cond_true, List.getLast?_concat, Option.some.injEq] at last
      rw [← last, Dialect.keyword?_of_activates listed active]
      rfl
    · rw [List.filter_append, List.filter_singleton, decide_eq_false active] at last
      simp only [cond_false, List.append_nil] at last
      rw [Dialect.keyword?_of_not_activates listed active, ih last]
      rfl

theorem lastKeyword?_eq_none {dialects : List Dialect} {word : String}
    (absent : ∀ dialect ∈ dialects, ¬dialect.HasKeyword word) : lastKeyword? dialects word = none := by
  rw [lastKeyword?, List.findSome?_eq_none_iff]
  intro dialect member
  rw [← Option.not_isSome_iff_eq_none, Dialect.isSome_keyword?]
  exact absent dialect (List.mem_reverse.mp member)

theorem Table.Canonical.update {table : Table} (canonical : table.Canonical) {id : IdentifierId} {setter : Setter}
    {record changed : Record} (read : table.info id = .ok record)
    (applied : setter.apply .enabled record = .ok changed) : (table.modify id fun _ => changed).Canonical := by
  refine canonical.modify fun old entered => ?_
  rw [Registry.get_eq_ok_iff.mp read, Option.some.injEq] at entered
  exact entered ▸ Setter.apply_entry applied

/-- A canonical table that makes of its spellings what the dialects registered say. -/
structure Table.Obeys (dialects : List Dialect) (table : Table) : Prop where
  canonical : table.Canonical
  keyword : ∀ word active, lastKeyword? dialects word = some active →
    table.standing? word = some (.keyword active.keyword, active.extension)
  plain : ∀ word standing, lastKeyword? dialects word = none → table.standing? word = some standing →
    standing = (.identifier, false)

namespace Table.Obeys
variable {dialects : List Dialect} {table after : Table}

theorem empty : Table.empty.Obeys [] where
  canonical := canonical_empty
  keyword word active last := by cases last
  plain word standing _ given := by
    rw [standing?, Table.find?] at given
    simp [Table.empty, Lexicon.empty, Lexicon.withCapacity, Lexicon.find?] at given

theorem get {spelling : String} (obeys : table.Obeys dialects)
    (room : (table.get spelling).2.lexicon.size < 4294967295) : (table.get spelling).2.Obeys dialects where
  canonical := (obeys.canonical.get room).1
  keyword word active last := by
    have standing := obeys.keyword word active last
    rw [obeys.canonical.standing?_get room]
    split
    · next same =>
      rw [← same, standing]
      rfl
    · exact standing
  plain word standing last given := by
    rw [obeys.canonical.standing?_get room] at given
    split at given
    · next same =>
      subst same
      cases old : table.standing? word with
      | none =>
        rw [old] at given
        exact (Option.some.inj given).symm
      | some former =>
        rw [old] at given
        rw [← Option.some.inj given]
        exact obeys.plain word former last old
    · exact obeys.plain word standing last given

theorem register (obeys : table.Obeys dialects) {dialect : Dialect}
    (room : (table.addKeywords dialect).lexicon.size < 4294967295) :
    (table.addKeywords dialect).Obeys (dialects ++ [dialect]) := by
  obtain ⟨canonical, -, -, standing⟩ := obeys.canonical.addKeywords room
  refine ⟨canonical, fun word active last => ?_, fun word former last given => ?_⟩
  · rw [lastKeyword?_concat] at last
    rw [standing]
    cases here : dialect.keyword? word with
    | some found =>
      rw [here] at last
      cases last
      rfl
    | none =>
      rw [here] at last
      exact obeys.keyword word active last
  · rw [lastKeyword?_concat, Option.or_eq_none_iff] at last
    rw [standing, last.1] at given
    exact obeys.plain word former last.2 given

theorem update {id : IdentifierId} {setter : Setter} {record changed : Record} (obeys : table.Obeys dialects)
    (read : table.info id = .ok record) (applied : setter.apply .enabled record = .ok changed)
    (unmoved : table.Unmoved (table.modify id fun _ => changed)) :
    (table.modify id fun _ => changed).Obeys dialects := by
  have same : ∀ word, (table.modify id fun _ => changed).standing? word = table.standing? word := by
    intro word
    have looked : (table.modify id fun _ => changed).find? word = table.find? word := rfl
    cases found : table.find? word with
    | none => rw [standing?, standing?, looked, found, Option.bind_none, Option.bind_none]
    | some number =>
      obtain ⟨record, entered, standing⟩ := obeys.canonical.exists_record found
      obtain ⟨new, read, token, mark⟩ := unmoved number record (Registry.get_eq_ok_iff.mpr entered)
      rw [standing, standing?, looked, found, Option.bind_some, Registry.get_eq_ok_iff.mp read, Option.map_some,
        Record.standing, Record.standing, token, mark]
  refine ⟨obeys.canonical.update read applied, fun word active last => ?_, fun word former last given => ?_⟩
  · rw [same]
    exact obeys.keyword word active last
  · rw [same] at given
    exact obeys.plain word former last given

theorem exists_info (obeys : table.Obeys dialects) {spelling : String} {id : IdentifierId} {standing : Token × Bool}
    (found : table.find? spelling = some id) (given : table.standing? spelling = some standing) :
    ∃ record, table.info id = .ok record ∧ record.token = standing.1 ∧ record.has .extension = standing.2 := by
  obtain ⟨record, entered, known⟩ := obeys.canonical.exists_record found
  rw [known, Option.some.injEq] at given
  exact ⟨record, Registry.get_eq_ok_iff.mpr entered, congrArg Prod.fst given, congrArg Prod.snd given⟩

theorem classified (obeys : table.Obeys dialects) : table.Classified dialects where
  keyword entry listed dialect last := by
    have standing := obeys.keyword entry.spelling _ (lastKeyword?_of_getLast? listed last)
    have bound := obeys.canonical.isSome_standing?.mp (Option.isSome_of_mem standing)
    obtain ⟨id, found⟩ := Option.isSome_iff_exists.mp bound
    obtain ⟨record, read, token, mark⟩ := obeys.exists_info found standing
    refine ⟨id, record, found, read, token, ?_⟩
    rw [mark]
    exact decide_eq_true_iff
  plain spelling absent id found := by
    obtain ⟨record, entered, standing⟩ := obeys.canonical.exists_record found
    have same := obeys.plain spelling _ (lastKeyword?_eq_none absent) standing
    rw [same] at standing
    obtain ⟨record, read, token, mark⟩ := obeys.exists_info found standing
    exact ⟨record, read, token, mark⟩

end Table.Obeys

theorem Table.Canonical.registers {table : Table} (canonical : table.Canonical) {dialect : Dialect}
    (room : (table.addKeywords dialect).lexicon.size < 4294967295) :
    table.Registers dialect (table.addKeywords dialect) := by
  obtain ⟨after, extended, retained, standing⟩ := canonical.addKeywords room
  refine ⟨retained, fun spelling id found => extended.find? found, fun spelling => ?_⟩
  rw [← after.isSome_standing?, ← canonical.isSome_standing?, ← Dialect.isSome_keyword?, standing, Option.isSome_or]
  simp [Or.comm]

theorem Deed.Turns.size_le {deed : Deed} {before after : Table} (turns : deed.Turns before after) :
    before.lexicon.size ≤ after.lexicon.size := by
  cases turns with
  | got spelling => exact before.size_le_get spelling
  | created spelling => exact before.size_le_get spelling
  | registered dialect => exact Table.size_le_foldl_register dialect.keywords before
  | _ => exact Nat.le_refl _

theorem Spared.of_prefix {history earlier : List Moment} (spared : Spared history) (start : earlier <+: history) :
    Spared earlier :=
  fun first moment begins => spared first moment (begins.trans start)

/-- A setter of a field other than the token and the extension mark. -/
structure Setter.Spares (setter : Setter) : Prop where
  token : ∀ token, setter ≠ .token token
  extension : ∀ value, setter ≠ .mark .extension value

theorem Setter.Spares.standing {setter : Setter} (spares : setter.Spares) {record changed : Record}
    (applied : setter.apply .enabled record = .ok changed) : changed.standing = record.standing := by
  cases setter with
  | token token => exact absurd rfl (spares.token token)
  | frontEnd data => exact Except.ok.inj applied ▸ rfl
  | builtin id =>
    rw [Record.standing, record.token_setBuiltin applied, record.has_setBuiltin applied]
    rfl
  | mark mark value =>
    have other : mark ≠ .extension := fun same => spares.extension value (same ▸ rfl)
    rw [← Except.ok.inj applied, Record.standing, Record.token_setMark, record.has_setMark_other other]
    rfl

theorem Table.unmoved_modify {table : Table} {id : IdentifierId} {record changed : Record}
    (read : table.info id = .ok record) (same : changed.standing = record.standing) :
    table.Unmoved (table.modify id fun _ => changed) := by
  intro number old found
  have entered := Registry.get_eq_ok_iff.mp found
  have modified := Registry.get?_modify table.records id number fun _ => changed
  by_cases here : Indexed.index id = Indexed.index number
  · rw [if_pos here, entered] at modified
    rw [Overlay.index_injective here, found] at read
    cases read
    exact ⟨changed, Registry.get_eq_ok_iff.mpr modified, congrArg Prod.fst same, congrArg Prod.snd same⟩
  · rw [if_neg here, entered] at modified
    exact ⟨old, Registry.get_eq_ok_iff.mpr modified, rfl, rfl⟩

theorem Table.Canonical.unmoved_get {table : Table} (canonical : table.Canonical) {spelling : String}
    (room : (table.get spelling).2.lexicon.size < 4294967295) : table.Unmoved (table.get spelling).2 :=
  fun _ old found =>
    ⟨old, Registry.get_eq_ok_iff.mpr (canonical.get?_get room (Registry.get_eq_ok_iff.mp found)), rfl, rfl⟩

theorem Deed.Turns.unmoved {deed : Deed} {before after : Table} (turns : deed.Turns before after)
    (canonical : before.Canonical) (room : after.lexicon.size < 4294967295)
    (allowed : ∀ id setter, deed = .updated id setter → setter.Spares) :
    after.Canonical ∧ ((∀ dialect, deed ≠ .registered dialect) → before.Unmoved after) := by
  have still : before.Unmoved before := fun _ old found => ⟨old, found, rfl, rfl⟩
  cases turns with
  | answered answer => exact ⟨canonical, fun _ => still⟩
  | looked => exact ⟨canonical, fun _ => still⟩
  | rewired => exact ⟨canonical, fun _ => still⟩
  | got spelling => exact ⟨(canonical.get room).1, fun _ => canonical.unmoved_get room⟩
  | created spelling => exact ⟨(canonical.get room).1, fun _ => canonical.unmoved_get room⟩
  | registered dialect => exact ⟨(canonical.addKeywords room).1, fun other => absurd rfl (other dialect)⟩
  | updated read applied =>
    exact ⟨canonical.update read applied, fun _ => Table.unmoved_modify read ((allowed _ _ rfl).standing applied)⟩

namespace Trail
variable {history : List Moment}

theorem size_le (trail : Trail history) {earlier : List Moment} (start : earlier <+: history) :
    (tableAfter earlier).lexicon.size ≤ (tableAfter history).lexicon.size := by
  induction trail with
  | nil => exact Nat.le_of_eq (by rw [List.prefix_nil.mp start])
  | concat trail turns ih =>
    rcases List.prefix_concat_iff.mp start with whole | before
    · exact Nat.le_of_eq (by rw [whole])
    · rw [tableAfter_concat]
      exact Nat.le_trans (ih before) turns.size_le

theorem obeys (trail : Trail history) (room : (tableAfter history).lexicon.size < 4294967295)
    (spared : Spared history) : (tableAfter history).Obeys (registrations history) := by
  induction trail with
  | nil => exact .empty
  | @concat earlier deed table trail turns ih =>
    rw [tableAfter_concat] at room ⊢
    dsimp only at room ⊢
    have obeys := ih (Nat.lt_of_le_of_lt turns.size_le room) (spared.of_prefix (List.prefix_append _ _))
    have unmoved := spared earlier ⟨none, deed, table⟩ (List.prefix_refl _)
    rw [registrations_concat]
    cases turns with
    | registered dialect => exact obeys.register room
    | answered answer => exact (List.append_nil _).symm ▸ obeys
    | looked => exact (List.append_nil _).symm ▸ obeys
    | rewired => exact (List.append_nil _).symm ▸ obeys
    | got spelling => exact (List.append_nil _).symm ▸ obeys.get room
    | created spelling => exact (List.append_nil _).symm ▸ obeys.get room
    | updated read applied =>
      exact (List.append_nil _).symm ▸ obeys.update read applied (unmoved fun _ same => by cases same)

theorem spared (trail : Trail history) (room : (tableAfter history).lexicon.size < 4294967295)
    (setters : ∀ moment ∈ history, ∀ id setter, moment.deed = .updated id setter → setter.Spares) :
    (tableAfter history).Canonical ∧ Spared history := by
  induction trail with
  | nil => exact ⟨Table.canonical_empty, fun earlier moment start => by simp at start⟩
  | @concat history deed table trail turns ih =>
    rw [tableAfter_concat] at room ⊢
    dsimp only at room ⊢
    obtain ⟨canonical, spared⟩ := ih (Nat.lt_of_le_of_lt turns.size_le room)
      fun moment member => setters moment (List.mem_append_left _ member)
    have allowed := setters ⟨none, deed, table⟩ (List.mem_append_right _ (List.mem_singleton.mpr rfl))
    obtain ⟨after, unmoved⟩ := turns.unmoved canonical room allowed
    refine ⟨after, fun earlier moment start other => ?_⟩
    rcases List.prefix_concat_iff.mp start with whole | before
    · obtain ⟨rfl, same⟩ := List.append_inj' whole rfl
      rw [List.cons.injEq] at same
      rw [same.1] at other ⊢
      exact unmoved other
    · exact spared earlier moment before other

theorem last_turns {earlier : List Moment} {moment : Moment} (trail : Trail history)
    (split : history = earlier ++ [moment]) : moment.deed.Turns (tableAfter earlier) moment.table := by
  cases trail with
  | nil => simp at split
  | concat trail turns =>
    obtain ⟨rfl, same⟩ := List.append_inj' split rfl
    rw [List.cons.injEq] at same
    exact same.1 ▸ turns

end Trail

theorem Deed.Turns.registers {deed : Deed} {dialect : Dialect} {before after : Table} (turns : deed.Turns before after)
    (registered : deed = .registered dialect) (canonical : before.Canonical)
    (room : after.lexicon.size < 4294967295) : before.Registers dialect after := by
  subst registered
  cases turns
  exact canonical.registers room

/-- Whatever a program does with a table that starts empty and has no source, as long as nothing fails, symbols are left
and tokens and extension marks are changed only by registering dialects: at every moment the table makes of its
spellings what the dialects registered until then say, and registering a dialect leaves everything else as it is. -/
theorem keywords_follow_the_dialects (behaviour : S → String → Script S σ) (depth : Nat) (program : Script S σ)
    (memory : σ) {answer : Option IdentifierId} {final : Session S σ}
    (ran : (Work.perform .enabled (Work.get .enabled behaviour depth) program).on (.start memory) = (.ok answer, final))
    (room : final.table.lexicon.size < 4294967295) (alone : final.nextSerial = 0)
    (spared : Spared (historyOf behaviour depth program memory)) :
    (∀ earlier, earlier <+: historyOf behaviour depth program memory →
      (tableAfter earlier).Classified (registrations earlier)) ∧
    (∀ earlier moment dialect, earlier ++ [moment] <+: historyOf behaviour depth program memory →
      moment.deed = .registered dialect → (tableAfter earlier).Registers dialect moment.table) ∧
    tableAfter (historyOf behaviour depth program memory) = final.table := by
  rw [recordedRun_forget, Prod.mk.injEq] at ran
  obtain ⟨succeeds, same⟩ := ran
  have outcome : recordedRun behaviour depth program memory =
      (.ok answer, (recordedRun behaviour depth program memory).2) := Prod.ext succeeds rfl
  have told := Work.perform_told (recordedSources behaviour) depth program outcome
    (Session.ordered_start (memory, [])) (by rw [← alone, ← same]; rfl) (.start memory)
  have last : tableAfter (historyOf behaviour depth program memory) = final.table :=
    told.table.trans (congrArg Session.table same)
  have trail : Trail (historyOf behaviour depth program memory) := told.trail
  rw [← last] at room
  have obeys : ∀ earlier, earlier <+: historyOf behaviour depth program memory →
      (tableAfter earlier).Obeys (registrations earlier) := fun earlier start =>
    (trail.of_prefix start).obeys (Nat.lt_of_le_of_lt (trail.size_le start) room) (spared.of_prefix start)
  refine ⟨fun earlier start => (obeys earlier start).classified, ?_, last⟩
  intro earlier moment dialect start registered
  have grown := trail.size_le start
  rw [tableAfter_concat] at grown
  have before := obeys earlier ((List.prefix_append earlier [moment]).trans start)
  exact ((trail.of_prefix start).last_turns rfl).registers registered before.canonical (Nat.lt_of_le_of_lt grown room)

def silent : Unit → String → Script Unit Unit := fun _ _ => .answer none

/-- Poisons a keyword between the registrations of two dialects. -/
def poisoning : Script Unit Unit :=
  .addKeywords (.ofStandard .gnu89) (.get "inline" fun id => .update id (.mark .poisoned true)
    (.addKeywords (.ofStandard .c99) (.answer (some id))))

theorem recordedRun_poisoning {first second third : Table} {id : IdentifierId} {record : Record}
    (started : (Work.registerKeywords (Work.get .enabled (recordedSources silent) 0) (.ofStandard .gnu89)).on
      ⟨.empty, [], ((), []), 0, #[]⟩ = (.ok (), ⟨first, [], ((), []), 0, #[]⟩))
    (found : first.find? "inline" = some id) (read : first.info id = .ok record)
    (poisoned : first.modify id (fun _ => record.setMark .poisoned true) = second)
    (ended : ∀ memory, (Work.registerKeywords (Work.get .enabled (recordedSources silent) 0) (.ofStandard .c99)).on
      ⟨second, [], memory, 0, #[]⟩ = (.ok (), ⟨third, [], memory, 0, #[]⟩)) :
    recordedRun silent 0 poisoning () = (.ok (some id), ⟨third, [], ((),
      [⟨none, .registered (.ofStandard .gnu89), first⟩, ⟨none, .got "inline" id, first⟩,
      ⟨none, .updated id (.mark .poisoned true), second⟩,
      ⟨none, .registered (.ofStandard .c99), third⟩, ⟨none, .answered (some id), third⟩]), 0, #[]⟩) := by
  have got := Table.get_of_find? found
  simp only [recordedRun, poisoning, Session.start, Script.recorded, Work.perform, Work.perform_noting, Work.on_bind,
    started, Session.noted, Work.get_on_alone, got, Work.update, Work.look_on, read, Setter.apply, Work.onTable_on,
    poisoned, ended, Work.pure_on]
  rfl

theorem poisoned_inline_follows_the_dialects : ∃ early late, historyOf silent 0 poisoning () = early ++ late ∧
    registrations early = [.ofStandard .gnu89] ∧
    registrations (early ++ late) = [.ofStandard .gnu89, .ofStandard .c99] ∧
    (∃ id record, (tableAfter early).find? "inline" = some id ∧ (tableAfter early).info id = .ok record ∧
      record.token = .keyword .inline ∧ record.has .extension) ∧
    ∃ id record, (tableAfter (early ++ late)).find? "inline" = some id ∧
      (tableAfter (early ++ late)).info id = .ok record ∧ record.token = .keyword .inline ∧ ¬record.has .extension := by
  have listed := KeywordSpelling.mem_all_of_keyword .inline
  have few := KeywordSpelling.length_all
  have small := Table.size_addKeywords_le (.ofStandard .gnu89) .empty
  have empty : Table.empty.lexicon.size = 0 := rfl
  have early : (Table.empty.addKeywords (.ofStandard .gnu89)).lexicon.size < 4294967295 := by omega
  have started := Work.registerKeywords_on .enabled (recordedSources silent) 0 (.ofStandard .gnu89)
    (.start ((), [])) rfl Table.canonical_empty early
  have begun := Table.Obeys.empty.register early
  dsimp only [Session.start] at started
  generalize Table.empty.addKeywords (.ofStandard .gnu89) = first at started begun small
  obtain ⟨id, record, found, read, -⟩ := begun.classified.keyword _ listed (.ofStandard .gnu89) (by decide)
  have canonical : (first.modify id fun _ => record.setMark .poisoned true).Canonical :=
    begun.canonical.update read (show Setter.apply .enabled (.mark .poisoned true) record = _ from rfl)
  generalize poisoned : first.modify id (fun _ => record.setMark .poisoned true) = second at canonical
  have size : second.lexicon.size = first.lexicon.size := by rw [← poisoned]; rfl
  have grown := Table.size_addKeywords_le (.ofStandard .c99) second
  have late : (second.addKeywords (.ofStandard .c99)).lexicon.size < 4294967295 := by omega
  have ended := fun memory => Work.registerKeywords_on .enabled (recordedSources silent) 0 (.ofStandard .c99)
    ⟨second, [], memory, 0, #[]⟩ rfl canonical late
  dsimp only at ended
  generalize second.addKeywords (.ofStandard .c99) = third at ended late
  have run := recordedRun_poisoning started found read poisoned ended
  have ran := recordedRun_forget silent 0 poisoning ()
  have history := congrArg (fun result => result.2.history) run
  have told := Work.perform_told (recordedSources silent) 0 poisoning run (Session.ordered_start ((), [])) rfl
    (.start ())
  rw [run] at ran
  have spared : Spared (historyOf silent 0 poisoning ()) := by
    rw [historyOf, run]
    refine (told.trail.spared late fun moment member id setter updated => ?_).2
    simp only [Session.history, List.mem_cons, List.not_mem_nil, or_false] at member
    rcases member with rfl | rfl | rfl | rfl | rfl
    · cases updated
    · cases updated
    · cases updated
      constructor
      · intro token same
        cases same
      · intro value same
        cases same
    · cases updated
    · cases updated
  have first_has : ([Dialect.ofStandard .gnu89].filter
      (·.Activates ⟨Keyword.inline.spelling, .inline, Keyword.inline.families⟩)).getLast? =
        some (.ofStandard .gnu89) := by decide
  have last_has : ([Dialect.ofStandard .gnu89, Dialect.ofStandard .c99].filter
      (·.Activates ⟨Keyword.inline.spelling, .inline, Keyword.inline.families⟩)).getLast? =
        some (.ofStandard .c99) := by decide
  obtain ⟨follows, -, -⟩ := keywords_follow_the_dialects silent 0 poisoning () ran late rfl spared
  have whole : historyOf silent 0 poisoning () = _ := history
  rw [whole] at follows ⊢
  refine ⟨[⟨none, .registered (.ofStandard .gnu89), first⟩], _, rfl, rfl, rfl, ?_, ?_⟩
  · obtain ⟨id, record, found, read, token, mark⟩ :=
      (follows [⟨none, .registered (.ofStandard .gnu89), first⟩] ⟨_, rfl⟩).keyword _ listed (.ofStandard .gnu89)
        first_has
    exact ⟨id, record, found, read, token, mark.mpr (by decide)⟩
  · obtain ⟨id, record, found, read, token, mark⟩ :=
      (follows _ (List.prefix_refl _)).keyword _ listed (.ofStandard .c99) last_has
    exact ⟨id, record, found, read, token, fun extends_ => absurd (mark.mp extends_) (by decide)⟩

end Canon.Identifier

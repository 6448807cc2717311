import Canon.Proofs.Identifier.Getting

/-!
One record for each spelling, whatever honest sources do: whoever gets the record of a spelling, and whenever, gets
the same one.
-/
namespace Canon.Identifier
variable {S σ : Type}

/-- What the moments of a run tell, from a table on. In moments of the run itself, not of its sources, nothing is
bound but what has been passed. -/
structure Outline (before : Table) (later : List Moment) (after : Table) : Prop where
  canonical : after.Canonical
  chronicle : Chronicle before later after
  bound : ∀ spelling,
    (after.find? spelling).isSome ↔ (before.find? spelling).isSome ∨ spelling ∈ passed later
  tally : ∀ earlier moment, earlier ++ [moment] <+: later → moment.asked = none → ∀ spelling,
    (moment.table.find? spelling).isSome ↔ (before.find? spelling).isSome ∨ spelling ∈ passed (earlier ++ [moment])

theorem Outline.nil {table : Table} (canonical : table.Canonical) : Outline table [] table where
  canonical := canonical
  chronicle := .nil (.refl table)
  bound spelling := by simp [passed]
  tally earlier moment start := by simp at start

theorem Outline.deed {start middle after : Table} {early late : List Moment} {deed : Deed}
    (outline : Outline start early middle) (canonical : after.Canonical) (holds : deed.Holds after)
    (nested : ∀ moment ∈ late, moment.asked ≠ none) (chronicle : Chronicle middle late after)
    (bound : ∀ spelling, (after.find? spelling).isSome ↔
      (middle.find? spelling).isSome ∨ spelling ∈ deed.passed ∨ spelling ∈ passed late) :
    Outline start (early ++ late ++ [⟨none, deed, after⟩]) after := by
  have whole : ∀ spelling, (after.find? spelling).isSome ↔
      (start.find? spelling).isSome ∨ spelling ∈ passed (early ++ late ++ [⟨none, deed, after⟩]) := by
    intro spelling
    have single : passed [⟨none, deed, after⟩] = deed.passed := by simp [passed]
    rw [bound, outline.bound, passed_append, passed_append, single, List.mem_append, List.mem_append]
    tauto
  have told : Chronicle start (early ++ late ++ [⟨none, deed, after⟩]) after :=
    (outline.chronicle.append chronicle).append (.single none deed canonical holds)
  refine ⟨canonical, told, whole, fun earlier moment beginning outer => ?_⟩
  -- A moment of the run itself is the last one or one of the earlier: those between belong to sources.
  rcases List.prefix_concat_iff.mp beginning with last | before
  · obtain ⟨same, single⟩ := List.append_inj' last rfl
    rw [List.cons.injEq] at single
    rw [single.1, same]
    exact whole
  · rcases List.prefix_or_prefix_of_prefix before (List.prefix_append early late) with old | new
    · exact outline.tally earlier moment old outer
    · obtain ⟨more, grown⟩ := new
      rw [← grown, List.prefix_append_right_inj] at before
      rcases List.eq_nil_or_concat more with empty | ⟨some, final, split⟩
      · rw [empty, List.append_nil] at grown
        exact outline.tally earlier moment (grown ▸ List.prefix_refl _) outer
      · rw [List.concat_eq_append] at split
        rw [split, ← List.append_assoc] at grown
        obtain ⟨-, single⟩ := List.append_inj' grown rfl
        rw [List.cons.injEq] at single
        have member : moment ∈ late := before.subset (by rw [split, single.1]; simp)
        exact absurd outer (nested moment member)

theorem Move.fair {asked : Option String} {before after : Session S (σ × List Moment)} (move : Move asked before after)
    (fair : Fair after) : Fair before := by
  cases move with
  | quiet table history => exact ⟨history ▸ fair.honest, table ▸ fair.room⟩
  | deed deed advances holds =>
    exact advances.fair ⟨fun moment member => fair.honest moment (List.mem_append_left _ member), fair.room⟩

theorem outline_of_moves {before after : Session S (σ × List Moment)}
    (moves : Relation.ReflTransGen (Move none) before after) (fair : Fair after) (canonical : before.table.Canonical) :
    ∃ later, after.history = before.history ++ later ∧ Outline before.table later after.table := by
  induction moves with
  | refl => exact ⟨[], (List.append_nil _).symm, .nil canonical⟩
  | tail _ move ih =>
    obtain ⟨early, told, outline⟩ := ih (move.fair fair)
    cases move with
    | quiet table history => exact ⟨early, history.trans told, table ▸ outline⟩
    | @deed after deed advances holds =>
      have before : Fair after :=
        ⟨fun moment member => fair.honest moment (List.mem_append_left _ member), fair.room⟩
      obtain ⟨last, late, grown, nested, chronicle, bound⟩ := advances.binds before outline.canonical
      refine ⟨early ++ late ++ [⟨none, deed, after.table⟩], ?_,
        outline.deed last (holds before outline.canonical) nested chronicle bound⟩
      change after.history ++ _ = _
      rw [grown, told, List.append_assoc, List.append_assoc, List.append_assoc]

/-- The run of a script on an empty table, with all its steps and those of its sources noted. -/
def recordedRun (behaviour : S → String → Script S σ) (depth : Nat) (program : Script S σ) (memory : σ) :
    Except Fault (Option IdentifierId) × Session S (σ × List Moment) :=
  (Work.perform .enabled (Work.get .enabled (recordedSources behaviour) depth) (program.recorded none)).on
    (.start (memory, []))

def historyOf (behaviour : S → String → Script S σ) (depth : Nat) (program : Script S σ) (memory : σ) : List Moment :=
  (recordedRun behaviour depth program memory).2.history

theorem recordedRun_forget (behaviour : S → String → Script S σ) (depth : Nat) (program : Script S σ) (memory : σ) :
    (Work.perform .enabled (Work.get .enabled behaviour depth) program).on (.start memory) =
      ((recordedRun behaviour depth program memory).1, (recordedRun behaviour depth program memory).2.forget) :=
  Work.Forgets.perform (Work.Forgets.get behaviour depth) none program (.start (memory, []))

/-- In all moments of a run, whoever brings them about, a spelling has one record, and a record one spelling. -/
structure OneRecordEach (history : List Moment) : Prop where
  same : ∀ first ∈ history, ∀ second ∈ history, ∀ left one right two,
    first.deed.yields? = some (left, one) → second.deed.yields? = some (right, two) → (one = two ↔ left = right)
  found : ∀ moment ∈ history, ∀ spelling id, moment.deed.yields? = some (spelling, id) →
    moment.table.find? spelling = some id ∧ moment.table.name id = .ok spelling
  keywords : ∀ moment ∈ history, ∀ dialect, moment.deed = .registered dialect →
    ∀ active ∈ dialect.keywords, (moment.table.find? active.spelling).isSome
  /-- Once a spelling is bound, it stays bound to the record that everyone gets. -/
  kept : history.Pairwise fun first second => ∀ spelling id, first.table.find? spelling = some id →
    second.table.find? spelling = some id ∧ second.table.name id = .ok spelling
  bound : ∀ first ∈ history, ∀ second ∈ history, ∀ spelling one two,
    first.table.find? spelling = some one → second.deed.yields? = some (spelling, two) → one = two
  counted : ∀ earlier moment, earlier ++ [moment] <+: history → moment.asked = none →
    moment.table.size = (passed (earlier ++ [moment])).dedup.length

namespace Outline
variable {later : List Moment} {after : Table}

theorem final_find? (outline : Outline .empty later after) {moment : Moment} (member : moment ∈ later)
    {spelling : String} {id : IdentifierId} (yields : moment.deed.yields? = some (spelling, id)) :
    after.find? spelling = some id :=
  (outline.chronicle.future moment member).find? ((outline.chronicle.holds moment member).yields spelling id yields)

theorem oneRecordEach (outline : Outline .empty later after) : OneRecordEach later where
  same first member second also left one right two yields produces := by
    have here := outline.final_find? member yields
    have there := outline.final_find? also produces
    constructor
    · intro equal
      exact outline.canonical.spelling_eq here (equal ▸ there)
    · intro equal
      rw [equal, there] at here
      exact (Option.some.inj here).symm
  found moment member spelling id yields := by
    have found := (outline.chronicle.holds moment member).yields spelling id yields
    exact ⟨found, (outline.chronicle.canonical moment member).name_eq_iff.mpr found⟩
  keywords moment member dialect registered active among := by
    have holds := (outline.chronicle.holds moment member).passed
    rw [registered] at holds
    exact holds _ (List.mem_map_of_mem among)
  kept := by
    refine outline.chronicle.ordered.imp_of_mem ?_
    intro first second _ member extended spelling id found
    have stays := extended.find? found
    exact ⟨stays, (outline.chronicle.canonical second member).name_eq_iff.mpr stays⟩
  bound first member second also spelling one two found yields := by
    have here := (outline.chronicle.future first member).find? found
    rw [outline.final_find? also yields] at here
    exact (Option.some.inj here).symm
  counted earlier moment beginning outer := by
    have member : moment ∈ later := beginning.subset (List.mem_append_right _ (List.mem_singleton.mpr rfl))
    refine (outline.chronicle.canonical moment member).size_eq fun spelling => ?_
    rw [outline.tally earlier moment beginning outer]
    simp [Table.find?, Table.empty, Lexicon.empty, Lexicon.withCapacity, Lexicon.find?]

end Outline

/-- Whatever a program and its sources do, as long as nothing fails, the sources answer with records spelled as
asked and there are symbols left, every spelling has one record for good. -/
theorem one_record_per_spelling (behaviour : S → String → Script S σ) (depth : Nat) (program : Script S σ) (memory : σ)
    {answer : Option IdentifierId} {final : Session S σ}
    (ran : (Work.perform .enabled (Work.get .enabled behaviour depth) program).on (.start memory) = (.ok answer, final))
    (honest : Honest (historyOf behaviour depth program memory))
    (room : final.table.lexicon.size < 4294967295) :
    (recordedRun behaviour depth program memory).2.forget = final ∧
      OneRecordEach (historyOf behaviour depth program memory) ∧
      ∃ earlier, historyOf behaviour depth program memory = earlier ++ [⟨none, .answered answer, final.table⟩] := by
  rw [recordedRun_forget, Prod.mk.injEq] at ran
  obtain ⟨succeeds, same⟩ := ran
  rcases run : recordedRun behaviour depth program memory with ⟨outcome, after⟩
  have history : historyOf behaviour depth program memory = after.history := congrArg (·.2.history) run
  rw [run] at succeeds same
  have ran : recordedRun behaviour depth program memory = (.ok answer, after) := by rw [run, ← succeeds]
  obtain ⟨middle, moves, ended⟩ := Work.perform_moves (Work.get_gets behaviour depth) none program ran
  have answered : Move none middle (middle.noted none (.answered answer)) :=
    .deed (.answered answer) (.of_same rfl rfl) fun _ _ => .of_silent rfl rfl _
  have table : after.table = final.table := congrArg Session.table same
  have fair : Fair after := ⟨history ▸ honest, table ▸ room⟩
  rw [history]
  obtain ⟨later, told, outline⟩ := outline_of_moves (moves.tail (ended ▸ answered)) fair Table.canonical_empty
  have whole : after.history = later := told.trans (List.nil_append later)
  refine ⟨same, whole ▸ outline.oneRecordEach, middle.history, ?_⟩
  rw [ended, ← table, ended]
  rfl

/-- A source that makes a record for whatever it is asked about. -/
def obliging : Unit → String → Script Unit Unit := fun _ spelling => .create spelling fun id => .answer (some id)

/-- Gets a record while there is one source. -/
def asking : Script Unit Unit := .attach () (.get "a" fun id => .answer (some id))

theorem recordedRun_asking {table : Table} {symbol : Symbol} {id : IdentifierId} {made bound : Table}
    (first : Table.empty.intern "a" = (symbol, table)) (unbound : table.bound? symbol = none)
    (again : table.intern "a" = (symbol, table)) (allocated : table.allocate symbol = (id, made))
    (rebound : made.bind symbol id = bound) : recordedRun obliging 1 asking () =
      (.ok (some id), ⟨bound, [⟨0, ()⟩], ((), [⟨none, .rewired, .empty⟩, ⟨some "a", .created "a" id, made⟩,
        ⟨some "a", .answered (some id), made⟩, ⟨none, .got "a" id, bound⟩, ⟨none, .answered (some id), bound⟩]), 1,
        #[(⟨0, ()⟩, "a")]⟩) := by
  simp only [recordedRun, asking, obliging, Script.recorded, recordedSources, Work.perform, Work.perform_noting,
    Work.on_bind, Work.get, Work.getBy, Work.attach_on, Work.onTable_on, Work.look_on, Session.start, Session.noted,
    first, unbound, again, allocated, rebound, Work.resolve_on, List.isEmpty_cons, Work.resolveByChain,
    Work.detachChain_on, Work.consult, Work.note_on, Work.create, Table.create, Option.isSome_none, and_false, if_false,
    Bool.false_eq_true, Work.pure_on, Work.reattachChain_on, List.append_nil, List.nil_append, Nat.zero_add]
  rfl

theorem obliging_source_is_honest :
    ∃ id, (∃ moment ∈ historyOf obliging 1 asking (), moment.asked = some "a" ∧ moment.deed = .answered (some id)) ∧
      OneRecordEach (historyOf obliging 1 asking ()) := by
  rcases first : Table.empty.intern "a" with ⟨symbol, table⟩
  have interned : table.lexicon = (Lexicon.empty.intern "a").2 ∧ (Lexicon.empty.intern "a").1 = symbol := by
    cases first
    exact ⟨rfl, rfl⟩
  have known : table.lexicon.find? "a" = some symbol := by
    rw [interned.1, ← interned.2]
    exact Lexicon.find?_intern_self Lexicon.empty "a"
  have size : table.lexicon.size ≤ 1 := by
    rw [interned.1]
    exact Lexicon.size_intern_le Lexicon.empty "a"
  have canonical : table.Canonical := by
    have kept := Table.canonical_empty.intern (by decide) "a"
    rw [first] at kept
    exact kept
  have unbound : table.bound? symbol = none := by
    cases first
    exact Overlay.get_constant none _
  have again : table.intern "a" = (symbol, table) := by
    have same : table.lexicon.intern "a" = (symbol, table.lexicon) := Lexicon.intern_of_find? known
    simp only [Table.intern, same]
  rcases allocated : table.allocate symbol with ⟨id, made⟩
  have found : made.find? "a" = some id := by
    have found := canonical.find?_allocate known "a"
    rw [allocated, if_pos rfl] at found
    exact found
  have named : made.name id = .ok "a" := by
    have kept := canonical.allocate (by omega) (canonical.faithful.index_lt_size known) unbound
    rw [allocated] at kept
    exact kept.name_eq_iff.mpr found
  have run := recordedRun_asking first unbound again allocated rfl
  have history : historyOf obliging 1 asking () = _ := congrArg (·.2.history) run
  have ran := recordedRun_forget obliging 1 asking ()
  rw [run] at ran
  have lexicon : made.lexicon = table.lexicon := by
    cases allocated
    rfl
  have honest : Honest (historyOf obliging 1 asking ()) := by
    rw [history]
    intro moment member spelling number asked answered
    simp only [Session.history, List.mem_cons, List.not_mem_nil, or_false] at member
    rcases member with rfl | rfl | rfl | rfl | rfl
    · cases answered
    · cases answered
    · cases asked
      cases answered
      exact named
    · cases answered
    · cases asked
  have fits : (made.bind symbol id).lexicon.size < 4294967295 := by
    change made.lexicon.size < 4294967295
    rw [lexicon]
    omega
  obtain ⟨-, record, -⟩ := one_record_per_spelling obliging 1 asking () ran honest fits
  refine ⟨id, ⟨⟨some "a", .answered (some id), made⟩, ?_, rfl, rfl⟩, record⟩
  rw [history]
  simp [Session.history]

end Canon.Identifier

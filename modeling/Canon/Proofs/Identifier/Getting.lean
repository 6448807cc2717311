import Canon.Proofs.Identifier.Advance
import Canon.Proofs.Identifier.Steps

/-!
Getting a record, whatever the sources do meanwhile: they may work on the table and get records themselves, at any
depth. The spelling that is got is interned, but not bound, as long as they are asked.
-/
namespace Canon.Identifier
variable {S σ : Type}

namespace Session

def withTable (session : Session S (σ × List Moment)) (table : Table) : Session S (σ × List Moment) :=
  { session with table }

end Session

namespace Advances
variable {session : Session S (σ × List Moment)} {spelling : String} {symbol : Symbol} {id : IdentifierId}

theorem intern (session : Session S (σ × List Moment)) (spelling : String) :
    Advances [] session (session.withTable (session.table.intern spelling).2) := by
  refine of_table rfl (Lexicon.size_le_intern _ _) (fun _ _ known => Lexicon.find?_intern_of_find? known spelling) ?_
  intro fair canonical
  have room : session.table.lexicon.size < 4294967295 :=
    Nat.lt_of_le_of_lt (Lexicon.size_le_intern _ spelling) fair.room
  refine ⟨canonical.intern room spelling, ⟨?_, fun _ _ => id⟩, fun other => ?_⟩
  · exact fun _ _ known => Lexicon.find?_intern_of_find? known spelling
  · change ((session.table.intern spelling).2.find? other).isSome ↔ _
    rw [canonical.find?_intern room]
    simp

theorem allocate (session : Session S (σ × List Moment))
    (interned : session.table.lexicon.find? spelling = some symbol)
    (unbound : session.table.bound? symbol = none) :
    Advances [spelling] session (session.withTable (session.table.allocate symbol).2) ∧
      (session.table.Canonical →
        (session.table.allocate symbol).2.find? spelling = some (session.table.allocate symbol).1) := by
  refine ⟨of_table rfl (Nat.le_refl _) (fun _ _ known => known) fun fair canonical => ?_, fun canonical => ?_⟩
  · refine ⟨canonical.allocate fair.room (canonical.faithful.index_lt_size interned) unbound,
      Table.Canonical.extends_allocate unbound, fun other => ?_⟩
    change ((session.table.allocate symbol).2.find? other).isSome ↔ _
    rw [canonical.find?_allocate interned]
    by_cases same : other = spelling
    · simp [same]
    · simp [same]
  · rw [canonical.find?_allocate interned, if_pos rfl]

theorem bind (interned : session.table.lexicon.find? spelling = some symbol)
    (known : Fair session → session.table.Canonical → session.table.find? spelling = some id) :
    Advances [] session (session.withTable (session.table.bind symbol id)) ∧
      (Fair session → session.table.Canonical → (session.table.bind symbol id).find? spelling = some id) := by
  have bound (fair : Fair session) (canonical : session.table.Canonical) : session.table.bound? symbol = some id := by
    obtain ⟨other, found, bound⟩ := Table.find?_eq_some.mp (known fair canonical)
    rw [interned, Option.some.injEq] at found
    exact found ▸ bound
  have same (fair : Fair session) (canonical : session.table.Canonical) (other : String) :
      (session.table.bind symbol id).find? other = session.table.find? other :=
    congrArg _ (funext (Table.Canonical.bound?_bind (bound fair canonical)))
  refine ⟨of_table rfl (Nat.le_refl _) (fun _ _ known => known) fun fair canonical => ?_, fun fair canonical => ?_⟩
  · have bound : session.table.bound? symbol = some id := bound ⟨fair.honest, fair.room⟩ canonical
    refine ⟨canonical.bind bound, ⟨fun _ _ known => known, fun other number => ?_⟩, fun other => ?_⟩
    · change session.table.bound? other = some number → (session.table.bind symbol id).bound? other = some number
      rw [Table.Canonical.bound?_bind bound]
      exact fun known => known
    · change ((session.table.bind symbol id).find? other).isSome ↔ _
      rw [same ⟨fair.honest, fair.room⟩ canonical]
      simp
  · rw [same fair canonical, known fair canonical]

theorem modify (session : Session S (σ × List Moment)) (id : IdentifierId) {change : Record → Record}
    (kept : ∀ record, session.table.records.get? id = some record → (change record).entry = record.entry) :
    Advances [] session (session.withTable (session.table.modify id change)) := by
  refine of_table rfl (Nat.le_refl _) (fun _ _ known => known) fun fair canonical => ?_
  exact ⟨canonical.modify kept, ⟨fun _ _ known => known, fun _ _ known => known⟩, fun other => by simp; rfl⟩

end Advances

def Gets (getting : String → Work S (σ × List Moment) IdentifierId) : Prop :=
  ∀ spelling before id after, (getting spelling).on before = (.ok id, after) →
    Advances [spelling] before after ∧
      (Fair after → before.table.Canonical → after.table.find? spelling = some id)

namespace Work
variable {before after : Session S (σ × List Moment)} {spelling : String} {id : IdentifierId}
  {getting : String → Work S (σ × List Moment) IdentifierId}

theorem create_advances (outcome : (create .enabled spelling).on before = (.ok id, after)) :
    Advances [spelling] before after ∧
      (Fair after → before.table.Canonical → after.table.find? spelling = some id) := by
  have interned := Advances.intern before spelling
  have known := Lexicon.find?_intern_self before.table.lexicon spelling
  obtain ⟨unbound, rfl, rfl⟩ := create_eq_ok outcome
  obtain ⟨allocated, found⟩ :=
    Advances.allocate (before.withTable (before.table.intern spelling).2) known unbound
  exact ⟨interned.trans allocated, fun fair canonical => found (interned.canonical (allocated.fair fair) canonical)⟩

theorem update_advances {setter : Setter} (outcome : (update .enabled id setter).on before = (.ok (), after)) :
    Advances [] before after := by
  obtain ⟨change, kept, rfl⟩ := update_eq_ok outcome
  exact Advances.modify before id kept

theorem registerKeyword_advances (gets : Gets getting) {active : ActiveKeyword}
    (outcome : (registerKeyword getting active).on before = (.ok (), after)) :
    Advances [active.spelling] before after := by
  obtain ⟨id, middle, got, change, kept, rfl⟩ := registerKeyword_eq_ok outcome
  exact (gets _ _ _ _ got).1.trans (Advances.modify middle id kept)

theorem forM_registerKeyword_advances (gets : Gets getting) (keywords : List ActiveKeyword)
    (outcome : (keywords.forM (registerKeyword getting)).on before = (.ok (), after)) :
    Advances (keywords.map ActiveKeyword.spelling) before after := by
  induction keywords generalizing before with
  | nil =>
    cases outcome
    exact .of_same rfl rfl
  | cons active rest ih =>
    obtain ⟨⟨⟩, middle, first, outcome⟩ := bind_eq_ok outcome
    exact (registerKeyword_advances gets first).trans (ih outcome)

theorem does_move {asked : Option String} (gets : Gets getting) {deed : Deed}
    (does : Deed.Does .enabled getting deed before after) : Move asked before (after.noted asked deed) := by
  cases does with
  | looked => exact .deed .looked (.of_same rfl rfl) fun _ _ => .of_silent rfl rfl _
  | @got spelling _ id _ outcome =>
    obtain ⟨advances, holds⟩ := gets _ _ _ _ outcome
    exact .deed (.got spelling id) advances fun fair canonical => .of_found rfl rfl (holds fair canonical)
  | @created spelling _ id _ outcome =>
    obtain ⟨advances, holds⟩ := create_advances outcome
    exact .deed (.created spelling id) advances fun fair canonical => .of_found rfl rfl (holds fair canonical)
  | @updated id setter _ _ outcome =>
    exact .deed (.updated id setter) (update_advances outcome) fun _ _ => .of_silent rfl rfl _
  | @registered dialect _ _ outcome =>
    have advances := forM_registerKeyword_advances gets dialect.keywords outcome
    exact .deed (.registered dialect) advances fun fair canonical =>
      ⟨advances.bound fair canonical, fun _ _ none => by cases none⟩
  | rewired table history => exact .deed .rewired (.of_same table history) fun _ _ => .of_silent rfl rfl _

theorem perform_moves (gets : Gets getting) (asked : Option String) (script : Script S σ) {answer : Option IdentifierId}
    (outcome : (perform .enabled getting (script.recorded asked)).on before = (.ok answer, after)) :
    ∃ middle, Relation.ReflTransGen (Move asked) before middle ∧ after = middle.noted asked (.answered answer) := by
  obtain ⟨middle, beats, ended⟩ := perform_beats asked script outcome
  refine ⟨middle, Relation.ReflTransGen.mono ?_ _ _ beats, ended⟩
  intro first second beat
  cases beat with
  | quiet table history => exact .quiet table history
  | deed does => exact does_move gets does

theorem consult_advances (gets : Gets getting) (behaviour : S → String → Script S σ) (chain : List (Attached S))
    {found : Option IdentifierId}
    (outcome : (consult .enabled (recordedSources behaviour) getting spelling chain).on before = (.ok found, after)) :
    Advances [] before after ∧
      ∀ id, found = some id → Fair after → after.table.Canonical → after.table.find? spelling = some id := by
  induction chain generalizing before with
  | nil =>
    cases outcome
    exact ⟨.of_same rfl rfl, fun _ none => by cases none⟩
  | cons source rest ih =>
    obtain ⟨⟨⟩, begun, asked, outcome⟩ := bind_eq_ok outcome
    have started : Advances [] before begun := by
      cases asked
      exact .of_same rfl rfl
    obtain ⟨answer, middle, performed, outcome⟩ := bind_eq_ok outcome
    obtain ⟨last, moves, rfl⟩ := perform_moves gets (some spelling) _ performed
    have performs : Advances (Deed.answered answer).passed begun last := advances_of_moves moves
    have worked : Advances [] begun (last.noted (some spelling) (.answered answer)) :=
      performs.noted fun _ _ => .of_silent rfl rfl _
    cases answer with
    | some id =>
      cases outcome
      refine ⟨started.trans worked, fun number same fair canonical => ?_⟩
      cases same
      -- The answer is noted, so an honest history says how its record is spelled.
      have named : last.table.name id = .ok spelling :=
        fair.honest _ (List.mem_append_right _ (List.mem_singleton.mpr rfl)) spelling id rfl rfl
      exact canonical.name_eq_iff.mp named
    | none =>
      obtain ⟨advances, found⟩ := ih outcome
      exact ⟨(started.trans worked).trans advances, found⟩

theorem getBy_gets {consult : String → List (Attached S) → Work S (σ × List Moment) (Option IdentifierId)}
    (consults : ∀ spelling chain before found after, (consult spelling chain).on before = (.ok found, after) →
      Advances [] before after ∧
        ∀ id, found = some id → Fair after → after.table.Canonical → after.table.find? spelling = some id) :
    Gets (getBy consult) := by
  intro spelling before id after outcome
  have interned := Advances.intern before spelling
  have known := Lexicon.find?_intern_self before.table.lexicon spelling
  have through {later : Session S (σ × List Moment)} {found : Option IdentifierId}
      (consulted : (consult spelling before.chain).on
        { before with table := (before.table.intern spelling).2, chain := [] } = (.ok found, later))
      {whole : Session S (σ × List Moment)} (same : whole = { later with chain := before.chain ++ later.chain }) :
      Advances [] before whole ∧ whole.table.lexicon.find? spelling = some (before.table.intern spelling).1 := by
    subst same
    have detached : Advances [] (before.withTable (before.table.intern spelling).2)
        { before with table := (before.table.intern spelling).2, chain := [] } := .of_same rfl rfl
    have worked := (consults _ _ _ _ _ consulted).1
    have reattached : Advances [] later { later with chain := before.chain ++ later.chain } := .of_same rfl rfl
    exact ⟨((interned.trans detached).trans worked).trans reattached, worked.symbols _ _ known⟩
  cases getBy_ending outcome with
  | known bound =>
    have found := Table.find?_eq_some.mpr ⟨_, known, bound⟩
    exact ⟨interned.add fun _ _ => Option.isSome_iff_exists.mpr ⟨id, found⟩, fun _ _ => found⟩
  | alone unbound chain =>
    obtain ⟨allocated, found⟩ := Advances.allocate (before.withTable (before.table.intern spelling).2) known unbound
    exact ⟨interned.trans allocated, fun fair canonical => found (interned.canonical (allocated.fair fair) canonical)⟩
  | @answered _ later unbound consulted =>
    -- The spelling is bound again, whether or not a source has bound it meanwhile: to the record it has already.
    obtain ⟨advances, still⟩ := through consulted rfl
    obtain ⟨rebinds, finds⟩ := Advances.bind still fun fair canonical =>
      (consults _ _ _ _ _ consulted).2 id rfl ⟨fair.honest, fair.room⟩ canonical
    have holds fair (canonical : before.table.Canonical) :=
      finds (rebinds.fair fair) (advances.canonical (rebinds.fair fair) canonical)
    exact ⟨(advances.trans rebinds).add fun fair canonical => Option.isSome_iff_exists.mpr ⟨id, holds fair canonical⟩,
      holds⟩
  | kept unbound consulted bound =>
    obtain ⟨advances, still⟩ := through consulted rfl
    have found := Table.find?_eq_some.mpr ⟨_, still, bound⟩
    exact ⟨advances.add fun _ _ => Option.isSome_iff_exists.mpr ⟨id, found⟩, fun _ _ => found⟩
  | @missed later unbound consulted free =>
    obtain ⟨advances, still⟩ := through consulted rfl
    obtain ⟨allocated, found⟩ := Advances.allocate { later with chain := before.chain ++ later.chain } still free
    exact ⟨advances.trans allocated, fun fair canonical =>
      found (advances.canonical (allocated.fair fair) canonical)⟩

theorem get_gets (behaviour : S → String → Script S σ) (depth : Nat) :
    Gets (get .enabled (recordedSources behaviour) depth) := by
  -- A source gets records at a smaller depth, and at depth zero no source can be asked.
  induction depth with
  | zero =>
    refine getBy_gets fun spelling chain before found after outcome => ?_
    cases outcome
  | succ depth ih =>
    exact getBy_gets fun spelling chain before found after outcome => consult_advances ih behaviour chain outcome

end Work
end Canon.Identifier

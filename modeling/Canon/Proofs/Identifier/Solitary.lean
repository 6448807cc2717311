import Canon.Proofs.Identifier.Asking
import Canon.Proofs.Identifier.Classification
import Canon.Proofs.Identifier.Spelling

/-!
Runs without sources. As long as nobody is attached, every deed of a run is an operation on the table alone, so the
moments of the run are a trail of tables that starts empty.
-/
namespace Canon.Identifier
variable {S σ : Type}

def tableAfter (history : List Moment) : Table := (history.getLast?.map Moment.table).getD .empty

@[simp] theorem tableAfter_nil : tableAfter [] = .empty := rfl

@[simp] theorem tableAfter_concat (history : List Moment) (moment : Moment) :
    tableAfter (history ++ [moment]) = moment.table := by
  simp [tableAfter]

inductive Deed.Turns : Deed → Table → Table → Prop where
  | answered (id table) : Turns (.answered id) table table
  | looked (table) : Turns .looked table table
  | rewired (table) : Turns .rewired table table
  | got (spelling) (table : Table) : Turns (.got spelling (table.get spelling).1) table (table.get spelling).2
  | created (spelling) (table : Table) : Turns (.created spelling (table.get spelling).1) table (table.get spelling).2
  | updated {id setter record changed} {table : Table} (read : table.info id = .ok record)
    (applied : Setter.apply .enabled setter record = .ok changed) :
    Turns (.updated id setter) table (table.modify id fun _ => changed)
  | registered (dialect) (table : Table) : Turns (.registered dialect) table (table.addKeywords dialect)

inductive Trail : List Moment → Prop where
  | nil : Trail []
  | concat {history deed table} (trail : Trail history) (turns : Deed.Turns deed (tableAfter history) table) :
    Trail (history ++ [⟨none, deed, table⟩])

theorem Trail.of_prefix {history earlier : List Moment} (trail : Trail history) (start : earlier <+: history) :
    Trail earlier := by
  induction trail with
  | nil => exact List.prefix_nil.mp start ▸ .nil
  | concat trail turns ih =>
    rcases List.prefix_concat_iff.mp start with whole | before
    · exact whole ▸ trail.concat turns
    · exact ih before

namespace Work

section
variable {checks : Checks} {before after : Session S σ}

theorem getBy_on_alone (consult : String → List (Attached S) → Work S σ (Option IdentifierId)) (spelling : String)
    (alone : before.chain = []) : (getBy consult spelling).on before =
      (.ok (before.table.get spelling).1, { before with table := (before.table.get spelling).2 }) := by
  unfold getBy Table.get
  rw [on_bind, onTable_on]
  dsimp only
  rw [on_bind, look_on]
  dsimp only
  cases (before.table.intern spelling).2.bound? (before.table.intern spelling).1 with
  | some id => rfl
  | none =>
    dsimp only
    rw [resolve_on, if_pos (List.isEmpty_iff.mpr alone)]
    rfl

theorem get_on_alone (behaviour : S → String → Script S σ) (depth : Nat) (spelling : String)
    (alone : before.chain = []) : (get checks behaviour depth spelling).on before =
      (.ok (before.table.get spelling).1, { before with table := (before.table.get spelling).2 }) := by
  cases depth with
  | zero => exact getBy_on_alone _ spelling alone
  | succ depth => exact getBy_on_alone _ spelling alone

theorem registerKeyword_on_alone (behaviour : S → String → Script S σ) (depth : Nat) (active : ActiveKeyword)
    (alone : before.chain = []) : (registerKeyword (get checks behaviour depth) active).on before =
      match (before.table.get active.spelling).2.info (before.table.get active.spelling).1 with
      | .error fault => (.error fault, { before with table := (before.table.get active.spelling).2 })
      | .ok _ => (.ok (), { before with table := before.table.register active }) := by
  unfold registerKeyword
  rw [on_bind, get_on_alone behaviour depth active.spelling alone]
  dsimp only
  rw [on_bind, look_on]
  dsimp only
  cases (before.table.get active.spelling).2.info (before.table.get active.spelling).1 with
  | error fault => rfl
  | ok record => rfl

theorem forM_registerKeyword_alone {behaviour : S → String → Script S σ} {depth : Nat} (keywords : List ActiveKeyword)
    (outcome : (keywords.forM (registerKeyword (get checks behaviour depth))).on before = (.ok (), after))
    (alone : before.chain = []) : after = { before with table := keywords.foldl Table.register before.table } := by
  induction keywords generalizing before with
  | nil =>
    cases outcome
    rfl
  | cons active rest ih =>
    obtain ⟨⟨⟩, middle, registered, outcome⟩ := bind_eq_ok outcome
    rw [registerKeyword_on_alone behaviour depth active alone] at registered
    cases found : (before.table.get active.spelling).2.info (before.table.get active.spelling).1 with
    | error fault =>
      rw [found] at registered
      cases registered
    | ok record =>
      rw [found] at registered
      cases registered
      exact ih outcome alone

theorem forM_registerKeyword_on (behaviour : S → String → Script S σ) (depth : Nat) (keywords : List ActiveKeyword)
    (alone : before.chain = []) (canonical : before.table.Canonical)
    (room : (keywords.foldl Table.register before.table).lexicon.size < 4294967295) :
    (keywords.forM (registerKeyword (get checks behaviour depth))).on before =
      (.ok (), { before with table := keywords.foldl Table.register before.table }) := by
  induction keywords generalizing before with
  | nil => rfl
  | cons active rest ih =>
    have early := Nat.lt_of_le_of_lt (Table.size_le_foldl_register rest (before.table.register active)) room
    have found := canonical.find?_get early active.spelling
    rw [if_pos rfl] at found
    obtain ⟨record, entered, -⟩ := (canonical.get early).1.exists_record found
    change (registerKeyword _ active >>= fun _ => rest.forM _).on before = _
    rw [on_bind, registerKeyword_on_alone behaviour depth active alone, Table.info,
      Registry.get_eq_ok_iff.mpr entered]
    exact ih alone (canonical.register early).1 room

theorem registerKeywords_on (checks : Checks) (behaviour : S → String → Script S σ) (depth : Nat) (dialect : Dialect)
    (before : Session S σ) (alone : before.chain = []) (canonical : before.table.Canonical)
    (room : (before.table.addKeywords dialect).lexicon.size < 4294967295) :
    (registerKeywords (get checks behaviour depth) dialect).on before =
      (.ok (), { before with table := before.table.addKeywords dialect }) := by
  rw [Table.addKeywords_eq] at room ⊢
  exact forM_registerKeyword_on behaviour depth dialect.keywords alone canonical room

end

theorem chain_eq_nil {α : Type} {work : Work S σ α} (steady : work.Steady) {before after : Session S σ}
    {result : Except Fault α} (outcome : work.on before = (result, after)) (ordered : before.Ordered)
    (alone : after.nextSerial = 0) : before.chain = [] := by
  have grown := (steady before ordered).serial
  rw [outcome, alone] at grown
  rw [List.eq_nil_iff_forall_not_mem]
  intro source member
  have issued := ordered.issued source.serial (List.mem_map_of_mem member)
  omega

end Work

structure Session.Told (session : Session S (σ × List Moment)) : Prop where
  trail : Trail session.history
  table : tableAfter session.history = session.table

namespace Session.Told
variable {before after : Session S (σ × List Moment)}

theorem start (memory : σ) : (Session.start (memory, []) : Session S (σ × List Moment)).Told := ⟨.nil, rfl⟩

theorem noted (told : before.Told) {deed : Deed} (turns : deed.Turns before.table after.table)
    (history : after.history = before.history) : (after.noted none deed).Told where
  trail := by
    change Trail (after.history ++ [⟨none, deed, after.table⟩])
    rw [history]
    exact told.trail.concat (told.table.symm ▸ turns)
  table := tableAfter_concat after.history ⟨none, deed, after.table⟩

end Session.Told

namespace Work

theorem created_turns {spelling : String} {id : IdentifierId} {before after : Session S σ}
    (outcome : (create .enabled spelling).on before = (.ok id, after)) :
    (Deed.created spelling id).Turns before.table after.table := by
  obtain ⟨unbound, rfl, rfl⟩ := create_eq_ok outcome
  have got : before.table.get spelling =
      (before.table.intern spelling).2.allocate (before.table.intern spelling).1 := by
    unfold Table.get
    dsimp only
    rw [unbound]
  rw [← got]
  exact .created spelling before.table

theorem registered_turns {behaviour : S → String → Script S (σ × List Moment)} {depth : Nat} (dialect : Dialect)
    {before after : Session S (σ × List Moment)}
    (outcome : (registerKeywords (get .enabled behaviour depth) dialect).on before = (.ok (), after))
    (alone : before.chain = []) (ordered : before.Ordered) :
    (Deed.registered dialect).Turns before.table after.table ∧ after.chain = [] ∧ after.history = before.history ∧
      after.Ordered := by
  have kept := Steady.registerKeywords (get_steady .enabled behaviour depth) dialect before ordered
  rw [outcome] at kept
  obtain rfl := forM_registerKeyword_alone dialect.keywords outcome alone
  refine ⟨?_, alone, rfl, kept.ordered⟩
  dsimp only
  rw [← Table.addKeywords_eq]
  exact .registered dialect before.table

theorem perform_told (behaviour : S → String → Script S (σ × List Moment)) (depth : Nat) (script : Script S σ)
    {before after : Session S (σ × List Moment)} {answer : Option IdentifierId}
    (outcome : (perform .enabled (get .enabled behaviour depth) (script.recorded none)).on before = (.ok answer, after))
    (ordered : before.Ordered) (alone : after.nextSerial = 0) (told : before.Told) : after.Told := by
  have steady := Steady.perform .enabled (get_steady .enabled behaviour depth)
  -- A note changes neither the chain nor the serial numbers.
  have in_order : ∀ {session : Session S (σ × List Moment)} (deed : Deed), session.Ordered →
      (session.noted none deed).Ordered := fun _ ordered => ⟨ordered.ascending, ordered.issued⟩
  have nobody := chain_eq_nil (steady (script.recorded none)) outcome ordered alone
  induction script generalizing before with
  | answer answer =>
    cases outcome
    exact told.noted (.answered answer before.table) rfl
  | fail fault => cases outcome
  | observe next ih =>
    obtain ⟨table, middle, looked, outcome⟩ := bind_eq_ok outcome
    cases looked
    exact ih before.table outcome (in_order .looked ordered) (told.noted (.looked before.table) rfl) nobody
  | get spelling next ih =>
    obtain ⟨number, middle, got, outcome⟩ := bind_eq_ok outcome
    have kept := (get_steady .enabled behaviour depth spelling before ordered).ordered
    rw [got] at kept
    rw [get_on_alone behaviour depth spelling nobody] at got
    cases got
    exact ih _ outcome (in_order _ kept) (told.noted (.got spelling before.table) rfl) nobody
  | create spelling next ih =>
    obtain ⟨number, middle, created, outcome⟩ := bind_eq_ok outcome
    have turns := created_turns created
    obtain ⟨-, rfl, rfl⟩ := create_eq_ok created
    exact ih _ outcome (in_order _ ⟨ordered.ascending, ordered.issued⟩) (told.noted turns rfl) nobody
  | update id setter next ih =>
    obtain ⟨⟨⟩, middle, updated, outcome⟩ := bind_eq_ok outcome
    obtain ⟨record, changed, read, applied, rfl⟩ := update_applies updated
    exact ih outcome (in_order _ ⟨ordered.ascending, ordered.issued⟩)
      (told.noted (.updated read applied) rfl) nobody
  | addKeywords dialect next ih =>
    obtain ⟨⟨⟩, middle, registered, outcome⟩ := bind_eq_ok outcome
    obtain ⟨turns, chain, history, kept⟩ := registered_turns dialect registered nobody ordered
    exact ih outcome (in_order _ kept) (told.noted turns history) chain
  | attach source next ih =>
    obtain ⟨⟨⟩, middle, attached, outcome⟩ := bind_eq_ok outcome
    cases attached
    have kept := (Follows.attach ordered source).ordered
    have nobody := chain_eq_nil (steady (next.recorded none)) outcome (in_order .rewired kept) alone
    exact ih outcome (in_order .rewired kept) (told.noted (.rewired before.table) rfl) nobody
  | replace source next ih =>
    obtain ⟨⟨⟩, middle, replaced, outcome⟩ := bind_eq_ok outcome
    have kept := (Steady.replace source before ordered).ordered
    cases replaced
    have nobody := chain_eq_nil (steady (next.recorded none)) outcome (in_order .rewired kept) alone
    exact ih outcome (in_order .rewired kept) (told.noted (.rewired before.table) rfl) nobody
  | clear next ih =>
    obtain ⟨⟨⟩, middle, cleared, outcome⟩ := bind_eq_ok outcome
    have kept := (Steady.clear before ordered).ordered
    cases cleared
    exact ih outcome (in_order .rewired kept) (told.noted (.rewired before.table) rfl) rfl
  | retrieve next ih => exact ih before.memory.1 outcome ordered told nobody
  | remember memory next ih =>
    have rest : (perform .enabled (get .enabled behaviour depth) (next.recorded none)).on
        { before with memory := (memory, before.memory.2) } = (.ok answer, after) := outcome
    exact ih rest ⟨ordered.ascending, ordered.issued⟩ ⟨told.trail, told.table⟩ nobody

end Work
end Canon.Identifier

import Canon.Proofs.Identifier.Integrity
import Canon.Proofs.Identifier.Spelling

/-!
Every record has an entry of its own, even where sources answer with records of other spellings or with handles that
name no record. What is bound stays bound, and what the statistics report adds up.
-/
namespace Canon.Identifier
variable {S σ : Type}

/-- Sources that look at the table as soon as they are asked. -/
def attentive (behaviour : S → String → Script S σ) (source : S) (spelling : String) : Script S σ :=
  .observe fun _ => behaviour source spelling

namespace Work

theorem consult_attentive (checks : Checks) (behaviour : S → String → Script S σ)
    (getting : String → Work S σ IdentifierId) (spelling : String) (chain : List (Attached S)) :
    consult checks (attentive behaviour) getting spelling chain = consult checks behaviour getting spelling chain := by
  induction chain with
  | nil => rfl
  | cons source rest ih =>
    unfold consult
    rw [ih]
    rfl

theorem get_attentive (checks : Checks) (behaviour : S → String → Script S σ) (depth : Nat) :
    get checks (attentive behaviour) depth = get checks behaviour depth := by
  induction depth with
  | zero => rfl
  | succ depth ih =>
    unfold get
    rw [ih]
    apply congrArg getBy
    funext spelling chain
    exact consult_attentive checks behaviour (get checks behaviour depth) spelling chain

end Work

/-- The records of a table have entries of their own, which are symbols of the table. The statistics count the records and,
each once, the spellings that are bound, which are no fewer. -/
structure Table.Accounted (table : Table) : Prop where
  distinct : table.entries.Nodup
  owned : ∀ symbol ∈ table.entries, ∃ spelling, table.lexicon.find? spelling = some symbol
  named : ∀ id record, table.info id = .ok record → ∃ spelling, table.name id = .ok spelling
  same : ∀ left right one two, table.info left = .ok one → table.info right = .ok two → (one = two ↔ left = right)
  counted : table.statistics.records ≤ table.statistics.spellings
  records : table.statistics.records = table.entries.length
  spellings : ∃ bound : List String, bound.Nodup ∧
    (∀ spelling, spelling ∈ bound ↔ (table.find? spelling).isSome) ∧
    table.statistics.spellings = bound.length ∧ table.statistics.totalLength = Lexicon.totalLength bound

theorem Table.Distinct.accounted {table : Table} (distinct : table.Distinct) : table.Accounted where
  distinct := distinct.nodup
  owned symbol member := by
    obtain ⟨spelling, interned, -⟩ := distinct.exists_spelling member
    exact ⟨spelling, interned⟩
  named id record read := by
    obtain ⟨spelling, name, -⟩ := distinct.exists_name read
    exact ⟨spelling, name⟩
  same left right one two first second := by
    constructor
    · intro equal
      exact (distinct.entry_eq_iff first second).mp (congrArg Record.entry equal)
    · intro equal
      rw [equal, second] at first
      exact (Except.ok.inj first).symm
  counted := distinct.records_le_spellings
  records := by
    rw [Table.entries, List.length_map]
    exact Array.length_toList.symm
  spellings := by
    refine ⟨table.spellings.map Prod.fst, distinct.nodup_bound, fun _ => distinct.mem_bound, ?_, totalLength_eq table⟩
    show (table.spellings.map (·.1.utf8ByteSize)).length = _
    rw [List.length_map, List.length_map]

def Table.Covers (after before : Table) : Prop :=
  ∀ spelling, (before.find? spelling).isSome → (after.find? spelling).isSome

/-- In all moments of a run, whoever brings them about, the table accounts for its records. Between the operations of
the run itself every spelling is bound, and the bytes stored are those of the spellings counted. -/
structure Accounting (history : List Moment) : Prop where
  tables : ∀ moment ∈ history, moment.table.Accounted
  kept : history.Pairwise fun first second => second.table.Covers first.table
  whole : ∀ moment ∈ history, moment.asked = none → ∀ spelling symbol,
    moment.table.lexicon.find? spelling = some symbol → (moment.table.find? spelling).isSome
  stored : ∀ moment ∈ history, moment.asked = none →
    moment.table.statistics.storedBytes = moment.table.statistics.totalLength

theorem Sound.accounting {session : Session S (σ × List Moment)} (sound : Sound session) :
    Accounting session.history where
  tables moment member := (sound.moments moment member).distinct.accounted
  kept := by
    have linked : session.history.IsChain fun first second => second.table.Covers first.table :=
      sound.linked.imp fun _ _ leads _ bound => leads.isSome bound
    have transitive : IsTrans Moment fun first second => second.table.Covers first.table :=
      ⟨fun _ _ _ early late spelling bound => late spelling (early spelling bound)⟩
    exact List.isChain_iff_pairwise.mp linked
  whole moment member outer spelling symbol interned := by
    rw [Table.find?, interned, Option.bind_some]
    cases bound : moment.table.bound? symbol with
    | some id => rfl
    | none => exact absurd ⟨symbol, interned, bound⟩ ((sound.moments moment member).settled outer spelling)
  stored moment member outer :=
    (sound.moments moment member).distinct.storedBytes_eq ((sound.moments moment member).settled outer)

theorem sound_start (memory : σ) : Sound (.start (memory, []) : Session S (σ × List Moment)) where
  distinct := Table.distinct_empty
  moments moment member := by cases member
  linked := List.isChain_nil
  latest moment last := by cases last

theorem not_pending_empty (spelling : String) : ¬Table.empty.Pending spelling := by
  intro pending
  obtain ⟨symbol, interned, -⟩ := pending
  have unknown := (Table.distinct_empty.faithful.find?_iff spelling symbol).mp interned
  cases unknown

theorem recordedRun_sound {behaviour : S → String → Script S σ} {depth : Nat} {program : Script S σ} {memory : σ}
    {answer : Option IdentifierId} {final : Session S σ}
    (ran : (Work.perform .enabled (Work.get .enabled behaviour depth) program).on (.start memory) = (.ok answer, final))
    (room : final.table.lexicon.size < 4294967295) :
    (recordedRun behaviour depth program memory).2.forget = final ∧
      Sound (recordedRun behaviour depth program memory).2 ∧
      (historyOf behaviour depth program memory).getLast? = some ⟨none, .answered answer, final.table⟩ := by
  rw [recordedRun_forget, Prod.mk.injEq] at ran
  obtain ⟨succeeds, same⟩ := ran
  have table : (recordedRun behaviour depth program memory).2.table = final.table := congrArg Session.table same
  have noted : recordedRun behaviour depth program memory =
      (.ok answer, (recordedRun behaviour depth program memory).2) := Prod.ext succeeds rfl
  obtain ⟨keeps, last⟩ := Work.perform_keeps (Work.get_fetches behaviour depth)
    (fun _ spelling => not_pending_empty spelling) noted
  rw [table] at last
  exact ⟨same, keeps.sound (table ▸ room) (sound_start memory), last⟩

/-- Whatever a program and its sources do, and whatever the sources answer, as long as nothing fails and there are
symbols left, the records have entries of their own, bindings last, and the statistics add up. The sources look at the
table first, so that the states in which they are asked are among the moments. -/
theorem records_have_own_entries (behaviour : S → String → Script S σ) (depth : Nat) (program : Script S σ) (memory : σ)
    {answer : Option IdentifierId} {final : Session S σ}
    (ran : (Work.perform .enabled (Work.get .enabled behaviour depth) program).on (.start memory) = (.ok answer, final))
    (room : final.table.lexicon.size < 4294967295) :
    (recordedRun (attentive behaviour) depth program memory).2.forget = final ∧
      Accounting (historyOf (attentive behaviour) depth program memory) ∧
      (historyOf (attentive behaviour) depth program memory).getLast? =
        some ⟨none, .answered answer, final.table⟩ := by
  rw [← Work.get_attentive] at ran
  obtain ⟨same, sound, last⟩ := recordedRun_sound ran room
  exact ⟨same, sound.accounting, last⟩

/-- A source that makes a record of what it is asked about, and answers with a handle that names none. -/
def straying : Unit → String → Script Unit Unit := fun _ spelling => .create spelling fun _ => .answer (some ⟨7⟩)

theorem straying_source_is_accounted_for :
    (historyOf (attentive straying) 1 (.attach () (.get "a" fun id => .answer (some id))) ()).map
        (·.table.find? "a") = [none, none, some ⟨0⟩, some ⟨0⟩, some ⟨7⟩, some ⟨7⟩] ∧
      Accounting (historyOf (attentive straying) 1 (.attach () (.get "a" fun id => .answer (some id))) ()) := by
  have answered : ((Work.perform .enabled (Work.get .enabled straying 1)
      (.attach () (.get "a" fun id => .answer (some id)))).on (.start ())).1 = .ok (some ⟨7⟩) := by cbv
  have room : ((Work.perform .enabled (Work.get .enabled straying 1)
      (.attach () (.get "a" fun id => .answer (some id)))).on (.start ())).2.table.lexicon.size < 4294967295 := by cbv
  refine ⟨by cbv, ?_⟩
  exact (records_have_own_entries straying 1 _ () (Prod.ext answered rfl) room).2.1

end Canon.Identifier

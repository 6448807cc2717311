import Canon.Proofs.Identifier.Accounting

/-!
What becomes of a registration that is made while sources are being asked. It is kept if every source answers with
nothing or with the record registered. It is not kept otherwise: an answer is bound to the spelling it was asked for,
whatever the spelling has been bound to meanwhile, so that records handed out before the answer and after it differ.
-/
namespace Canon.Identifier
variable {S σ : Type}

/-- Along linked moments a spelling keeps its record as long as nobody answers for it with another one. -/
theorem find?_of_linked {spelling : String} {record : IdentifierId} {moment : Moment} {later : List Moment}
    (linked : (moment :: later).IsChain fun first second => first.table.Leads first.answer? second.table)
    (registered : moment.table.find? spelling = some record)
    (agreed : ∀ one ∈ moment :: later, ∀ id, one.answer? = some (spelling, id) → id = record) :
    ∀ one ∈ later, one.table.find? spelling = some record := by
  induction later generalizing moment with
  | nil =>
    intro one member
    cases member
  | cons next rest ih =>
    obtain ⟨leads, linked⟩ := List.isChain_cons_cons.mp linked
    have kept : next.table.find? spelling = some record := by
      rcases leads spelling record registered with kept | ⟨other, answered, rebound⟩
      · exact kept
      · rw [rebound, agreed moment List.mem_cons_self other answered]
    have remains := ih linked kept fun one member => agreed one (List.mem_cons_of_mem moment member)
    intro one member
    rcases List.mem_cons.mp member with rfl | after
    · exact kept
    · exact remains one after

/-- Whatever a program and its sources do, as long as nothing fails and there are symbols left: a spelling that is
bound at some moment keeps its record for good, and everyone gets that record, if all who are asked about it from that
moment on answer with nothing or with that record. -/
theorem registrations_yield_only_to_answers (behaviour : S → String → Script S σ) (depth : Nat)
    (program : Script S σ) (memory : σ) {answer : Option IdentifierId} {final : Session S σ}
    (ran : (Work.perform .enabled (Work.get .enabled behaviour depth) program).on (.start memory) = (.ok answer, final))
    (room : final.table.lexicon.size < 4294967295) {earlier later : List Moment} {moment : Moment}
    (split : historyOf behaviour depth program memory = earlier ++ moment :: later) {spelling : String}
    {record : IdentifierId} (registered : moment.table.find? spelling = some record)
    (agreed : ∀ one ∈ moment :: later, ∀ id, one.answer? = some (spelling, id) → id = record) :
    (∀ one ∈ later, one.table.find? spelling = some record ∧ ∀ id, one.deed = .got spelling id → id = record) ∧
      final.table.find? spelling = some record := by
  obtain ⟨-, sound, last⟩ := recordedRun_sound ran room
  have history : (recordedRun behaviour depth program memory).2.history = earlier ++ moment :: later := split
  rw [split] at last
  have linked := sound.linked
  rw [history] at linked
  have kept := find?_of_linked linked.right_of_append registered agreed
  constructor
  · intro one member
    refine ⟨kept one member, fun id got => ?_⟩
    have among : one ∈ (recordedRun behaviour depth program memory).2.history := by
      rw [history]
      exact List.mem_append_right _ (List.mem_cons_of_mem _ member)
    have found := (sound.moments one among).yields spelling id (by rw [got]; rfl)
    rw [kept one member, Option.some.injEq] at found
    exact found.symm
  · have ending : (⟨none, .answered answer, final.table⟩ : Moment) ∈ moment :: later := by
      rw [List.getLast?_append_of_ne_nil _ (List.cons_ne_nil _ _)] at last
      exact List.mem_of_getLast? last
    rcases List.mem_cons.mp ending with only | after
    · rw [← only] at registered
      exact registered
    · exact kept _ after

theorem obliging_registration_is_kept :
    ∃ first moment later, historyOf obliging 1 asking () = [first] ++ moment :: later ∧
      moment.table.find? "a" = some ⟨0⟩ ∧ (later.map Moment.answer?) = [some ("a", ⟨0⟩), none, none] ∧
      ∀ one ∈ later, one.table.find? "a" = some ⟨0⟩ ∧ ∀ id, one.deed = .got "a" id → id = ⟨0⟩ := by
  have view : (historyOf obliging 1 asking ()).map (fun moment => (moment.table.find? "a", moment.answer?)) =
      [(none, none), (some ⟨0⟩, none), (some ⟨0⟩, some ("a", ⟨0⟩)), (some ⟨0⟩, none), (some ⟨0⟩, none)] := by
    cbv
  obtain ⟨first, rest, history, -, view⟩ := List.map_eq_cons_iff.mp view
  obtain ⟨moment, later, rfl, here, view⟩ := List.map_eq_cons_iff.mp view
  obtain ⟨registered, silent⟩ := Prod.mk.inj here
  have answers : later.map Moment.answer? = [some ("a", ⟨0⟩), none, none] := by
    have seconds := congrArg (List.map Prod.snd) view
    rw [List.map_map] at seconds
    exact seconds
  have agreed : ∀ one ∈ moment :: later, ∀ id, one.answer? = some ("a", id) → id = ⟨0⟩ := by
    intro one member id answered
    rcases List.mem_cons.mp member with rfl | after
    · rw [silent] at answered
      cases answered
    · have among := List.mem_map_of_mem (f := Moment.answer?) after
      rw [answers, answered] at among
      simp only [List.mem_cons, List.not_mem_nil, Option.some.injEq, Prod.mk.injEq, true_and, reduceCtorEq, or_false]
        at among
      exact among
  have answered : ((Work.perform .enabled (Work.get .enabled obliging 1) asking).on (.start ())).1 =
      .ok (some ⟨0⟩) := by cbv
  have room : ((Work.perform .enabled (Work.get .enabled obliging 1) asking).on
      (.start ())).2.table.lexicon.size < 4294967295 := by cbv
  have split : historyOf obliging 1 asking () = [first] ++ moment :: later := history
  refine ⟨first, moment, later, split, registered, answers, ?_⟩
  exact (registrations_yield_only_to_answers obliging 1 asking () (Prod.ext answered rfl) room split registered agreed).1

/-- A source that makes a record of what it is asked about, and answers with the record of another spelling. -/
def fickle : Unit → String → Script Unit Unit := fun _ spelling =>
  .create spelling fun _ => .observe fun table => .answer (table.find? "a")

/-- Gets records of two spellings, of the second one while there is a source. -/
def gettingTwo : Script Unit Unit := .get "a" fun _ => .attach () (.get "b" fun id => .answer (some id))

/-- The record that a source has made is the record of its spelling while the source works, and not any more once the
source has answered with another record of the table: that one is what the look-up yields. -/
theorem answers_overwrite_registrations :
    (recordedRun fickle 1 gettingTwo ()).1 = .ok (some ⟨0⟩) ∧
    (historyOf fickle 1 gettingTwo ()).map
        (fun moment => (moment.table.find? "a", moment.table.find? "b", moment.answer?)) =
      [(some ⟨0⟩, none, none), (some ⟨0⟩, none, none), (some ⟨0⟩, some ⟨1⟩, none), (some ⟨0⟩, some ⟨1⟩, none),
        (some ⟨0⟩, some ⟨1⟩, some ("b", ⟨0⟩)), (some ⟨0⟩, some ⟨0⟩, none), (some ⟨0⟩, some ⟨0⟩, none)] := by
  constructor
  · cbv
  · cbv

end Canon.Identifier

import Canon.Identifier.Prepared
import Canon.Proofs.Identifier.Steps

/-!
How deep prepared sources ask one another. While a source is asked the chain holds only what is attached meanwhile, and
no source attaches one as deep as itself. So every level of look-ups meets sources that are less deep, and the depth of
the deepest source in the chain is enough.
-/
namespace Canon.Identifier
variable {α β : Type} {checks : Checks} {levels : Nat}

def PreparedSession.Within (levels : Nat) (session : PreparedSession) : Prop :=
  ∀ attached ∈ session.chain, attached.source.depth ≤ levels

namespace PreparedSession
variable {session : PreparedSession}

theorem le_foldl_max (depths : List Nat) (least : Nat) :
    least ≤ depths.foldl max least ∧ ∀ depth ∈ depths, depth ≤ depths.foldl max least := by
  induction depths generalizing least with
  | nil => exact ⟨Nat.le_refl least, fun _ member => by cases member⟩
  | cons first rest ih =>
    obtain ⟨grown, others⟩ := ih (max least first)
    refine ⟨Nat.le_trans (Nat.le_max_left least first) grown, fun depth member => ?_⟩
    rcases List.mem_cons.mp member with rfl | later
    · exact Nat.le_trans (Nat.le_max_right least depth) grown
    · exact others depth later

theorem within_allowance (session : PreparedSession) : session.Within session.allowance :=
  fun _ member => (le_foldl_max _ 0).2 _ (List.mem_map_of_mem member)

theorem Within.nil (within : session.Within 0) : session.chain = [] := by
  rcases chain : session.chain with - | ⟨⟨serial, ⟨name, known, steps⟩⟩, rest⟩
  · rfl
  · have deep := within ⟨serial, ⟨name, known, steps⟩⟩ (chain ▸ List.mem_cons_self)
    simp [Prepared.depth] at deep

end PreparedSession

namespace Work

/-- Work that gets by with so many levels, and attaches no source that needs more. -/
def Suffices (levels : Nat) (work : Work Prepared Unit α) : Prop :=
  ∀ session : PreparedSession, session.Within levels →
    (work.on session).1 ≠ .error .consultationTooDeep ∧ PreparedSession.Within levels (work.on session).2

namespace Suffices
variable {work : Work Prepared Unit α}

theorem pure (result : α) : Suffices levels (Pure.pure result : Work Prepared Unit α) :=
  fun _ within => ⟨nofun, within⟩

theorem fail {fault : Fault} (other : fault ≠ .consultationTooDeep) :
    Suffices levels (throw fault : Work Prepared Unit α) :=
  fun _ within => ⟨fun same => other (Except.error.inj same), within⟩

theorem bind (first : Suffices levels work) {rest : α → Work Prepared Unit β}
    (next : ∀ result, Suffices levels (rest result)) : Suffices levels (work >>= rest) := by
  intro session within
  obtain ⟨passed, later⟩ := first session within
  rw [on_bind]
  rcases run : work.on session with ⟨outcome, after⟩
  rw [run] at passed later
  cases outcome with
  | ok result => exact next result after later
  | error fault => exact ⟨fun same => passed (congrArg Except.error (Except.error.inj same)), later⟩

theorem onTable (change : Table → α × Table) : Suffices levels (onTable change) := fun _ within => ⟨nofun, within⟩

theorem look (view : Table → α) : Suffices levels (look view) := fun _ within => ⟨nofun, within⟩

theorem note (source : Attached Prepared) (spelling : String) : Suffices levels (note source spelling) :=
  fun _ within => ⟨nofun, within⟩

theorem clear : Suffices levels clear := fun _ _ => ⟨nofun, fun _ member => by cases member⟩

theorem attach {source : Prepared} (shallow : source.depth ≤ levels) : Suffices levels (attach source) := by
  intro session within
  refine ⟨nofun, fun attached member => ?_⟩
  rcases List.mem_append.mp member with old | new
  · exact within attached old
  · rw [List.mem_singleton.mp new]
    exact shallow

theorem replace {source : Prepared} (shallow : source.depth ≤ levels) : Suffices levels (replace source) :=
  clear.bind fun _ => attach shallow

theorem info (id : IdentifierId) {rest : Record → Work Prepared Unit β} (next : ∀ record, Suffices levels (rest record)) :
    Suffices levels (do
      match ← Work.look (·.info id) with
      | .error fault => throw fault
      | .ok record => rest record) := by
  intro session within
  rw [on_bind, look_on]
  dsimp only [Table.info, Registry.get]
  cases session.table.records.get? id with
  | some record => exact next record session within
  | none =>
    have unknown : session.table.records.unknown id ≠ .consultationTooDeep := nofun
    exact fail unknown session within

theorem create (spelling : String) : Suffices levels (create checks spelling) := by
  intro session within
  rw [create_on]
  refine ⟨?_, within⟩
  unfold Table.create
  dsimp only
  split <;> exact nofun

theorem update (id : IdentifierId) (setter : Setter) : Suffices levels (update checks id setter) := by
  refine info id fun record => ?_
  have passed : setter.apply checks record ≠ .error .consultationTooDeep := by
    cases setter with
    | builtin number =>
      change record.setBuiltin checks number ≠ _
      unfold Record.setBuiltin
      split <;> exact nofun
    | token | mark | frontEnd => exact nofun
  cases applied : setter.apply checks record with
  | error fault => exact fail fun same => passed (applied.trans (congrArg Except.error same))
  | ok changed => exact onTable _

section
variable {getting : String → Work Prepared Unit IdentifierId} (gets : ∀ spelling, Suffices levels (getting spelling))
include gets

theorem registerKeywords (dialect : Dialect) : Suffices levels (registerKeywords getting dialect) := by
  unfold Work.registerKeywords
  induction dialect.keywords with
  | nil => exact pure ()
  | cons active rest ih =>
    have registered : Suffices levels (registerKeyword getting active) :=
      (gets active.spelling).bind fun id => info id fun _ => onTable _
    exact registered.bind fun _ => ih

/-- The steps of a source ask nobody themselves, and what they attach is at most as deep as they are. -/
theorem follow (asked : String) (steps : List (Step Prepared)) (record : Option IdentifierId)
    (shallow : Prepared.depthOfSteps steps ≤ levels) :
    Suffices levels (perform checks getting (Prepared.follow checks asked steps record)) := by
  induction steps generalizing record with
  | nil => exact pure none
  | cons step rest ih =>
    rw [Prepared.depthOfSteps, Nat.max_le] at shallow
    obtain ⟨first, others⟩ := shallow
    cases step with
    | create spelling => exact (create _).bind fun id => ih (some id) others
    | get spelling => exact (gets _).bind fun id => ih (some id) others
    | find spelling => exact (look id).bind fun table => ih (table.find? (spelling.getD asked)) others
    | refer number =>
      rw [Prepared.follow]
      unfold Handle.ofNumber
      by_cases refused : checks = .enabled ∧ number.toNat = Handle.reserved
      · simp only [if_pos refused]
        exact fail nofun
      · simp only [if_neg refused]
        exact ih (some ⟨number⟩) others
    | note mark =>
      cases record with
      | none => exact pure none
      | some id => exact (update id _).bind fun _ => ih (some id) others
    | attach source => exact (attach (by simpa only [Prepared.depthOfStep] using first)).bind fun _ => ih record others
    | replace source => exact (replace (by simpa only [Prepared.depthOfStep] using first)).bind fun _ => ih record others
    | clear => exact clear.bind fun _ => ih record others
    | answer => exact pure record

theorem consult (spelling : String) (chain : List (Attached Prepared))
    (shallow : ∀ attached ∈ chain, attached.source.depth ≤ levels + 1) :
    Suffices levels (consult checks (Prepared.behaviour checks) getting spelling chain) := by
  induction chain with
  | nil => exact pure none
  | cons source rest ih =>
    obtain ⟨first, others⟩ := List.forall_mem_cons.mp shallow
    have performed : Suffices levels (perform checks getting (Prepared.behaviour checks source.source spelling)) := by
      obtain ⟨serial, ⟨name, known, steps⟩⟩ := source
      unfold Prepared.behaviour
      split
      · rw [Prepared.depth] at first
        exact follow gets spelling steps none (Nat.le_of_succ_le_succ first)
      · exact pure none
    refine (note source spelling).bind fun _ => performed.bind fun answer => ?_
    cases answer with
    | some id => exact pure (some id)
    | none => exact ih others

end

/-- Sources that need one level less while they are asked need no more once the chain is back. -/
theorem resolveByChain {asking : List (Attached Prepared) → Work Prepared Unit (Option IdentifierId)}
    (asks : ∀ chain : List (Attached Prepared),
      (∀ attached ∈ chain, attached.source.depth ≤ levels + 1) → Suffices levels (asking chain)) (symbol : Symbol) :
    Suffices (levels + 1) (resolveByChain asking symbol) := by
  intro session within
  obtain ⟨passed, later⟩ := asks session.chain within { session with chain := [] } (fun _ member => by cases member)
  unfold Work.resolveByChain
  rw [on_bind, detachChain_on]
  dsimp only
  rw [on_bind]
  rcases run : (asking session.chain).on { session with chain := [] } with ⟨outcome, after⟩
  rw [run] at passed later
  cases outcome with
  | error fault =>
    exact ⟨fun same => passed (congrArg Except.error (Except.error.inj same)),
      fun attached member => Nat.le_succ_of_le (later attached member)⟩
  | ok found =>
    dsimp only
    rw [on_bind, reattachChain_on]
    have back : PreparedSession.Within (levels + 1) { after with chain := session.chain ++ after.chain } := by
      intro attached member
      rcases List.mem_append.mp member with old | new
      · exact within attached old
      · exact Nat.le_succ_of_le (later attached new)
    cases found with
    | some id => exact (onTable _).bind (fun _ => pure id) _ back
    | none =>
      refine (look _).bind (fun bound => ?_) _ back
      cases bound with
      | some id => exact pure id
      | none => exact onTable _

theorem getBy {asking : String → List (Attached Prepared) → Work Prepared Unit (Option IdentifierId)}
    (resolves : ∀ spelling symbol, Suffices levels (resolve (asking spelling) symbol)) (spelling : String) :
    Suffices levels (getBy asking spelling) := by
  refine (onTable _).bind fun symbol => (look _).bind fun bound => ?_
  cases bound with
  | some id => exact pure id
  | none => exact resolves spelling symbol

/-- As many levels as the deepest source in the chain has are enough. -/
theorem get (levels : Nat) (spelling : String) :
    Suffices levels (get checks (Prepared.behaviour checks) levels spelling) := by
  induction levels generalizing spelling with
  | zero =>
    refine getBy (fun spelling symbol session within => ?_) spelling
    rw [resolve_on, if_pos (List.isEmpty_iff.mpr within.nil)]
    exact onTable _ session within
  | succ levels ih =>
    refine getBy (fun spelling symbol session within => ?_) spelling
    rw [resolve_on]
    split
    · exact onTable _ session within
    · exact resolveByChain (consult ih spelling) symbol session within

end Suffices
end Work

namespace PreparedSession

theorem get_ne_tooDeep (spelling : String) (session : PreparedSession) :
    (session.get checks spelling).1 ≠ .error .consultationTooDeep :=
  (Work.Suffices.get session.allowance spelling session session.within_allowance).1

theorem addKeywords_ne_tooDeep (dialect : Dialect) (session : PreparedSession) :
    (session.addKeywords checks dialect).1 ≠ .error .consultationTooDeep :=
  (Work.Suffices.registerKeywords (Work.Suffices.get session.allowance) dialect session session.within_allowance).1

end PreparedSession
end Canon.Identifier

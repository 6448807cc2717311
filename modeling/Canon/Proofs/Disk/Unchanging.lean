import Canon.Disk.Host
import Canon.Proofs.Survey.Unchanging

/-!
A file tree that nobody changes gives surroundings that do not change, so all that is said about runs over those holds for
runs over a tree. Paths have one identity if they lead to one node.
-/
namespace Canon.Disk.Tree
open Canon.File
variable {ω : Type} {tree : Tree} {path other : String}

theorem unchanging_host (tree : Tree) : (tree.host : Host (StateM ω)).Unchanging tree.stat tree.read :=
  ⟨fun _ _ => rfl, fun _ _ => rfl⟩

theorem stat_eq_ok {stat : Stat} : tree.stat path = .ok stat ↔
    ∃ number node, tree.resolve path = .ok number ∧ tree.nodes[number]? = some node ∧ describe number node = stat := by
  unfold Tree.stat
  cases tree.resolve path with
  | error error => simp [bind, Except.bind]
  | ok number =>
    cases entered : tree.nodes[number]? with
    | none => simp [bind, Except.bind, entered]
    | some node => simp [bind, Except.bind, pure, Except.pure, entered]

theorem identity_describe (number : Nat) (node : Node) :
    (describe number node).identity = ⟨1, UInt64.ofNat (number + 1)⟩ := by
  cases node with
  | directory | regular | link | socket => rfl

/-- Two paths have the same identity if and only if they lead to the same node. -/
theorem identity_eq_iff (few : tree.nodes.size < UInt64.size) {one two : Stat} (first : tree.stat path = .ok one)
    (second : tree.stat other = .ok two) : one.identity = two.identity ↔ tree.resolve path = tree.resolve other := by
  obtain ⟨left, here, leads, entered, rfl⟩ := stat_eq_ok.mp first
  obtain ⟨right, there, also, recorded, rfl⟩ := stat_eq_ok.mp second
  have below : left < tree.nodes.size := (Array.getElem?_eq_some_iff.mp entered).choose
  have under : right < tree.nodes.size := (Array.getElem?_eq_some_iff.mp recorded).choose
  rw [identity_describe, identity_describe, leads, also]
  constructor
  · intro same
    have numbers := congrArg (fun identity => identity.inode.toNat) same
    have whole (number : Nat) (inside : number < tree.nodes.size) : (UInt64.ofNat (number + 1)).toNat = number + 1 :=
      UInt64.toNat_ofNat_of_lt' (Nat.lt_of_le_of_lt inside few)
    dsimp only at numbers
    rw [whole left below, whole right under] at numbers
    rw [Nat.succ.inj numbers]
  · intro same
    rw [Except.ok.inj same]

theorem stat_of_read {bytes : List UInt8} (granted : tree.read path = .ok bytes) :
    ∃ stat, tree.stat path = .ok stat ∧ stat.isDirectory = false ∧ stat.size = .ofNat bytes.length := by
  unfold read at granted
  cases leads : tree.resolve path with
  | error error =>
    rw [leads] at granted
    cases granted
  | ok number =>
    rw [leads] at granted
    dsimp only at granted
    split at granted
    case h_1 content mode modified entered =>
      split at granted
      · cases granted
      · cases granted
        exact ⟨_, stat_eq_ok.mpr ⟨number, _, leads, entered, rfl⟩, rfl, rfl⟩
    all_goals cases granted

end Canon.Disk.Tree

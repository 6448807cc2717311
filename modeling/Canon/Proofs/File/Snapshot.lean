import Canon.File.Snapshot
import Canon.Proofs.File.Stateless

/-!
A snapshot as a file system. What it keeps of its questions is the log of a run, and it answers all of them as it was
prepared to.
-/
namespace Canon.File.Snapshot

/-- A snapshot that was asked what a log says, and has answered it. -/
structure Follows (prepared : Snapshot) (watched : Watched Snapshot) : Prop where
  answers : watched.world.answers = prepared.answers
  asked : watched.world.asked.toList = prepared.asked.toList ++ watched.log.map Probe.path
  truthful : Truthful prepared.answer watched.log

theorem Follows.ask {prepared : Snapshot} {watched : Watched Snapshot} (follows : prepared.Follows watched)
    (sought : Sought) (path : String) : prepared.Follows ((Watched.ask Snapshot.stat sought path).run watched).2 where
  answers := follows.answers
  asked := by
    show (watched.world.asked.push path).toList = _ ++ (watched.log ++ [_]).map Probe.path
    rw [Array.toList_push, follows.asked, List.map_append, List.append_assoc]
    rfl
  truthful := by
    refine follows.truthful.concat sought ?_
    rw [answer, ← follows.answers]
    rfl

theorem follows_run (prepared : Snapshot) (requests : List Request) :
    prepared.Follows (Visit.run Snapshot.stat prepared requests).watched := by
  apply Visit.run_keeps
  · exact fun _ sought path follows => follows.ask sought path
  · exact ⟨rfl, (List.append_nil _).symm, nofun⟩

end Canon.File.Snapshot

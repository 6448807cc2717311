import Canon.Proofs.File.Recount

/-!
What holds of every run of look-ups. The catalogue is what the log makes of it, every answer ever given is still
the answer, and what has been recorded stays as it is.
-/
namespace Canon.File
variable {ω : Type}

def Call.request : Call → Request
  | .directory path _ => .directory path
  | .file path _ => .file path

def Call.Stands (catalogue : Catalogue) : Call → Prop
  | .directory path answer => catalogue.directoryAt path = .ofAnswer answer
  | .file path answer => catalogue.fileAt path = .ofAnswer answer

theorem exists_file_call {calls : List Call} {requests : List Request} (answered : calls.map Call.request = requests)
    {path : String} (asked : .file path ∈ requests) : ∃ answer, .file path answer ∈ calls := by
  rw [← answered] at asked
  obtain ⟨call, member, request⟩ := List.mem_map.mp asked
  cases call with
  | directory _ _ => cases request
  | file _ answer =>
    cases request
    exact ⟨answer, member⟩

namespace Visit

/-- Why something is remembered about the path of a file: it has no directory part, there was no directory to look
into, or the file system was asked. -/
def Reasoned (visit : Visit ω) (path : String) : Prop :=
  parent? path = none ∨ (∃ parent, parent? path = some parent ∧ visit.catalogue.directoryAt parent = .missing) ∨
    ∃ probe ∈ visit.log, probe.sought = .file ∧ probe.path = path

structure Consistent (visit : Visit ω) : Prop where
  recounts : visit.catalogue.Recounts visit.log
  stands : ∀ call ∈ visit.calls, call.Stands visit.catalogue
  reasoned : ∀ path, visit.catalogue.fileAt path ≠ .unknown → visit.Reasoned path
  names : visit.catalogue.names.size ≤ 2 * visit.calls.length
  log : visit.log.length ≤ 2 * visit.calls.length

structure Continues (before after : Visit ω) : Prop where
  log : before.log <+: after.log
  remembers : before.catalogue.Remembers after.catalogue
  fileAt : ∀ path, before.catalogue.fileAt path ≠ .unknown →
    after.catalogue.fileAt path = before.catalogue.fileAt path
  directories : before.catalogue.directories.values <+: after.catalogue.directories.values
  files : before.catalogue.files.values <+: after.catalogue.files.values

theorem Continues.refl (visit : Visit ω) : visit.Continues visit :=
  ⟨List.prefix_refl _, .refl _, fun _ _ => rfl, List.prefix_refl _, List.prefix_refl _⟩

theorem Continues.trans {first second third : Visit ω} (early : first.Continues second) (late : second.Continues third) :
    first.Continues third where
  log := early.log.trans late.log
  remembers := early.remembers.trans late.remembers
  fileAt path known := by
    have same := early.fileAt path known
    rw [late.fileAt path (same ▸ known), same]
  directories := early.directories.trans late.directories
  files := early.files.trans late.files

section
variable {before after : Visit ω}

theorem Continues.stands (continues : before.Continues after) {call : Call} (stands : call.Stands before.catalogue) :
    call.Stands after.catalogue := by
  cases call with
  | directory path answer =>
    have known : before.catalogue.directoryAt path = .ofAnswer answer := stands
    exact (continues.remembers.directories path (known ▸ Resolution.ofAnswer_ne_unknown answer)).trans known
  | file path answer =>
    have known : before.catalogue.fileAt path = .ofAnswer answer := stands
    exact (continues.fileAt path (known ▸ Resolution.ofAnswer_ne_unknown answer)).trans known

theorem Continues.reasoned (continues : before.Continues after) {path : String} (reasoned : before.Reasoned path) :
    after.Reasoned path := by
  rcases reasoned with bare | ⟨parent, above, missing⟩ | ⟨probe, member, asked⟩
  · exact .inl bare
  · right; left
    refine ⟨parent, above, ?_⟩
    rw [continues.remembers.directories parent (by simp [missing]), missing]
  · exact .inr (.inr ⟨probe, continues.log.subset member, asked⟩)

end

theorem consistent_start (world : ω) : (start world).Consistent where
  recounts := Catalogue.recounts_empty
  stands := by simp [start]
  reasoned path known := absurd (Catalogue.fileAt_empty path) known
  names := Nat.le_refl 0
  log := Nat.le_refl 0

theorem Consistent.step {before after : Visit ω} {call : Call} (consistent : before.Consistent)
    (continues : before.Continues after) (recounts : after.catalogue.Recounts after.log)
    (calls : after.calls = before.calls ++ [call]) (stands : call.Stands after.catalogue)
    (reasoned : ∀ path, before.catalogue.fileAt path = .unknown → after.catalogue.fileAt path ≠ .unknown →
      after.Reasoned path)
    (names : after.catalogue.names.size ≤ before.catalogue.names.size + 2)
    (log : after.log.length ≤ before.log.length + 2) : after.Consistent where
  recounts := recounts
  stands := by
    intro earlier member
    rw [calls] at member
    rcases List.mem_append.mp member with old | last
    · exact continues.stands (consistent.stands earlier old)
    · rw [List.mem_singleton.mp last]
      exact stands
  reasoned := by
    intro path known
    by_cases unknown : before.catalogue.fileAt path = .unknown
    · exact reasoned path unknown known
    · exact continues.reasoned (consistent.reasoned path unknown)
  names := by
    have early := consistent.names
    rw [calls, List.length_append, List.length_singleton]
    omega
  log := by
    have early := consistent.log
    rw [calls, List.length_append, List.length_singleton]
    omega

theorem Consistent.serve {visit : Visit ω} (consistent : visit.Consistent) (few : visit.calls.length + 1 < 2147483648)
    (system : FileSystem ω) (request : Request) :
    (visit.serve system request).Consistent ∧ visit.Continues (visit.serve system request) ∧
      ∃ call : Call, (visit.serve system request).calls = visit.calls ++ [call] ∧ call.request = request := by
  have names := consistent.names
  have log : visit.watched.log.length ≤ 2 * visit.calls.length := consistent.log
  have recounted : visit.catalogue.Recounts visit.watched.log := consistent.recounts
  cases request with
  | directory path =>
    rcases outcome : (visit.catalogue.directoryBy (Watched.ask system) path).run visit.watched with
      ⟨⟨answer, after⟩, later⟩
    have served : visit.serve system (.directory path) = ⟨after, later, visit.calls ++ [.directory path answer]⟩ := by
      simp only [Visit.serve, outcome]
    obtain ⟨recounts, looked⟩ := recounted.directoryBy (by omega) (by omega) system outcome
    have continues : visit.Continues ⟨after, later, visit.calls ++ [.directory path answer]⟩ :=
      { log := looked.log_prefix
        remembers := looked.remembers
        fileAt := fun _ _ => by rw [looked.fileAt]
        directories := looked.directories
        files := looked.files.symm ▸ List.prefix_refl _ }
    rw [served]
    refine ⟨consistent.step continues recounts rfl looked.answered ?_ ?_ ?_, continues, _, rfl, rfl⟩
    · intro other unknown known
      exact absurd (looked.fileAt ▸ unknown) known
    · exact Nat.le_succ_of_le looked.size_names_le
    · exact Nat.le_succ_of_le looked.length_log_le
  | file path =>
    rcases outcome : (visit.catalogue.fileBy (Watched.ask system) path).run visit.watched with
      ⟨⟨answer, after⟩, later⟩
    have served : visit.serve system (.file path) = ⟨after, later, visit.calls ++ [.file path answer]⟩ := by
      simp only [Visit.serve, outcome]
    obtain ⟨recounts, looked⟩ := recounted.fileBy (by omega) (by omega) system outcome
    have continues : visit.Continues ⟨after, later, visit.calls ++ [.file path answer]⟩ :=
      { log := looked.asked
        remembers := looked.remembers
        fileAt := looked.fileAt_eq
        directories := looked.directories
        files := looked.files }
    rw [served]
    refine ⟨consistent.step continues recounts rfl looked.answered ?_ looked.names looked.length, continues, _, rfl,
      rfl⟩
    intro other unknown known
    by_cases same : other = path
    · subst other
      exact looked.reason unknown
    · exact absurd ((looked.others other same).trans unknown) known

theorem Consistent.serveAll {visit : Visit ω} (consistent : visit.Consistent) (system : FileSystem ω)
    (requests : List Request) (few : visit.calls.length + requests.length < 2147483648) :
    (visit.serveAll system requests).Consistent ∧ visit.Continues (visit.serveAll system requests) ∧
      (visit.serveAll system requests).calls.map Call.request = visit.calls.map Call.request ++ requests := by
  induction requests generalizing visit with
  | nil => exact ⟨consistent, .refl visit, (List.append_nil _).symm⟩
  | cons request requests ih =>
    rw [List.length_cons] at few
    obtain ⟨next, first, call, grown, answered⟩ := consistent.serve (by omega) system request
    have count : (visit.serve system request).calls.length = visit.calls.length + 1 := by
      rw [grown, List.length_append, List.length_singleton]
    obtain ⟨last, rest, all⟩ := ih next (by omega)
    refine ⟨last, first.trans rest, ?_⟩
    rw [serveAll_cons, all, grown, List.map_append, List.map_singleton, answered, List.append_assoc,
      List.singleton_append]

/-- Every run of so few requests that no number saturates ends in a consistent visit, which answers the requests. -/
theorem consistent_run (system : FileSystem ω) (world : ω) (requests : List Request)
    (few : requests.length < 2147483648) :
    (run system world requests).Consistent ∧ (run system world requests).calls.map Call.request = requests := by
  have empty : (start world).calls.length + requests.length < 2147483648 := by simpa [start] using few
  obtain ⟨consistent, -, answered⟩ := (consistent_start world).serveAll system requests empty
  exact ⟨consistent, answered⟩

theorem length_log_lt {visit : Visit ω} (consistent : visit.Consistent) {requests : List Request}
    (answered : visit.calls.map Call.request = requests) (few : requests.length < 2147483648) :
    visit.log.length < 4294967296 := by
  have count : visit.calls.length = requests.length := by rw [← answered, List.length_map]
  have log := consistent.log
  omega

theorem continues_run (system : FileSystem ω) (world : ω) (earlier later : List Request)
    (few : (earlier ++ later).length < 2147483648) :
    (run system world earlier).Continues (run system world (earlier ++ later)) := by
  rw [List.length_append] at few
  obtain ⟨consistent, answered⟩ := consistent_run system world earlier (by omega)
  have count : (run system world earlier).calls.length = earlier.length := by
    rw [← List.length_map, answered]
  rw [run_append]
  exact (consistent.serveAll system later (by omega)).2.1

end Visit
end Canon.File

import Mathlib
import Canon.Proofs.File.Stateless

/-!
Answers are permanent. What a look-up has answered once is answered by every later look-up of the same path, which
asks the file system nothing and changes nothing but a counter, even if the file system has changed meanwhile.
-/
namespace Canon.File
variable {ω : Type}

def Counters.counting (counters : Counters) : Request → Counters
  | .directory _ => { counters with directoryLookups := counters.directoryLookups + 1 }
  | .file _ => { counters with fileLookups := counters.fileLookups + 1 }

def Counters.lookups (counters : Counters) : Request → UInt32
  | .directory _ => counters.directoryLookups
  | .file _ => counters.fileLookups

theorem Counters.lookups_counting (counters : Counters) (request : Request) :
    (counters.counting request).lookups request = counters.lookups request + 1 := by
  cases request with
  | directory path => rfl
  | file path => rfl

theorem exists_name {κ : Type} {names : Lexicon} {paths : Overlay Symbol (Resolution κ)} {path : String}
    (known : resolution names paths path ≠ .unknown) :
    ∃ name, names.find? path = some name ∧ paths.get name = resolution names paths path := by
  unfold resolution at known ⊢
  cases found : names.find? path with
  | some name => exact ⟨name, rfl, rfl⟩
  | none =>
    rw [found] at known
    exact absurd rfl known

namespace Catalogue
variable {catalogue : Catalogue} {path : String}

def counting (catalogue : Catalogue) (request : Request) : Catalogue :=
  { catalogue with counters := catalogue.counters.counting request }

theorem beginDirectory_known {name : Symbol} (symbol : catalogue.names.find? path = some name) :
    catalogue.beginDirectory path = (name, catalogue.counting (.directory path)) := by
  simp only [beginDirectory, internPath, Lexicon.intern_of_find? symbol]
  rfl

theorem beginFile_known {name : Symbol} (symbol : catalogue.names.find? path = some name) :
    catalogue.beginFile path = (name, catalogue.counting (.file path)) := by
  simp only [beginFile, internPath, Lexicon.intern_of_find? symbol]
  rfl

theorem directoryBy_known {answer : Option DirectoryId} (known : catalogue.directoryAt path = .ofAnswer answer)
    (system : FileSystem ω) (watched : Watched ω) :
    (catalogue.directoryBy (Watched.ask system) path).run watched =
      ((answer, catalogue.counting (.directory path)), watched) := by
  obtain ⟨name, symbol, remembered⟩ := exists_name (known ▸ Resolution.ofAnswer_ne_unknown answer)
  have read : (catalogue.counting (.directory path)).directoryPaths.get name = .ofAnswer answer :=
    remembered.trans known
  obtain ⟨id, found, equal⟩ | ⟨missing, equal⟩ | ⟨unknown, -⟩ | ⟨unknown, -⟩ :=
    directoryBy_cases system path catalogue watched (beginDirectory_known symbol)
  · cases answer with
    | some other =>
      cases read.symm.trans found
      exact equal
    | none => cases read.symm.trans found
  · cases answer with
    | some other => cases read.symm.trans missing
    | none => exact equal
  all_goals exact absurd (read.symm.trans unknown) (Resolution.ofAnswer_ne_unknown answer)

theorem fileBy_known {answer : Option FileId} (known : catalogue.fileAt path = .ofAnswer answer)
    (system : FileSystem ω) (watched : Watched ω) :
    (catalogue.fileBy (Watched.ask system) path).run watched =
      ((answer, catalogue.counting (.file path)), watched) := by
  obtain ⟨name, symbol, remembered⟩ := exists_name (known ▸ Resolution.ofAnswer_ne_unknown answer)
  have read : (catalogue.counting (.file path)).filePaths.get name = .ofAnswer answer := remembered.trans known
  obtain ⟨id, found, equal⟩ | ⟨missing, equal⟩ | ⟨unknown, -⟩ | ⟨unknown, -⟩ | ⟨unknown, -⟩ | ⟨unknown, -⟩ :=
    fileBy_cases system path catalogue watched (beginFile_known symbol)
  · cases answer with
    | some other =>
      cases read.symm.trans found
      exact equal
    | none => cases read.symm.trans found
  · cases answer with
    | some other => cases read.symm.trans missing
    | none => exact equal
  all_goals exact absurd (read.symm.trans unknown) (Resolution.ofAnswer_ne_unknown answer)

theorem settleDirectory_counters (catalogue : Catalogue) (name : Symbol) (stat : Stat) :
    (catalogue.settleDirectory name stat).2.counters = catalogue.counters := by
  unfold settleDirectory
  split <;> rfl

theorem settleFile_counters (catalogue : Catalogue) (name : Symbol) (directory : DirectoryId) (stat : Stat) :
    (catalogue.settleFile name directory stat).2.counters = catalogue.counters := by
  unfold settleFile
  split <;> rfl

theorem directoryBy_lookups (system : FileSystem ω) {after : Catalogue} {watched later : Watched ω}
    {answer : Option DirectoryId}
    (outcome : (catalogue.directoryBy (Watched.ask system) path).run watched = ((answer, after), later)) :
    after.counters.directoryLookups = catalogue.counters.directoryLookups + 1 ∧
      after.counters.fileLookups = catalogue.counters.fileLookups := by
  rcases beginning : catalogue.beginDirectory path with ⟨name, begun⟩
  have begins : begun.counters = catalogue.counters.counting (.directory path) := by
    cases beginning
    rfl
  obtain ⟨id, -, equal⟩ | ⟨-, equal⟩ | ⟨-, reply, world, -, -, equal⟩ |
    ⟨-, reply, world, stat, id, settled, -, -, settling, equal⟩ :=
    directoryBy_cases system path catalogue watched beginning
  · cases equal.symm.trans outcome
    rw [begins]
    exact ⟨rfl, rfl⟩
  · cases equal.symm.trans outcome
    rw [begins]
    exact ⟨rfl, rfl⟩
  · cases equal.symm.trans outcome
    show begun.counters.directoryLookups = _ ∧ begun.counters.fileLookups = _
    rw [begins]
    exact ⟨rfl, rfl⟩
  · cases equal.symm.trans outcome
    have counters := settleDirectory_counters (begun.missDirectory name) name stat
    rw [settling] at counters
    rw [counters]
    show begun.counters.directoryLookups = _ ∧ begun.counters.fileLookups = _
    rw [begins]
    exact ⟨rfl, rfl⟩

theorem fileBy_lookups (system : FileSystem ω) {after : Catalogue} {watched later : Watched ω}
    {answer : Option FileId}
    (outcome : (catalogue.fileBy (Watched.ask system) path).run watched = ((answer, after), later)) :
    after.counters.fileLookups = catalogue.counters.fileLookups + 1 ∧
      (after.counters.directoryLookups = catalogue.counters.directoryLookups ∨
        after.counters.directoryLookups = catalogue.counters.directoryLookups + 1) := by
  rcases beginning : catalogue.beginFile path with ⟨name, begun⟩
  have begins : begun.counters = catalogue.counters.counting (.file path) := by
    cases beginning
    rfl
  have files : begun.counters.fileLookups = catalogue.counters.fileLookups + 1 := by
    rw [begins]
    rfl
  have directories : begun.counters.directoryLookups = catalogue.counters.directoryLookups := by
    rw [begins]
    rfl
  obtain ⟨id, -, equal⟩ | ⟨-, equal⟩ | ⟨-, -, equal⟩ | ⟨-, parent, within, middle, -, nested, equal⟩ |
    ⟨-, parent, directory, within, middle, reply, world, -, nested, -, -, equal⟩ |
    ⟨-, parent, directory, within, middle, reply, world, stat, id, settled, -, nested, -, -, settling, equal⟩ :=
    fileBy_cases system path catalogue watched beginning
  · cases equal.symm.trans outcome
    exact ⟨files, .inl directories⟩
  · cases equal.symm.trans outcome
    exact ⟨files, .inl directories⟩
  · cases equal.symm.trans outcome
    exact ⟨files, .inl directories⟩
  all_goals
    obtain ⟨once, same⟩ := directoryBy_lookups system nested
    have fileOnce : within.counters.fileLookups = catalogue.counters.fileLookups + 1 := same.trans files
    have directoryOnce : within.counters.directoryLookups = catalogue.counters.directoryLookups + 1 := by
      rw [once, ← directories]
      rfl
    cases equal.symm.trans outcome
  · exact ⟨fileOnce, .inr directoryOnce⟩
  · exact ⟨fileOnce, .inr directoryOnce⟩
  · have counters := settleFile_counters within name directory stat
    rw [settling] at counters
    rw [counters]
    exact ⟨fileOnce, .inr directoryOnce⟩

end Catalogue

theorem toNat_add_one_le (number : UInt32) : (number + 1).toNat ≤ number.toNat + 1 := by
  rw [UInt32.toNat_add]
  exact Nat.mod_le _ _

theorem toNat_add_one {number : UInt32} (small : number.toNat < 4294967295) :
    (number + 1).toNat = number.toNat + 1 := by
  rw [UInt32.toNat_add]
  exact Nat.mod_eq_of_lt (show number.toNat + 1 < 4294967296 by omega)

namespace Visit
variable {visit : Visit ω}

theorem serve_known {call : Call} (stands : call.Stands visit.catalogue) (system : FileSystem ω) :
    visit.serve system call.request =
      ⟨visit.catalogue.counting call.request, visit.watched, visit.calls ++ [call]⟩ := by
  cases call with
  | directory path answer => simp only [serve, Call.request, Catalogue.directoryBy_known stands]
  | file path answer => simp only [serve, Call.request, Catalogue.fileBy_known stands]

theorem lookups_serve_le (counted : ∀ request, (visit.catalogue.counters.lookups request).toNat ≤ visit.calls.length)
    (system : FileSystem ω) (served request : Request) :
    ((visit.serve system served).catalogue.counters.lookups request).toNat ≤
      (visit.serve system served).calls.length := by
  have directories : visit.catalogue.counters.directoryLookups.toNat ≤ visit.calls.length := counted (.directory "")
  have files : visit.catalogue.counters.fileLookups.toNat ≤ visit.calls.length := counted (.file "")
  have moreDirectories := toNat_add_one_le visit.catalogue.counters.directoryLookups
  have moreFiles := toNat_add_one_le visit.catalogue.counters.fileLookups
  cases served with
  | directory path =>
    rcases outcome : (visit.catalogue.directoryBy (Watched.ask system) path).run visit.watched with
      ⟨⟨answer, after⟩, later⟩
    obtain ⟨more, same⟩ := Catalogue.directoryBy_lookups system outcome
    simp only [serve, outcome, List.length_append, List.length_singleton]
    cases request with
    | directory other =>
      rw [Counters.lookups, more]
      omega
    | file other =>
      rw [Counters.lookups, same]
      omega
  | file path =>
    rcases outcome : (visit.catalogue.fileBy (Watched.ask system) path).run visit.watched with
      ⟨⟨answer, after⟩, later⟩
    obtain ⟨more, few⟩ := Catalogue.fileBy_lookups system outcome
    simp only [serve, outcome, List.length_append, List.length_singleton]
    cases request with
    | directory other =>
      rcases few with same | once
      · rw [Counters.lookups, same]
        omega
      · rw [Counters.lookups, once]
        omega
    | file other =>
      rw [Counters.lookups, more]
      omega

theorem lookups_serveAll_le (counted : ∀ request, (visit.catalogue.counters.lookups request).toNat ≤ visit.calls.length)
    (system : FileSystem ω) (requests : List Request) (request : Request) :
    ((visit.serveAll system requests).catalogue.counters.lookups request).toNat ≤
      (visit.serveAll system requests).calls.length := by
  induction requests generalizing visit with
  | nil => exact counted request
  | cons served rest ih => exact ih (lookups_serve_le counted system served)

theorem lookups_run_lt (system : FileSystem ω) (world : ω) {requests : List Request}
    (few : requests.length < 2147483648) (request : Request) :
    ((run system world requests).catalogue.counters.lookups request).toNat < 2147483648 := by
  have blank : ∀ request, ((start world).catalogue.counters.lookups request).toNat ≤ (start world).calls.length := by
    intro request
    cases request with
    | directory path => exact Nat.le_refl 0
    | file path => exact Nat.le_refl 0
  have counted : ((run system world requests).catalogue.counters.lookups request).toNat ≤
    (run system world requests).calls.length := lookups_serveAll_le blank system requests request
  obtain ⟨-, answered⟩ := consistent_run system world requests few
  have length := congrArg List.length answered
  rw [List.length_map] at length
  omega

theorem run_known (system : FileSystem ω) (world : ω) (earlier between : List Request) (request : Request)
    (few : (earlier ++ request :: between).length < 2147483648) :
    ∃ call : Call, call.request = request ∧ (run system world (earlier ++ [request])).calls.getLast? = some call ∧
      call.Stands (run system world (earlier ++ request :: between)).catalogue := by
  rw [List.append_cons earlier request between] at few ⊢
  have short : (earlier ++ [request]).length < 2147483648 := by
    rw [List.length_append] at few
    omega
  obtain ⟨consistent, answered⟩ := consistent_run system world (earlier ++ [request]) short
  have last := congrArg List.getLast? answered
  rw [List.getLast?_map, List.getLast?_concat, Option.map_eq_some_iff] at last
  obtain ⟨call, final, same⟩ := last
  have stands := consistent.stands call (List.mem_of_getLast? final)
  exact ⟨call, same, final, (continues_run system world (earlier ++ [request]) between few).stands stands⟩

theorem run_again (system : FileSystem ω) (world : ω) (earlier between : List Request) (request : Request)
    (few : (earlier ++ request :: between).length < 2147483648) :
    let first := run system world (earlier ++ [request])
    let before := run system world (earlier ++ request :: between)
    let after := run system world (earlier ++ request :: (between ++ [request]))
    ∃ call : Call, call.request = request ∧ first.calls.getLast? = some call ∧
      after = ⟨before.catalogue.counting request, before.watched, before.calls ++ [call]⟩ ∧
      (before.catalogue.serve system request).run before.watched.world =
        ((call, before.catalogue.counting request), before.watched.world) ∧
      (after.catalogue.counters.lookups request).toNat =
        (before.catalogue.counters.lookups request).toNat + 1 := by
  intro first before after
  obtain ⟨call, asked, last, stands⟩ := run_known system world earlier between request few
  have served : before.serve system request =
      ⟨before.catalogue.counting request, before.watched, before.calls ++ [call]⟩ := by
    rw [← asked]
    exact serve_known stands system
  have again : after = before.serve system request := by
    show run system world (earlier ++ request :: (between ++ [request])) = _
    rw [← List.cons_append, ← List.append_assoc, run_append]
    rfl
  obtain ⟨plain, unwatched, noted⟩ := serve_unwatched system before request
  rw [served] at unwatched noted
  obtain rfl := List.singleton_inj.mp (List.append_cancel_left noted)
  refine ⟨call, asked, last, again.trans served, unwatched, ?_⟩
  rw [again, served]
  show ((before.catalogue.counters.counting request).lookups request).toNat = _
  rw [Counters.lookups_counting]
  have small : (before.catalogue.counters.lookups request).toNat < 2147483648 :=
    lookups_run_lt system world few request
  exact toNat_add_one (by omega)

end Visit

/-- In every run, whatever the file system answers and however it changes, a request that is made again gets the
answer that it got before, asks nothing and changes only the counter of its kind. So no path is asked about twice for
the sake of directories, and none twice for the sake of files. -/
theorem answers_are_permanent (system : FileSystem ω) (world : ω) (requests : List Request)
    (few : requests.length < 2147483648) :
    let visit := Visit.run system world requests
    (Catalogue.empty.serveAll system requests).run world =
      ((visit.calls, visit.catalogue), visit.watched.world) ∧
    visit.calls.map Call.request = requests ∧
    (∀ earlier request between later, requests = earlier ++ request :: (between ++ request :: later) →
      let first := Visit.run system world (earlier ++ [request])
      let before := Visit.run system world (earlier ++ request :: between)
      let after := Visit.run system world (earlier ++ request :: (between ++ [request]))
      ∃ call : Call, call.request = request ∧ first.calls.getLast? = some call ∧
        after = ⟨before.catalogue.counting request, before.watched, before.calls ++ [call]⟩ ∧
        (before.catalogue.serve system request).run before.watched.world =
          ((call, before.catalogue.counting request), before.watched.world) ∧
        (after.catalogue.counters.lookups request).toNat =
          (before.catalogue.counters.lookups request).toNat + 1) ∧
    ∀ sought, ((visit.log.filter (·.sought = sought)).map Probe.path).Nodup := by
  intro visit
  obtain ⟨consistent, answered⟩ := Visit.consistent_run system world requests few
  refine ⟨Visit.run_unwatched system world requests, answered, ?_, ?_⟩
  · intro earlier request between later same
    have length := congrArg List.length same
    simp only [List.length_append, List.length_cons] at length
    have short : (earlier ++ request :: between).length < 2147483648 := by
      rw [List.length_append, List.length_cons]
      omega
    exact Visit.run_again system world earlier between request short
  · intro sought
    cases sought with
    | directory => exact consistent.recounts.directories.indexes.once
    | file => exact consistent.recounts.files.indexes.once

/-- A file system from which everything vanishes after two questions. -/
def vanishing : FileSystem Nat := fun path asked =>
  (if asked < 2 then oneFile path else .error .notFound, asked + 1)

theorem vanished_file_is_remembered :
    let before := Visit.run vanishing 0 [.file "a", .file "b", .directory "a"]
    let after := Visit.run vanishing 0 [.file "a", .file "b", .directory "a", .file "a"]
    after.watched = before.watched ∧ after.calls = before.calls ++ [.file "a" (some ⟨0⟩)] := by
  intro before after
  have few : [Request.file "a", .file "b", .directory "a", .file "a"].length < 2147483648 := by decide
  obtain ⟨-, -, again, -⟩ :=
    answers_are_permanent vanishing 0 [.file "a", .file "b", .directory "a", .file "a"] few
  obtain ⟨call, -, last, same, -⟩ := again [] (.file "a") [.file "b", .directory "a"] [] rfl
  have answered : (Visit.run vanishing 0 [.file "a"]).calls.getLast? = some (.file "a" (some ⟨0⟩)) := by cbv
  obtain rfl := Option.some.inj (last.symm.trans answered)
  have served : after = ⟨before.catalogue.counting (.file "a"), before.watched,
    before.calls ++ [.file "a" (some ⟨0⟩)]⟩ := same
  rw [served]
  exact ⟨rfl, rfl⟩

end Canon.File

import Canon.File.Catalogue
import Canon.Proofs.File.Discovery

/-!
Runs of look-ups over a file system that may change at any time. The file system is watched: every question and
its answer are written down. Watching changes nothing about the answers.
-/
namespace Canon.File
variable {ω : Type}

/-- A file system with a state. Its answers may depend on the state, and every question may change it. -/
abbrev FileSystem (ω : Type) := String → ω → Except StatError Stat × ω

structure Watched (ω : Type) where
  world : ω
  log : List Probe

def Watched.ask (system : FileSystem ω) (sought : Sought) (path : String) :
    StateM (Watched ω) (Except StatError Stat) := fun watched =>
  let (answer, world) := system path watched.world
  (answer, ⟨world, watched.log ++ [⟨sought, path, answer⟩]⟩)

theorem Watched.run_ask (system : FileSystem ω) (sought : Sought) (path : String) (watched : Watched ω) :
    (Watched.ask system sought path).run watched =
      pure ((system path watched.world).1,
        ⟨(system path watched.world).2, watched.log ++ [⟨sought, path, (system path watched.world).1⟩]⟩) := rfl

inductive Request where
  | directory (path : String)
  | file (path : String)
  deriving DecidableEq, Repr

inductive Call where
  | directory (path : String) (answer : Option DirectoryId)
  | file (path : String) (answer : Option FileId)
  deriving DecidableEq

structure Visit (ω : Type) where
  catalogue : Catalogue
  watched : Watched ω
  calls : List Call

namespace Catalogue

def serve (system : FileSystem ω) (catalogue : Catalogue) : Request → StateM ω (Call × Catalogue)
  | .directory path => do
    let (answer, catalogue) ← catalogue.directory (m := StateM ω) system path
    return (.directory path answer, catalogue)
  | .file path => do
    let (answer, catalogue) ← catalogue.file (m := StateM ω) system path
    return (.file path answer, catalogue)

def serveAll (system : FileSystem ω) (catalogue : Catalogue) : List Request → StateM ω (List Call × Catalogue)
  | [] => return ([], catalogue)
  | request :: requests => do
    let (call, catalogue) ← catalogue.serve system request
    let (calls, catalogue) ← catalogue.serveAll system requests
    return (call :: calls, catalogue)

end Catalogue

namespace Visit

def start (world : ω) : Visit ω := ⟨.empty, ⟨world, []⟩, []⟩

def log (visit : Visit ω) : List Probe := visit.watched.log

def serve (system : FileSystem ω) (visit : Visit ω) : Request → Visit ω
  | .directory path =>
    let ((answer, catalogue), watched) :=
      (visit.catalogue.directoryBy (Watched.ask system) path).run visit.watched
    ⟨catalogue, watched, visit.calls ++ [.directory path answer]⟩
  | .file path =>
    let ((answer, catalogue), watched) := (visit.catalogue.fileBy (Watched.ask system) path).run visit.watched
    ⟨catalogue, watched, visit.calls ++ [.file path answer]⟩

def serveAll (system : FileSystem ω) (visit : Visit ω) (requests : List Request) : Visit ω :=
  requests.foldl (serve system) visit

def run (system : FileSystem ω) (world : ω) (requests : List Request) : Visit ω :=
  serveAll system (start world) requests

@[simp] theorem serveAll_nil (system : FileSystem ω) (visit : Visit ω) : visit.serveAll system [] = visit := rfl

@[simp] theorem serveAll_cons (system : FileSystem ω) (visit : Visit ω) (request : Request)
    (requests : List Request) :
    visit.serveAll system (request :: requests) = (visit.serve system request).serveAll system requests := rfl

theorem run_append (system : FileSystem ω) (world : ω) (earlier later : List Request) :
    run system world (earlier ++ later) = (run system world earlier).serveAll system later := by
  simp [run, serveAll]

end Visit

namespace Catalogue

/-- What a directory look-up can do: answer from memory, or ask one question, with or without success. -/
theorem directoryBy_cases (system : FileSystem ω) (path : String) (catalogue : Catalogue) (watched : Watched ω)
    {name : Symbol} {begun : Catalogue} (beginning : catalogue.beginDirectory path = (name, begun)) :
    (∃ id, begun.directoryPaths.get name = .found id ∧
      (catalogue.directoryBy (Watched.ask system) path).run watched = ((some id, begun), watched)) ∨
    (begun.directoryPaths.get name = .missing ∧
      (catalogue.directoryBy (Watched.ask system) path).run watched = ((none, begun), watched)) ∨
    (begun.directoryPaths.get name = .unknown ∧ ∃ answer world, system path watched.world = (answer, world) ∧
      Sought.directory.usable? answer = none ∧
      (catalogue.directoryBy (Watched.ask system) path).run watched =
        ((none, begun.missDirectory name), ⟨world, watched.log ++ [⟨.directory, path, answer⟩]⟩)) ∨
    (begun.directoryPaths.get name = .unknown ∧ ∃ answer world stat id settled,
      system path watched.world = (answer, world) ∧ Sought.directory.usable? answer = some stat ∧
      (begun.missDirectory name).settleDirectory name stat = (id, settled) ∧
      (catalogue.directoryBy (Watched.ask system) path).run watched =
        ((some id, settled), ⟨world, watched.log ++ [⟨.directory, path, answer⟩]⟩)) := by
  unfold directoryBy
  rw [beginning]
  cases known : begun.directoryPaths.get name with
  | found id =>
    left
    refine ⟨id, rfl, ?_⟩
    simp only [known]
    rfl
  | missing =>
    right; left
    refine ⟨rfl, ?_⟩
    simp only [known]
    rfl
  | unknown =>
    right; right
    rcases asked : system path watched.world with ⟨answer, world⟩
    have noted : (Watched.ask system .directory path).run watched =
        pure (answer, ⟨world, watched.log ++ [⟨.directory, path, answer⟩]⟩) := by
      simp only [Watched.run_ask, asked]
    cases usable : Sought.directory.usable? answer with
    | none =>
      left
      refine ⟨rfl, answer, world, rfl, usable, ?_⟩
      simp only [known, StateT.run_bind, noted, pure_bind, usable]
      rfl
    | some stat =>
      right
      refine ⟨rfl, answer, world, stat, _, _, rfl, usable, rfl, ?_⟩
      simp only [known, StateT.run_bind, noted, pure_bind, usable]
      rfl

section Exits
variable {system : FileSystem ω} {path : String} {catalogue begun : Catalogue} {watched : Watched ω} {name : Symbol}
  (beginning : catalogue.beginFile path = (name, begun))
include beginning

theorem fileBy_found {id : FileId} (known : begun.filePaths.get name = .found id) :
    (catalogue.fileBy (Watched.ask system) path).run watched = ((some id, begun), watched) := by
  unfold fileBy
  rw [beginning]
  simp only [known]
  rfl

theorem fileBy_missing (known : begun.filePaths.get name = .missing) :
    (catalogue.fileBy (Watched.ask system) path).run watched = ((none, begun), watched) := by
  unfold fileBy
  rw [beginning]
  simp only [known]
  rfl

variable (unknown : begun.filePaths.get name = .unknown)
include unknown

theorem fileBy_bare (above : parent? path = none) :
    (catalogue.fileBy (Watched.ask system) path).run watched = ((none, begun.missFile name), watched) := by
  unfold fileBy
  rw [beginning]
  simp only [unknown, above]
  rfl

variable {parent : String} (above : parent? path = some parent) {within : Catalogue} {after : Watched ω}
include above

theorem fileBy_astray
    (nested : ((begun.missFile name).directoryBy (Watched.ask system) parent).run watched = ((none, within), after)) :
    (catalogue.fileBy (Watched.ask system) path).run watched = ((none, within), after) := by
  have plain : ((begun.missFile name).directoryBy (Watched.ask system) parent).run watched =
      pure ((none, within), after) := nested
  unfold fileBy
  rw [beginning]
  simp only [unknown, above, StateT.run_bind, plain, pure_bind]
  rfl

variable {directory : DirectoryId} {answer : Except StatError Stat} {world : ω}
  (nested : ((begun.missFile name).directoryBy (Watched.ask system) parent).run watched =
    ((some directory, within), after))
  (asked : system path after.world = (answer, world))
include nested asked

theorem fileBy_asked : (catalogue.fileBy (Watched.ask system) path).run watched =
    match Sought.file.usable? answer with
    | none => ((none, within), ⟨world, after.log ++ [⟨.file, path, answer⟩]⟩)
    | some stat =>
      let (id, settled) := within.settleFile name directory stat
      ((some id, settled), ⟨world, after.log ++ [⟨.file, path, answer⟩]⟩) := by
  have plain : ((begun.missFile name).directoryBy (Watched.ask system) parent).run watched =
      pure ((some directory, within), after) := nested
  have noted : (Watched.ask system .file path).run after =
      pure (answer, ⟨world, after.log ++ [⟨.file, path, answer⟩]⟩) := by
    simp only [Watched.run_ask, asked]
  unfold fileBy
  rw [beginning]
  simp only [unknown, above, StateT.run_bind, plain, pure_bind, noted]
  cases Sought.file.usable? answer with
  | none => rfl
  | some stat => rfl

end Exits

/-- What a file look-up can do: answer from memory, refuse a path without a directory part, fail with its
directory, or ask one question behind that look-up, with or without success. -/
theorem fileBy_cases (system : FileSystem ω) (path : String) (catalogue : Catalogue) (watched : Watched ω)
    {name : Symbol} {begun : Catalogue} (beginning : catalogue.beginFile path = (name, begun)) :
    (∃ id, begun.filePaths.get name = .found id ∧
      (catalogue.fileBy (Watched.ask system) path).run watched = ((some id, begun), watched)) ∨
    (begun.filePaths.get name = .missing ∧
      (catalogue.fileBy (Watched.ask system) path).run watched = ((none, begun), watched)) ∨
    (begun.filePaths.get name = .unknown ∧ parent? path = none ∧
      (catalogue.fileBy (Watched.ask system) path).run watched = ((none, begun.missFile name), watched)) ∨
    (begun.filePaths.get name = .unknown ∧ ∃ parent within after, parent? path = some parent ∧
      ((begun.missFile name).directoryBy (Watched.ask system) parent).run watched = ((none, within), after) ∧
      (catalogue.fileBy (Watched.ask system) path).run watched = ((none, within), after)) ∨
    (begun.filePaths.get name = .unknown ∧ ∃ parent directory within after answer world,
      parent? path = some parent ∧
      ((begun.missFile name).directoryBy (Watched.ask system) parent).run watched =
        ((some directory, within), after) ∧
      system path after.world = (answer, world) ∧ Sought.file.usable? answer = none ∧
      (catalogue.fileBy (Watched.ask system) path).run watched =
        ((none, within), ⟨world, after.log ++ [⟨.file, path, answer⟩]⟩)) ∨
    (begun.filePaths.get name = .unknown ∧ ∃ parent directory within after answer world stat id settled,
      parent? path = some parent ∧
      ((begun.missFile name).directoryBy (Watched.ask system) parent).run watched =
        ((some directory, within), after) ∧
      system path after.world = (answer, world) ∧ Sought.file.usable? answer = some stat ∧
      within.settleFile name directory stat = (id, settled) ∧
      (catalogue.fileBy (Watched.ask system) path).run watched =
        ((some id, settled), ⟨world, after.log ++ [⟨.file, path, answer⟩]⟩)) := by
  cases known : begun.filePaths.get name with
  | found id => exact .inl ⟨id, rfl, fileBy_found beginning known⟩
  | missing => exact .inr (.inl ⟨rfl, fileBy_missing beginning known⟩)
  | unknown =>
    right; right
    cases above : parent? path with
    | none => exact .inl ⟨rfl, rfl, fileBy_bare beginning known above⟩
    | some parent =>
      right
      rcases nested : ((begun.missFile name).directoryBy (Watched.ask system) parent).run watched with
        ⟨⟨found, within⟩, after⟩
      cases found with
      | none => exact .inl ⟨rfl, parent, within, after, rfl, nested, fileBy_astray beginning known above nested⟩
      | some directory =>
        right
        rcases asked : system path after.world with ⟨answer, world⟩
        have ran := fileBy_asked beginning known above nested asked
        cases usable : Sought.file.usable? answer with
        | none =>
          left
          rw [usable] at ran
          exact ⟨rfl, parent, directory, within, after, answer, world, rfl, nested, asked, usable, ran⟩
        | some stat =>
          right
          rw [usable] at ran
          exact ⟨rfl, parent, directory, within, after, answer, world, stat, _, _, rfl, nested, asked, usable, rfl, ran⟩

section Invariants
variable {system : FileSystem ω} {Holds : Watched ω → Prop}
  (asks : ∀ watched sought path, Holds watched → Holds ((Watched.ask system sought path).run watched).2)
  {watched : Watched ω}
include asks

/-- What every question leaves true of a file system and of what it was asked, a look-up leaves true. -/
theorem directoryBy_keeps (holds : Holds watched) (catalogue : Catalogue) (path : String) :
    Holds ((catalogue.directoryBy (Watched.ask system) path).run watched).2 := by
  rcases beginning : catalogue.beginDirectory path with ⟨name, begun⟩
  obtain ⟨id, -, equal⟩ | ⟨-, equal⟩ | ⟨-, reply, world, asked, -, equal⟩ |
    ⟨-, reply, world, found, id, settled, asked, -, -, equal⟩ :=
    directoryBy_cases system path catalogue watched beginning
  · rw [equal]
    exact holds
  · rw [equal]
    exact holds
  all_goals
    have kept := asks watched .directory path holds
    rw [Watched.run_ask, asked] at kept
    rw [equal]
    exact kept

theorem fileBy_keeps (holds : Holds watched) (catalogue : Catalogue) (path : String) :
    Holds ((catalogue.fileBy (Watched.ask system) path).run watched).2 := by
  rcases beginning : catalogue.beginFile path with ⟨name, begun⟩
  obtain ⟨id, -, equal⟩ | ⟨-, equal⟩ | ⟨-, -, equal⟩ | ⟨-, parent, within, after, -, nested, equal⟩ |
    ⟨-, parent, directory, within, after, reply, world, -, nested, asked, -, equal⟩ |
    ⟨-, parent, directory, within, after, reply, world, found, id, settled, -, nested, asked, -, -, equal⟩ :=
    fileBy_cases system path catalogue watched beginning
  · rw [equal]
    exact holds
  · rw [equal]
    exact holds
  · rw [equal]
    exact holds
  all_goals
    have early := directoryBy_keeps asks holds (begun.missFile name) parent
    rw [nested] at early
    rw [equal]
  · exact early
  all_goals
    have kept := asks after .file path early
    rw [Watched.run_ask, asked] at kept
    exact kept

end Invariants

theorem directory_watched (system : FileSystem ω) (path : String) (catalogue : Catalogue) (watched : Watched ω) :
    (catalogue.directory (m := StateM ω) system path).run watched.world =
      (((catalogue.directoryBy (Watched.ask system) path).run watched).1,
        ((catalogue.directoryBy (Watched.ask system) path).run watched).2.world) := by
  rcases beginning : catalogue.beginDirectory path with ⟨name, begun⟩
  unfold directory directoryBy
  rw [beginning]
  cases known : begun.directoryPaths.get name with
  | found id =>
    simp only [known]
    rfl
  | missing =>
    simp only [known]
    rfl
  | unknown =>
    rcases asked : system path watched.world with ⟨answer, world⟩
    have plain : StateT.run (m := Id) (system path) watched.world = pure (answer, world) := asked
    simp only [known, StateT.run_bind, plain, Watched.run_ask, asked, pure_bind]
    cases Sought.directory.usable? answer with
    | none => rfl
    | some stat => rfl

theorem file_watched (system : FileSystem ω) (path : String) (catalogue : Catalogue) (watched : Watched ω) :
    (catalogue.file (m := StateM ω) system path).run watched.world =
      (((catalogue.fileBy (Watched.ask system) path).run watched).1,
        ((catalogue.fileBy (Watched.ask system) path).run watched).2.world) := by
  rcases beginning : catalogue.beginFile path with ⟨name, begun⟩
  unfold file fileBy
  rw [beginning]
  cases known : begun.filePaths.get name with
  | found id =>
    simp only [known]
    rfl
  | missing =>
    simp only [known]
    rfl
  | unknown =>
    cases above : parent? path with
    | none =>
      simp only [known]
      rfl
    | some parent =>
      have nested := directory_watched system parent (begun.missFile name) watched
      unfold directory at nested
      rcases outcome : ((begun.missFile name).directoryBy (Watched.ask system) parent).run watched with
        ⟨⟨found, within⟩, after⟩
      rw [outcome] at nested
      have watchedPure : ((begun.missFile name).directoryBy (Watched.ask system) parent).run watched =
          pure ((found, within), after) := outcome
      have plainPure : ((begun.missFile name).directoryBy (m := StateM ω) (fun _ => system) parent).run watched.world =
          pure ((found, within), after.world) := nested
      simp only [known, StateT.run_bind, watchedPure, plainPure, pure_bind]
      cases found with
      | none => rfl
      | some directory =>
        rcases asked : system path after.world with ⟨answer, world⟩
        have plain : StateT.run (m := Id) (system path) after.world = pure (answer, world) := asked
        simp only [StateT.run_bind, plain, Watched.run_ask, asked, pure_bind]
        cases Sought.file.usable? answer with
        | none => rfl
        | some stat => rfl

end Catalogue

namespace Visit

section Invariants
variable {system : FileSystem ω} {Holds : Watched ω → Prop}
  (asks : ∀ watched sought path, Holds watched → Holds ((Watched.ask system sought path).run watched).2)
include asks

theorem serve_keeps {visit : Visit ω} (holds : Holds visit.watched) (request : Request) :
    Holds (visit.serve system request).watched := by
  cases request with
  | directory path => exact Catalogue.directoryBy_keeps asks holds visit.catalogue path
  | file path => exact Catalogue.fileBy_keeps asks holds visit.catalogue path

theorem serveAll_keeps {visit : Visit ω} (holds : Holds visit.watched) (requests : List Request) :
    Holds (visit.serveAll system requests).watched := by
  induction requests generalizing visit with
  | nil => exact holds
  | cons request requests ih => exact ih (serve_keeps asks holds request)

theorem run_keeps {world : ω} (holds : Holds ⟨world, []⟩) (requests : List Request) :
    Holds (run system world requests).watched :=
  @serveAll_keeps _ _ _ asks (start world) holds requests

end Invariants

theorem serve_unwatched (system : FileSystem ω) (visit : Visit ω) (request : Request) :
    ∃ call, (visit.catalogue.serve system request).run visit.watched.world =
      ((call, (visit.serve system request).catalogue), (visit.serve system request).watched.world) ∧
      (visit.serve system request).calls = visit.calls ++ [call] := by
  cases request with
  | directory path =>
    refine ⟨.directory path _, ?_, rfl⟩
    have plain := Catalogue.directory_watched system path visit.catalogue visit.watched
    simp only [Catalogue.serve, StateT.run_bind, plain]
    rfl
  | file path =>
    refine ⟨.file path _, ?_, rfl⟩
    have plain := Catalogue.file_watched system path visit.catalogue visit.watched
    simp only [Catalogue.serve, StateT.run_bind, plain]
    rfl

theorem serveAll_unwatched (system : FileSystem ω) (visit : Visit ω) (requests : List Request) :
    ∃ calls, (visit.catalogue.serveAll system requests).run visit.watched.world =
      ((calls, (visit.serveAll system requests).catalogue), (visit.serveAll system requests).watched.world) ∧
      (visit.serveAll system requests).calls = visit.calls ++ calls := by
  induction requests generalizing visit with
  | nil => exact ⟨[], rfl, (List.append_nil _).symm⟩
  | cons request requests ih =>
    obtain ⟨call, first, early⟩ := visit.serve_unwatched system request
    obtain ⟨calls, rest, late⟩ := ih (visit.serve system request)
    refine ⟨call :: calls, ?_, ?_⟩
    · have firstPure : (visit.catalogue.serve system request).run visit.watched.world = pure _ := first
      have restPure : ((visit.serve system request).catalogue.serveAll system requests).run
          (visit.serve system request).watched.world = pure _ := rest
      simp only [Catalogue.serveAll, StateT.run_bind, firstPure, restPure, pure_bind]
      rfl
    · rw [serveAll_cons, late, early, List.append_assoc, List.singleton_append]

/-- Watching a run changes neither its answers nor its catalogue nor the file system. -/
theorem run_unwatched (system : FileSystem ω) (world : ω) (requests : List Request) :
    (Catalogue.empty.serveAll system requests).run world =
      (((run system world requests).calls, (run system world requests).catalogue),
        (run system world requests).watched.world) := by
  obtain ⟨calls, plain, noted⟩ := serveAll_unwatched system (start world) requests
  have same : (run system world requests).calls = calls := noted
  rw [same]
  exact plain

end Visit
end Canon.File

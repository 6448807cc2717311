import Canon.File.Catalogue
import Canon.Proofs.Lexicon.Faithful

/-!
What a catalogue remembers about a path, read off through the symbol of the path. Paths are told apart by their
symbols, so a change of what is remembered about one path is seen at that path only.
-/
namespace Canon.File

def resolution {κ : Type} (names : Lexicon) (paths : Overlay Symbol (Resolution κ)) (path : String) :
    Resolution κ :=
  match names.find? path with
  | some name => paths.get name
  | none => .unknown

/-- Nothing is remembered about symbols that no path has. -/
def Vacant {κ : Type} (names : Lexicon) (paths : Overlay Symbol (Resolution κ)) : Prop :=
  ∀ symbol : Symbol, names.size ≤ symbol.index.val → paths.get symbol = .unknown

section
variable {κ : Type} {names : Lexicon} {paths : Overlay Symbol (Resolution κ)} {path : String} {name : Symbol}

theorem resolution_of_find? (found : names.find? path = some name) : resolution names paths path = paths.get name := by
  rw [resolution, found]

theorem Vacant.constant (names : Lexicon) : Vacant names (.constant .unknown : Overlay Symbol (Resolution κ)) := by
  intro symbol _
  exact Overlay.get_constant _ _

theorem resolution_intern (vacant : Vacant names paths) (room : names.size < 4294967295) (path other : String) :
    resolution (names.intern path).2 paths other = resolution names paths other := by
  by_cases same : path = other
  · subst other
    rw [resolution_of_find? (names.find?_intern_self path)]
    cases known : names.find? path with
    | some name =>
      rw [Lexicon.intern_of_find? known, resolution_of_find? known]
    | none =>
      rw [resolution, known]
      exact vacant _ (Nat.le_of_eq (Lexicon.index_intern_of_find?_none room known).symm)
  · rw [resolution, resolution, Lexicon.find?_intern_other names same]

theorem Vacant.intern (vacant : Vacant names paths) (path : String) : Vacant (names.intern path).2 paths := by
  intro symbol beyond
  exact vacant symbol (Nat.le_trans (names.size_le_intern path) beyond)

theorem resolution_set (faithful : names.Faithful) (found : names.find? path = some name) (value : Resolution κ)
    (other : String) :
    resolution names (paths.set name value) other = if other = path then value else resolution names paths other := by
  by_cases same : other = path
  · subst other
    rw [if_pos rfl, resolution_of_find? found]
    exact Overlay.get_modify_same paths name _
  · rw [if_neg same]
    unfold resolution
    cases known : names.find? other with
    | none => rfl
    | some symbol =>
      have different : name ≠ symbol := by
        intro equal
        subst equal
        exact same (faithful.eq_of_find? known found)
      exact Overlay.get_modify_other paths _ different

theorem Vacant.set (vacant : Vacant names paths) (issued : name.index.val < names.size) (value : Resolution κ) :
    Vacant names (paths.set name value) := by
  intro symbol beyond
  have different : name ≠ symbol := by
    intro equal
    subst equal
    omega
  exact (Overlay.get_modify_other paths _ different).trans (vacant symbol beyond)

end

namespace Catalogue

def directoryAt (catalogue : Catalogue) (path : String) : Resolution DirectoryId :=
  resolution catalogue.names catalogue.directoryPaths path

def fileAt (catalogue : Catalogue) (path : String) : Resolution FileId :=
  resolution catalogue.names catalogue.filePaths path

@[simp] theorem directoryAt_empty (path : String) : empty.directoryAt path = .unknown := by
  simp [directoryAt, resolution, empty, Lexicon.empty, Lexicon.withCapacity, Lexicon.find?]

@[simp] theorem fileAt_empty (path : String) : empty.fileAt path = .unknown := by
  simp [fileAt, resolution, empty, Lexicon.empty, Lexicon.withCapacity, Lexicon.find?]

/-- Every path has a symbol of its own, and nothing is remembered about other symbols. -/
structure Named (catalogue : Catalogue) : Prop where
  faithful : catalogue.names.Faithful
  directories : Vacant catalogue.names catalogue.directoryPaths
  files : Vacant catalogue.names catalogue.filePaths

theorem named_empty : empty.Named := ⟨Lexicon.faithful_empty, Vacant.constant _, Vacant.constant _⟩

/-- A path has got a symbol, and nothing else has happened that matters to look-ups. -/
structure Interned (path : String) (name : Symbol) (before after : Catalogue) : Prop where
  named : after.Named
  symbol : after.names.find? path = some name
  names : after.names = (before.names.intern path).2
  directoryAt : after.directoryAt = before.directoryAt
  fileAt : after.fileAt = before.fileAt
  directoryIds : after.directoryIds = before.directoryIds
  fileIds : after.fileIds = before.fileIds
  directories : after.directories = before.directories
  files : after.files = before.files
  nextUid : after.nextUid = before.nextUid

section Steps
variable {catalogue begun : Catalogue} {path : String} {name : Symbol}

theorem internPath_spec (counters : Counters) (named : catalogue.Named) (room : catalogue.names.size < 4294967295)
    (interned : internPath { catalogue with counters } path = (name, begun)) : Interned path name catalogue begun := by
  simp only [internPath, Prod.mk.injEq] at interned
  obtain ⟨rfl, rfl⟩ := interned
  refine ⟨⟨named.faithful.intern room path, named.directories.intern path, named.files.intern path⟩,
    Lexicon.find?_intern_self _ path, rfl, ?_, ?_, rfl, rfl, rfl, rfl, rfl⟩
  · funext other
    exact resolution_intern named.directories room path other
  · funext other
    exact resolution_intern named.files room path other

theorem beginDirectory_spec (named : catalogue.Named) (room : catalogue.names.size < 4294967295)
    (beginning : catalogue.beginDirectory path = (name, begun)) : Interned path name catalogue begun :=
  internPath_spec _ named room beginning

theorem beginFile_spec (named : catalogue.Named) (room : catalogue.names.size < 4294967295)
    (beginning : catalogue.beginFile path = (name, begun)) : Interned path name catalogue begun :=
  internPath_spec _ named room beginning

theorem Interned.directoryAt_eq (interned : Interned path name catalogue begun) :
    begun.directoryPaths.get name = catalogue.directoryAt path := by
  rw [← interned.directoryAt]
  exact (resolution_of_find? interned.symbol).symm

theorem Interned.fileAt_eq (interned : Interned path name catalogue begun) :
    begun.filePaths.get name = catalogue.fileAt path := by
  rw [← interned.fileAt]
  exact (resolution_of_find? interned.symbol).symm

theorem missDirectory_spec (named : catalogue.Named) (found : catalogue.names.find? path = some name) :
    (catalogue.missDirectory name).Named ∧ ∀ other, (catalogue.missDirectory name).directoryAt other =
      if other = path then .missing else catalogue.directoryAt other :=
  ⟨⟨named.faithful, named.directories.set (named.faithful.index_lt_size found) _, named.files⟩,
    resolution_set named.faithful found .missing⟩

theorem missFile_spec (named : catalogue.Named) (found : catalogue.names.find? path = some name) :
    (catalogue.missFile name).Named ∧ ∀ other, (catalogue.missFile name).fileAt other =
      if other = path then .missing else catalogue.fileAt other :=
  ⟨⟨named.faithful, named.directories, named.files.set (named.faithful.index_lt_size found) _⟩,
    resolution_set named.faithful found .missing⟩

theorem settleDirectory_cases (catalogue : Catalogue) (name : Symbol) (stat : Stat) :
    (∃ id, catalogue.directoryIds[stat.identity]? = some id ∧ catalogue.settleDirectory name stat =
      (id, { catalogue with directoryPaths := catalogue.directoryPaths.set name (.found id) })) ∨
    (catalogue.directoryIds[stat.identity]? = none ∧ catalogue.settleDirectory name stat =
      (.atIndex catalogue.directories.size, { catalogue with
        directories := ⟨catalogue.directories.records.push ⟨name⟩⟩
        directoryIds := catalogue.directoryIds.insert stat.identity (.atIndex catalogue.directories.size)
        directoryPaths := catalogue.directoryPaths.set name (.found (.atIndex catalogue.directories.size)) })) := by
  unfold settleDirectory
  cases catalogue.directoryIds[stat.identity]? with
  | some id => exact .inl ⟨id, rfl, rfl⟩
  | none => exact .inr ⟨rfl, rfl⟩

theorem settleFile_cases (catalogue : Catalogue) (name : Symbol) (directory : DirectoryId) (stat : Stat) :
    (∃ id, catalogue.fileIds[stat.identity]? = some id ∧ catalogue.settleFile name directory stat =
      (id, { catalogue with filePaths := catalogue.filePaths.set name (.found id) })) ∨
    (catalogue.fileIds[stat.identity]? = none ∧ catalogue.settleFile name directory stat =
      (.atIndex catalogue.files.size, { catalogue with
        files := ⟨catalogue.files.records.push
          ⟨name, stat.size, stat.modified, directory, catalogue.nextUid, stat.identity, stat.mode⟩⟩
        nextUid := catalogue.nextUid + 1
        fileIds := catalogue.fileIds.insert stat.identity (.atIndex catalogue.files.size)
        filePaths := catalogue.filePaths.set name (.found (.atIndex catalogue.files.size)) })) := by
  unfold settleFile
  cases catalogue.fileIds[stat.identity]? with
  | some id => exact .inl ⟨id, rfl, rfl⟩
  | none => exact .inr ⟨rfl, rfl⟩

end Steps
end Catalogue
end Canon.File

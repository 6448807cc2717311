import Canon.Proofs.File.Stateless
import Canon.Proofs.Text.Iteration
import Mathlib.Data.List.DropRight

/-!
The directory part of a path. A path is cut in front of its last run of separators, however long that is; cutting at
byte offsets comes to the same and never cuts a character in two.
-/
namespace Canon.File

/-- A path cut on both sides of its last run of separators. -/
structure Parts where
  directory : String
  run : String
  leaf : String

/-- Parts that make up a path. The run between them is as long as it can be. -/
structure Parts.Split (parts : Parts) (path : String) : Prop where
  whole : path = parts.directory ++ parts.run ++ parts.leaf
  named : parts.leaf ≠ ""
  plain : separator ∉ parts.leaf.toList
  parted : parts.run ≠ ""
  separators : ∀ char ∈ parts.run.toList, char = separator
  ends : parts.directory.toList.getLast? ≠ some separator

/-- The directory in which the leaf lies: the root if there is nothing in front of the separators. -/
def Parts.parent (parts : Parts) : String := if parts.directory = "" then "/" else parts.directory

def trimmed (text : List Char) : List Char := text.rdropWhile (· == separator)

def enclosing (before : List Char) : List Char := if trimmed before = [] then [separator] else trimmed before

section Trimming
variable {front back text : List Char}

theorem rdropWhile_append {drops : Char → Bool} (gone : ∀ char ∈ back, drops char = true)
    (stays : ∀ char ∈ front.getLast?, drops char = false) : (front ++ back).rdropWhile drops = front := by
  have inside : ∀ char ∈ back.reverse, drops char = true := fun char member => gone char (List.mem_reverse.mp member)
  have stops : Text.Stops drops front.reverse := fun char head => stays char (List.head?_reverse ▸ head)
  rw [List.rdropWhile, List.reverse_append, Text.dropWhile_run inside stops, List.reverse_reverse]

theorem trimmed_run (ends : front.getLast? ≠ some separator) (run : ∀ char ∈ back, char = separator) :
    trimmed (front ++ back) = front := by
  apply rdropWhile_append
  · simpa using run
  · intro char last
    rw [beq_eq_false_iff_ne]
    rintro rfl
    exact ends last

theorem trimmed_append (run : ∀ char ∈ back, char = separator) : trimmed (text ++ back) = trimmed text := by
  induction back using List.reverseRecOn with
  | nil => rw [List.append_nil]
  | append_singleton back last ih =>
    have ends : last = separator := run last (by simp)
    have shorter : trimmed (text ++ back ++ [last]) = trimmed (text ++ back) :=
      List.rdropWhile_concat_pos _ _ last (by simp [ends])
    rw [← List.append_assoc, shorter]
    exact ih fun char member => run char (List.mem_append_left _ member)

theorem trimmed_trimmed (text : List Char) : trimmed (trimmed text) = trimmed text := List.rdropWhile_idempotent ..

theorem getLast?_trimmed (text : List Char) : (trimmed text).getLast? ≠ some separator := by
  by_cases empty : trimmed text = []
  · simp [empty]
  · have stays := List.rdropWhile_last_not _ text empty
    rw [List.getLast?_eq_some_getLast empty, Ne, Option.some.injEq]
    intro ends
    exact stays (beq_iff_eq.mpr ends)

theorem enclosing_append (run : ∀ char ∈ back, char = separator) : enclosing (text ++ back) = enclosing text := by
  rw [enclosing, enclosing, trimmed_append run]

theorem enclosing_enclosing (text : List Char) : enclosing (enclosing text) = enclosing text := by
  by_cases root : trimmed text = []
  · have slash : enclosing text = [separator] := if_pos root
    rw [slash]
    decide
  · have kept : enclosing text = trimmed text := if_neg root
    rw [kept, enclosing, trimmed_trimmed, if_neg root]

end Trimming

section Characters
variable {path before leaf : List Char}

theorem exists_last_separator (some : separator ∈ path) :
    ∃ before leaf, path = before ++ separator :: leaf ∧ separator ∉ leaf := by
  obtain ⟨back, front, same, plain⟩ := List.eq_append_cons_of_mem (List.mem_reverse.mpr some)
  refine ⟨front.reverse, back.reverse, ?_, by simpa using plain⟩
  rw [← List.reverse_reverse path, same]
  simp

theorem bne_separator (plain : separator ∉ path) : ∀ char ∈ path, (char != separator) = true := by
  intro char member
  rw [bne_iff_ne]
  rintro rfl
  exact plain member

theorem parentChars?_bare (bare : separator ∉ path) : parentChars? path = some ['.'] := by
  have turned : separator ∉ path.reverse := mt List.mem_reverse.mp bare
  have nothing : path.reverse.dropWhile (· != separator) = [] := List.dropWhile_eq_nil_iff.mpr (bne_separator turned)
  rw [parentChars?, nothing]

theorem parentChars?_last (plain : separator ∉ leaf) :
    parentChars? (before ++ separator :: leaf) = if leaf = [] then none else some (enclosing before) := by
  have inside := bne_separator (mt List.mem_reverse.mp plain)
  have turned : (before ++ separator :: leaf).reverse = leaf.reverse ++ separator :: before.reverse := by simp
  have behind : (leaf.reverse ++ separator :: before.reverse).takeWhile (· != separator) = leaf.reverse := by
    rw [List.takeWhile_append_of_pos inside, List.takeWhile_cons_of_neg (by decide), List.append_nil]
  have ahead :
      (leaf.reverse ++ separator :: before.reverse).dropWhile (· != separator) = separator :: before.reverse := by
    rw [List.dropWhile_append_of_pos inside, List.dropWhile_cons_of_neg (by decide)]
  rw [parentChars?, turned, behind, ahead]
  simp only [List.isEmpty_reverse, List.isEmpty_iff]
  split_ifs with none
  · rfl
  · have trim : ((separator :: before.reverse).dropWhile (· == separator)).reverse = trimmed before := by
      rw [List.dropWhile_cons_of_pos (by decide)]
      rfl
    rw [enclosing, ← trim]
    cases (separator :: before.reverse).dropWhile (· == separator) with
    | nil => rfl
    | cons last front => simp

end Characters

section Offsets
variable {path before leaf : List Char}

def lastSeparator? (path : List Char) : Option Nat :=
  ((Text.indices 0 path).reverse.find? (·.2 == separator)).map Prod.fst

/-- The directory part of a path as it is cut out of the path at byte offsets. A cut that is not between two characters
would be fatal, and leaves nothing to answer. -/
def slicedParent? (path : List Char) : Option (Option (List Char)) :=
  match lastSeparator? path with
  | none => some (some ['.'])
  | some offset =>
    if offset + 1 = Text.byteLength path then some none
    else (Text.slice? path 0 offset).bind fun before =>
      if trimmed before = [] then (Text.slice? path 0 1).map some else some (some (trimmed before))

theorem find?_indices_plain (plain : separator ∉ leaf) (start : Nat) :
    (Text.indices start leaf).reverse.find? (·.2 == separator) = none := by
  rw [List.find?_eq_none]
  intro item member same
  have inside : item.2 ∈ (Text.indices start leaf).map Prod.snd := List.mem_map_of_mem (List.mem_reverse.mp member)
  rw [Text.map_indices, beq_iff_eq.mp same] at inside
  exact plain inside

theorem lastSeparator?_last (plain : separator ∉ leaf) :
    lastSeparator? (before ++ separator :: leaf) = some (Text.byteLength before) := by
  have here : Text.indices 0 (before ++ separator :: leaf) =
      Text.indices 0 before ++ [(Text.byteLength before, separator)] ++
        Text.indices (Text.byteLength before + separator.utf8Size) leaf := by
    rw [Text.indices_append, Text.indices, Nat.zero_add, List.append_assoc, List.singleton_append]
  rw [lastSeparator?, here, List.reverse_append, List.reverse_append, List.find?_append, find?_indices_plain plain]
  rfl

theorem byteLength_eq_zero_iff (text : List Char) : Text.byteLength text = 0 ↔ text = [] := by
  cases text with
  | nil => exact iff_of_true rfl rfl
  | cons char rest =>
    have wide := char.utf8Size_pos
    simp only [Text.byteLength, reduceCtorEq, iff_false]
    omega

/-- No cut is fatal, and what is cut out is the directory part. -/
theorem slicedParent?_eq (path : List Char) : slicedParent? path = some (parentChars? path) := by
  by_cases parted : separator ∈ path
  · obtain ⟨before, leaf, rfl, plain⟩ := exists_last_separator parted
    have size : Text.byteLength (before ++ separator :: leaf) = Text.byteLength before + (1 + Text.byteLength leaf) :=
      Text.byteLength_append before (separator :: leaf)
    have ends : Text.byteLength before + 1 = Text.byteLength (before ++ separator :: leaf) ↔ leaf = [] := by
      rw [size, ← byteLength_eq_zero_iff]
      omega
    have front : Text.slice? (before ++ separator :: leaf) 0 (Text.byteLength before) = some before := by
      simpa [Text.byteLength] using Text.slice?_append [] before (separator :: leaf)
    rw [slicedParent?, lastSeparator?_last plain, parentChars?_last plain]
    simp only [ends, front, Option.bind_some, enclosing]
    split_ifs with none root
    · rfl
    · -- All that stands in front of the leaf is separators, the first of which is the one byte that is cut out.
      obtain ⟨rest, same⟩ : ∃ rest, before ++ separator :: leaf = separator :: rest := by
        cases before with
        | nil => exact ⟨leaf, rfl⟩
        | cons first before =>
          have run := List.rdropWhile_eq_nil_iff.mp root
          exact ⟨before ++ separator :: leaf, by simpa using run first (List.mem_cons_self ..)⟩
      have slash : Text.slice? (separator :: rest) 0 1 = some [separator] := Text.slice?_append [] [separator] rest
      rw [same, slash]
      rfl
    · rfl
  · have nowhere : lastSeparator? path = none := by rw [lastSeparator?, find?_indices_plain parted, Option.map_none]
    rw [slicedParent?, nowhere, parentChars?_bare parted]

end Offsets

namespace Parts
variable {parts other : Parts} {path : String}

theorem Split.toList (split : parts.Split path) :
    path.toList = parts.directory.toList ++ parts.run.toList ++ parts.leaf.toList := by
  rw [split.whole, String.toList_append, String.toList_append]

theorem Split.exists_last (split : parts.Split path) : ∃ run : List Char, parts.run.toList = run ++ [separator] := by
  rcases List.eq_nil_or_concat' parts.run.toList with empty | ⟨run, last, same⟩
  · exact absurd (String.toList_eq_nil_iff.mp empty) split.parted
  · have ends : last = separator := split.separators last (by simp [same])
    exact ⟨run, ends ▸ same⟩

theorem Split.front_eq (split : parts.Split path) :
    path.toList.rdropWhile (· != separator) = parts.directory.toList ++ parts.run.toList := by
  rw [split.toList]
  apply rdropWhile_append
  · exact bne_separator split.plain
  · obtain ⟨run, ends⟩ := split.exists_last
    rw [ends, ← List.append_assoc, List.getLast?_concat]
    simp

theorem Split.unique (split : parts.Split path) (also : other.Split path) : other = parts := by
  have fronts := also.front_eq.symm.trans split.front_eq
  have directories : other.directory.toList = parts.directory.toList := by
    rw [← trimmed_run also.ends also.separators, fronts, trimmed_run split.ends split.separators]
  have runs : other.run.toList = parts.run.toList := List.append_cancel_left (directories ▸ fronts)
  have leaves : other.leaf.toList = parts.leaf.toList := by
    have whole := also.toList.symm.trans split.toList
    rw [fronts] at whole
    exact List.append_cancel_left whole
  obtain ⟨directory, run, leaf⟩ := other
  rw [Parts.mk.injEq]
  exact ⟨String.toList_inj.mp directories, String.toList_inj.mp runs, String.toList_inj.mp leaves⟩

theorem exists_split (parted : separator ∈ path.toList) (named : path.toList.getLast? ≠ some separator) :
    ∃ parts : Parts, parts.Split path := by
  obtain ⟨before, leaf, same, plain⟩ := exists_last_separator parted
  refine ⟨⟨.ofList (trimmed before), .ofList (before.rtakeWhile (· == separator) ++ [separator]), .ofList leaf⟩, ?_⟩
  constructor
  · rw [← String.toList_inj, same]
    simp only [String.toList_append, String.toList_ofList, ← List.append_assoc]
    rw [trimmed, List.rdropWhile_append_rtakeWhile]
    simp
  · intro empty
    rw [← String.toList_inj, String.toList_ofList] at empty
    apply named
    rw [same, empty]
    simp
  · simpa using plain
  · simp [← String.toList_inj]
  · simp only [String.toList_ofList, List.mem_append, List.mem_singleton]
    rintro char (member | last)
    · exact beq_iff_eq.mp (List.mem_rtakeWhile_imp (p := (· == separator)) member)
    · exact last
  · simpa using getLast?_trimmed before

theorem Split.last_separator (split : parts.Split path) :
    ∃ run : List Char, path.toList = parts.directory.toList ++ run ++ separator :: parts.leaf.toList ∧
      ∀ char ∈ run, char = separator := by
  obtain ⟨run, same⟩ := split.exists_last
  refine ⟨run, by simp [split.toList, same], fun char member => split.separators char ?_⟩
  rw [same]
  exact List.mem_append_left _ member

theorem Split.leaf_ne_nil (split : parts.Split path) : parts.leaf.toList ≠ [] := by
  simpa using split.named

theorem Split.toList_parent (split : parts.Split path) : parts.parent.toList = enclosing parts.directory.toList := by
  have trim : trimmed parts.directory.toList = parts.directory.toList := by
    have nothing : ∀ char ∈ ([] : List Char), char = separator := nofun
    simpa using trimmed_run split.ends nothing
  rw [parent, enclosing, trim]
  simp only [String.toList_eq_nil_iff]
  split_ifs with root
  · rfl
  · rfl

theorem Split.parent?_eq (split : parts.Split path) : parent? path = some parts.parent := by
  obtain ⟨run, same, separators⟩ := split.last_separator
  rw [parent?, same, parentChars?_last split.plain, if_neg split.leaf_ne_nil, enclosing_append separators,
    ← split.toList_parent, Option.map_some, String.ofList_toList]

theorem Split.insert (split : parts.Split path) {more : String} (run : ∀ char ∈ more.toList, char = separator) :
    (Parts.mk parts.directory (parts.run ++ more) parts.leaf).Split
      (parts.directory ++ parts.run ++ more ++ parts.leaf) where
  whole := by simp only [String.append_assoc]
  named := split.named
  plain := split.plain
  parted := by simp [split.parted]
  separators := by
    simp only [String.toList_append, List.mem_append]
    rintro char (old | new)
    · exact split.separators char old
    · exact run char new
  ends := split.ends

theorem Split.parent?_join (split : parts.Split path) :
    parent? (parts.parent ++ "/" ++ parts.leaf) = some parts.parent := by
  have joined : (parts.parent ++ "/" ++ parts.leaf).toList = parts.parent.toList ++ separator :: parts.leaf.toList := by
    simp [separator]
  rw [parent?, joined, parentChars?_last split.plain, if_neg split.leaf_ne_nil, split.toList_parent,
    enclosing_enclosing, ← split.toList_parent, Option.map_some, String.ofList_toList]

theorem exists_split_iff (path : String) :
    (∃ parts : Parts, parts.Split path) ↔ separator ∈ path.toList ∧ path.toList.getLast? ≠ some separator := by
  constructor
  · rintro ⟨parts, split⟩
    obtain ⟨run, same, -⟩ := split.last_separator
    refine ⟨by simp [same], ?_⟩
    rw [Ne, ← parent?_eq_none_iff, split.parent?_eq]
    exact Option.some_ne_none _
  · rintro ⟨parted, named⟩
    exact exists_split parted named

end Parts

section Paths
variable {path parent : String}

theorem parent?_bare (bare : separator ∉ path.toList) : parent? path = some "." := by
  rw [parent?, parentChars?_bare bare]
  rfl

theorem parent?_join_bare (bare : separator ∉ path.toList) (named : path ≠ "") :
    parent? ("." ++ "/" ++ path) = some "." := by
  have joined : ("." ++ "/" ++ path).toList = ['.'] ++ separator :: path.toList := by simp [separator]
  have leaf : path.toList ≠ [] := by simpa using named
  rw [parent?, joined, parentChars?_last bare, if_neg leaf]
  rfl

theorem getLast?_enclosing {before : List Char} (ends : (enclosing before).getLast? = some separator) :
    enclosing before = [separator] := by
  unfold enclosing at ends ⊢
  split_ifs at ends ⊢ with root
  · rfl
  · exact absurd ends (getLast?_trimmed before)

theorem eq_root_of_parent? (found : parent? path = some parent) (ends : parent.toList.getLast? = some separator) :
    parent = "/" := by
  rw [parent?, Option.map_eq_some_iff] at found
  obtain ⟨chars, read, rfl⟩ := found
  rw [String.toList_ofList] at ends
  by_cases parted : separator ∈ path.toList
  · obtain ⟨before, leaf, same, plain⟩ := exists_last_separator parted
    rw [same, parentChars?_last plain] at read
    split_ifs at read
    obtain rfl := Option.some.inj read
    rw [getLast?_enclosing ends]
    rfl
  · rw [parentChars?_bare parted] at read
    obtain rfl := Option.some.inj read
    cases ends

theorem slicedParent?_toList (path : String) :
    slicedParent? path.toList = some ((parent? path).map String.toList) := by
  have back : String.toList ∘ String.ofList = id := funext fun _ => String.toList_ofList
  rw [slicedParent?_eq, parent?, Option.map_map, back, Option.map_id_apply]

end Paths

/-- Every path ends in a separator, has none, or can be split in one way, and that decides where it lies: nowhere, in
the current directory, or in the directory in front of its last run of separators. How long the run is does not matter,
and what is put behind its directory again lies there. Cut at byte offsets, the path gives the same. -/
theorem paths_are_cut_at_their_last_separators (path : String) :
    (parent? path = none ↔ path.toList.getLast? = some separator) ∧
    (separator ∉ path.toList → parent? path = some "." ∧ (path ≠ "" → parent? ("." ++ "/" ++ path) = some ".")) ∧
    ((∃! parts : Parts, parts.Split path) ↔ separator ∈ path.toList ∧ path.toList.getLast? ≠ some separator) ∧
    (∀ parts : Parts, parts.Split path → parent? path = some parts.parent ∧
      (∀ more : String, (∀ char ∈ more.toList, char = separator) →
        parent? (parts.directory ++ parts.run ++ more ++ parts.leaf) = parent? path) ∧
      parent? (parts.parent ++ "/" ++ parts.leaf) = parent? path) ∧
    (∀ parent, parent? path = some parent → parent.toList.getLast? = some separator → parent = "/") ∧
    slicedParent? path.toList = some ((parent? path).map String.toList) := by
  refine ⟨parent?_eq_none_iff, ?_, ?_, ?_, fun _ => eq_root_of_parent?, slicedParent?_toList path⟩
  · intro bare
    exact ⟨parent?_bare bare, parent?_join_bare bare⟩
  · rw [← Parts.exists_split_iff]
    constructor
    · exact ExistsUnique.exists
    · rintro ⟨parts, split⟩
      exact ⟨parts, split, fun other also => split.unique also⟩
  · intro parts split
    rw [split.parent?_eq]
    exact ⟨rfl, fun more run => (split.insert run).parent?_eq, split.parent?_join⟩

/-- A name of two bytes in front of two separators. -/
theorem doubled_separators_are_cut :
    (Parts.mk "é" "//" "b.c").Split "é//b.c" ∧ (∀ char ∈ "/".toList, char = separator) ∧
      parent? "é//b.c" = some "é" ∧ parent? "é///b.c" = some "é" ∧ parent? "é/b.c" = some "é" := by
  have split : (Parts.mk "é" "//" "b.c").Split "é//b.c" :=
    ⟨by decide, by decide, by decide, by decide, by simp [separator], by decide⟩
  have run : ∀ char ∈ "/".toList, char = separator := by simp [separator]
  obtain ⟨-, -, -, cut, -⟩ := paths_are_cut_at_their_last_separators "é//b.c"
  obtain ⟨found, inserted, joined⟩ := cut _ split
  exact ⟨split, run, found, (inserted "/" run).trans found, joined.trans found⟩

end Canon.File

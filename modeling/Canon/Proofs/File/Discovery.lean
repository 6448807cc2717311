import Canon.File.Stat

/-!
Questions to a file system, and what can be read off them: which paths led to something of the kind sought, and
which of these findings were the first of their identity.
-/
namespace Canon.File

structure Probe where
  sought : Sought
  path : String
  answer : Except StatError Stat

structure Finding where
  path : String
  stat : Stat
  deriving DecidableEq

def Finding.identity (finding : Finding) : Identity := finding.stat.identity

def Probe.finding? (sought : Sought) (probe : Probe) : Option Finding :=
  if probe.sought = sought then (sought.usable? probe.answer).map (Finding.mk probe.path) else none

def findings (sought : Sought) (log : List Probe) : List Finding := log.filterMap (Probe.finding? sought)

/-- Puts a finding behind the known ones, unless one of them has its identity. -/
def discover (known : List Finding) (finding : Finding) : List Finding :=
  if finding.identity ∈ known.map Finding.identity then known else known ++ [finding]

/-- The first finding of each identity, in order. -/
def discoveries (sought : Sought) (log : List Probe) : List Finding := (findings sought log).foldl discover []

theorem Probe.finding?_eq_some {sought : Sought} {probe : Probe} {finding : Finding}
    (found : probe.finding? sought = some finding) :
    probe.sought = sought ∧ probe.path = finding.path ∧ sought.usable? probe.answer = some finding.stat := by
  unfold Probe.finding? at found
  split at found
  next kind =>
    obtain ⟨stat, usable, rfl⟩ := Option.map_eq_some_iff.mp found
    exact ⟨kind, rfl, usable⟩
  next => cases found

@[simp] theorem Probe.finding?_same (sought : Sought) (path : String) (answer : Except StatError Stat) :
    Probe.finding? sought ⟨sought, path, answer⟩ = (sought.usable? answer).map (Finding.mk path) := by
  simp [Probe.finding?]

theorem Probe.finding?_other {sought : Sought} {probe : Probe} (other : probe.sought ≠ sought) :
    probe.finding? sought = none := by
  simp [Probe.finding?, other]

theorem mem_findings {sought : Sought} {log : List Probe} {finding : Finding} :
    finding ∈ findings sought log ↔ ∃ probe ∈ log, probe.finding? sought = some finding := by
  simp [findings]

theorem findings_concat_none {sought : Sought} {probe : Probe} (nothing : probe.finding? sought = none)
    (log : List Probe) : findings sought (log ++ [probe]) = findings sought log := by
  simp [findings, nothing]

theorem findings_concat_some {sought : Sought} {probe : Probe} {finding : Finding}
    (found : probe.finding? sought = some finding) (log : List Probe) :
    findings sought (log ++ [probe]) = findings sought log ++ [finding] := by
  simp [findings, found]

theorem discoveries_concat_none {sought : Sought} {probe : Probe} (nothing : probe.finding? sought = none)
    (log : List Probe) : discoveries sought (log ++ [probe]) = discoveries sought log := by
  rw [discoveries, findings_concat_none nothing]
  rfl

theorem discoveries_concat_some {sought : Sought} {probe : Probe} {finding : Finding}
    (found : probe.finding? sought = some finding) (log : List Probe) :
    discoveries sought (log ++ [probe]) = discover (discoveries sought log) finding := by
  rw [discoveries, findings_concat_some found, List.foldl_append]
  rfl

theorem discover_known {known : List Finding} {finding : Finding}
    (old : finding.identity ∈ known.map Finding.identity) : discover known finding = known := if_pos old

theorem discover_new {known : List Finding} {finding : Finding}
    (new : finding.identity ∉ known.map Finding.identity) : discover known finding = known ++ [finding] :=
  if_neg new

theorem prefix_discover (known : List Finding) (finding : Finding) : known <+: discover known finding := by
  by_cases old : finding.identity ∈ known.map Finding.identity
  · exact (discover_known old).symm ▸ List.prefix_refl known
  · rw [discover_new old]
    exact List.prefix_append known [finding]

theorem prefix_foldl_discover (known later : List Finding) : known <+: later.foldl discover known := by
  induction later generalizing known with
  | nil => exact List.prefix_refl known
  | cons finding later ih => exact (prefix_discover known finding).trans (ih _)

theorem nodup_foldl_discover (known later : List Finding) (distinct : (known.map Finding.identity).Nodup) :
    ((later.foldl discover known).map Finding.identity).Nodup := by
  induction later generalizing known with
  | nil => exact distinct
  | cons finding later ih =>
    apply ih
    by_cases old : finding.identity ∈ known.map Finding.identity
    · rw [discover_known old]
      exact distinct
    · rw [discover_new old, List.map_append, List.nodup_append]
      refine ⟨distinct, by simp, ?_⟩
      intro identity member other single same
      simp only [List.map_cons, List.map_nil, List.mem_singleton] at single
      exact old (single ▸ same ▸ member)

theorem nodup_discoveries (sought : Sought) (log : List Probe) :
    ((discoveries sought log).map Finding.identity).Nodup :=
  nodup_foldl_discover [] _ List.nodup_nil

theorem discovery_number_unique {sought : Sought} {log : List Probe} {i j : Nat} {left right : Finding}
    (first : (discoveries sought log)[i]? = some left) (second : (discoveries sought log)[j]? = some right)
    (same : left.identity = right.identity) : i = j := by
  have distinct := nodup_discoveries sought log
  have one : ((discoveries sought log).map Finding.identity)[i]? = some left.identity := by simp [first]
  have two : ((discoveries sought log).map Finding.identity)[j]? = some left.identity := by simp [second, same]
  obtain ⟨bound, -⟩ := List.getElem?_eq_some_iff.mp one
  exact (List.getElem?_inj bound distinct).mp (one.trans two.symm)

theorem mem_identities_foldl {known later : List Finding} {finding : Finding} (member : finding ∈ known ++ later) :
    finding.identity ∈ (later.foldl discover known).map Finding.identity := by
  induction later generalizing known with
  | nil =>
    rw [List.append_nil] at member
    exact List.mem_map_of_mem member
  | cons head later ih =>
    have either : finding ∈ known ∨ finding ∈ head :: later := List.mem_append.mp member
    rcases either with old | new
    · exact ih (List.mem_append_left _ ((prefix_discover known head).subset old))
    · rcases List.mem_cons.mp new with rfl | rest
      · have entered : finding.identity ∈ (discover known finding).map Finding.identity := by
          by_cases old : finding.identity ∈ known.map Finding.identity
          · rw [discover_known old]
            exact old
          · simp [discover_new old]
        exact ((prefix_foldl_discover _ later).map Finding.identity).subset entered
      · exact ih (List.mem_append_right _ rest)

theorem exists_discovery {sought : Sought} {log : List Probe} {finding : Finding}
    (found : finding ∈ findings sought log) :
    ∃ (i : Nat) (discovery : Finding),
      (discoveries sought log)[i]? = some discovery ∧ discovery.identity = finding.identity := by
  have entered : finding.identity ∈ (discoveries sought log).map Finding.identity :=
    mem_identities_foldl (List.mem_append_right [] found)
  obtain ⟨discovery, member, same⟩ := List.mem_map.mp entered
  obtain ⟨i, bound, read⟩ := List.mem_iff_getElem.mp member
  exact ⟨i, discovery, by rw [List.getElem?_eq_getElem bound, read], same⟩

theorem subset_foldl_discover (known later : List Finding) :
    later.foldl discover known ⊆ known ++ later := by
  induction later generalizing known with
  | nil => simp
  | cons head later ih =>
    intro finding member
    rcases List.mem_append.mp (ih _ member) with early | late
    · by_cases old : head.identity ∈ known.map Finding.identity
      · rw [discover_known old] at early
        exact List.mem_append_left _ early
      · rw [discover_new old] at early
        simpa using List.mem_append_left later early
    · exact List.mem_append_right _ (List.mem_cons_of_mem _ late)

theorem mem_findings_of_discovery {sought : Sought} {log : List Probe} {finding : Finding}
    (discovered : finding ∈ discoveries sought log) : finding ∈ findings sought log := by
  simpa using subset_foldl_discover [] _ discovered

theorem length_foldl_discover_le (known later : List Finding) :
    (later.foldl discover known).length ≤ known.length + later.length := by
  induction later generalizing known with
  | nil => exact Nat.le_refl _
  | cons head later ih =>
    have step : (discover known head).length ≤ known.length + 1 := by
      unfold discover
      split <;> simp
    have rest := ih (discover known head)
    simp only [List.foldl_cons, List.length_cons]
    omega

theorem length_discoveries_le (sought : Sought) (log : List Probe) :
    (discoveries sought log).length ≤ log.length := by
  have fewer := length_foldl_discover_le [] (findings sought log)
  have short : (findings sought log).length ≤ log.length := List.length_filterMap_le _ _
  simp only [List.length_nil, Nat.zero_add] at fewer
  exact Nat.le_trans fewer short

end Canon.File

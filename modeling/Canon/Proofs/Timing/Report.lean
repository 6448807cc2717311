import Canon.Proofs.Text.Nearest
import Canon.Timing.Stopwatch

/-!
The report of a stopwatch. It has a line for each stage, and its last line shows the total as a stage would be shown that
took all the time.
-/
namespace Canon.Stopwatch

def labels (stopwatch : Stopwatch) : Option (List String) :=
  stopwatch.stages.map fun stages => stages.toList.map Stage.label

section Figures

theorem seconds_pos {nanoseconds : ℕ} (positive : 0 < nanoseconds) : 0 < (seconds nanoseconds).value := by
  have billion : (1000000000 : Double).value = 1000000000 := Double.value_natCast (by decide)
  refine (Double.rounds_add _ _).pos ?_
  rcases Nat.eq_zero_or_pos (nanoseconds / 1000000000) with none | some
  · have rest : 0 < nanoseconds % 1000000000 := by omega
    apply add_pos_of_nonneg_of_pos (Double.value_nonneg _)
    refine (Double.rounds_div _ _ (by rw [billion]; norm_num)).pos (div_pos ?_ (by rw [billion]; norm_num))
    exact (Double.rounds_natCast _).pos (Nat.cast_pos.mpr rest)
  · apply add_pos_of_pos_of_nonneg _ (Double.value_nonneg _)
    exact (Double.rounds_natCast _).pos (Nat.cast_pos.mpr some)

/-- All of the time is a hundred percent exactly. -/
theorem value_percentage_self {nanoseconds : ℕ} (positive : 0 < nanoseconds) :
    (percentage nanoseconds nanoseconds).value = 100 := by
  have nonzero := (seconds_pos positive).ne'
  have hundred : (100 : Double).value = 100 := Double.value_natCast (by decide)
  have one : (seconds nanoseconds / seconds nanoseconds).value = 1 := by
    have rounds := Double.rounds_div (seconds nanoseconds) (seconds nanoseconds) nonzero
    rw [div_self nonzero] at rounds
    exact rounds.eq (1 : Double) (Double.value_natCast (by decide))
  have rounds := Double.rounds_mul (seconds nanoseconds / seconds nanoseconds) 100
  rw [one, hundred, one_mul] at rounds
  rw [percentage, if_neg positive.ne']
  exact rounds.eq 100 hundred

theorem share_self {nanoseconds : ℕ} (positive : 0 < nanoseconds) : share nanoseconds nanoseconds = "100.0%" := by
  rw [share, @Double.render_of_value _ 100 (value_percentage_self positive)]
  decide

/-- What lies halfway between two decimals is not always exact as a double. -/
example : share 5000 16000 = " 31.3%" := by decide

end Figures

section Lines

/-- The lines of a report on stages with the given labels: one for each stage and one for the total, between rules. They
are filled up to the length of the longest label. -/
structure Lists (labels : List String) (stages : List Stage) (lines : List String) : Prop where
  named : stages.map Stage.label = labels
  lines : ∃ width, (("Total" :: labels).map String.utf8ByteSize).max? = some width ∧
    let rule := String.ofList (List.replicate (width + 28) '-')
    let total := (stages.map Stage.nanoseconds).sum
    lines = [rule, "Profiler Report", rule] ++
      stages.map (fun stage => Text.padRight width stage.label ++ " : " ++ milliseconds stage.nanoseconds ++ " (" ++
        share stage.nanoseconds total ++ ")") ++
      [rule, Text.padRight width "Total" ++ " : " ++ milliseconds total ++ " (100.0%)", rule]

/-- The report of a stopwatch that has timed stages with the given labels, if it is on. -/
inductive Reports (labels : List String) : Bool → String → Prop where
  | off : Reports labels false ""
  | on {stages : List Stage} {lines : List String} (lists : Lists labels stages lines) :
    Reports labels true (String.join (lines.map (· ++ "\n")))

theorem lists_reportOn (stages : List Stage) :
    ∃ lines, Lists (stages.map Stage.label) stages lines ∧ reportOn stages = String.join (lines.map (· ++ "\n")) := by
  have widest : (("Total" :: stages.map Stage.label).map String.utf8ByteSize).max? = some (labelWidth stages) := by
    rw [List.map_cons, List.max?_cons', List.map_map]
    rfl
  exact ⟨_, ⟨rfl, _, widest, rfl⟩, rfl⟩

theorem reports {stopwatch : Stopwatch} {labels : List String} {on : Bool}
    (timed : stopwatch.labels = if on then some labels else none) : Reports labels on stopwatch.report := by
  obtain ⟨stages⟩ := stopwatch
  cases on with
  | false =>
    cases stages with
    | none => exact .off
    | some stages => cases timed
  | true =>
    cases stages with
    | none => cases timed
    | some stages =>
      obtain rfl : stages.toList.map Stage.label = labels := Option.some.inj timed
      obtain ⟨lines, lists, report⟩ := lists_reportOn stages.toList
      show Reports _ true (reportOn stages.toList)
      rw [report]
      exact .on lists

theorem line_total {total : ℕ} (positive : 0 < total) (width : ℕ) :
    line width total ⟨totalLabel, total⟩ = Text.padRight width "Total" ++ " : " ++ milliseconds total ++ " (100.0%)" := by
  rw [line, share_self positive, String.append_assoc, String.append_assoc]
  rfl

end Lines
end Canon.Stopwatch

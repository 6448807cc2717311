import Canon.Proofs.Timing.Report
import Canon.Timing.Masked

/-!
Masked reports forget what the clock showed. A line is cut at the last separators in it, which are those in front of the
figures, whatever the label says.
-/
namespace Canon.Timing
open Stopwatch

section Cutting
variable {mark text : List Char}

theorem afterFirst?_of_isPrefix (nonempty : mark ≠ []) (here : mark <+: text) :
    afterFirst? mark text = some (text.drop mark.length) := by
  cases text with
  | nil => exact absurd (List.prefix_nil.mp here) nonempty
  | cons char rest => exact if_pos (List.isPrefixOf_iff_prefix.mpr here)

/-- A mark is not found any earlier where one of its characters is missing up to there. -/
theorem afterFirst?_append {key : Char} {before front : List Char} (rest behind : List Char) (missing : key ∉ front)
    (first : key ∉ before) :
    afterFirst? (before ++ key :: behind) (front ++ (before ++ key :: behind ++ rest)) = some rest := by
  induction front with
  | nil =>
    rw [List.nil_append, afterFirst?_of_isPrefix (by simp) (List.prefix_append _ _), List.drop_left]
  | cons char front ih =>
    have early : ¬before ++ key :: behind <+: char :: front ++ (before ++ key :: behind ++ rest) := by
      intro here
      have start : before ++ [key] <+: char :: front ++ (before ++ key :: behind ++ rest) :=
        List.IsPrefix.trans ⟨behind, by simp⟩ here
      have longer : (before ++ [key]).length ≤ (char :: front ++ before).length := by
        simp only [List.length_append, List.length_cons, List.length_nil]
        omega
      have part := List.prefix_of_prefix_length_le start ⟨key :: behind ++ rest, by simp⟩ longer
      have member : key ∈ char :: front ++ before := part.subset (by simp)
      rcases List.mem_append.mp member with inside | inside
      · exact missing inside
      · exact first inside
    rw [List.cons_append, afterFirst?, if_neg (by rwa [List.isPrefixOf_iff_prefix])]
    exact ih (fun inside => missing (List.mem_cons_of_mem _ inside))

theorem beforeLast?_append {key : Char} {before behind : List Char} (front rest : List Char) (missing : key ∉ rest)
    (last : key ∉ behind) :
    beforeLast? (before ++ key :: behind) (front ++ (before ++ key :: behind) ++ rest) = some front := by
  have cut := @afterFirst?_append key behind.reverse rest.reverse front.reverse before.reverse
    (by rwa [List.mem_reverse]) (by rwa [List.mem_reverse])
  simp only [beforeLast?, List.reverse_append, List.reverse_cons, List.append_assoc, List.singleton_append] at cut ⊢
  rw [cut, Option.map_some, List.reverse_reverse]

end Cutting

section Figures

/-- The characters of a figure in a column. -/
theorem mem_padLeft_render {width places : Nat} {double : Double} {char : Char}
    (inside : char ∈ (Text.padLeft width (double.render places)).toList) :
    char = ' ' ∨ char = '.' ∨ char.isDigit = true := by
  have digits (number : Nat) (among : char ∈ (toString number).toList) : char.isDigit = true := by
    have : char ∈ number.repr.toList := among
    rw [Nat.toList_repr] at this
    exact Nat.isDigit_of_mem_toDigits (by decide) (by decide) this
  simp only [Text.padLeft, Double.render, Text.fixedPoint, String.toList_append, String.toList_ofList, List.mem_append,
    List.mem_replicate] at inside
  rcases inside with blank | ((whole | point) | zero) | rest
  · exact .inl blank.2
  · exact .inr (.inr (digits _ whole))
  · exact .inr (.inl (List.mem_singleton.mp point))
  · exact .inr (.inr (zero.2 ▸ rfl))
  · exact .inr (.inr (digits _ rest))

theorem not_mem_padLeft_render {width places : Nat} {double : Double} {char : Char}
    (other : char ≠ ' ' ∧ char ≠ '.' ∧ char.isDigit = false) :
    char ∉ (Text.padLeft width (double.render places)).toList := by
  intro inside
  rcases mem_padLeft_render inside with blank | point | digit
  · exact other.1 blank
  · exact other.2.1 point
  · exact Bool.false_ne_true (other.2.2.symm.trans digit)

end Figures

section Lines

theorem maskLine_figures (label : String) {time part : String} (timed : ':' ∉ time.toList) (parted : '(' ∉ part.toList) :
    maskLine (label ++ " : " ++ (time ++ "ms") ++ " (" ++ (part ++ "%") ++ ")") = label ++ " : TIME" := by
  have whole : (label ++ " : " ++ (time ++ "ms") ++ " (" ++ (part ++ "%") ++ ")").toList =
      (label.toList ++ " : ".toList ++ time.toList) ++ "ms (".toList ++ (part.toList ++ "%)".toList) := by
    simp [String.toList_append]
  have ends : "%)".toList.isSuffixOf ((label.toList ++ " : ".toList ++ time.toList) ++ "ms (".toList ++
      (part.toList ++ "%)".toList)) = true := by
    rw [List.isSuffixOf_iff_suffix, ← List.append_assoc]
    exact List.suffix_append _ _
  have share : beforeLast? "ms (".toList ((label.toList ++ " : ".toList ++ time.toList) ++ "ms (".toList ++
      (part.toList ++ "%)".toList)) = some (label.toList ++ " : ".toList ++ time.toList) :=
    @beforeLast?_append '(' "ms ".toList [] _ _ (by simp [parted]) (by decide)
  have figure : beforeLast? " : ".toList (label.toList ++ " : ".toList ++ time.toList) = some label.toList :=
    @beforeLast?_append ':' " ".toList " ".toList _ _ timed (by decide)
  rw [maskLine, whole, if_pos ends, share, Option.bind_some, figure]
  exact congrArg (· ++ " : TIME") String.ofList_toList

theorem maskLine_line (width total : Nat) (stage : Stage) :
    maskLine (line width total stage) = Text.padRight width stage.label ++ " : TIME" := by
  rw [line, milliseconds, share]
  exact maskLine_figures _ (not_mem_padLeft_render (by decide)) (not_mem_padLeft_render (by decide))

theorem maskLine_total (width total : Nat) :
    maskLine (Text.padRight width "Total" ++ " : " ++ milliseconds total ++ " (100.0%)") =
      Text.padRight width "Total" ++ " : TIME" := by
  have figures : " (100.0%)" = " (" ++ ("100.0" ++ "%") ++ ")" := by decide
  rw [figures, milliseconds, ← String.append_assoc, ← String.append_assoc]
  exact maskLine_figures _ (not_mem_padLeft_render (by decide)) (by decide)

theorem maskLine_rule (length : Nat) :
    maskLine (String.ofList (List.replicate length '-')) = String.ofList (List.replicate length '-') := by
  refine if_neg fun ends => ?_
  have inside := (List.isSuffixOf_iff_suffix.mp ends).subset (List.mem_cons_self : '%' ∈ ['%', ')'])
  rw [String.toList_ofList] at inside
  exact absurd (List.eq_of_mem_replicate inside) (by decide)

theorem map_maskLine {labels : List String} {stages : List Stage} {lines : List String} {width : Nat}
    (lists : Lists labels stages lines) (widest : (("Total" :: labels).map String.utf8ByteSize).max? = some width) :
    let rule := String.ofList (List.replicate (width + 28) '-')
    lines.map maskLine = [rule, "Profiler Report", rule] ++ labels.map (Text.padRight width · ++ " : TIME") ++
      [rule, Text.padRight width "Total" ++ " : TIME", rule] := by
  obtain ⟨rfl, other, greatest, rfl⟩ := lists
  obtain rfl : width = other := Option.some.inj (widest.symm.trans greatest)
  have each (total : Nat) : (stages.map (line width total)).map maskLine =
      (stages.map Stage.label).map (Text.padRight width · ++ " : TIME") := by
    rw [List.map_map, List.map_map]
    exact List.map_congr_left fun stage _ => maskLine_line width total stage
  intro rule
  have title : maskLine "Profiler Report" = "Profiler Report" := by decide
  have front : [rule, "Profiler Report", rule].map maskLine = [rule, "Profiler Report", rule] := by
    simp only [List.map_cons, List.map_nil, title, rule, maskLine_rule]
  have back (total : Nat) : [rule, Text.padRight width "Total" ++ " : " ++ milliseconds total ++ " (100.0%)", rule].map
      maskLine = [rule, Text.padRight width "Total" ++ " : TIME", rule] := by
    simp only [List.map_cons, List.map_nil, maskLine_total, rule, maskLine_rule]
  rw [List.map_append, List.map_append, front, back]
  exact congrArg (fun middle => _ ++ middle ++ _) (each _)

/-- Reports on stages with the same labels have the same lines once these are masked, however long the stages took. -/
theorem masked_lines {labels : List String} {left right : List Stage} {first second : List String}
    (one : Lists labels left first) (two : Lists labels right second) : first.map maskLine = second.map maskLine := by
  obtain ⟨width, widest, -⟩ := one.lines
  rw [map_maskLine one widest, map_maskLine two widest]

end Lines
end Canon.Timing

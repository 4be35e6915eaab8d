import RazorLayout.Proofs.Text.Margin
import RazorLayout.Proofs.Text.Unblanked

/-!
# The left margin as a normal form

A text at the left margin stands for all texts that have been moved away from it.  A move away is
taken back, a second move changes nothing, and the first one costs nothing but blanks.

* `Margin.common_flush`: what has been moved has no common margin left;
* `unblanked_dedent`: the solid characters are those of the text.

Result.  `dedent_undoes_indent` puts these together with the laws of the two moves.
-/

namespace RazorLayout

namespace Margin

open Text (isBlankText unblanked)

variable {ls : List Text}

theorem common_of_forall_isBlankText (h : ∀ line ∈ ls, isBlankText line = true) :
    common ls = 0 := by
  have hnone : (ls.filter fun line => !isBlankText line) = [] := by
    simpa [List.filter_eq_nil_iff] using h
  rw [common, hnone]
  rfl

/-- Among lines that have been moved to the left margin one starts there. -/
theorem common_flush (ls : List Text) : common (flush ls) = 0 := by
  by_cases h : ∃ line ∈ body ls, isBlankText line = false
  · have hmove : common (flush ls) = common (body ls) - common ls := by
      refine common_mapSolid (g := (· - common ls)) (fun _ _ h => Nat.sub_le_sub_right h _) ?_ h
      intro line hmem hline
      exact Text.drop_of_le_width (Text.common_le_width (mem_of_mem_body hmem) hline) hline
    rw [hmove, common_body, Nat.sub_self]
  · refine common_of_forall_isBlankText fun line hmem => ?_
    obtain ⟨source, hsource, rfl⟩ := List.mem_map.1 hmem
    cases hblank : isBlankText source with
    | true => rfl
    | false => exact absurd ⟨source, hsource, hblank⟩ h

theorem flatMap_unblanked_body (ls : List Text) :
    (body ls).flatMap unblanked = ls.flatMap unblanked := by
  induction ls with
  | nil => rfl
  | cons line ls ih =>
      by_cases hline : isBlankText line = true
      · rw [body, List.dropWhile_cons_of_pos hline, List.flatMap_cons,
          Text.unblanked_of_isBlankText hline, List.nil_append]
        exact ih
      · rw [body, List.dropWhile_cons_of_neg hline]

/-- A change that only concerns blanks. -/
theorem flatMap_unblanked_mapSolid {f : Text → Text}
    (hf : ∀ line ∈ ls, isBlankText line = false → unblanked (f line) = unblanked line) :
    (mapSolid f ls).flatMap unblanked = ls.flatMap unblanked := by
  induction ls with
  | nil => rfl
  | cons line ls ih =>
      have hrest := ih fun other hmem => hf other (List.mem_cons_of_mem line hmem)
      have hcons : mapSolid f (line :: ls) =
          (if isBlankText line then [] else f line) :: mapSolid f ls := rfl
      rw [hcons, List.flatMap_cons, List.flatMap_cons, hrest]
      congr 1
      split
      · rename_i hline
        rw [Text.unblanked_of_isBlankText hline]
        rfl
      · rename_i hline
        exact hf line List.mem_cons_self (by simpa using hline)

end Margin

namespace Text

/-- The move to the left margin costs nothing but blanks. -/
theorem unblanked_dedent (t : Text) : unblanked (dedent t) = unblanked t := by
  have hmargin : ∀ line ∈ Margin.body (lines t), isBlankText line = false →
      unblanked (line.drop (Margin.common (lines t))) = unblanked line := by
    intro line hmem hline
    have hgap := isTabOrSpace_of_mem_take (common_le_width (Margin.mem_of_mem_body hmem) hline)
    conv_rhs => rw [← List.take_append_drop (Margin.common (lines t)) line, unblanked_append,
      unblanked_of_isBlankText (isBlankText_of_isTabOrSpace hgap), List.nil_append]
  calc unblanked (dedent t)
      = (Margin.flush (lines t)).flatMap unblanked := unblanked_unlines _
    _ = (Margin.body (lines t)).flatMap unblanked := Margin.flatMap_unblanked_mapSolid hmargin
    _ = (lines t).flatMap unblanked := Margin.flatMap_unblanked_body _
    _ = unblanked t := by rw [← unblanked_unlines, unlines_lines]

theorem common_lines_dedent (t : Text) : Margin.common (lines (dedent t)) = 0 := by
  have hlines : ∀ line ∈ Margin.flush (lines t), IsLine line :=
    isLine_of_mem_mapSolid fun line hmem =>
      isLine_drop (isLine_of_mem_lines (Margin.mem_of_mem_body hmem)) _
  have hmove : dedent t = unlines (Margin.flush (lines t)) := rfl
  rw [hmove]
  cases hflush : Margin.flush (lines t) with
  | nil => rfl
  | cons line ls =>
      rw [hflush] at hlines
      rw [lines_unlines (List.cons_ne_nil line ls) hlines, ← hflush]
      exact Margin.common_flush (lines t)

/-- The move to the left margin takes back an indentation and leaves a text there that is there
already.  It leaves no common margin, and it keeps every solid character. -/
theorem dedent_undoes_indent (t : Text) :
    (∀ lead : Text, (∀ c ∈ lead, isTabOrSpace c = true) →
      dedent (unlines (indent lead t)) = dedent t) ∧
      dedent (dedent t) = dedent t ∧
      Margin.common (lines (dedent t)) = 0 ∧ unblanked (dedent t) = unblanked t :=
  ⟨fun _ hlead => dedent_unlines_indent hlead t, dedent_dedent t, common_lines_dedent t,
    unblanked_dedent t⟩

/-- A line of a no-break space at the top, which is blank and no indentation, and a line of tabs and
spaces among solid ones. -/
theorem dedent_undoes_indent_mixed :
    let t : Text := "\u00a0\n\t  a\n \t \n\t \u00a0b \n".toList
    let lead : Text := " \t".toList
    (∀ c ∈ lead, isTabOrSpace c = true) ∧
      indent lead t = [" \t\t  a".toList, [], " \t\t \u00a0b ".toList, []] ∧
      dedent t = " a\n\n\u00a0b \n".toList ∧ dedent (unlines (indent lead t)) = dedent t := by
  intro t lead
  have hlead : ∀ c ∈ lead, isTabOrSpace c = true := List.all_eq_true.1 (by decide)
  exact ⟨hlead, by decide +kernel, by decide +kernel, (dedent_undoes_indent t).1 lead hlead⟩

end Text

end RazorLayout

import Mathlib.Data.List.DropRight
import Mathlib.Order.Monotone.Defs
import RazorLayout.Proofs.Text.Rows

/-!
# Moving a text between margins

Blank lines at the top are dropped whenever a text is moved, the other blank lines are emptied, and
the lines that are not blank keep their distances.  So it does not matter from where a text is moved
to the left margin.

`Margin.flush` is the move to the left margin as a function of the lines.

Results.  `flush_mapSolid`: lines that have been moved together end up in the same place.
`dedent_unlines_indent`, `dedent_dedent`: hence an indentation is taken back, and a text at the left
margin stays there.  `dedent_stripEnd`: blanks at the end may be dropped before or after the move.
`reindent_below_reindent`: a body that has been moved behind an indentation, with an empty line
above it and below it, is moved to where it is.
-/

namespace RazorLayout

namespace Margin

open Text (isBlankText)

variable {ls : List Text} {line : Text}

/-- The lines moved to the left margin. -/
def flush (ls : List Text) : List Text :=
  mapSolid (List.drop (common ls)) (body ls)

section Lines

theorem mapSolid_append (f : Text → Text) (ls ms : List Text) :
    mapSolid f (ls ++ ms) = mapSolid f ls ++ mapSolid f ms :=
  List.map_append

theorem mapSolid_append_cons (f : Text → Text) (ls : List Text) (hline : isBlankText line = false)
    (ms : List Text) :
    mapSolid f (ls ++ line :: ms) = mapSolid f ls ++ f line :: mapSolid f ms := by
  simp [mapSolid, hline]

/-- Changing lines twice, where no line becomes blank. -/
theorem mapSolid_mapSolid (g : Text → Text) {f : Text → Text}
    (hf : ∀ line ∈ ls, isBlankText line = false → isBlankText (f line) = false) :
    mapSolid g (mapSolid f ls) = mapSolid (g ∘ f) ls := by
  refine List.map_map.trans (List.map_congr_left fun line hmem => ?_)
  have hnil : isBlankText [] = true := rfl
  cases hline : isBlankText line with
  | true => simp [hline, hnil]
  | false => simp [hline, hf line hmem hline]

/-- A line that is not blank ends the blank lines at the top. -/
theorem body_append_cons (front : List Text) (hline : isBlankText line = false)
    (back : List Text) : body (front ++ line :: back) = body front ++ line :: back := by
  induction front with
  | nil => exact List.dropWhile_cons_of_neg (by simp [hline])
  | cons first front ih =>
      by_cases hfirst : isBlankText first = true
      · rw [body, List.cons_append, List.dropWhile_cons_of_pos hfirst, body,
          List.dropWhile_cons_of_pos hfirst]
        exact ih
      · rw [body, List.cons_append, List.dropWhile_cons_of_neg hfirst, body,
          List.dropWhile_cons_of_neg hfirst]
        rfl

theorem mem_of_mem_body (h : line ∈ body ls) : line ∈ ls :=
  (List.dropWhile_suffix _).subset h

theorem body_mapSolid {f : Text → Text}
    (hf : ∀ line ∈ ls, isBlankText line = false → isBlankText (f line) = false) :
    body (mapSolid f ls) = mapSolid f (body ls) := by
  induction ls with
  | nil => rfl
  | cons first rest ih =>
      have hrest := ih fun line hmem => hf line (List.mem_cons_of_mem first hmem)
      cases hfirst : isBlankText first with
      | true =>
          have hcons : mapSolid f (first :: rest) = [] :: mapSolid f rest := by
            simp [mapSolid, hfirst]
          rw [hcons, body, List.dropWhile_cons_of_pos rfl, body,
            List.dropWhile_cons_of_pos hfirst]
          exact hrest
      | false =>
          have hsolid := hf first List.mem_cons_self hfirst
          have hcons : mapSolid f (first :: rest) = f first :: mapSolid f rest := by
            simp [mapSolid, hfirst]
          rw [hcons, body, List.dropWhile_cons_of_neg (by simp [hsolid]), body,
            List.dropWhile_cons_of_neg (by simp [hfirst]), hcons]

@[simp] theorem body_body (ls : List Text) : body (body ls) = body ls :=
  List.dropWhile_idempotent _ _

end Lines

section Widths

@[simp] theorem common_body (ls : List Text) : common (body ls) = common ls := by
  rw [common, body, Text.filter_dropWhile_not, common]

/-- The common margin is the indentation of a line. -/
theorem exists_width_eq_common (h : ∃ line ∈ ls, isBlankText line = false) :
    ∃ line ∈ ls, isBlankText line = false ∧ width line = common ls := by
  obtain ⟨line, hmem, hline⟩ := h
  have hwidth : width line ∈ (ls.filter fun line => !isBlankText line).map width :=
    List.mem_map.2 ⟨line, List.mem_filter.2 ⟨hmem, by simp [hline]⟩, rfl⟩
  unfold common
  cases hmin : ((ls.filter fun line => !isBlankText line).map width).min? with
  | none =>
      rw [List.min?_eq_none_iff.1 hmin] at hwidth
      cases hwidth
  | some least =>
      obtain ⟨source, hsource, rfl⟩ := List.mem_map.1 (List.min?_eq_some_iff.1 hmin).1
      obtain ⟨hmem, hsolid⟩ := List.mem_filter.1 hsource
      exact ⟨source, hmem, by simpa using hsolid, rfl⟩

/-- Lines whose indentations change together. -/
theorem common_mapSolid {f : Text → Text} {g : Nat → Nat} (hg : Monotone g)
    (hf : ∀ line ∈ ls, isBlankText line = false →
      isBlankText (f line) = false ∧ width (f line) = g (width line))
    (h : ∃ line ∈ ls, isBlankText line = false) : common (mapSolid f ls) = g (common ls) := by
  obtain ⟨least, hleast, hsolid, hwidth⟩ := exists_width_eq_common h
  have hmem : ∀ {line : Text}, line ∈ ls → isBlankText line = false →
      f line ∈ mapSolid f ls := by
    intro line hline hblank
    exact List.mem_map.2 ⟨line, hline, by simp [hblank]⟩
  apply Nat.le_antisymm
  · rw [← hwidth, ← (hf least hleast hsolid).2]
    exact Text.common_le_width (hmem hleast hsolid) (hf least hleast hsolid).1
  · obtain ⟨moved, hmoved, hblank, hcommon⟩ :=
      exists_width_eq_common ⟨f least, hmem hleast hsolid, (hf least hleast hsolid).1⟩
    obtain ⟨source, hsource, rfl⟩ := List.mem_map.1 hmoved
    cases hline : isBlankText source with
    | true =>
        rw [if_pos hline] at hblank
        cases hblank
    | false =>
        rw [if_neg (by simp [hline])] at hcommon
        rw [← hcommon, (hf source hsource hline).2]
        exact hg (Text.common_le_width hsource hline)

end Widths

section Flush

@[simp] theorem flush_body (ls : List Text) : flush (body ls) = flush ls := by
  rw [flush, common_body, body_body, flush]

/-- Lines that have been moved together end up in the same place. -/
theorem flush_mapSolid {f : Text → Text} {g : Nat → Nat} (hg : Monotone g)
    (hf : ∀ line ∈ ls, isBlankText line = false →
      isBlankText (f line) = false ∧ width (f line) = g (width line))
    (hdrop : ∀ line ∈ ls, isBlankText line = false →
      (f line).drop (g (common ls)) = line.drop (common ls)) :
    flush (mapSolid f ls) = flush ls := by
  have hsolid : ∀ line ∈ ls, isBlankText line = false → isBlankText (f line) = false :=
    fun line hmem hline => (hf line hmem hline).1
  rw [flush, flush, body_mapSolid hsolid,
    mapSolid_mapSolid _ fun line hmem => hsolid line (mem_of_mem_body hmem)]
  refine List.map_congr_left fun line hmem => ?_
  cases hline : isBlankText line with
  | true => rfl
  | false =>
      have hls : line ∈ ls := mem_of_mem_body hmem
      simp [common_mapSolid hg hf ⟨line, hls, hline⟩, hdrop line hls hline]

theorem flush_cons_of_isBlankText (hline : isBlankText line = true) (ls : List Text) :
    flush (line :: ls) = flush ls := by
  have hcommon : common (line :: ls) = common ls := by
    simp [common, hline]
  rw [flush, hcommon, body, List.dropWhile_cons_of_pos hline, flush, body]

end Flush

end Margin

namespace Text

section Lines

/-- Lines that are joined and moved to the left margin. -/
theorem dedent_unlines {ls : List Text} (h : ∀ line ∈ ls, IsLine line) :
    dedent (unlines ls) = unlines (Margin.flush ls) := by
  cases ls with
  | nil => rfl
  | cons line ls =>
      rw [dedent, lines_unlines (List.cons_ne_nil line ls) h]
      rfl

theorem dedent_newline (t : Text) : dedent ('\n' :: t) = dedent t := by
  have hlines : lines ('\n' :: t) = [] :: lines t := if_pos rfl
  have hflush : Margin.flush ([] :: lines t) = Margin.flush (lines t) :=
    Margin.flush_cons_of_isBlankText rfl (lines t)
  rw [← hlines] at hflush
  exact congrArg unlines hflush

theorem isLine_drop {t : Text} (h : IsLine t) (n : Nat) : IsLine (t.drop n) :=
  fun hmem => h ((List.drop_suffix n t).subset hmem)

theorem isLine_of_mem_mapSolid {f : Text → Text} {ls : List Text}
    (hf : ∀ line ∈ ls, IsLine (f line)) : ∀ line ∈ Margin.mapSolid f ls, IsLine line := by
  intro line hmem
  obtain ⟨source, hsource, rfl⟩ := List.mem_map.1 hmem
  split
  · simp [IsLine]
  · exact hf source hsource

end Lines

section Moves

variable {lead : Text}

theorem width_append (hlead : ∀ c ∈ lead, isTabOrSpace c = true) (line : Text) :
    Margin.width (lead ++ line) = lead.length + Margin.width line := by
  rw [Margin.width, List.takeWhile_append_of_pos hlead, List.length_append, Margin.width]

theorem isBlankText_of_isTabOrSpace (hlead : ∀ c ∈ lead, isTabOrSpace c = true) :
    isBlankText lead = true :=
  List.all_eq_true.2 fun c hc => isBlank_of_isSpace (isSpace_of_isTabOrSpace (hlead c hc))

/-- Dropping a part of the indentation. -/
theorem drop_of_le_width {line : Text} {n : Nat} (hn : n ≤ Margin.width line)
    (hline : isBlankText line = false) :
    isBlankText (line.drop n) = false ∧ Margin.width (line.drop n) = Margin.width line - n := by
  have hgap := isTabOrSpace_of_mem_take hn
  have hlength : (line.take n).length = n :=
    List.length_take_of_le (hn.trans (List.takeWhile_prefix _).length_le)
  have hsplit : line = line.take n ++ line.drop n := (List.take_append_drop n line).symm
  constructor
  · rw [hsplit, isBlankText_append, isBlankText_of_isTabOrSpace hgap] at hline
    exact hline
  · conv_rhs => rw [hsplit, width_append hgap, hlength]
    omega

/-- An indentation is taken back. -/
theorem dedent_unlines_indent (hlead : ∀ c ∈ lead, isTabOrSpace c = true) (t : Text) :
    dedent (unlines (indent lead t)) = dedent t := by
  have hline : IsLine lead := fun hmem => absurd (hlead '\n' hmem) (by decide)
  have hlines : ∀ line ∈ indent lead t, IsLine line := by
    refine isLine_of_mem_mapSolid fun line hmem => ?_
    simpa [IsLine] using And.intro hline (isLine_of_mem_lines (Margin.mem_of_mem_body hmem))
  rw [dedent_unlines hlines, indent,
    Margin.flush_mapSolid (g := (lead.length + ·)) (fun _ _ h => Nat.add_le_add_left h _),
    Margin.flush_body]
  · rfl
  · intro line _ hsolid
    rw [isBlankText_append, isBlankText_of_isTabOrSpace hlead]
    exact ⟨hsolid, width_append hlead line⟩
  · intro line _ _
    exact List.drop_length_add_append _

/-- A text at the left margin stays there. -/
theorem dedent_dedent (t : Text) : dedent (dedent t) = dedent t := by
  have hlines : ∀ line ∈ Margin.flush (lines t), IsLine line :=
    isLine_of_mem_mapSolid fun line hmem =>
      isLine_drop (isLine_of_mem_lines (Margin.mem_of_mem_body hmem)) _
  have hflush : Margin.flush (Margin.flush (lines t)) = Margin.flush (Margin.body (lines t)) := by
    refine Margin.flush_mapSolid (g := (· - Margin.common (lines t)))
      (fun _ _ h => Nat.sub_le_sub_right h _) ?_ ?_
    · intro line hmem hsolid
      exact drop_of_le_width (common_le_width (Margin.mem_of_mem_body hmem) hsolid) hsolid
    · intro line _ _
      simp
  have hmove := dedent_unlines hlines
  rw [hflush, Margin.flush_body] at hmove
  exact hmove

end Moves

section Ends

theorem stripEnd_append (s : Text) {t : Text} (ht : isBlankText t = false) :
    stripEnd (s ++ t) = s ++ stripEnd t := by
  have hne : t.reverse.dropWhile isBlank ≠ [] := by
    intro hnil
    rw [List.dropWhile_eq_nil_iff] at hnil
    rw [isBlankText, List.all_eq_true.2 fun c hc => hnil c (List.mem_reverse.2 hc)] at ht
    cases ht
  rw [stripEnd, List.reverse_append, List.dropWhile_append, if_neg (by simpa using hne),
    List.reverse_append, List.reverse_reverse, stripEnd]

theorem stripEnd_of_isBlankText {t : Text} (ht : isBlankText t = true) : stripEnd t = [] :=
  stripEnd_append_blank ht []

theorem stripEnd_stripEnd (t : Text) : stripEnd (stripEnd t) = stripEnd t :=
  List.rdropWhile_idempotent isBlank t

theorem isBlankText_stripEnd (t : Text) : isBlankText (stripEnd t) = isBlankText t := by
  obtain ⟨gap, hgap, ht⟩ := exists_stripEnd t
  conv_rhs => rw [ht, isBlankText_append, hgap, Bool.and_true]

theorem unlines_concat (ls : List Text) (line : Text) :
    unlines (ls ++ [line]) = unlines (ls ++ [[]]) ++ line :=
  (unlines_concat_append ls [] line []).symm

/-- A blank line at the end is among the trailing blanks. -/
theorem stripEnd_unlines_concat_of_isBlankText (ls : List Text) {line : Text}
    (hline : isBlankText line = true) :
    stripEnd (unlines (ls ++ [line])) = stripEnd (unlines ls) := by
  cases ls with
  | nil => exact stripEnd_of_isBlankText hline
  | cons first ls =>
      rw [unlines_append (List.cons_ne_nil first ls) (List.cons_ne_nil line [])]
      exact stripEnd_append_blank (List.all_eq_true.2 (List.forall_mem_cons.2
        ⟨rfl, List.all_eq_true.1 hline⟩)) _

theorem stripEnd_unlines_concat (ls : List Text) {line : Text} (hline : isBlankText line = false) :
    stripEnd (unlines (ls ++ [line])) = unlines (ls ++ [stripEnd line]) := by
  rw [unlines_concat, stripEnd_append _ hline, ← unlines_concat]

theorem width_stripEnd {line : Text} (hline : isBlankText line = false) :
    Margin.width (stripEnd line) = Margin.width line := by
  obtain ⟨gap, -, hsplit⟩ := exists_stripEnd line
  have hshort : ¬ ((stripEnd line).takeWhile isTabOrSpace).length = (stripEnd line).length := by
    intro hlength
    have hall := List.takeWhile_eq_self_iff.1
      ((List.takeWhile_prefix isTabOrSpace).eq_of_length hlength)
    rw [← isBlankText_stripEnd, isBlankText_of_isTabOrSpace hall] at hline
    cases hline
  conv_rhs => rw [hsplit, Margin.width, List.takeWhile_append, if_neg hshort]
  rfl

theorem stripEnd_drop {line : Text} {n : Nat} (hn : n ≤ Margin.width line)
    (hline : isBlankText line = false) : stripEnd (line.drop n) = (stripEnd line).drop n := by
  have hlength : (line.take n).length = n :=
    List.length_take_of_le (hn.trans (List.takeWhile_prefix _).length_le)
  have hstrip : stripEnd line = line.take n ++ stripEnd (line.drop n) := by
    conv_lhs => rw [← List.take_append_drop n line]
    exact stripEnd_append _ (drop_of_le_width hn hline).1
  rw [hstrip, List.drop_left' hlength]

/-- A blank line at the end of lines that are moved. -/
theorem stripEnd_flush_concat (ls : List Text) {line : Text} (hline : isBlankText line = true) :
    stripEnd (unlines (Margin.flush (ls ++ [line]))) = stripEnd (unlines (Margin.flush ls)) := by
  have hcommon : Margin.common (ls ++ [line]) = Margin.common ls := by
    simp [Margin.common, hline]
  rw [Margin.flush, hcommon, Margin.body, List.dropWhile_append]
  split
  · rename_i hnone
    have hbody : Margin.body ls = [] := List.isEmpty_iff.1 hnone
    rw [List.dropWhile_cons_of_pos hline, Margin.flush, hbody]
    rfl
  · rw [Margin.mapSolid_append]
    have hempty : Margin.mapSolid (List.drop (Margin.common ls)) [line] = [[]] := by
      simp [Margin.mapSolid, hline]
    rw [hempty, stripEnd_unlines_concat_of_isBlankText _ rfl]
    rfl

/-- Trailing blanks may be dropped before or after the move to the left margin. -/
theorem stripEnd_unlines_flush {ls : List Text} (h : ∀ line ∈ ls, IsLine line) :
    stripEnd (unlines (Margin.flush ls)) = dedent (stripEnd (unlines ls)) := by
  induction ls using List.reverseRecOn with
  | nil => rfl
  | append_singleton ls line ih =>
      obtain ⟨hls, hlast⟩ := List.forall_mem_append.1 h
      cases hline : isBlankText line with
      | true =>
          rw [stripEnd_flush_concat ls hline, ih hls,
            stripEnd_unlines_concat_of_isBlankText ls hline]
      | false =>
          have hshort : isBlankText (stripEnd line) = false := by
            rw [isBlankText_stripEnd, hline]
          have hlines : ∀ other ∈ ls ++ [stripEnd line], IsLine other := by
            refine List.forall_mem_append.2 ⟨hls, List.forall_mem_singleton.2 fun hmem => ?_⟩
            obtain ⟨gap, -, hsplit⟩ := exists_stripEnd line
            rw [hsplit] at hlast
            exact List.forall_mem_singleton.1 hlast (List.mem_append_left gap hmem)
          have hcommon : Margin.common (ls ++ [stripEnd line]) = Margin.common (ls ++ [line]) := by
            simp [Margin.common, hline, hshort, width_stripEnd hline]
          have hwidth : Margin.common (ls ++ [line]) ≤ Margin.width line :=
            common_le_width (List.mem_append_right ls List.mem_cons_self) hline
          have hsolid := (drop_of_le_width hwidth hline).1
          rw [stripEnd_unlines_concat ls hline, dedent_unlines hlines, Margin.flush, Margin.flush,
            hcommon, Margin.body_append_cons ls hline, Margin.body_append_cons ls hshort,
            Margin.mapSolid_append_cons _ _ hline, Margin.mapSolid_append_cons _ _ hshort]
          simp only [Margin.mapSolid, List.map_nil]
          rw [stripEnd_unlines_concat _ hsolid, stripEnd_drop hwidth hline]

theorem dedent_stripEnd (t : Text) : dedent (stripEnd t) = stripEnd (dedent t) := by
  have hlines : ∀ line ∈ lines t, IsLine line := fun _ => isLine_of_mem_lines
  have hmove := stripEnd_unlines_flush hlines
  rw [unlines_lines] at hmove
  exact hmove.symm

/-- A body behind an indentation, with an empty line above it and below it, stays where it is. -/
theorem reindent_below_reindent {lead : Text} (hlead : ∀ c ∈ lead, isTabOrSpace c = true)
    (t : Text) : reindent lead (below (reindent lead t) ++ ['\n']) = reindent lead t := by
  have hbelow : below (reindent lead t) ++ ['\n'] = '\n' :: unlines (reindent lead t ++ [[]]) := by
    rw [← below_of_ne_nil (by simp), below_append]
    rfl
  have hbody : stripEnd (dedent (below (reindent lead t) ++ ['\n'])) = stripEnd (dedent t) :=
    calc stripEnd (dedent (below (reindent lead t) ++ ['\n']))
        = dedent (stripEnd (unlines (reindent lead t ++ [[]]))) := by
          rw [hbelow, dedent_newline, dedent_stripEnd]
      _ = dedent (stripEnd (unlines (reindent lead t))) := by
          rw [stripEnd_unlines_concat_of_isBlankText _ rfl]
      _ = stripEnd (dedent (stripEnd (dedent t))) := by
          rw [dedent_stripEnd, reindent, dedent_unlines_indent hlead]
      _ = stripEnd (dedent t) := by
          rw [dedent_stripEnd, dedent_dedent, stripEnd_stripEnd]
  rw [reindent, hbody, reindent]

end Ends

end Text

end RazorLayout

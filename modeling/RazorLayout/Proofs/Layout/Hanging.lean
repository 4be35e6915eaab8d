import Mathlib.Data.List.Forall2
import RazorLayout.Proofs.Layout.BlankLines
import RazorLayout.Proofs.Text.Margin

/-!
# Pieces of a text that is moved

A body is moved to the left margin, laid out, and moved behind an indentation.  Both moves work on
lines and know nothing of what stands in them.  This module says what becomes of a piece of the text
that starts and ends in the middle of lines.

* `Text.hang` is the piece behind an indentation: its first line stays where it is, blank lines are
  emptied, runs of empty lines are cut down to one, and the other lines go behind the indentation;
* `Text.Outdents` relates a piece to the same piece at the left margin;
* `Text.IsHung` says that the lines of a piece stand behind an indentation already.

Results.  `hang_isInfix`: what becomes of a piece when its text is moved behind an indentation and
written down.  `exists_outdents`: where a piece of a text at the left margin comes from.
`hang_append`, `hang_hang`, `Outdents.split`, `Outdents.trans`: both moves go through pieces of a
piece and can be repeated.  `Outdents.hang_eq_iff`: when the two moves undo each other.
-/

namespace RazorLayout

section Squeezing

variable {ls : List Text} {line : Text}

theorem squeeze_cons_of_ne_nil (hline : line ≠ []) (ls : List Text) :
    squeeze (line :: ls) = line :: squeeze ls := by
  cases ls with
  | nil => rfl
  | cons next ls =>
      have hapart : Apart line next := Or.inl hline
      rw [squeeze, List.destutter_cons', List.destutter'_cons_pos _ hapart]
      rfl

/-- A line that holds something cuts the lines into two parts that are squeezed on their own. -/
theorem squeeze_append_cons (ls : List Text) (hline : line ≠ []) (ms : List Text) :
    squeeze (ls ++ line :: ms) = squeeze ls ++ line :: squeeze ms := by
  rw [← squeeze_cons_of_ne_nil hline]
  cases ls with
  | nil => rfl
  | cons first ls =>
      show (ls ++ line :: ms).destutter' Apart first = _
      induction ls generalizing first with
      | nil =>
          have hapart : Apart first line := Or.inr hline
          rw [List.nil_append, List.destutter'_cons_pos _ hapart]
          rfl
      | cons next ls ih =>
          have hnext : squeeze (first :: next :: ls) =
              if Apart first next then first :: squeeze (next :: ls)
              else squeeze (first :: ls) := rfl
          rw [List.cons_append, List.destutter'_cons, ih, ih, hnext]
          split <;> rfl

/-- Only empty lines are dropped. -/
theorem mem_squeeze (hmem : line ∈ ls) (hline : line ≠ []) : line ∈ squeeze ls := by
  obtain ⟨front, back, rfl⟩ := List.append_of_mem hmem
  rw [squeeze_append_cons front hline]
  exact List.mem_append_right _ List.mem_cons_self

theorem mem_of_mem_squeeze (hmem : line ∈ squeeze ls) : line ∈ ls :=
  (List.destutter_sublist Apart ls).subset hmem

/-- Changing lines so that the empty ones are the same does not matter for squeezing. -/
theorem squeeze_map {f : Text → Text} (hf : ∀ line ∈ ls, f line = [] ↔ line = []) :
    squeeze (ls.map f) = (squeeze ls).map f := by
  refine (List.map_destutter ?_).symm
  intro line hline next hnext
  rw [Apart, Apart, ne_eq, ne_eq, ne_eq, ne_eq, hf line hline, hf next hnext]

end Squeezing

namespace Text

section Joining

/-- Lines that follow each other are a piece of the text. -/
theorem unlines_isInfix {ls ms : List Text} (hne : ls ≠ []) (h : ls <:+: ms) :
    unlines ls <:+: unlines ms := by
  obtain ⟨front, back, rfl⟩ := h
  have hback : unlines ls <+: unlines (ls ++ back) := by
    cases back with
    | nil => simp
    | cons line back =>
        rw [unlines_append hne (List.cons_ne_nil line back)]
        exact List.prefix_append _ _
  cases front with
  | nil => exact hback.isInfix
  | cons line front =>
      rw [List.append_assoc, unlines_append (List.cons_ne_nil line front) (by simp [hne])]
      exact hback.isInfix.trans ((List.suffix_cons _ _).trans (List.suffix_append _ _)).isInfix

/-- The first and the last of lines that follow each other may be cut short. -/
theorem unlines_trim_isInfix (pre first : Text) (mids : List Text) (last post : Text) :
    unlines (first :: mids ++ [last]) <:+: unlines ((pre ++ first) :: mids ++ [last ++ post]) := by
  have hright : unlines (first :: mids ++ [last]) ++ post =
      unlines (first :: mids ++ [last ++ post]) :=
    unlines_concat_append (first :: mids) last post []
  refine ⟨pre, post, ?_⟩
  rw [List.append_assoc, hright]
  exact unlines_concat_append [] pre first (mids ++ [last ++ post])

/-- A text that starts and ends with something that is not blank. -/
structure IsTrimmed (t : Text) : Prop where
  head : ∃ c ∈ t.head?, isBlank c = false
  last : ∃ c ∈ t.getLast?, isBlank c = false

variable {t first last : Text} {front rest : List Text}

theorem head?_of_lines (hlines : lines t = first :: rest) {c : Char} (hc : c ∈ t.head?)
    (hblank : isBlank c = false) : c ∈ first.head? := by
  cases t with
  | nil => cases hc
  | cons d t =>
      obtain rfl : d = c := by
        simpa using hc
      obtain ⟨line, more, hmore⟩ := List.exists_cons_of_ne_nil (lines_ne_nil t)
      have hne : d ≠ '\n' := by
        rintro rfl
        cases hblank
      rw [lines, if_neg hne, hmore, consLine] at hlines
      rw [← (List.cons.inj hlines).1]
      exact hc

theorem getLast?_of_lines (hlines : lines t = front ++ [last]) {c : Char} (hc : c ∈ t.getLast?)
    (hblank : isBlank c = false) : c ∈ last.getLast? := by
  obtain ⟨init, rfl⟩ := List.getLast?_eq_some_iff.1 hc
  have hne : c ≠ '\n' := by
    rintro rfl
    cases hblank
  obtain ⟨above, line, head, more, -, hsingle, happend⟩ := exists_lines_append init [c]
  rw [lines_of_isLine (by simpa [IsLine] using hne.symm)] at hsingle
  obtain ⟨rfl, rfl⟩ := List.cons.inj hsingle
  rw [happend] at hlines
  obtain ⟨-, hlast⟩ := List.append_inj' hlines rfl
  rw [← (List.cons.inj hlast).1]
  simp

theorem isBlankText_eq_false_of_mem {t : Text} {c : Char} (hmem : c ∈ t)
    (hc : isBlank c = false) : isBlankText t = false := by
  rw [isBlankText, List.all_eq_false]
  exact ⟨c, hmem, by simp [hc]⟩

theorem isBlankText_eq_false_of_isInfix {s : Text} (h : s <:+: t) (hs : isBlankText s = false) :
    isBlankText t = false := by
  obtain ⟨c, hmem, hc⟩ := List.all_eq_false.1 hs
  exact isBlankText_eq_false_of_mem (h.subset hmem) (by simpa using hc)

/-- The line that two texts meet in is not blank where the one ends with something that is not blank
or the other starts with it. -/
theorem isBlankText_meet {s : Text} (hs : lines s = front ++ [last]) (ht : lines t = first :: rest)
    (h : (∃ c ∈ s.getLast?, isBlank c = false) ∨ ∃ c ∈ t.head?, isBlank c = false) :
    isBlankText (last ++ first) = false := by
  rcases h with ⟨c, hc, hblank⟩ | ⟨c, hc, hblank⟩
  · have hmem := List.mem_of_mem_getLast? (getLast?_of_lines hs hc hblank)
    exact isBlankText_eq_false_of_mem (List.mem_append_left first hmem) hblank
  · have hmem := List.mem_of_mem_head? (head?_of_lines ht hc hblank)
    exact isBlankText_eq_false_of_mem (List.mem_append_right last hmem) hblank

/-- A text of several lines starts with its first line and ends with its last. -/
theorem IsTrimmed.ends {mids : List Text} (h : IsTrimmed t)
    (hlines : lines t = first :: (mids ++ [last])) :
    (∃ c ∈ first.head?, isBlank c = false) ∧ ∃ c ∈ last.getLast?, isBlank c = false := by
  obtain ⟨c, hc, hblank⟩ := h.head
  obtain ⟨d, hd, hblank'⟩ := h.last
  refine ⟨⟨c, head?_of_lines hlines hc hblank, hblank⟩, ⟨d, ?_, hblank'⟩⟩
  rw [← List.cons_append] at hlines
  exact getLast?_of_lines hlines hd hblank'

theorem isTrimmed_unlines (mids : List Text) (hfirst : ∃ c ∈ first.head?, isBlank c = false)
    (hlast : ∃ c ∈ last.getLast?, isBlank c = false) :
    IsTrimmed (unlines (first :: (mids ++ [last]))) := by
  obtain ⟨c, hc, hblank⟩ := hfirst
  obtain ⟨d, hd, hblank'⟩ := hlast
  obtain ⟨tail, rfl⟩ := List.head?_eq_some_iff.1 hc
  obtain ⟨init, rfl⟩ := List.getLast?_eq_some_iff.1 hd
  refine ⟨⟨c, ?_, hblank⟩, ⟨d, ?_, hblank'⟩⟩
  · cases mids <;> simp [unlines]
  · rw [← List.cons_append, unlines_append (List.cons_ne_nil _ _) (List.cons_ne_nil _ _), unlines,
      List.getLast?_append_of_ne_nil _ (List.cons_ne_nil _ _), ← List.cons_append,
      List.getLast?_concat]
    rfl

theorem IsTrimmed.not_isBlankText (h : IsTrimmed t) : isBlankText t = false := by
  obtain ⟨c, hc, hblank⟩ := h.head
  exact isBlankText_eq_false_of_mem (List.mem_of_mem_head? hc) hblank

theorem IsTrimmed.surround {s u : Text} (hs : IsTrimmed s) (hu : IsTrimmed u) (t : Text) :
    IsTrimmed (s ++ (t ++ u)) := by
  obtain ⟨c, hc, hblank⟩ := hs.head
  obtain ⟨d, hd, hblank'⟩ := hu.last
  obtain ⟨tail, rfl⟩ := List.head?_eq_some_iff.1 hc
  obtain ⟨init, rfl⟩ := List.getLast?_eq_some_iff.1 hd
  refine ⟨⟨c, rfl, hblank⟩, ⟨d, ?_, hblank'⟩⟩
  rw [← List.append_assoc, ← List.append_assoc]
  exact List.getLast?_concat

/-- Where a piece of a text stands in the lines of the text: inside one line, or with its first line
at the end of one line and its last line at the start of another. -/
theorem IsTrimmed.exists_lines {s : Text} (h : IsTrimmed t) (hwithin : t <:+: s) :
    (IsLine t ∧ ∃ front pre post back, lines s = front ++ (pre ++ t ++ post) :: back) ∨
      ∃ first mids last, lines t = first :: (mids ++ [last]) ∧
        isBlankText first = false ∧ isBlankText last = false ∧
        ∃ front pre post back,
          lines s = front ++ (pre ++ first) :: (mids ++ (last ++ post) :: back) := by
  obtain ⟨u, v, rfl⟩ := hwithin
  obtain ⟨c, hc, hblank⟩ := h.head
  obtain ⟨d, hd, hblank'⟩ := h.last
  obtain ⟨front, pre, start, more, -, hstart, hlines⟩ := exists_lines_append u (t ++ v)
  obtain ⟨inner, last, post, back, hinner, -, hmore⟩ := exists_lines_append t v
  rw [hstart] at hmore
  rw [← List.append_assoc] at hlines
  have hlast := List.mem_of_mem_getLast? (getLast?_of_lines hinner hd hblank')
  cases inner with
  | nil =>
      have ht : t = last := by
        rw [← unlines_lines t, hinner]
        rfl
      have hline : IsLine last := isLine_of_mem_lines (by rw [hinner]; exact List.mem_cons_self)
      obtain ⟨rfl, rfl⟩ := List.cons.inj hmore
      refine Or.inl ⟨ht ▸ hline, front, pre, post, more, ?_⟩
      rw [hlines, ht, List.append_assoc]
  | cons first mids =>
      rw [List.cons_append] at hinner hmore
      obtain ⟨rfl, rfl⟩ := List.cons.inj hmore
      have hfirst := List.mem_of_mem_head? (head?_of_lines hinner hc hblank)
      exact Or.inr ⟨start, mids, last, hinner, isBlankText_eq_false_of_mem hfirst hblank,
        isBlankText_eq_false_of_mem hlast hblank', front, pre, post, back, hlines⟩

end Joining

section Hanging

/-- The lines below the first one of a piece behind an indentation.  Something follows the last one,
so it is not blank. -/
def hangBelow (lead : Text) (rest : List Text) : List Text :=
  squeeze (Margin.mapSolid (lead ++ ·) rest.dropLast) ++ (rest.getLast?.map (lead ++ ·)).toList

/-- A piece behind an indentation: its first line stays where it is. -/
def hang (lead t : Text) : Text :=
  unlines ((lines t).take 1 ++ hangBelow lead (lines t).tail)

variable {lead t first : Text} {rest : List Text}

theorem hang_of_lines (h : lines t = first :: rest) :
    hang lead t = unlines (first :: hangBelow lead rest) := by
  rw [hang, h]
  rfl

theorem hangBelow_concat (lead : Text) (mids : List Text) (last : Text) :
    hangBelow lead (mids ++ [last]) =
      squeeze (Margin.mapSolid (lead ++ ·) mids) ++ [lead ++ last] := by
  simp [hangBelow]

theorem hang_of_isLine (h : IsLine t) : hang lead t = t := by
  rw [hang_of_lines (lines_of_isLine h)]
  rfl

theorem append_ne_nil {line : Text} (lead : Text) (hline : isBlankText line = false) :
    lead ++ line ≠ [] := by
  intro hnil
  rw [(List.append_eq_nil_iff.1 hnil).2] at hline
  cases hline

/-- A line that is not blank cuts the lines into two parts that go behind the indentation on their
own. -/
theorem hangBelow_append_cons (lead : Text) (ls : List Text) {line : Text}
    (hline : isBlankText line = false) (ms : List Text) :
    hangBelow lead (ls ++ line :: ms) =
      hangBelow lead (ls ++ [line]) ++ hangBelow lead ms := by
  rw [hangBelow_concat]
  rcases List.eq_nil_or_concat' ms with rfl | ⟨mids, last, rfl⟩
  · rw [hangBelow_concat]
    simp [hangBelow, Margin.mapSolid, squeeze]
  · rw [← List.cons_append, ← List.append_assoc, hangBelow_concat, hangBelow_concat,
      Margin.mapSolid_append_cons _ ls hline, squeeze_append_cons _ (append_ne_nil lead hline)]
    simp

/-- A piece of two pieces goes behind the indentation piece by piece, provided that they meet in a
line that is not blank. -/
theorem hang_append (lead : Text) {s t : Text}
    (h : (∃ c ∈ s.getLast?, isBlank c = false) ∨ ∃ c ∈ t.head?, isBlank c = false) :
    hang lead (s ++ t) = hang lead s ++ hang lead t := by
  obtain ⟨front, last, first, rest, hs, ht, happend⟩ := exists_lines_append s t
  have hmeet := isBlankText_meet hs ht h
  cases front with
  | nil =>
      rw [hang_of_lines happend, hang_of_lines hs, hang_of_lines ht]
      exact (unlines_concat_append [] last first _).symm
  | cons line front =>
      rw [List.cons_append] at happend hs
      rw [hang_of_lines happend, hang_of_lines hs, hang_of_lines ht,
        hangBelow_append_cons lead front hmeet, hangBelow_concat, hangBelow_concat]
      have hjoin := unlines_concat_append
        (line :: squeeze (Margin.mapSolid (lead ++ ·) front)) (lead ++ last) first
        (hangBelow lead rest)
      simpa using hjoin.symm

theorem isLine_of_mem_hangBelow (hlead : IsLine lead) (hrest : ∀ line ∈ rest, IsLine line) :
    ∀ line ∈ hangBelow lead rest, IsLine line := by
  rcases List.eq_nil_or_concat' rest with rfl | ⟨mids, last, rfl⟩
  · simp [hangBelow, Margin.mapSolid, squeeze]
  · obtain ⟨hmids, hlast⟩ := List.forall_mem_append.1 hrest
    rw [hangBelow_concat]
    refine List.forall_mem_append.2 ⟨fun line hline => ?_, ?_⟩
    · obtain ⟨source, hsource, rfl⟩ := List.mem_map.1 (mem_of_mem_squeeze hline)
      split
      · exact isLine_nil
      · exact isLine_append.2 ⟨hlead, hmids source hsource⟩
    · simpa using isLine_append.2 ⟨hlead, hlast last List.mem_cons_self⟩

theorem lines_hang (hlead : IsLine lead) (h : lines t = first :: rest) :
    lines (hang lead t) = first :: hangBelow lead rest := by
  obtain ⟨hfirst, hrest⟩ : IsLine first ∧ ∀ line ∈ rest, IsLine line :=
    List.forall_mem_cons.1 (h ▸ fun _ => isLine_of_mem_lines)
  rw [hang_of_lines h]
  exact lines_unlines (List.cons_ne_nil _ _)
    (List.forall_mem_cons.2 ⟨hfirst, isLine_of_mem_hangBelow hlead hrest⟩)

/-- Lines that are blank only where they are empty can be squeezed before they go behind an
indentation. -/
theorem squeeze_mapSolid {ls : List Text} (h : ∀ line ∈ ls, isBlankText line = true → line = [])
    (lead : Text) :
    squeeze (Margin.mapSolid (lead ++ ·) ls) = Margin.mapSolid (lead ++ ·) (squeeze ls) := by
  refine squeeze_map fun line hline => ?_
  split
  · exact iff_of_true rfl (h line hline ‹_›)
  · rename_i hsolid
    refine iff_of_false (append_ne_nil lead (Bool.eq_false_iff.2 hsolid)) ?_
    rintro rfl
    exact hsolid rfl

/-- Going behind two indentations one after the other is going behind both. -/
theorem hang_hang (outer : Text) {inner : Text} (hinner : IsLine inner)
    (hblank : isBlankText inner = true) (t : Text) :
    hang outer (hang inner t) = hang (outer ++ inner) t := by
  obtain ⟨first, rest, hlines⟩ := List.exists_cons_of_ne_nil (lines_ne_nil t)
  rw [hang_of_lines (lines_hang hinner hlines), hang_of_lines hlines]
  congr 2
  rcases List.eq_nil_or_concat' rest with rfl | ⟨mids, last, rfl⟩
  · simp [hangBelow, Margin.mapSolid, squeeze]
  · -- Behind the inner indentation a line is blank only where it is empty.
    have hempty : ∀ line ∈ Margin.mapSolid (inner ++ ·) mids, isBlankText line = true →
        line = [] := by
      intro line hline hlineBlank
      obtain ⟨source, -, rfl⟩ := List.mem_map.1 hline
      split at hlineBlank
      · exact if_pos ‹_›
      · rw [isBlankText_append, hblank, Bool.true_and] at hlineBlank
        contradiction
    have hmids : squeeze (Margin.mapSolid (outer ++ ·)
          (squeeze (Margin.mapSolid (inner ++ ·) mids))) =
        squeeze (Margin.mapSolid (outer ++ inner ++ ·) mids) := by
      have hlead : (outer ++ ·) ∘ (inner ++ ·) = (outer ++ inner ++ ·) :=
        funext fun line => (List.append_assoc outer inner line).symm
      rw [← squeeze_mapSolid hempty, Margin.mapSolid_mapSolid, hlead]
      · exact List.destutter_idem _ _
      · intro line _ hline
        rw [isBlankText_append, hblank, hline]
        rfl
    rw [hangBelow_concat, hangBelow_concat, hangBelow_concat, hmids, List.append_assoc]

theorem isTrimmed_hang (h : IsTrimmed t) (lead : Text) : IsTrimmed (hang lead t) := by
  obtain ⟨first, rest, hlines⟩ := List.exists_cons_of_ne_nil (lines_ne_nil t)
  rcases List.eq_nil_or_concat' rest with rfl | ⟨mids, last, rfl⟩
  · have ht : hang lead t = t := by
      conv_rhs => rw [← unlines_lines t, hlines]
      rw [hang_of_lines hlines]
      rfl
    rw [ht]
    exact h
  · obtain ⟨hfirst, c, hc, hblank⟩ := h.ends hlines
    rw [hang_of_lines hlines, hangBelow_concat]
    refine isTrimmed_unlines _ hfirst ⟨c, ?_, hblank⟩
    rw [List.getLast?_append_of_ne_nil _ (List.ne_nil_of_mem (List.mem_of_mem_getLast? hc))]
    exact hc

theorem exists_indent_append_cons {s line : Text} {front back : List Text} (lead : Text)
    (hline : isBlankText line = false) (hlines : lines s = front ++ line :: back) :
    ∃ kept, indent lead s = kept ++ (lead ++ line) :: Margin.mapSolid (lead ++ ·) back := by
  refine ⟨Margin.mapSolid (lead ++ ·) (Margin.body front), ?_⟩
  rw [indent, hlines, Margin.body_append_cons front hline, Margin.mapSolid_append_cons _ _ hline]

/-- What becomes of a piece of a text when the text is moved behind an indentation and written down
among other lines. -/
theorem hang_isInfix {s : Text} {ls : List Text} (ht : IsTrimmed t) (h : t <:+: s)
    (hls : indent lead s <:+: ls) : hang lead t <:+: unlines (squeeze ls) := by
  obtain ⟨above, under, rfl⟩ := hls
  rcases ht.exists_lines h with ⟨hline, front, pre, post, back, hlines⟩ |
    ⟨first, mids, last, ht', hfirst, hlast, front, pre, post, back, hlines⟩
  · have hsolid : isBlankText (pre ++ t ++ post) = false :=
      isBlankText_eq_false_of_isInfix ⟨pre, post, rfl⟩ ht.not_isBlankText
    obtain ⟨kept, hkept⟩ := exists_indent_append_cons lead hsolid hlines
    rw [hang_of_isLine hline]
    have hmem : lead ++ (pre ++ t ++ post) ∈ squeeze (above ++ indent lead s ++ under) :=
      mem_squeeze (by simp [hkept]) (append_ne_nil lead hsolid)
    exact List.IsInfix.trans ⟨lead ++ pre, post, by simp⟩ (infix_unlines hmem)
  · have hstart : isBlankText (pre ++ first) = false :=
      isBlankText_eq_false_of_isInfix ⟨pre, [], by simp⟩ hfirst
    have hend : isBlankText (last ++ post) = false :=
      isBlankText_eq_false_of_isInfix ⟨[], post, by simp⟩ hlast
    obtain ⟨kept, hkept⟩ := exists_indent_append_cons lead hstart hlines
    have hpiece : (lead ++ pre ++ first) :: squeeze (Margin.mapSolid (lead ++ ·) mids) ++
        [lead ++ last ++ post] <:+: squeeze (above ++ indent lead s ++ under) := by
      refine ⟨squeeze (above ++ kept),
        squeeze (Margin.mapSolid (lead ++ ·) back ++ under), ?_⟩
      have hall : above ++ indent lead s ++ under =
          (above ++ kept) ++ (lead ++ (pre ++ first)) :: (Margin.mapSolid (lead ++ ·) mids ++
            (lead ++ (last ++ post)) :: (Margin.mapSolid (lead ++ ·) back ++ under)) := by
        rw [hkept, Margin.mapSolid_append_cons _ mids hend]
        simp
      rw [hall, squeeze_append_cons _ (append_ne_nil lead hstart),
        squeeze_append_cons _ (append_ne_nil lead hend)]
      simp
    rw [hang_of_lines ht', hangBelow_concat]
    exact (unlines_trim_isInfix _ _ _ _ _).trans (unlines_isInfix (by simp) hpiece)

end Hanging

section Outdenting

/-- A line loses `m` tabs or spaces at its front. -/
def Loses (m : Nat) (line line' : Text) : Prop :=
  ∃ gap : Text, gap.length = m ∧ (∀ c ∈ gap, isTabOrSpace c = true) ∧ line = gap ++ line'

/-- A line is moved to the left margin: a blank one is emptied, and another one loses the margin. -/
def LosesSolid (m : Nat) (line line' : Text) : Prop :=
  if isBlankText line then line' = [] else Loses m line line'

/-- The lines below the first one of a piece, and the same lines at the left margin.  Something
follows the last one. -/
inductive LosesBelow (m : Nat) : List Text → List Text → Prop
  | nil : LosesBelow m [] []
  | concat {mids mids' : List Text} {last last' : Text}
      (hmids : List.Forall₂ (LosesSolid m) mids mids') (hlast : Loses m last last') :
      LosesBelow m (mids ++ [last]) (mids' ++ [last'])

/-- A piece and the same piece at the left margin.  The first line starts behind the margin. -/
def Outdents (m : Nat) (s t : Text) : Prop :=
  ∃ first below below', lines s = first :: below ∧ lines t = first :: below' ∧
    LosesBelow m below below'

variable {m n : Nat} {s t u line line' line'' : Text}

theorem Loses.isBlankText_eq (h : Loses m line line') : isBlankText line = isBlankText line' := by
  obtain ⟨gap, -, hgap, rfl⟩ := h
  have hblank : isBlankText gap = true := by
    rw [isBlankText, List.all_eq_true]
    exact fun c hc => isBlank_of_isSpace (isSpace_of_isTabOrSpace (hgap c hc))
  rw [isBlankText_append, hblank, Bool.true_and]

theorem LosesSolid.loses (h : LosesSolid m line line') (hsolid : isBlankText line' = false) :
    Loses m line line' := by
  unfold LosesSolid at h
  split at h
  · rw [h] at hsolid
    cases hsolid
  · exact h

theorem Loses.trans (h : Loses m line line') (h' : Loses n line' line'') :
    Loses (m + n) line line'' := by
  obtain ⟨gap, hlength, hgap, rfl⟩ := h
  obtain ⟨gap', hlength', hgap', rfl⟩ := h'
  refine ⟨gap ++ gap', by simp [hlength, hlength'], ?_, by simp⟩
  exact List.forall_mem_append.2 ⟨hgap, hgap'⟩

theorem LosesSolid.trans (h : LosesSolid m line line') (h' : LosesSolid n line' line'') :
    LosesSolid (m + n) line line'' := by
  unfold LosesSolid at h h' ⊢
  cases hblank : isBlankText line with
  | true =>
      rw [if_pos hblank] at h
      subst h
      exact h'
  | false =>
      rw [if_neg (by simp [hblank])] at h
      rw [← h.isBlankText_eq, if_neg (by simp [hblank])] at h'
      exact h.trans h'

theorem LosesSolid.forall₂_trans {ls ms ns : List Text} (h : List.Forall₂ (LosesSolid m) ls ms)
    (h' : List.Forall₂ (LosesSolid n) ms ns) : List.Forall₂ (LosesSolid (m + n)) ls ns := by
  induction h generalizing ns with
  | nil =>
      cases h'
      exact .nil
  | cons hline _ ih =>
      cases h' with
      | cons hline' hrest' => exact .cons (hline.trans hline') (ih hrest')

theorem LosesBelow.trans {ls ms ns : List Text} (h : LosesBelow m ls ms)
    (h' : LosesBelow n ms ns) : LosesBelow (m + n) ls ns := by
  generalize hms : ms = ms' at h'
  cases h with
  | nil =>
      cases h' with
      | nil => exact .nil
      | concat => simp at hms
  | concat hmids hlast =>
      cases h' with
      | nil => simp at hms
      | concat hmids' hlast' =>
          obtain ⟨rfl, hsingle⟩ := List.append_inj' hms rfl
          obtain ⟨rfl, -⟩ := List.cons.inj hsingle
          exact .concat (LosesSolid.forall₂_trans hmids hmids') (hlast.trans hlast')

/-- Moving to the left margin can be done again. -/
theorem Outdents.trans (h : Outdents m s t) (h' : Outdents n t u) : Outdents (m + n) s u := by
  obtain ⟨first, below, middle, hs, ht, hbelow⟩ := h
  obtain ⟨first', middle', below', ht', hu, hbelow'⟩ := h'
  rw [ht] at ht'
  obtain ⟨rfl, rfl⟩ := List.cons.inj ht'
  exact ⟨first, below, below', hs, hu, hbelow.trans hbelow'⟩

theorem outdents_of_isLine (m : Nat) (h : IsLine t) : Outdents m t t :=
  ⟨t, [], [], lines_of_isLine h, lines_of_isLine h, .nil⟩

/-- The text of given lines and the same lines without the margin. -/
theorem outdents_unlines {first : Text} {below below' : List Text}
    (hlines : ∀ line ∈ first :: below, IsLine line) (ht : lines t = first :: below')
    (h : LosesBelow m below below') : Outdents m (unlines (first :: below)) t :=
  ⟨first, below, below', lines_unlines (List.cons_ne_nil _ _) hlines, ht, h⟩

/-- A piece stands between the same characters at the left margin. -/
theorem Outdents.isTrimmed (h : Outdents m s t) (ht : IsTrimmed t) : IsTrimmed s := by
  obtain ⟨first, below, below', hs, ht', hbelow⟩ := h
  cases hbelow with
  | nil =>
      rw [← unlines_lines s, hs, ← ht', unlines_lines]
      exact ht
  | concat _ hlast =>
      obtain ⟨hfirst, c, hc, hblank⟩ := ht.ends ht'
      obtain ⟨gap, -, -, rfl⟩ := hlast
      rw [← unlines_lines s, hs]
      refine isTrimmed_unlines _ hfirst ⟨c, ?_, hblank⟩
      rw [List.getLast?_append_of_ne_nil _ (List.ne_nil_of_mem (List.mem_of_mem_getLast? hc))]
      exact hc

theorem exists_of_forall₂_append_cons {R : Text → Text → Prop} {ls front back : List Text}
    {line : Text} (h : List.Forall₂ R ls (front ++ line :: back)) :
    ∃ above middle under, ls = above ++ middle :: under ∧ List.Forall₂ R above front ∧
      R middle line ∧ List.Forall₂ R under back := by
  induction front generalizing ls with
  | nil =>
      obtain ⟨middle, under, hmiddle, hunder, rfl⟩ := List.forall₂_cons_right_iff.1 h
      exact ⟨[], middle, under, rfl, .nil, hmiddle, hunder⟩
  | cons first front ih =>
      obtain ⟨top, rest, htop, hrest, rfl⟩ := List.forall₂_cons_right_iff.1 h
      obtain ⟨above, middle, under, rfl, habove, hmiddle, hunder⟩ := ih hrest
      exact ⟨top :: above, middle, under, rfl, .cons htop habove, hmiddle, hunder⟩

/-- A line that is not blank cuts the lines below into those above it and those below it. -/
theorem LosesBelow.cut {ls front back : List Text} (h : LosesBelow m ls (front ++ line :: back))
    (hsolid : isBlankText line = false) :
    ∃ above middle under, ls = above ++ middle :: under ∧
      List.Forall₂ (LosesSolid m) above front ∧ Loses m middle line ∧ LosesBelow m under back := by
  generalize hall : front ++ line :: back = all at h
  cases h with
  | nil => simp at hall
  | @concat mids mids' last last' hmids hlast =>
      rcases List.eq_nil_or_concat' back with rfl | ⟨rest, final, rfl⟩
      · obtain ⟨rfl, hsingle⟩ := List.append_inj' hall rfl
        obtain ⟨rfl, -⟩ := List.cons.inj hsingle
        exact ⟨mids, last, [], rfl, hmids, hlast, .nil⟩
      · rw [← List.cons_append, ← List.append_assoc] at hall
        obtain ⟨rfl, hsingle⟩ := List.append_inj' hall rfl
        obtain ⟨rfl, -⟩ := List.cons.inj hsingle
        obtain ⟨above, middle, under, rfl, habove, hmiddle, hunder⟩ :=
          exists_of_forall₂_append_cons hmids
        exact ⟨above, middle, under ++ [last], by simp, habove, hmiddle.loses hsolid,
          .concat hunder hlast⟩

/-- Two pieces of a piece at the left margin come from two pieces, provided that they meet in a line
that is not blank. -/
theorem Outdents.split (h : Outdents m s (t ++ u))
    (hmeet : (∃ c ∈ t.getLast?, isBlank c = false) ∨ ∃ c ∈ u.head?, isBlank c = false) :
    ∃ r r', s = r ++ r' ∧ Outdents m r t ∧ Outdents m r' u := by
  obtain ⟨start, below, below', hs, hall, hbelow⟩ := h
  obtain ⟨front, last, first, rest, ht, hu, happend⟩ := exists_lines_append t u
  have hsolid := isBlankText_meet ht hu hmeet
  have hsource : s = unlines (start :: below) := by
    rw [← hs, unlines_lines]
  have hlines : ∀ line ∈ start :: below, IsLine line := hs ▸ fun _ => isLine_of_mem_lines
  rw [happend] at hall
  cases front with
  | nil =>
      -- The pieces meet in the first line.
      obtain ⟨rfl, rfl⟩ := List.cons.inj hall
      have hone : t = last := by
        rw [← unlines_lines t, ht]
        rfl
      simp only [List.forall_mem_cons, isLine_append] at hlines
      obtain ⟨⟨hlast, hfirst⟩, hbelow'⟩ := hlines
      refine ⟨t, unlines (first :: below), ?_, outdents_of_isLine m (hone ▸ hlast),
        outdents_unlines (List.forall_mem_cons.2 ⟨hfirst, hbelow'⟩) hu hbelow⟩
      rw [hsource, hone]
      exact (unlines_concat_append [] last first below).symm
  | cons line front =>
      -- The pieces meet below it.
      rw [List.cons_append] at hall ht
      obtain ⟨rfl, rfl⟩ := List.cons.inj hall
      obtain ⟨above, middle, under, rfl, habove, ⟨gap, hlength, hgap, rfl⟩, hunder⟩ :=
        hbelow.cut hsolid
      simp only [List.forall_mem_cons, List.forall_mem_append, isLine_append] at hlines
      obtain ⟨hline, habove', ⟨hgap', hlast, hfirst⟩, hunder'⟩ := hlines
      refine ⟨unlines (line :: (above ++ [gap ++ last])), unlines (first :: under), ?_,
        outdents_unlines ?_ ht (.concat habove ⟨gap, hlength, hgap, rfl⟩),
        outdents_unlines (List.forall_mem_cons.2 ⟨hfirst, hunder'⟩) hu hunder⟩
      · rw [hsource]
        have hjoin := unlines_concat_append (line :: above) (gap ++ last) first under
        simpa using hjoin.symm
      · simp only [List.forall_mem_cons, List.forall_mem_append, isLine_append]
        exact ⟨hline, habove', ⟨hgap', hlast⟩, List.forall_mem_nil _⟩

theorem loses_drop (hsolid : isBlankText line = false) {ls : List Text} (hmem : line ∈ ls) :
    Loses (Margin.common ls) line (line.drop (Margin.common ls)) := by
  have hwidth := common_le_width hmem hsolid
  have hlength : Margin.common ls ≤ line.length :=
    Nat.le_trans hwidth (List.takeWhile_prefix _).length_le
  exact ⟨line.take (Margin.common ls), by simp [hlength], isTabOrSpace_of_mem_take hwidth,
    (List.take_append_drop _ line).symm⟩

/-- The lines of a text at the left margin, against its lines from the first one that is not
blank. -/
theorem forall₂_lines_dedent (h : isBlankText (dedent s) = false) :
    List.Forall₂ (LosesSolid (Margin.common (lines s))) (Margin.body (lines s))
      (lines (dedent s)) := by
  have hsuffix : Margin.body (lines s) <:+ lines s := List.dropWhile_suffix _
  have hlines : lines (dedent s) = Margin.mapSolid (List.drop (Margin.common (lines s)))
      (Margin.body (lines s)) := by
    refine lines_unlines ?_ ?_
    · intro hnil
      rw [dedent, hnil] at h
      cases h
    · intro line hline
      obtain ⟨source, hsource, rfl⟩ := List.mem_map.1 hline
      have hsource' := isLine_of_mem_lines (hsuffix.subset hsource)
      split
      · exact isLine_nil
      · exact fun hmem => hsource' ((List.drop_suffix _ _).subset hmem)
  rw [hlines, Margin.mapSolid, List.forall₂_map_right_iff, List.forall₂_same]
  intro line hline
  unfold LosesSolid
  split
  · rfl
  · rename_i hsolid
    exact loses_drop (Bool.eq_false_iff.2 hsolid) (hsuffix.subset hline)

/-- Where a piece of a text at the left margin comes from. -/
theorem exists_outdents (ht : IsTrimmed t) (h : t <:+: dedent s) :
    ∃ raw, raw <:+: s ∧ Outdents (Margin.common (lines s)) raw t := by
  have hlines := forall₂_lines_dedent (isBlankText_eq_false_of_isInfix h ht.not_isBlankText)
  have hbody : Margin.body (lines s) <:+ lines s := List.dropWhile_suffix _
  rcases ht.exists_lines h with ⟨hline, front, pre, post, back, hwhole⟩ |
    ⟨first, mids, last, ht', hfirst, hlast, front, pre, post, back, hwhole⟩
  · rw [hwhole] at hlines
    obtain ⟨above, middle, under, hcut, -, hmiddle, -⟩ := exists_of_forall₂_append_cons hlines
    have hsolid : isBlankText (pre ++ t ++ post) = false :=
      isBlankText_eq_false_of_isInfix ⟨pre, post, rfl⟩ ht.not_isBlankText
    obtain ⟨gap, -, -, rfl⟩ := hmiddle.loses hsolid
    have hmem : gap ++ (pre ++ t ++ post) ∈ lines s := hbody.subset (by simp [hcut])
    have hsource : gap ++ (pre ++ t ++ post) <:+: s := by
      conv_rhs => rw [← unlines_lines s]
      exact infix_unlines hmem
    exact ⟨t, List.IsInfix.trans ⟨gap ++ pre, post, by simp⟩ hsource, outdents_of_isLine _ hline⟩
  · rw [hwhole] at hlines
    obtain ⟨above, start, under, hcut, -, hstart, hunder⟩ := exists_of_forall₂_append_cons hlines
    obtain ⟨inner, final, below, rfl, hinner, hfinal, -⟩ := exists_of_forall₂_append_cons hunder
    obtain ⟨gap, -, -, rfl⟩ :=
      hstart.loses (isBlankText_eq_false_of_isInfix ⟨pre, [], by simp⟩ hfirst)
    obtain ⟨gap', hlength, hgap, rfl⟩ :=
      hfinal.loses (isBlankText_eq_false_of_isInfix ⟨[], post, by simp⟩ hlast)
    have hpiece : (gap ++ (pre ++ first)) :: inner ++ [gap' ++ (last ++ post)] <:+: lines s :=
      List.IsInfix.trans ⟨above, below, by simp [hcut]⟩ hbody.isInfix
    have hall : ∀ line ∈ _, IsLine line := fun line hmem =>
      isLine_of_mem_lines (hpiece.subset hmem)
    simp only [List.cons_append, List.forall_mem_cons, List.forall_mem_append,
      isLine_append] at hall
    obtain ⟨⟨-, -, hfirst'⟩, hinner', ⟨hgap', hlast', -⟩, -⟩ := hall
    have hlines' : ∀ line ∈ first :: (inner ++ [gap' ++ last]), IsLine line := by
      simp only [List.forall_mem_cons, List.forall_mem_append, isLine_append]
      exact ⟨hfirst', hinner', ⟨hgap', hlast'⟩, List.forall_mem_nil _⟩
    refine ⟨unlines (first :: (inner ++ [gap' ++ last])), ?_,
      outdents_unlines hlines' ht' (.concat hinner ⟨gap', hlength, hgap, rfl⟩)⟩
    have hcutShort := unlines_trim_isInfix (gap ++ pre) first inner (gap' ++ last) post
    simp only [List.append_assoc] at hcutShort hpiece
    conv_rhs => rw [← unlines_lines s]
    exact hcutShort.trans (unlines_isInfix (by simp) hpiece)

/-- The lines of a piece stand behind an indentation: between the first and the last no line is
blank without being empty and no two empty lines follow each other, and all other lines below the
first start with the indentation. -/
structure IsHung (lead t : Text) : Prop where
  inner : ∀ line ∈ (lines t).tail.dropLast, if isBlankText line then line = [] else lead <+: line
  apart : (lines t).tail.dropLast.IsChain Apart
  last : ∀ line ∈ (lines t).tail.getLast?, lead <+: line

theorem isHung_iff {lead first last : Text} {mids : List Text}
    (hs : lines s = first :: (mids ++ [last])) :
    IsHung lead s ↔ (∀ line ∈ mids, if isBlankText line then line = [] else lead <+: line) ∧
      mids.IsChain Apart ∧ lead <+: last := by
  have htail : (lines s).tail = mids ++ [last] := by
    rw [hs]
    rfl
  constructor
  · rintro ⟨hinner, hapart, hlast⟩
    simp only [htail, List.dropLast_concat, List.getLast?_concat] at hinner hapart hlast
    exact ⟨hinner, hapart, hlast last rfl⟩
  · rintro ⟨hinner, hapart, hlast⟩
    exact ⟨by simpa [htail] using hinner, by simpa [htail] using hapart,
      by simpa [htail] using hlast⟩

theorem Loses.append_eq_iff (h : Loses m line line') (lead : Text) :
    lead ++ line' = line ↔ lead.length = m ∧ lead <+: line := by
  obtain ⟨gap, hlength, -, rfl⟩ := h
  constructor
  · intro heq
    obtain rfl := List.append_cancel_right heq
    exact ⟨hlength, List.prefix_append _ _⟩
  · rintro ⟨hlead, hstarts⟩
    rw [List.prefix_iff_eq_append.1 hstarts |>.symm, hlead, ← hlength, List.drop_left]

theorem mapSolid_eq_iff {lead : Text} (hlead : lead.length = m) {ls ms : List Text}
    (h : List.Forall₂ (LosesSolid m) ls ms) :
    Margin.mapSolid (lead ++ ·) ms = ls ↔
      ∀ line ∈ ls, if isBlankText line then line = [] else lead <+: line := by
  induction h with
  | nil => simp [Margin.mapSolid]
  | @cons line line' ls ms hline _ ih =>
      have hcons : Margin.mapSolid (lead ++ ·) (line' :: ms) =
          (if isBlankText line' then [] else lead ++ line') ::
            Margin.mapSolid (lead ++ ·) ms := rfl
      rw [hcons, List.cons.injEq, ih, List.forall_mem_cons]
      refine and_congr_left fun _ => ?_
      unfold LosesSolid at hline
      split at hline
      · rename_i hblank
        rw [hline, if_pos hblank]
        exact eq_comm
      · rename_i hsolid
        rw [← hline.isBlankText_eq, if_neg hsolid, if_neg hsolid, hline.append_eq_iff,
          and_iff_right hlead]

/-- The lines between the first and the last one are the same again only where none is dropped. -/
theorem squeeze_mapSolid_eq_iff {lead : Text} (hlead : lead.length = m) {ls ms : List Text}
    (h : List.Forall₂ (LosesSolid m) ls ms) :
    squeeze (Margin.mapSolid (lead ++ ·) ms) = ls ↔
      (∀ line ∈ ls, if isBlankText line then line = [] else lead <+: line) ∧
        ls.IsChain Apart := by
  rw [← mapSolid_eq_iff hlead h, ← List.destutter_eq_self_iff]
  constructor
  · intro hls
    have hall : squeeze (Margin.mapSolid (lead ++ ·) ms) = Margin.mapSolid (lead ++ ·) ms := by
      refine (List.destutter_sublist _ _).eq_of_length ?_
      rw [← squeeze, hls, h.length_eq]
      simp [Margin.mapSolid]
    have hsame : Margin.mapSolid (lead ++ ·) ms = ls := hall.symm.trans hls
    exact ⟨hsame, hsame ▸ hall⟩
  · rintro ⟨hsame, hapart⟩
    rw [hsame]
    exact hapart

/-- When going behind an indentation undoes the move to the left margin. -/
theorem Outdents.hang_eq_iff {lead : Text} (hlead : IsLine lead) (h : Outdents m s t) :
    hang lead t = s ↔ (IsLine s ∨ lead.length = m) ∧ IsHung lead s := by
  obtain ⟨first, below, below', hs, ht, hbelow⟩ := h
  have hlines : hang lead t = s ↔ hangBelow lead below' = below := by
    have hinjective : Function.Injective lines := Function.LeftInverse.injective unlines_lines
    rw [← hinjective.eq_iff, lines_hang hlead ht, hs, List.cons.injEq, and_iff_right rfl]
  rw [hlines]
  cases hbelow with
  | nil =>
      have hline : IsLine s := by
        rw [← unlines_lines s, hs]
        exact isLine_of_mem_lines (hs ▸ List.mem_cons_self)
      have hung : IsHung lead s := by
        constructor <;> simp [hs]
      exact iff_of_true rfl ⟨Or.inl hline, hung⟩
  | @concat mids mids' last last' hmids hlast =>
      have hnotLine : ¬ IsLine s := by
        intro hline
        simp [lines_of_isLine hline] at hs
      have hconcat : hangBelow lead (mids' ++ [last']) = mids ++ [last] ↔
          squeeze (Margin.mapSolid (lead ++ ·) mids') = mids ∧ lead ++ last' = last := by
        rw [hangBelow_concat, ← List.concat_eq_append, ← List.concat_eq_append]
        exact List.concat_inj
      rw [hconcat, isHung_iff hs, or_iff_right hnotLine, hlast.append_eq_iff]
      constructor
      · rintro ⟨hinner, hlength, hstarts⟩
        obtain ⟨hinner, hapart⟩ := (squeeze_mapSolid_eq_iff hlength hmids).1 hinner
        exact ⟨hlength, hinner, hapart, hstarts⟩
      · rintro ⟨hlength, hinner, hapart, hstarts⟩
        exact ⟨(squeeze_mapSolid_eq_iff hlength hmids).2 ⟨hinner, hapart⟩, hlength, hstarts⟩

end Outdenting

end Text

end RazorLayout

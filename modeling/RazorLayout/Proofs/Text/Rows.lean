import Mathlib.Data.List.Basic
import Mathlib.Data.List.TakeWhile
import RazorLayout.Layout.Sheet
import RazorLayout.Scan.Expression
import RazorLayout.Text.Margin

/-!
# The rows of a text

A row is what a line holds behind its leading spaces; a line of spaces holds none.  Moving a block
of lines to another margin, and putting blank lines between them, leaves the rows alone.

* `IsGap` is a run of spaces of any kind, line feeds included;
* `rows` gives the rows of a text from top to bottom;
* `below` is the text of lines that stand below another one.

Results.  `rows_append_newline`: rows are cut where lines are.  `exists_row` and `exists_cut`: hence
a text can be cut between any two of its rows.  `rows_dedent` and `flatMap_rows_indent`: a margin
changes no row that is not blank.
-/

namespace RazorLayout

namespace Text

theorem eq_false_of_dropWhile {p : Char → Bool} {t rest : Text} {c : Char}
    (h : t.dropWhile p = c :: rest) : p c = false := by
  have hne : t.dropWhile p ≠ [] := by
    simp [h]
  have hhead := List.head_dropWhile_not (l := t) p hne
  simp only [h, List.head_cons] at hhead
  exact hhead

theorem filter_dropWhile_not {α : Type} (p : α → Bool) (l : List α) :
    (l.dropWhile p).filter (fun a => !p a) = l.filter fun a => !p a := by
  induction l with
  | nil => rfl
  | cons a l ih =>
      by_cases h : p a = true
      · rw [List.dropWhile_cons_of_pos h, ih]
        simp [h]
      · rw [List.dropWhile_cons_of_neg h]

section Gaps

/-- A run of spaces of any kind. -/
def IsGap (g : Text) : Prop :=
  ∀ c ∈ g, isSpace c = true

/-- A text without spaces at its front. -/
def IsTight (t : Text) : Prop :=
  afterSpaces t = t

theorem isGap_nil : IsGap [] := by
  simp [IsGap]

theorem IsGap.append {g h : Text} (hg : IsGap g) (hh : IsGap h) : IsGap (g ++ h) := by
  intro c hc
  rcases List.mem_append.1 hc with hc | hc
  · exact hg c hc
  · exact hh c hc

theorem isGap_cons {c : Char} {g : Text} : IsGap (c :: g) ↔ isSpace c = true ∧ IsGap g := by
  simp [IsGap]

theorem isGap_spaces (n : Nat) : IsGap (spaces n) := by
  intro c hc
  rw [List.eq_of_mem_replicate hc]
  decide

theorem IsGap.isBlankText {g : Text} (hg : IsGap g) : isBlankText g = true := by
  rw [Text.isBlankText, List.all_eq_true]
  intro c hc
  exact isBlank_of_isSpace (hg c hc)

theorem afterSpaces_gap_append {g : Text} (hg : IsGap g) (t : Text) :
    afterSpaces (g ++ t) = afterSpaces t :=
  List.dropWhile_append_of_pos hg

/-- Of a text that is not all spaces only its own front is skipped. -/
theorem afterSpaces_append {t : Text} (h : isBlankText t = false) (u : Text) :
    afterSpaces (t ++ u) = afterSpaces t ++ u := by
  rw [afterSpaces, List.dropWhile_append, if_neg]
  · rfl
  · intro hempty
    have hgap : IsGap t := List.dropWhile_eq_nil_iff.1 (by simpa using hempty)
    rw [hgap.isBlankText] at h
    cases h

theorem afterSpaces_of_not_isSpace {c : Char} (h : isSpace c = false) (t : Text) :
    afterSpaces (c :: t) = c :: t :=
  List.dropWhile_cons_of_neg (by simp [h])

theorem isTight_nil : IsTight [] := rfl

theorem isTight_cons {c : Char} (t : Text) (h : isSpace c = false) : IsTight (c :: t) :=
  afterSpaces_of_not_isSpace h t

theorem not_isSpace_of_isTight {c : Char} {t : Text} (h : IsTight (c :: t)) :
    isSpace c = false :=
  eq_false_of_dropWhile h

/-- A gap that a tight text starts with is empty. -/
theorem IsGap.eq_nil_of_isTight {g t : Text} (hg : IsGap g) (ht : IsTight (g ++ t)) : g = [] := by
  cases g with
  | nil => rfl
  | cons c g =>
      have hspace := hg c List.mem_cons_self
      rw [not_isSpace_of_isTight ht] at hspace
      cases hspace

theorem isTight_afterSpaces (t : Text) : IsTight (afterSpaces t) := by
  cases h : afterSpaces t with
  | nil => exact isTight_nil
  | cons c rest => exact isTight_cons rest (eq_false_of_dropWhile h)

/-- Every text is a gap with a tight text behind it. -/
theorem exists_gap (t : Text) : ∃ g, IsGap g ∧ t = g ++ afterSpaces t :=
  ⟨t.takeWhile isSpace, fun _ hc => List.mem_takeWhile_imp hc,
    List.takeWhile_append_dropWhile.symm⟩

end Gaps

section Trimming

theorem isBlankText_append (s t : Text) :
    isBlankText (s ++ t) = (isBlankText s && isBlankText t) :=
  List.all_append

theorem strip_blank_append {g : Text} (hg : isBlankText g = true) (t : Text) :
    strip (g ++ t) = strip t := by
  have hstart : stripStart (g ++ t) = stripStart t :=
    List.dropWhile_append_of_pos (List.all_eq_true.1 hg)
  rw [strip, hstart, strip]

theorem stripEnd_append_blank {g : Text} (hg : isBlankText g = true) (t : Text) :
    stripEnd (t ++ g) = stripEnd t := by
  have hreverse : ∀ c ∈ g.reverse, isBlank c = true := by
    intro c hc
    exact List.all_eq_true.1 hg c (List.mem_reverse.1 hc)
  rw [stripEnd, List.reverse_append, List.dropWhile_append_of_pos hreverse, stripEnd]

/-- A text is what trimming leaves of it, with blanks behind. -/
theorem exists_stripEnd (t : Text) : ∃ gap, isBlankText gap = true ∧ t = stripEnd t ++ gap := by
  refine ⟨(t.reverse.takeWhile isBlank).reverse, ?_, ?_⟩
  · rw [isBlankText, List.all_reverse, List.all_eq_true]
    exact fun c hc => List.mem_takeWhile_imp hc
  · rw [stripEnd, ← List.reverse_append, List.takeWhile_append_dropWhile, List.reverse_reverse]

theorem stripStart_eq_nil_iff {t : Text} : stripStart t = [] ↔ isBlankText t = true := by
  simp [stripStart, isBlankText]

theorem strip_append_blank {g : Text} (hg : isBlankText g = true) (t : Text) :
    strip (t ++ g) = strip t := by
  unfold strip stripStart
  rw [List.dropWhile_append]
  split
  · rename_i hnil
    have ht : t.dropWhile isBlank = [] := by
      simpa using hnil
    have hgap : g.dropWhile isBlank = [] := stripStart_eq_nil_iff.2 hg
    rw [ht, hgap]
  · exact stripEnd_append_blank hg _

theorem stripEnd_of_getLast {t : Text} {c : Char} (h : t.getLast? = some c)
    (hc : isBlank c = false) : stripEnd t = t := by
  obtain ⟨init, rfl⟩ := List.getLast?_eq_some_iff.1 h
  simp [stripEnd, hc]

/-- A text that is not blank keeps its first solid character at its front and its last one at its
end. -/
theorem strip_eq_cons {t : Text} (h : isBlankText t = false) :
    (∃ c rest, strip t = c :: rest ∧ isBlank c = false) ∧
      ∃ c, (strip t).getLast? = some c ∧ isBlank c = false := by
  have hstart : stripStart t ≠ [] := by
    intro hnil
    rw [stripStart_eq_nil_iff.1 hnil] at h
    cases h
  obtain ⟨first, tail, hfirst⟩ := List.exists_cons_of_ne_nil hstart
  have hsolid : isBlank first = false := eq_false_of_dropWhile hfirst
  have hreverse : (first :: tail).reverse.dropWhile isBlank ≠ [] := by
    simp [hsolid]
  obtain ⟨last, front, hlast⟩ := List.exists_cons_of_ne_nil hreverse
  have hlastSolid : isBlank last = false := eq_false_of_dropWhile hlast
  have hstrip : strip t = (last :: front).reverse := by
    rw [strip, hfirst, stripEnd, hlast]
  refine ⟨?_, last, by simp [hstrip], hlastSolid⟩
  -- The first character survives: what is dropped at the end is blank.
  have hfront : strip t <+: first :: tail := by
    rw [hstrip, ← hlast, ← List.reverse_suffix, List.reverse_reverse]
    exact List.dropWhile_suffix _
  cases hs : strip t with
  | nil => simp [hs] at hstrip
  | cons c rest =>
      rw [hs] at hfront
      obtain ⟨hc, -⟩ := List.cons_prefix_cons.1 hfront
      exact ⟨c, rest, rfl, hc ▸ hsolid⟩

theorem strip_eq_self {t : Text} {c d : Char} {rest : Text} (hfirst : t = c :: rest)
    (hc : isBlank c = false) (hlast : t.getLast? = some d) (hd : isBlank d = false) :
    strip t = t := by
  have hstart : stripStart t = t := by
    rw [hfirst]
    exact List.dropWhile_cons_of_neg (by simp [hc])
  rw [strip, hstart, stripEnd_of_getLast hlast hd]

theorem strip_of_isBlankText {t : Text} (h : isBlankText t = true) : strip t = [] := by
  rw [strip, stripStart_eq_nil_iff.2 h]
  rfl

theorem strip_eq_nil_iff {t : Text} : strip t = [] ↔ isBlankText t = true := by
  constructor
  · intro hnil
    by_contra hblank
    obtain ⟨⟨c, rest, hcons, -⟩, -⟩ := strip_eq_cons (by simpa using hblank)
    rw [hnil] at hcons
    cases hcons
  · exact strip_of_isBlankText

@[simp] theorem strip_strip (t : Text) : strip (strip t) = strip t := by
  by_cases h : isBlankText t = true
  · rw [strip_of_isBlankText h]
    rfl
  · obtain ⟨⟨c, rest, hcons, hc⟩, d, hlast, hd⟩ := strip_eq_cons (by simpa using h)
    exact strip_eq_self hcons hc hlast hd

theorem mem_of_mem_strip {t : Text} {c : Char} (h : c ∈ strip t) : c ∈ t := by
  have hend : ∀ {s : Text}, c ∈ stripEnd s → c ∈ s := by
    intro s hs
    have hmem := (List.dropWhile_suffix isBlank).subset (List.mem_reverse.1 hs)
    exact List.mem_reverse.1 hmem
  exact (List.dropWhile_suffix _).subset (hend h)

end Trimming

section Rows

/-- The row of a line, if it has one. -/
def row (line : Text) : List Text :=
  solid [afterSpaces line]

/-- The rows of a text, from top to bottom. -/
def rows (t : Text) : List Text :=
  (lines t).flatMap row

/-- A text without line feeds. -/
def IsLine (t : Text) : Prop :=
  '\n' ∉ t

instance (t : Text) : Decidable (IsLine t) :=
  inferInstanceAs (Decidable ('\n' ∉ t))

theorem not_mem_of_forall {p : Char → Bool} {t : Text} {c : Char} (h : ∀ d ∈ t, p d = true)
    (hc : p c = false) : c ∉ t := by
  intro hmem
  rw [h c hmem] at hc
  cases hc

theorem lines_append_newline (s t : Text) : lines (s ++ '\n' :: t) = lines s ++ lines t := by
  induction s with
  | nil => simp [lines]
  | cons c s ih =>
      by_cases hc : c = '\n'
      · simp [lines, hc, ih]
      · obtain ⟨line, rest, hline⟩ := List.exists_cons_of_ne_nil (lines_ne_nil s)
        simp [lines, hc, ih, hline, consLine]

/-- Rows are cut where lines are. -/
theorem rows_append_newline (s t : Text) : rows (s ++ '\n' :: t) = rows s ++ rows t := by
  rw [rows, lines_append_newline, List.flatMap_append, rows, rows]

theorem lines_of_isLine {t : Text} (h : IsLine t) : lines t = [t] := by
  induction t with
  | nil => rfl
  | cons c t ih =>
      have hc : c ≠ '\n' := fun hc => h (hc ▸ List.mem_cons_self)
      have ht : IsLine t := fun ht => h (List.mem_cons_of_mem c ht)
      simp [lines, hc, ih ht, consLine]

theorem isLine_of_mem_lines {t line : Text} (h : line ∈ lines t) : IsLine line := by
  induction t generalizing line with
  | nil =>
      rw [List.mem_singleton.1 h]
      simp [IsLine]
  | cons c t ih =>
      by_cases hc : c = '\n'
      · rw [lines, if_pos hc] at h
        rcases List.mem_cons.1 h with rfl | h
        · simp [IsLine]
        · exact ih h
      · obtain ⟨first, rest, hlines⟩ := List.exists_cons_of_ne_nil (lines_ne_nil t)
        rw [lines, if_neg hc, hlines, consLine] at h
        rw [hlines] at ih
        rcases List.mem_cons.1 h with rfl | h
        · have hfirst : IsLine first := ih List.mem_cons_self
          simpa [IsLine, eq_comm, hc] using hfirst
        · exact ih (List.mem_cons_of_mem _ h)

/-- Where two texts meet, the last line of the one goes on as the first line of the other. -/
theorem exists_lines_append (s t : Text) :
    ∃ front last first rest, lines s = front ++ [last] ∧ lines t = first :: rest ∧
      lines (s ++ t) = front ++ (last ++ first) :: rest := by
  obtain ⟨first, rest, ht⟩ := List.exists_cons_of_ne_nil (lines_ne_nil t)
  induction s with
  | nil => exact ⟨[], [], first, rest, rfl, ht, ht⟩
  | cons c s ih =>
      obtain ⟨front, last, first', rest', hs, ht', happend⟩ := ih
      by_cases hc : c = '\n'
      · refine ⟨[] :: front, last, first', rest', ?_, ht', ?_⟩
        · rw [lines, if_pos hc, hs]
          rfl
        · rw [List.cons_append, lines, if_pos hc, happend]
          rfl
      · rw [List.cons_append, lines, if_neg hc, lines, if_neg hc, hs, happend]
        cases front with
        | nil => exact ⟨[], c :: last, first', rest', rfl, ht', rfl⟩
        | cons line front => exact ⟨(c :: line) :: front, last, first', rest', rfl, ht', rfl⟩

theorem exists_lines_isLine_append {s : Text} (hs : IsLine s) (t : Text) :
    ∃ first rest, lines t = first :: rest ∧ lines (s ++ t) = (s ++ first) :: rest := by
  obtain ⟨front, last, first, rest, hlines, ht, happend⟩ := exists_lines_append s t
  rw [lines_of_isLine hs] at hlines
  cases front with
  | nil =>
      obtain ⟨rfl, -⟩ := List.cons.inj hlines
      exact ⟨first, rest, ht, happend⟩
  | cons line front => simp at hlines

/-- Texts that have been joined are cut where each of them is. -/
theorem lines_unlines_eq_flatMap {ls : List Text} (hne : ls ≠ []) :
    lines (unlines ls) = ls.flatMap lines := by
  match ls, hne with
  | [line], _ => simp [unlines]
  | line :: next :: rest, _ =>
      rw [unlines, lines_append_newline, lines_unlines_eq_flatMap (List.cons_ne_nil next rest)]
      rfl

/-- Lines that have been joined are cut again. -/
theorem lines_unlines {ls : List Text} (hne : ls ≠ []) (h : ∀ line ∈ ls, IsLine line) :
    lines (unlines ls) = ls := by
  have hcut : ls.flatMap lines = ls.flatMap fun line => [line] :=
    List.flatMap_congr fun line hline => lines_of_isLine (h line hline)
  rw [lines_unlines_eq_flatMap hne, hcut]
  simp

theorem unlines_append {ls ms : List Text} (hls : ls ≠ []) (hms : ms ≠ []) :
    unlines (ls ++ ms) = unlines ls ++ '\n' :: unlines ms := by
  match ls, hls with
  | [line], _ =>
      obtain ⟨next, rest, rfl⟩ := List.exists_cons_of_ne_nil hms
      rfl
  | line :: next :: rest, _ =>
      have hrest := unlines_append (List.cons_ne_nil next rest) hms
      rw [List.cons_append, List.cons_append, unlines, ← List.cons_append, hrest, unlines]
      simp

/-- The last line of the one text goes on as the first line of the other. -/
theorem unlines_concat_append (ls : List Text) (last first : Text) (ms : List Text) :
    unlines (ls ++ [last]) ++ unlines (first :: ms) = unlines (ls ++ (last ++ first) :: ms) := by
  have hlast : last ++ unlines (first :: ms) = unlines ((last ++ first) :: ms) := by
    cases ms with
    | nil => rfl
    | cons next ms => simp [unlines]
  cases ls with
  | nil => exact hlast
  | cons line ls =>
      rw [unlines_append (List.cons_ne_nil line ls) (List.cons_ne_nil last []),
        unlines_append (List.cons_ne_nil line ls) (List.cons_ne_nil _ ms), ← hlast]
      simp [unlines]

theorem rows_of_isLine {t : Text} (h : IsLine t) : rows t = row t := by
  simp [rows, lines_of_isLine h]

@[simp] theorem rows_nil : rows [] = [] := rfl

theorem row_of_isTight {t : Text} (hne : t ≠ []) (h : IsTight t) : row t = [t] := by
  have ht : afterSpaces t = t := h
  rw [row, ht, solid, List.filter_cons_of_pos (by simpa using hne)]
  rfl

theorem rows_cons_of_isSpace {c : Char} (hc : isSpace c = true) (t : Text) :
    rows (c :: t) = rows t := by
  by_cases hline : c = '\n'
  · rw [hline]
    exact rows_append_newline [] t
  · obtain ⟨line, rest, ht⟩ := List.exists_cons_of_ne_nil (lines_ne_nil t)
    have hrow : row (c :: line) = row line := by
      rw [row, row, afterSpaces, List.dropWhile_cons_of_pos hc, ← afterSpaces]
    simp [rows, lines, hline, ht, consLine, hrow]

/-- A gap in front of a text has no rows. -/
theorem rows_gap_append {g : Text} (hg : IsGap g) (t : Text) : rows (g ++ t) = rows t := by
  induction g with
  | nil => rfl
  | cons c g ih =>
      obtain ⟨hc, hrest⟩ := isGap_cons.1 hg
      rw [List.cons_append, rows_cons_of_isSpace hc, ih hrest]

theorem rows_afterSpaces (t : Text) : rows (afterSpaces t) = rows t := by
  obtain ⟨g, hg, ht⟩ := exists_gap t
  rw [ht, rows_gap_append hg, ← ht]

theorem rows_unlines (ls : List Text) : rows (unlines ls) = ls.flatMap rows := by
  induction ls with
  | nil => rfl
  | cons line rest ih =>
      cases rest with
      | nil => simp [unlines]
      | cons next rest =>
          rw [unlines, rows_append_newline, ih]
          simp

theorem flatMap_rows_lines (t : Text) : (lines t).flatMap rows = rows t := by
  rw [← rows_unlines, unlines_lines]

theorem flatMap_rows_map_append {lead : Text} (hlead : IsGap lead) (ls : List Text) :
    (ls.map (lead ++ ·)).flatMap rows = ls.flatMap rows := by
  induction ls with
  | nil => rfl
  | cons line ls ih =>
      rw [List.map_cons, List.flatMap_cons, ih, rows_gap_append hlead, List.flatMap_cons]

theorem flatMap_rows_solid (ls : List Text) : (solid ls).flatMap rows = ls.flatMap rows := by
  induction ls with
  | nil => rfl
  | cons line ls ih =>
      cases line with
      | nil => exact ih
      | cons c cs => simpa [solid] using ih

/-- A text is one line, or a line with a line feed and more text behind it. -/
theorem isLine_or_exists_newline (t : Text) :
    IsLine t ∨ ∃ line rest, IsLine line ∧ t = line ++ '\n' :: rest := by
  induction t with
  | nil => exact Or.inl (by simp [IsLine])
  | cons c t ih =>
      by_cases hc : c = '\n'
      · exact Or.inr ⟨[], t, by simp [IsLine], by simp [hc]⟩
      · have hcons : ∀ {line : Text}, IsLine line → IsLine (c :: line) := by
          intro line hline hmem
          rcases List.mem_cons.1 hmem with hmem | hmem
          · exact hc hmem.symm
          · exact hline hmem
        rcases ih with ht | ⟨line, rest, hline, rfl⟩
        · exact Or.inl (hcons ht)
        · exact Or.inr ⟨c :: line, rest, hcons hline, rfl⟩

/-- The first row of a tight text, the gap behind it, and the rest of the text.  Only the last row
can do without a gap. -/
theorem exists_first_row {t : Text} (ht : IsTight t) (hne : t ≠ []) :
    ∃ row g rest, t = row ++ g ++ rest ∧ IsGap g ∧ IsTight rest ∧ rows t = row :: rows rest ∧
      rows row = [row] ∧ (g = [] ∧ rest = [] ∨ ∃ tail, g = '\n' :: tail) := by
  obtain ⟨c, tail, rfl⟩ := List.exists_cons_of_ne_nil hne
  have hc : isSpace c = false := not_isSpace_of_isTight ht
  rcases isLine_or_exists_newline (c :: tail) with hline | ⟨line, rest, hline, hsplit⟩
  · have hrows : rows (c :: tail) = [c :: tail] := by
      rw [rows_of_isLine hline, row_of_isTight hne ht]
    exact ⟨c :: tail, [], [], by simp, isGap_nil, isTight_nil, hrows, hrows, Or.inl ⟨rfl, rfl⟩⟩
  · cases line with
    | nil =>
        rw [List.nil_append, List.cons.injEq] at hsplit
        rw [hsplit.1] at hc
        exact absurd hc (by decide)
    | cons d line =>
        rw [List.cons_append, List.cons.injEq] at hsplit
        obtain ⟨rfl, rfl⟩ := hsplit
        have hfirst : rows (c :: line) = [c :: line] := by
          rw [rows_of_isLine hline, row_of_isTight (by simp) (isTight_cons line hc)]
        have hrows : rows (c :: (line ++ '\n' :: rest)) = rows (c :: line) ++ rows rest :=
          rows_append_newline (c :: line) rest
        obtain ⟨g, hg, hrest⟩ := exists_gap rest
        refine ⟨c :: line, '\n' :: g, afterSpaces rest, ?_, isGap_cons.2 ⟨by decide, hg⟩,
          isTight_afterSpaces rest, ?_, hfirst, Or.inr ⟨g, rfl⟩⟩
        · conv => lhs; rw [hrest]
          simp
        · rw [hrows, hfirst, rows_afterSpaces]
          rfl

theorem exists_row {t row : Text} {more : List Text} (ht : IsTight t)
    (h : rows t = row :: more) :
    ∃ g rest, t = row ++ g ++ rest ∧ IsGap g ∧ IsTight rest ∧ rows rest = more ∧
      rows row = [row] ∧ (g = [] ∧ rest = [] ∨ ∃ tail, g = '\n' :: tail) := by
  have hne : t ≠ [] := by
    rintro rfl
    cases h
  obtain ⟨first, g, rest, hsplit, hg, hrest, hrows, hfirst, hcase⟩ := exists_first_row ht hne
  rw [h, List.cons.injEq] at hrows
  obtain ⟨rfl, hmore⟩ := hrows
  exact ⟨g, rest, hsplit, hg, hrest, hmore.symm, hfirst, hcase⟩

theorem isGap_of_rows_eq_nil {t : Text} (h : rows t = []) : IsGap t := by
  obtain ⟨g, hg, ht⟩ := exists_gap t
  by_cases hnil : afterSpaces t = []
  · rw [hnil, List.append_nil] at ht
    rwa [ht]
  · obtain ⟨first, -, rest, -, -, -, hrows, -⟩ :=
      exists_first_row (isTight_afterSpaces t) hnil
    rw [rows_afterSpaces, h] at hrows
    cases hrows

/-- A tight text can be cut between any two of its rows. -/
theorem exists_cut {t : Text} {above below : List Text} (ht : IsTight t)
    (h : rows t = above ++ below) :
    ∃ s rest, t = s ++ rest ∧ rows s = above ∧ rows rest = below ∧ IsTight s ∧ IsTight rest := by
  induction above generalizing t with
  | nil => exact ⟨[], t, rfl, rfl, h, isTight_nil, ht⟩
  | cons row above ih =>
      obtain ⟨g, behind, rfl, hg, hbehind, hmore, hrow, hcase⟩ := exists_row ht h
      obtain ⟨s, rest, rfl, hs, hrest, -, htight⟩ := ih hbehind hmore
      refine ⟨row ++ g ++ s, rest, by simp, ?_, hrest, ?_, htight⟩
      · rcases hcase with ⟨rfl, hnil⟩ | ⟨tail, rfl⟩
        · obtain ⟨rfl, -⟩ := List.append_eq_nil_iff.1 hnil
          rw [List.append_nil, List.append_nil, hrow, ← hs]
          rfl
        · have htail : IsGap tail := (isGap_cons.1 hg).2
          have hassoc : row ++ '\n' :: tail ++ s = row ++ '\n' :: (tail ++ s) := by
            simp
          rw [hassoc, rows_append_newline, hrow, rows_gap_append htail, hs]
          rfl
      · cases row with
        | nil => simp at hrow
        | cons c row => exact isTight_cons _ (not_isSpace_of_isTight ht)

end Rows

section Margins

theorem infix_unlines {line : Text} {ls : List Text} (h : line ∈ ls) : line <:+: unlines ls := by
  induction ls with
  | nil => cases h
  | cons first rest ih =>
      cases rest with
      | nil =>
          rw [List.mem_singleton.1 h]
          exact List.infix_refl _
      | cons next rest =>
          rw [unlines]
          rcases List.mem_cons.1 h with rfl | h
          · exact (List.prefix_append _ _).isInfix
          · exact (ih h).trans ((List.suffix_cons _ _).trans (List.suffix_append _ _)).isInfix

theorem infix_of_mem_rows {t row : Text} (h : row ∈ rows t) : row <:+: t := by
  obtain ⟨line, hline, hmem⟩ := List.mem_flatMap.1 h
  have hrow : row = afterSpaces line := by
    rw [Text.row, solid] at hmem
    exact List.mem_singleton.1 (List.mem_filter.1 hmem).1
  have hinfix : line <:+: t := by
    have hlines := infix_unlines hline
    rwa [unlines_lines] at hlines
  rw [hrow]
  exact (afterSpaces_suffix line).isInfix.trans hinfix

/-- A blank text has no rows, unless these are blank. -/
theorem rows_of_isBlankText {t : Text} (h : isBlankText t = true)
    (hsolid : ∀ row ∈ rows t, isBlankText row = false) : rows t = [] := by
  rw [List.eq_nil_iff_forall_not_mem]
  intro row hrow
  have hblank : isBlankText row = true := by
    rw [isBlankText, List.all_eq_true] at h ⊢
    intro c hc
    exact h c ((infix_of_mem_rows hrow).subset hc)
  rw [hsolid row hrow] at hblank
  cases hblank

/-- Rows that are not blank survive a change of the lines that hold them. -/
theorem flatMap_rows_mapSolid {f : Text → Text} {ls : List Text}
    (hf : ∀ line ∈ ls, isBlankText line = false → rows (f line) = rows line)
    (hsolid : ∀ row ∈ ls.flatMap rows, isBlankText row = false) :
    (Margin.mapSolid f ls).flatMap rows = ls.flatMap rows := by
  induction ls with
  | nil => rfl
  | cons line ls ih =>
      have hrest : (Margin.mapSolid f ls).flatMap rows = ls.flatMap rows := by
        apply ih
        · intro other hother
          exact hf other (List.mem_cons_of_mem line hother)
        · intro row hrow
          exact hsolid row (by simp [hrow])
      have hline : rows (if isBlankText line then [] else f line) = rows line := by
        split
        · rename_i hblank
          symm
          apply rows_of_isBlankText hblank
          intro row hrow
          exact hsolid row (by simp [hrow])
        · rename_i hblank
          exact hf line List.mem_cons_self (by simpa using hblank)
      have hcons : Margin.mapSolid f (line :: ls) =
          (if isBlankText line then [] else f line) :: Margin.mapSolid f ls := rfl
      rw [hcons, List.flatMap_cons, hline, hrest, List.flatMap_cons]

/-- Blank lines at the top hold no rows, unless these are blank. -/
theorem flatMap_rows_body {ls : List Text}
    (hsolid : ∀ row ∈ ls.flatMap rows, isBlankText row = false) :
    (Margin.body ls).flatMap rows = ls.flatMap rows := by
  induction ls with
  | nil => rfl
  | cons line ls ih =>
      by_cases hblank : isBlankText line = true
      · have hnone : rows line = [] := by
          apply rows_of_isBlankText hblank
          intro row hrow
          exact hsolid row (by simp [hrow])
        have hdrop : Margin.body (line :: ls) = Margin.body ls :=
          List.dropWhile_cons_of_pos hblank
        rw [hdrop, List.flatMap_cons, hnone, List.nil_append]
        apply ih
        intro row hrow
        exact hsolid row (by simp [hrow])
      · have hkeep : Margin.body (line :: ls) = line :: ls :=
          List.dropWhile_cons_of_neg hblank
        rw [hkeep]

/-- The common margin is no wider than the indentation of a line that is not blank. -/
theorem common_le_width {ls : List Text} {line : Text} (hline : line ∈ ls)
    (hsolid : isBlankText line = false) : Margin.common ls ≤ Margin.width line := by
  have hmem : Margin.width line ∈
      (ls.filter fun line => !isBlankText line).map Margin.width :=
    List.mem_map.2 ⟨line, List.mem_filter.2 ⟨hline, by simp [hsolid]⟩, rfl⟩
  unfold Margin.common
  cases hmin : ((ls.filter fun line => !isBlankText line).map Margin.width).min? with
  | none =>
      rw [List.min?_eq_none_iff.1 hmin] at hmem
      cases hmem
  | some least => exact (List.min?_eq_some_iff.1 hmin).2 _ hmem

theorem isTabOrSpace_of_mem_take {line : Text} {n : Nat} (h : n ≤ Margin.width line) :
    ∀ c ∈ line.take n, isTabOrSpace c = true := by
  have hfront : line.take n <+: line.takeWhile isTabOrSpace :=
    List.prefix_of_prefix_length_le (List.take_prefix n line) (List.takeWhile_prefix _)
      (Nat.le_trans (List.length_take_le n line) h)
  exact fun c hc => List.mem_takeWhile_imp (hfront.subset hc)

theorem rows_drop_of_le_width {line : Text} {n : Nat} (h : n ≤ Margin.width line) :
    rows (line.drop n) = rows line := by
  have hgap : IsGap (line.take n) := fun c hc =>
    isSpace_of_isTabOrSpace (isTabOrSpace_of_mem_take h c hc)
  conv => rhs; rw [← List.take_append_drop n line]
  exact (rows_gap_append hgap _).symm

/-- Moving a text to the left margin changes no row. -/
theorem rows_dedent {t : Text} (hsolid : ∀ row ∈ rows t, isBlankText row = false) :
    rows (dedent t) = rows t := by
  have hsolidLines : ∀ row ∈ (lines t).flatMap rows, isBlankText row = false := by
    rwa [flatMap_rows_lines]
  have hsolidBody : ∀ row ∈ (Margin.body (lines t)).flatMap rows, isBlankText row = false := by
    rwa [flatMap_rows_body hsolidLines]
  have hdrop : ∀ line ∈ Margin.body (lines t), isBlankText line = false →
      rows (line.drop (Margin.common (lines t))) = rows line := by
    intro line hline hblank
    exact rows_drop_of_le_width
      (common_le_width ((List.dropWhile_suffix _).subset hline) hblank)
  calc rows (dedent t)
      = (Margin.mapSolid (List.drop (Margin.common (lines t)))
          (Margin.body (lines t))).flatMap rows := rows_unlines _
    _ = (Margin.body (lines t)).flatMap rows := flatMap_rows_mapSolid hdrop hsolidBody
    _ = rows t := by rw [flatMap_rows_body hsolidLines, flatMap_rows_lines]

/-- Moving a text behind a margin changes no row. -/
theorem flatMap_rows_indent {lead t : Text} (hlead : IsGap lead)
    (hsolid : ∀ row ∈ rows t, isBlankText row = false) :
    (indent lead t).flatMap rows = rows t := by
  have hsolidLines : ∀ row ∈ (lines t).flatMap rows, isBlankText row = false := by
    rwa [flatMap_rows_lines]
  have hsolidBody : ∀ row ∈ (Margin.body (lines t)).flatMap rows, isBlankText row = false := by
    rwa [flatMap_rows_body hsolidLines]
  rw [indent, flatMap_rows_mapSolid (fun line _ _ => rows_gap_append hlead line) hsolidBody,
    flatMap_rows_body hsolidLines, flatMap_rows_lines]

end Margins

end Text

section Below

theorem unlines_cons (first : Text) (ls : List Text) :
    Text.unlines (first :: ls) = first ++ ls.flatMap fun line => '\n' :: line := by
  induction ls generalizing first with
  | nil => simp [Text.unlines]
  | cons next ls ih =>
      rw [Text.unlines, ih next]
      rfl

/-- The text of lines that stand below another one. -/
def below (ls : List Text) : Text :=
  ls.flatMap fun line => '\n' :: line

theorem below_append (ls ms : List Text) : below (ls ++ ms) = below ls ++ below ms :=
  List.flatMap_append

theorem below_of_ne_nil {ls : List Text} (h : ls ≠ []) : below ls = '\n' :: Text.unlines ls := by
  obtain ⟨first, rest, rfl⟩ := List.exists_cons_of_ne_nil h
  rw [unlines_cons]
  rfl

end Below

end RazorLayout

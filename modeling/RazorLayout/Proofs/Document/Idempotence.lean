import RazorLayout.Proofs.Document.LineEndings
import RazorLayout.Proofs.Forest.Drift
import RazorLayout.Proofs.Forest.Members

/-!
# Laying out a document twice

The layout of a spelling depends on its forest alone and is a spelling of the drift of that forest.
So a second layout changes nothing exactly where the forest does not drift.  This module carries the
argument from markup to documents: line endings survive, a line feed at the end survives, and no
member block is found.

* `documentBody` is what a document holds besides its line endings.

Results.  `Forest.Spells.formatDocument_twice`: when a second layout changes nothing, for a document
whose body spells a regular forest, whatever the configuration and the collaborators.
`format_format_iff_isSettled`: with the default configuration and no collaborators, exactly when the
forest is settled.  `Forest.Spells.format_format`: in particular when it is clean.
-/

namespace RazorLayout

section LineEndings

theorem AreTidy.hasCrLf_unlines {ls : List Text} (h : AreTidy ls) :
    hasCrLf (Text.unlines ls) = false := by
  by_cases hne : ls = []
  · rw [hne]
    rfl
  · rw [← Text.unlines_lines (Text.unlines ls)]
    refine RazorLayout.hasCrLf_unlines ?_
    intro line hline
    refine ⟨Text.isLine_of_mem_lines hline, ?_⟩
    rcases h.mem_lines hne hline with rfl | hfinished
    · simp
    · obtain ⟨c, hlast, hc⟩ := hfinished line
        (by simp [Text.lines_of_isLine (Text.isLine_of_mem_lines hline)])
      simpa [hlast] using hc

theorem AreFinished.getLast?_unlines {ls : List Text} (h : AreFinished ls) :
    (Text.unlines ls).getLast? ≠ some '\n' := by
  obtain ⟨-, front, line, rfl, hline⟩ := h
  by_cases hfront : front = []
  · rw [hfront]
    exact hline.getLast?_ne
  · have hlast : (Text.unlines (front ++ [line])).getLast? = line.getLast? := by
      obtain ⟨before, c, rfl⟩ := List.eq_nil_or_concat' line |>.resolve_left hline.ne_nil
      rw [Text.unlines_append hfront (by simp), Text.unlines, ← List.cons_append,
        ← List.append_assoc, List.getLast?_concat, List.getLast?_concat]
    rw [hlast]
    exact hline.getLast?_ne

end LineEndings

section Bodies

variable {config : Config} {collaborators : Collaborators} {b : Text}

theorem yields_markupLines {laidOut : Text}
    (h : (config.formatHtml && !Text.isBlankText b) = true →
      Yields (formatMarkup config collaborators 0 b) laidOut) :
    Yields (markupLines config collaborators false false (Text.lines b))
      (if config.formatHtml && !Text.isBlankText b then Text.lines laidOut else Text.lines b) := by
  obtain ⟨first, rest, hlines⟩ := List.exists_cons_of_ne_nil (Text.lines_ne_nil b)
  have hb : Text.unlines (first :: rest) = b := by
    rw [← hlines, Text.unlines_lines]
  rw [hlines, markupLines]
  simp only [hb]
  split
  · rename_i hformat
    exact (h hformat).bind (by simpa using yields_pure (Text.lines laidOut))
  · exact yields_pure _

/-- A body in which no member block opens is one piece of markup. -/
theorem yields_formatBody {laidOut : Text} (hfree : IsMemberFree b)
    (h : (config.formatHtml && !Text.isBlankText b) = true →
      Yields (formatMarkup config collaborators 0 b) laidOut) :
    Yields (formatBody config collaborators b)
      (if config.formatHtml && !Text.isBlankText b then laidOut else b) := by
  have hdocument : Yields (documentLines config collaborators (Text.lines b) 0 [] [])
      ([] ++ if config.formatHtml && !Text.isBlankText b then Text.lines laidOut
        else Text.lines b) :=
    (yields_markupLines h).bind (yields_pure _)
  have hunlines : Text.unlines ([] ++ if config.formatHtml && !Text.isBlankText b then
      Text.lines laidOut else Text.lines b) =
        if config.formatHtml && !Text.isBlankText b then laidOut else b := by
    rw [List.nil_append, apply_ite Text.unlines, Text.unlines_lines, Text.unlines_lines]
  rw [formatBody, findRegions_of_isMemberFree hfree, ← hunlines]
  exact Yields.bind (a := ()) (fun _ => rfl) (hdocument.bind (yields_pure _))

end Bodies

section Documents

variable {spacing : Spacing} {config : Config} {collaborators : Collaborators} {F : Forest}

theorem Yields.unique {α : Type} {m : Journaled α} {a b : α} (h : Yields m a) (h' : Yields m b) :
    a = b :=
  (h {}).symm.trans (h' {})

theorem Forest.isNil_drift (F : Forest) (level : Nat) :
    (F.drift config level).isNil = F.isNil := by
  cases F <;> rfl

/-- The layout of a regular forest: finished lines, a spelling of the drift, and the layout of all
spellings. -/
theorem Forest.exists_layout (spacing : Spacing) (config : Config) (collaborators : Collaborators)
    (hregular : F.isRegular = true) (hnil : F.isNil = false) :
    ∃ ls, AreFinished ls ∧ (F.drift config 0).Spells spacing config.maxDepth (Text.unlines ls) ∧
      ∀ b, F.Spells spacing config.maxDepth b →
        Yields (formatMarkup config collaborators 0 b) (Text.unlines ls) := by
  have hitems : ∀ item ∈ F.items spacing, Context.Settles
      ⟨config, collaborators, formatWithin config collaborators config.maxDepth⟩ item :=
    Forest.settles_items hregular config.maxDepth
  obtain ⟨placed, hfinished, hyields⟩ := Forest.exists_page hitems hnil
  have hlayout : ∀ b, F.Spells spacing config.maxDepth b →
      Yields (formatMarkup config collaborators 0 b) (Text.unlines placed.sheet.toLines) := by
    intro b hb j
    rw [← Nat.sub_zero config.maxDepth] at hb
    rw [hb.formatMarkup_run hregular j, Nat.sub_zero, hyields j]
    rfl
  refine ⟨placed.sheet.toLines, hfinished, ?_, hlayout⟩
  have hsource := Forest.spells_source spacing hregular config.maxDepth
  have hspells := hsource.drift_formatMarkup hregular collaborators {}
  rwa [hlayout _ hsource {}] at hspells

/-- A body that spells a forest is kept where there is nothing to lay out, and laid out
otherwise. -/
theorem Forest.Spells.yields_formatBody {b laidOut : Text} (hregular : F.isRegular = true)
    (h : F.Spells spacing config.maxDepth b)
    (hlayout : config.formatHtml = true ∧ F.isNil = false →
      Yields (formatMarkup config collaborators 0 b) laidOut) :
    Yields (formatBody config collaborators b)
      (if config.formatHtml = true ∧ F.isNil = false then laidOut else b) := by
  have hblank : Text.isBlankText b = F.isNil := by
    cases hnil : F.isNil with
    | false => exact h.isBlankText hregular (Forest.ne_nil_of_isNil hnil)
    | true =>
        cases F with
        | nil => exact Text.IsGap.isBlankText h
        | text => cases hnil
        | element => cases hnil
        | selfClosing => cases hnil
        | flow => cases hnil
  have hbody := RazorLayout.yields_formatBody (Forest.Spells.isMemberFree hregular h)
    fun hformat => hlayout (by simpa [hblank] using hformat)
  simpa [hblank] using hbody

/-- A text of finished lines. -/
def IsLayout (w : Text) : Prop :=
  ∃ ls, AreFinished ls ∧ w = Text.unlines ls

/-- A second layout of a body changes nothing exactly where the body is not laid out at all, or its
forest is settled. -/
theorem Forest.Spells.formatBody_twice {b : Text} (hregular : F.isRegular = true)
    (h : F.Spells spacing config.maxDepth b) (collaborators : Collaborators) :
    ∃ w w', Yields (formatBody config collaborators b) w ∧
      Yields (formatBody config collaborators w) w' ∧ (w = b ∨ IsLayout w) ∧
      (w' = w ↔ (config.formatHtml = true → F.isSettled config 0 = true)) := by
  by_cases hformat : config.formatHtml = true ∧ F.isNil = false
  · have hregular' : (F.drift config 0).isRegular = true := Forest.isRegular_drift hregular 0
    have hnil' : (F.drift config 0).isNil = false := (F.isNil_drift 0).trans hformat.2
    obtain ⟨ls, hfinished, hspells, hlayout⟩ :=
      Forest.exists_layout spacing config collaborators hregular hformat.2
    obtain ⟨ls', -, hspells', hlayout'⟩ :=
      Forest.exists_layout spacing config collaborators hregular' hnil'
    have hfirst := h.yields_formatBody hregular fun _ => hlayout b h
    have hsecond := hspells.yields_formatBody hregular' fun _ => hlayout' _ hspells
    rw [if_pos hformat] at hfirst
    rw [if_pos ⟨hformat.1, hnil'⟩] at hsecond
    refine ⟨_, _, hfirst, hsecond, Or.inr ⟨ls, hfinished, rfl⟩, ?_⟩
    constructor
    · -- The same text stands for the drift and for the drift of the drift.
      intro hsame _
      rw [hsame] at hspells'
      have hread := (hspells'.read? (Forest.isRegular_drift hregular' 0)).symm.trans
        (hspells.read? hregular')
      exact Forest.isSettled_of_drift hregular (Option.some.inj hread)
    · -- Where nothing drifts, the layout spells the forest that it is the layout of.
      intro hsettled
      rw [Forest.drift_of_isSettled (hsettled hformat.1)] at hspells
      have hagain := hspells.yields_formatBody hregular fun _ => hlayout _ hspells
      rw [if_pos hformat] at hagain
      exact hsecond.unique hagain
  · have hkeep : Yields (formatBody config collaborators b)
        (if config.formatHtml = true ∧ F.isNil = false then b else b) :=
      h.yields_formatBody hregular fun hlaidOut => absurd hlaidOut hformat
    rw [ite_self] at hkeep
    refine ⟨b, b, hkeep, hkeep, Or.inl rfl, iff_of_true rfl ?_⟩
    intro hhtml
    cases F with
    | nil => rfl
    | text => exact absurd ⟨hhtml, rfl⟩ hformat
    | element => exact absurd ⟨hhtml, rfl⟩ hformat
    | selfClosing => exact absurd ⟨hhtml, rfl⟩ hformat
    | flow => exact absurd ⟨hhtml, rfl⟩ hformat

theorem yields_formatUnix {u b w : Text} (h : Yields (formatBody config collaborators b) w) :
    (u = b ++ ['\n'] → Yields (formatUnix config collaborators u) (w ++ ['\n'])) ∧
      (u = b → b.getLast? ≠ some '\n' → Yields (formatUnix config collaborators u) w) := by
  constructor
  · rintro rfl
    rw [formatUnix, if_pos List.getLast?_concat, List.dropLast_concat]
    exact h.bind (yields_pure _)
  · rintro rfl hlast
    rw [formatUnix, if_neg hlast]
    exact h

/-- The same for a document with line feeds only. -/
theorem Forest.Spells.formatUnix_twice {u : Text} (hregular : F.isRegular = true)
    (h : F.Spells spacing config.maxDepth (if u.getLast? = some '\n' then u.dropLast else u))
    (collaborators : Collaborators) :
    ∃ w w', Yields (formatUnix config collaborators u) w ∧
      Yields (formatUnix config collaborators w) w' ∧ (hasCrLf u = false → hasCrLf w = false) ∧
      (w' = w ↔ (config.formatHtml = true → F.isSettled config 0 = true)) := by
  obtain ⟨w, w', hfirst, hsecond, hcases, hiff⟩ :=
    Forest.Spells.formatBody_twice hregular h collaborators
  by_cases hlast : u.getLast? = some '\n'
  · rw [if_pos hlast] at hfirst hcases
    have hu : u = u.dropLast ++ ['\n'] := by
      obtain ⟨front, rfl⟩ := List.getLast?_eq_some_iff.1 hlast
      rw [List.dropLast_concat]
    refine ⟨w ++ ['\n'], w' ++ ['\n'], (yields_formatUnix hfirst).1 hu,
      (yields_formatUnix hsecond).1 rfl, ?_, ?_⟩
    · intro hunix
      rcases hcases with rfl | ⟨ls, hls, rfl⟩
      · rwa [← hu]
      · have htidy : AreTidy (ls ++ [[]]) :=
          hls.1.append (List.forall_mem_singleton.2 (Or.inl rfl))
        have hunlines := Text.unlines_append hls.ne_nil (List.cons_ne_nil ([] : Text) [])
        rw [show Text.unlines ls ++ ['\n'] = Text.unlines (ls ++ [[]]) from hunlines.symm]
        exact htidy.hasCrLf_unlines
    · rw [List.append_left_inj]
      exact hiff
  · rw [if_neg hlast] at hfirst hcases
    have hw : w.getLast? ≠ some '\n' := by
      rcases hcases with rfl | ⟨ls, hls, rfl⟩
      · exact hlast
      · exact hls.getLast?_unlines
    refine ⟨w, w', (yields_formatUnix hfirst).2 rfl hlast, (yields_formatUnix hsecond).2 rfl hw, ?_,
      hiff⟩
    intro hunix
    rcases hcases with rfl | ⟨ls, hls, rfl⟩
    · exact hunix
    · exact hls.1.hasCrLf_unlines

/-- What a document holds, with line feeds only and without the line feed at its end. -/
def documentBody (t : Text) : Text :=
  if (dropCr t).getLast? = some '\n' then (dropCr t).dropLast else dropCr t

/-- When a second layout of a document changes nothing: exactly where markup is not laid out at all,
or the forest of the document is settled. -/
theorem Forest.Spells.formatDocument_twice {t : Text} (hregular : F.isRegular = true)
    (h : F.Spells spacing config.maxDepth (documentBody t)) (collaborators : Collaborators) :
    ∃ out out', Yields (formatDocument config collaborators t) out ∧
      Yields (formatDocument config collaborators out) out' ∧
      (out' = out ↔ (config.formatHtml = true → F.isSettled config 0 = true)) := by
  obtain ⟨w, w', hfirst, hsecond, hunix, hiff⟩ :=
    Forest.Spells.formatUnix_twice hregular h collaborators
  by_cases hcr : hasCrLf t = true
  · have hout : Yields (formatDocument config collaborators t) (addCr w) := by
      rw [formatDocument, if_pos hcr]
      exact hfirst.bind (yields_pure _)
    by_cases hline : Text.IsLine w
    · refine ⟨addCr w, w', hout, ?_, ?_⟩
      · rw [addCr_of_isLine hline, formatDocument, if_neg (by simp [hasCrLf_of_isLine hline])]
        exact hsecond
      · rw [addCr_of_isLine hline]
        exact hiff
    · refine ⟨addCr w, addCr w', hout, ?_, addCr_inj.trans hiff⟩
      rw [formatDocument, if_pos (hasCrLf_addCr hline), dropCr_addCr]
      exact hsecond.bind (yields_pure _)
  · have hfalse : hasCrLf t = false := by
      simpa using hcr
    rw [dropCr_of_hasCrLf hfalse] at hfirst hunix
    refine ⟨w, w', ?_, ?_, hiff⟩
    · rw [formatDocument, if_neg hcr]
      exact hfirst
    · rw [formatDocument, if_neg (by simp [hunix hfalse])]
      exact hsecond

/-- One layout is enough where the document spells a clean forest. -/
theorem Forest.Spells.format_format {t : Text} (hclean : F.isClean = true)
    (h : F.Spells spacing Config.standard.maxDepth (documentBody t)) :
    format (format t) = format t := by
  obtain ⟨out, out', hfirst, hsecond, hiff⟩ :=
    h.formatDocument_twice (Forest.isRegular_of_isClean hclean) {}
  have hsame : out' = out := hiff.2 fun _ => Forest.isSettled_of_isClean hclean 0
  have hformat : format t = out := hfirst {}
  rw [hformat, ← hsame]
  conv => lhs; rw [hsame]
  exact hsecond {}

/-- A second layout changes nothing exactly where no value of several lines stands inside an
element, on a tag that is written behind an indentation. -/
theorem format_format_iff_isSettled (F : Forest) (spacing : Spacing) (t : Text)
    (hregular : F.isRegular = true)
    (hspells : F.Spells spacing Config.standard.maxDepth (documentBody t)) :
    format (format t) = format t ↔ F.isSettled Config.standard 0 = true := by
  obtain ⟨out, out', hfirst, hsecond, hiff⟩ := hspells.formatDocument_twice hregular {}
  have hformat : format t = out := hfirst {}
  have hagain : format out = out' := hsecond {}
  rw [hformat, hagain, hiff]
  exact forall_prop_of_true rfl

/-- A value of two lines inside an element moves, the same value at the root does not. -/
theorem format_format_iff_isSettled_samples :
    format (format "<a><b c=\"x\ny\"/></a>".toList) ≠ format "<a><b c=\"x\ny\"/></a>".toList ∧
      format (format "<b c=\"x\ny\"/>".toList) = format "<b c=\"x\ny\"/>".toList := by
  let tag : Tag :=
    { name := ['b']
      attributes := [{ name := ['c'], value := some "x\ny".toList, quote := some ['"'] }] }
  let inside : Forest := .element { name := ['a'] } (.selfClosing tag .nil) .nil
  let alone : Forest := .selfClosing tag .nil
  constructor
  · have hiff := format_format_iff_isSettled inside {} "<a><b c=\"x\ny\"/></a>".toList (by decide)
      (Forest.spells_source {} (by decide) _)
    rw [ne_eq, hiff]
    decide
  · exact (format_format_iff_isSettled alone {} "<b c=\"x\ny\"/>".toList (by decide)
      (Forest.spells_source {} (by decide) _)).2 (by decide)

/-- With every layout the second line of the value moves four columns. -/
theorem format_format_ne_format :
    format (format "<a><b c=\"x\ny\"/></a>".toList) =
        "<a>\n    <b c=\"x\n        y\" />\n</a>".toList ∧
      format (format "<a><b c=\"x\ny\"/></a>".toList) ≠ format "<a><b c=\"x\ny\"/></a>".toList := by
  decide +kernel

end Documents

end RazorLayout

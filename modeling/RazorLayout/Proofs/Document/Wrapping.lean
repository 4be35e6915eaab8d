import Mathlib.Data.List.Forall2
import RazorLayout.Proofs.Document.Regions
import RazorLayout.Proofs.Scan.Walk
import RazorLayout.Proofs.Text.Margin

/-!
# Member blocks that are put together

The body of a member block is moved behind an indentation when the block is put together again.
This changes blanks at the front of lines, blank lines, and blanks at the end, wherever they stand:
also in a text in quotes, and behind a backslash.  The braces are balanced as before, because the
moves come down to changing runs of blanks that hold a line feed.

* `Text.Shifted` relates a line to the same line with other blanks at its front;
* `bracedMembers` is a member block with a text between its braces.

Results.  `walk?_below_reindent`: a moved body is balanced if the body was.
`findRegions_bracedMembers`: a balanced text between braces makes up one block.  So a block that has
been put together is found again, and putting it together once more changes nothing.
-/

namespace RazorLayout

open Delimiters

section Moves

variable {f : Text → Text} {ls ms : List Text} {lead line line' t : Text}

/-- The same line with other blanks at its front. -/
def Text.Shifted (line line' : Text) : Prop :=
  ∃ gap gap' rest, Text.isBlankText gap = true ∧ Text.isBlankText gap' = true ∧
    line = gap ++ rest ∧ line' = gap' ++ rest

theorem Text.Shifted.sameWalk (h : Text.Shifted line line') :
    braces.SameWalk ('\n' :: line) ('\n' :: line') := by
  obtain ⟨gap, gap', rest, hgap, hgap', rfl, rfl⟩ := h
  exact (sameWalk_newline_append hgap rest).trans (sameWalk_newline_append hgap' rest).symm

theorem sameWalk_below (h : List.Forall₂ Text.Shifted ls ms) :
    braces.SameWalk (below ls) (below ms) := by
  induction h with
  | nil => exact .refl _ _
  | cons hline _ ih => exact hline.sameWalk.append ih

theorem sameWalk_below_body (ls : List Text) :
    braces.SameWalk ('\n' :: below (Margin.body ls)) ('\n' :: below ls) := by
  induction ls with
  | nil => exact .refl _ _
  | cons line ls ih =>
      by_cases hline : Text.isBlankText line = true
      · rw [Margin.body, List.dropWhile_cons_of_pos hline]
        have hgap : Text.isBlankText ('\n' :: line) = true := hline
        exact ih.trans (sameWalk_newline_append hgap (below ls)).symm
      · rw [Margin.body, List.dropWhile_cons_of_neg hline]
        exact .refl _ _

theorem sameWalk_below_unlines (ls : List Text) :
    braces.SameWalk ('\n' :: below ls) ('\n' :: Text.unlines ls) := by
  by_cases hne : ls = []
  · rw [hne]
    exact .refl _ _
  · rw [below_of_ne_nil hne]
    have hgap : Text.isBlankText ['\n'] = true := rfl
    exact sameWalk_newline_append hgap (Text.unlines ls)

/-- A text whose lines get other blanks at their front, and whose blank lines are emptied or
dropped. -/
theorem sameWalk_unlines_mapSolid
    (hf : ∀ line ∈ Text.lines t, Text.isBlankText line = false → Text.Shifted line (f line)) :
    braces.SameWalk ('\n' :: Text.unlines (Margin.mapSolid f (Margin.body (Text.lines t))))
      ('\n' :: t) := by
  have hlines : List.Forall₂ Text.Shifted (Margin.body (Text.lines t))
      (Margin.mapSolid f (Margin.body (Text.lines t))) := by
    rw [Margin.mapSolid, List.forall₂_map_right_iff, List.forall₂_same]
    intro line hmem
    split
    · rename_i hline
      exact ⟨line, [], [], hline, rfl, by simp, rfl⟩
    · rename_i hline
      exact hf line (Margin.mem_of_mem_body hmem) (by simpa using hline)
  have hmoved := (sameWalk_below hlines).symm
  have hall := sameWalk_below_unlines (Text.lines t)
  rw [Text.unlines_lines] at hall
  exact (sameWalk_below_unlines _).symm.trans
    (((SameWalk.refl _ ['\n']).append hmoved).trans ((sameWalk_below_body _).trans hall))

theorem sameWalk_dedent (t : Text) : braces.SameWalk ('\n' :: Text.dedent t) ('\n' :: t) := by
  refine sameWalk_unlines_mapSolid fun line hmem hline => ?_
  have hgap := Text.isTabOrSpace_of_mem_take (Text.common_le_width hmem hline)
  exact ⟨_, [], _, Text.isBlankText_of_isTabOrSpace hgap, rfl,
    (List.take_append_drop _ line).symm, rfl⟩

theorem sameWalk_indent (hlead : Text.isBlankText lead = true) (t : Text) :
    braces.SameWalk ('\n' :: Text.unlines (Text.indent lead t)) ('\n' :: t) :=
  sameWalk_unlines_mapSolid fun line _ _ => ⟨[], lead, line, rfl, hlead, rfl, rfl⟩

theorem sameWalk_stripEnd (t : Text) :
    braces.SameWalk (Text.stripEnd t ++ ['\n']) (t ++ ['\n']) := by
  obtain ⟨gap, hgap, ht⟩ := Text.exists_stripEnd t
  have hsame := (sameWalk_append_newline hgap (Text.stripEnd t)).symm
  rwa [← ht] at hsame

/-- A body that is moved behind an indentation keeps its braces balanced. -/
theorem walk?_below_reindent (hlead : Text.isBlankText lead = true)
    (h : braces.walk? {} t = some {}) :
    braces.walk? {} (below (Text.reindent lead t) ++ ['\n']) = some {} := by
  have hstart : ∀ s : Text, braces.walk? {} ('\n' :: s) = braces.walk? {} s := fun _ => rfl
  have hlines : braces.SameWalk ('\n' :: below (Text.reindent lead t) ++ ['\n'])
      ('\n' :: (Text.stripEnd (Text.dedent t) ++ ['\n'])) :=
    ((sameWalk_below_unlines _).trans (sameWalk_indent hlead _)).append (.refl _ ['\n'])
  have hbody : braces.SameWalk ('\n' :: (Text.stripEnd (Text.dedent t) ++ ['\n']))
      ('\n' :: t ++ ['\n']) :=
    ((SameWalk.refl _ ['\n']).append (sameWalk_stripEnd _)).trans
      ((sameWalk_dedent t).append (.refl _ ['\n']))
  have hsame := (hlines.trans hbody) {} trivial
  rw [List.cons_append, List.cons_append, hstart, hstart, walk?_append _ _ t, h] at hsame
  exact hsame

end Moves

section Blocks

variable {keyword : Keyword} {body : Text}

theorem holdsMembers_of_memberAt? {cursor : Cursor} {cs inner : Text}
    (h : memberAt? cursor cs = some (keyword, inner)) : keyword.holdsMembers = true := by
  unfold memberAt? at h
  split at h
  · split at h
    · cases h
    · unfold readMemberOpening? at h
      split at h
      · cases h
        rfl
      · obtain ⟨rest, -, heq⟩ := Option.map_eq_some_iff.1 h
        cases heq
        rfl
  · cases h

/-- Every member block that is found has balanced braces. -/
theorem balanced_of_mem_regionsFrom {cursor : Cursor} {t : Text} {r : Region}
    (h : r ∈ regionsFrom cursor t) :
    r.keyword.holdsMembers = true ∧ braces.walk? {} r.body = some {} := by
  fun_induction regionsFrom cursor t with
  | case1 => cases h
  | case2 cursor c cs hnone ih => exact ih h
  | case3 => cases h
  | case4 cursor c cs keyword inner hmember body rest hgroup closing howns ih =>
      rcases List.mem_cons.1 h with rfl | h
      · exact ⟨holdsMembers_of_memberAt? hmember, (splitGroup_braces_eq_some_iff.1 hgroup).2⟩
      · exact ih h
  | case5 cursor c cs keyword inner hmember body rest hgroup closing howns ih => exact ih h

/-- A member block with this text between its braces. -/
def bracedMembers (keyword : Keyword) (body : Text) : Text :=
  sigil :: (keyword.text ++ ' ' :: '{' :: (body ++ ['}']))

theorem Keyword.eq_of_holdsMembers (h : keyword.holdsMembers = true) :
    keyword = .codeMembers ∨ keyword = .functionMembers := by
  simpa [holdsMembers] using h

theorem memberAt?_bracedMembers (h : keyword.holdsMembers = true) (body : Text) :
    memberAt? {} (bracedMembers keyword body) = some (keyword, body ++ ['}']) := by
  rcases Keyword.eq_of_holdsMembers h with rfl | rfl <;> rfl

/-- A block with balanced braces is all of its text. -/
theorem findRegions_bracedMembers (hkeyword : keyword.holdsMembers = true)
    (h : braces.walk? {} body = some {}) :
    findRegions (bracedMembers keyword body) =
      [⟨keyword, 0, (bracedMembers keyword body).count '\n', body⟩] := by
  have hgroup : splitGroup .braces (body ++ ['}']) = some (body, []) :=
    splitGroup_braces_eq_some_iff.2 ⟨rfl, h⟩
  have hfront : Text.front (bracedMembers keyword body) [] = bracedMembers keyword body := by
    simp [Text.front]
  have hregions := regionsFrom_of_closed (memberAt?_bracedMembers hkeyword body) hgroup
  rw [← bracedMembers, hfront] at hregions
  have hend : ∀ cursor : Cursor, regionsFrom cursor [] = [] := fun cursor => by rw [regionsFrom]
  simpa [findRegions, lineRest, Text.isBlankText, hend, Cursor.line_advance] using hregions

theorem memberBody?_bracedMembers (hkeyword : keyword.holdsMembers = true)
    (h : braces.walk? {} body = some {}) :
    memberBody? (bracedMembers keyword body) = some body := by
  have hgroup : splitGroup .braces (body ++ ['}']) = some (body, []) :=
    splitGroup_braces_eq_some_iff.2 ⟨rfl, h⟩
  have hdrop : (bracedMembers keyword body).dropWhile (fun c => c != '{') =
      '{' :: (body ++ ['}']) := by
    rcases Keyword.eq_of_holdsMembers hkeyword with rfl | rfl <;> rfl
  rw [memberBody?, hdrop, splitBraces, hgroup]
  rfl

/-- A block that is put together has its body between line feeds and behind the indentation. -/
theorem wrapMembers_eq (keyword : Keyword) (n : Nat) (code : Text) :
    wrapMembers keyword.text n code =
      bracedMembers keyword (below (Text.reindent (Text.spaces n) code) ++ ['\n']) := by
  have hcons : sigil :: keyword.text ++ " \x7b".toList =
      sigil :: (keyword.text ++ [' ', '{']) := rfl
  rw [wrapMembers, List.cons_append, unlines_cons, hcons]
  simp [bracedMembers, below]

end Blocks

section Stability

/-- A member block that has been found and is put together is found again, alone and as all of its
text, and putting it together once more changes nothing. -/
theorem wrapMembers_stable {t : Text} {r : Region} (h : r ∈ findRegions t) (n : Nat) :
    ∃ last body,
      findRegions (wrapMembers r.keyword.text n r.body) = [⟨r.keyword, 0, last, body⟩] ∧
        last + 1 = (Text.lines (wrapMembers r.keyword.text n r.body)).length ∧
        memberBody? (wrapMembers r.keyword.text n r.body) = some body ∧
        wrapMembers r.keyword.text n body = wrapMembers r.keyword.text n r.body := by
  obtain ⟨hkeyword, hbalanced⟩ := balanced_of_mem_regionsFrom h
  have hlead : ∀ c ∈ Text.spaces n, isTabOrSpace c = true := by
    intro c hc
    rw [List.eq_of_mem_replicate hc]
    rfl
  have hbody := walk?_below_reindent (Text.isBlankText_of_isTabOrSpace hlead) hbalanced
  rw [wrapMembers_eq]
  refine ⟨_, _, findRegions_bracedMembers hkeyword hbody, (length_lines _).symm,
    memberBody?_bracedMembers hkeyword hbody, ?_⟩
  rw [wrapMembers_eq, Text.reindent_below_reindent hlead]

/-- The quoted text spans lines, holds an opening brace and a line that ends in a backslash, and is
moved like everything else. -/
theorem wrapMembers_stable_quoted :
    let t := "<p/>\n @code \x7b\n\n    x = \"a \x7b \\\n\n      \";\n    y;\n \n \x7d\n".toList
    let r : Region := ⟨.codeMembers, 1, 8, "\n\n    x = \"a \x7b \\\n\n      \";\n    y;\n \n ".toList⟩
    let w := "@code \x7b\n  x = \"a \x7b \\\n\n    \";\n  y;\n\x7d".toList
    r ∈ findRegions t ∧ wrapMembers r.keyword.text 2 r.body = w ∧
      ∃ last body, findRegions w = [⟨r.keyword, 0, last, body⟩] ∧
        last + 1 = (Text.lines w).length ∧ memberBody? w = some body ∧
        wrapMembers r.keyword.text 2 body = w := by
  intro t r w
  have hfound : r ∈ findRegions t := by decide +kernel
  have hwrapped : wrapMembers r.keyword.text 2 r.body = w := by decide +kernel
  have hstable := wrapMembers_stable hfound 2
  rw [hwrapped] at hstable
  exact ⟨hfound, hwrapped, hstable⟩

end Stability

end RazorLayout

import RazorLayout.Document.Region
import RazorLayout.Proofs.Scan.Delimited
import RazorLayout.Proofs.Text.Rows

/-!
# Member blocks and the lines between them

The search for member blocks reads a document once.  The blocks that it finds stand in the order of
their lines, no line belongs to two of them, and each of them lies inside the document.  So their
lines and the chunks of lines between them make up the document.

* `InOrder` says that member blocks follow one another from a line on;
* `chunks` gives the lines between member blocks, and `weave` puts the two back together.

Results.  `inOrder_findRegions`: the member blocks of a document are in order.
`weave_chunks`: hence chunks and member blocks are all of the lines.
`findRegions_concat_newline`: a line feed at the end of a document makes no difference.
-/

namespace RazorLayout

section Definitions

/-- The lines from number `start` up to number `stop`. -/
def lineSlice (source : List Text) (start stop : Nat) : List Text :=
  (source.drop start).take (stop - start)

/-- The lines that a member block owns. -/
def Region.ownedLines (source : List Text) (region : Region) : List Text :=
  lineSlice source region.startLine (region.endLine + 1)

/-- The chunks of lines between member blocks, from line `start` on. -/
def chunks (source : List Text) (start : Nat) : List Region → List (List Text)
  | [] => [source.drop start]
  | region :: regions =>
      lineSlice source start region.startLine :: chunks source (region.endLine + 1) regions

/-- A chunk, lines, a chunk, lines and so on to the last chunk. -/
def weave : List (List Text) → List (List Text) → List Text
  | chunk :: chunks, lines :: rest => chunk ++ lines ++ weave chunks rest
  | chunks, _ => chunks.flatten

/-- The member blocks follow one another from line `start` on, in a document of `total` lines. -/
def InOrder (total start : Nat) : List Region → Prop
  | [] => True
  | region :: regions =>
      start ≤ region.startLine ∧ region.startLine ≤ region.endLine ∧ region.endLine < total ∧
        InOrder total (region.endLine + 1) regions

end Definitions

section Weaving

theorem weave_nil (ms : List (List Text)) : weave ms [] = ms.flatten := by
  cases ms <;> rfl

theorem lineSlice_append_drop (source : List Text) {start stop : Nat} (h : start ≤ stop) :
    lineSlice source start stop ++ source.drop stop = source.drop start := by
  have hdrop : source.drop stop = (source.drop start).drop (stop - start) := by
    rw [List.drop_drop, Nat.add_sub_cancel' h]
  rw [hdrop]
  exact List.take_append_drop _ _

/-- The lines of member blocks in order and the chunks between them are all of the lines. -/
theorem weave_chunks {source : List Text} {total start : Nat} {regions : List Region}
    (h : InOrder total start regions) :
    weave (chunks source start regions) (regions.map (Region.ownedLines source)) =
      source.drop start := by
  induction regions generalizing start with
  | nil => simp [chunks, weave]
  | cons region regions ih =>
      obtain ⟨hstart, hend, -, hrest⟩ := h
      simp only [chunks, List.map_cons, weave]
      rw [ih hrest, List.append_assoc, Region.ownedLines,
        lineSlice_append_drop source (Nat.le_succ_of_le hend), lineSlice_append_drop source hstart]

theorem InOrder.mono {total start start' : Nat} {regions : List Region}
    (h : InOrder total start regions) (hle : start' ≤ start) : InOrder total start' regions := by
  cases regions with
  | nil => trivial
  | cons region regions => exact ⟨hle.trans h.1, h.2⟩

end Weaving

section Cursors

theorem Cursor.advance_append (cursor : Cursor) (s t : Text) :
    cursor.advance (s ++ t) = (cursor.advance s).advance t :=
  List.foldl_append

theorem Cursor.line_advance (cursor : Cursor) (t : Text) :
    (cursor.advance t).line = cursor.line + t.count '\n' := by
  induction t generalizing cursor with
  | nil => rfl
  | cons c t ih =>
      have hstep : cursor.advance (c :: t) = (cursor.step c).advance t := rfl
      rw [hstep, ih]
      by_cases hc : c = '\n'
      · simp [Cursor.step, hc]
        omega
      · simp [Cursor.step, hc]

theorem memberAt?_of_ne {c : Char} (hc : c ≠ '@') (cursor : Cursor) (cs : Text) :
    memberAt? cursor (c :: cs) = none := by
  unfold memberAt?
  split
  · rename_i heq
    exact absurd (List.cons.inj heq).1 hc
  · rfl

theorem regionsFrom_of_memberAt?_eq_none {cursor : Cursor} {c : Char} {cs : Text}
    (h : memberAt? cursor (c :: cs) = none) :
    regionsFrom cursor (c :: cs) = regionsFrom (cursor.step c) cs := by
  rw [regionsFrom]
  split
  · rfl
  · rename_i hsome
    rw [h] at hsome
    cases hsome

/-- A member block that is never closed ends the search. -/
theorem regionsFrom_of_unclosed {cursor : Cursor} {c : Char} {cs inner : Text} {keyword : Keyword}
    (hmember : memberAt? cursor (c :: cs) = some (keyword, inner))
    (hgroup : splitGroup .braces inner = none) : regionsFrom cursor (c :: cs) = [] := by
  rw [regionsFrom]
  split
  · rename_i hnone
    rw [hmember] at hnone
    cases hnone
  · rename_i hsome
    cases hmember.symm.trans hsome
    split
    · rfl
    · rename_i hclosed
      cases hgroup.symm.trans hclosed

/-- A member block that is closed is taken when it owns its lines, and passed over otherwise. -/
theorem regionsFrom_of_closed {cursor : Cursor} {c : Char} {cs inner body rest : Text}
    {keyword : Keyword} (hmember : memberAt? cursor (c :: cs) = some (keyword, inner))
    (hgroup : splitGroup .braces inner = some (body, rest)) :
    regionsFrom cursor (c :: cs) =
      let closing := cursor.advance (Text.front (c :: cs) rest)
      if cursor.blankSoFar && Text.isBlankText (lineRest rest) then
        ⟨keyword, cursor.line, closing.line, body⟩ ::
          regionsFrom (closing.advance (lineRest rest)) (rest.dropWhile fun c => c != '\n')
      else regionsFrom closing rest := by
  rw [regionsFrom]
  split
  · rename_i hnone
    rw [hmember] at hnone
    cases hnone
  · rename_i hsome
    cases hmember.symm.trans hsome
    split
    · rename_i hunclosed
      cases hgroup.symm.trans hunclosed
    · rename_i hclosed
      cases hgroup.symm.trans hclosed
      rfl

theorem count_lineRest (t : Text) : (lineRest t).count '\n' = 0 := by
  rw [List.count_eq_zero]
  intro hmem
  exact absurd (List.mem_takeWhile_imp hmem) (by simp)

end Cursors

section Order

/-- What is left behind an accepted block is nothing, or the next line. -/
theorem dropWhile_line_cases (t : Text) :
    (t.dropWhile fun c => c != '\n') = [] ∨
      ∃ tail, (t.dropWhile fun c => c != '\n') = '\n' :: tail := by
  cases h : t.dropWhile fun c => c != '\n' with
  | nil => exact Or.inl rfl
  | cons c tail =>
      have hc := Text.eq_false_of_dropWhile h
      exact Or.inr ⟨tail, by simpa using hc⟩

/-- The text in front of what is left behind the braces of a member block. -/
theorem front_append_of_memberAt? {cursor : Cursor} {cs inner body rest : Text} {keyword : Keyword}
    (hmember : memberAt? cursor cs = some (keyword, inner))
    (hgroup : splitGroup .braces inner = some (body, rest)) : Text.front cs rest ++ rest = cs :=
  Text.front_append ((splitGroup_suffix hgroup).trans (memberAt?_suffix hmember))

/-- The line feeds of a member block are passed over before the search goes on behind it. -/
theorem line_closing {cursor : Cursor} {c : Char} {cs inner body rest : Text} {keyword : Keyword}
    (hmember : memberAt? cursor (c :: cs) = some (keyword, inner))
    (hgroup : splitGroup .braces inner = some (body, rest)) :
    c = '@' ∧ cursor.line ≤ (cursor.advance (Text.front (c :: cs) rest)).line ∧
      (cursor.advance (Text.front (c :: cs) rest)).line + rest.count '\n' =
        cursor.line + (c :: cs).count '\n' := by
  have hc : c = '@' := by
    by_contra hc
    rw [memberAt?_of_ne hc] at hmember
    cases hmember
  have hcount : (c :: cs).count '\n' =
      (Text.front (c :: cs) rest).count '\n' + rest.count '\n' := by
    rw [← List.count_append, front_append_of_memberAt? hmember hgroup]
  rw [Cursor.line_advance]
  exact ⟨hc, by omega, by omega⟩

/-- A search that starts in front of a line feed finds nothing on the line that ends there. -/
theorem inOrder_regionsFrom (cursor : Cursor) (t : Text) {total : Nat}
    (h : cursor.line + t.count '\n' < total) :
    InOrder total (cursor.line + (t.take 1).count '\n') (regionsFrom cursor t) := by
  fun_induction regionsFrom cursor t with
  | case1 => trivial
  | case2 cursor c cs hnone ih =>
      have hline : (cursor.step c).line = cursor.line + [c].count '\n' := cursor.line_advance [c]
      have hcount : ([c] ++ cs).count '\n' = [c].count '\n' + cs.count '\n' := List.count_append
      rw [List.singleton_append] at hcount
      exact (ih (by omega)).mono (by simp only [List.take_succ_cons, List.take_zero]; omega)
  | case3 => trivial
  | case4 cursor c cs keyword inner hmember body rest hgroup closing howns ih =>
      obtain ⟨rfl, hle, hcount⟩ := line_closing hmember hgroup
      have hclosing : closing = cursor.advance (Text.front ('@' :: cs) rest) := rfl
      rw [← hclosing] at hle hcount
      have hrest : rest.count '\n' = (rest.dropWhile fun c => c != '\n').count '\n' := by
        conv => lhs; rw [← List.takeWhile_append_dropWhile (p := fun c => c != '\n') (l := rest)]
        rw [List.count_append]
        exact (congrArg (· + _) (count_lineRest rest)).trans (Nat.zero_add _)
      have hline : (closing.advance (lineRest rest)).line = closing.line := by
        rw [Cursor.line_advance, count_lineRest]
        rfl
      have hend : closing.line < total := by omega
      rw [hline] at ih
      refine ⟨Nat.le_refl _, hle, hend, ?_⟩
      -- The search goes on at the end of the line, so the next block starts below it.
      rcases dropWhile_line_cases rest with hnil | ⟨tail, htail⟩
      · rw [hnil, regionsFrom]
        trivial
      · rw [htail] at ih hrest ⊢
        exact ih (by omega)
  | case5 cursor c cs keyword inner hmember body rest hgroup closing howns ih =>
      obtain ⟨rfl, hle, hcount⟩ := line_closing hmember hgroup
      have hclosing : closing = cursor.advance (Text.front ('@' :: cs) rest) := rfl
      rw [← hclosing] at hle hcount
      exact (ih (by omega)).mono (hle.trans (Nat.le_add_right _ _))

theorem length_lines (t : Text) : (Text.lines t).length = t.count '\n' + 1 := by
  induction t with
  | nil => rfl
  | cons c t ih =>
      by_cases hc : c = '\n'
      · simp [Text.lines, hc, ih]
      · cases hlines : Text.lines t with
        | nil => exact absurd hlines (Text.lines_ne_nil t)
        | cons line rest =>
            rw [hlines] at ih
            simp [Text.lines, hc, hlines, Text.consLine, ← ih]

/-- The member blocks of a document are in order. -/
theorem inOrder_findRegions (t : Text) : InOrder (Text.lines t).length 0 (findRegions t) := by
  have hlength : (Text.lines t).length = t.count '\n' + 1 := length_lines t
  have hlt : (0 : Nat) + t.count '\n' < (Text.lines t).length := by
    omega
  exact (inOrder_regionsFrom {} t hlt).mono (Nat.zero_le _)

end Order

section FinalNewline

theorem after?_concat {word : Text} {c : Char} (hc : c ∉ word) (t : Text) :
    Text.after? word (t ++ [c]) = (Text.after? word t).map (· ++ [c]) := by
  induction word generalizing t with
  | nil => rfl
  | cons w word ih =>
      obtain ⟨hw, hword⟩ := List.ne_and_not_mem_of_not_mem_cons hc
      cases t with
      | nil => exact if_neg (Ne.symm hw)
      | cons b t =>
          by_cases hb : w = b
          · simpa [Text.after?, hb] using ih hword t
          · simp [Text.after?, hb]

theorem afterMemberOpening?_concat_newline (keyword : Keyword) (hword : '\n' ∉ keyword.text)
    (t : Text) :
    afterMemberOpening? keyword (t ++ ['\n']) =
      (afterMemberOpening? keyword t).map (· ++ ['\n']) := by
  have hsigil : '\n' ∉ sigil :: keyword.text := by
    simp [hword, sigil]
  unfold afterMemberOpening? afterWord?
  rw [after?_concat hsigil]
  cases Text.after? (sigil :: keyword.text) t with
  | none => rfl
  | some behind =>
      -- The line feed is blank, so nothing is left where only blanks follow the keyword.
      have hblank : isBlank '\n' = true := by decide
      rcases hdrop : behind.dropWhile isBlank with _ | ⟨c, rest⟩
      · have hall := List.dropWhile_eq_nil_iff.1 hdrop
        have happend : (behind ++ ['\n']).dropWhile isBlank = [] :=
          List.dropWhile_eq_nil_iff.2 (by simpa [or_imp, forall_and, hblank] using hall)
        simp [hdrop, happend]
      · have happend : (behind ++ ['\n']).dropWhile isBlank = c :: (rest ++ ['\n']) := by
          rw [List.dropWhile_append, hdrop]
          rfl
        simp only [Option.map_some, happend, hdrop]
        by_cases hc : c = '{'
        · simp [hc]
        · split <;> simp_all

theorem memberAt?_concat_newline (cursor : Cursor) (c : Char) (cs : Text) :
    memberAt? cursor (c :: (cs ++ ['\n'])) =
      (memberAt? cursor (c :: cs)).map fun opening => (opening.1, opening.2 ++ ['\n']) := by
  by_cases hc : c = '@'
  · subst hc
    have hcode := afterMemberOpening?_concat_newline .codeMembers (by decide) ('@' :: cs)
    have hfunctions := afterMemberOpening?_concat_newline .functionMembers (by decide) ('@' :: cs)
    rw [List.cons_append] at hcode hfunctions
    simp only [memberAt?]
    split
    · rfl
    · unfold readMemberOpening?
      rw [hcode, hfunctions]
      cases afterMemberOpening? .codeMembers ('@' :: cs) <;>
        cases afterMemberOpening? .functionMembers ('@' :: cs) <;> rfl
  · rw [memberAt?_of_ne hc, memberAt?_of_ne hc]
    rfl

theorem splitGroup_braces_concat_newline (t : Text) :
    splitGroup .braces (t ++ ['\n']) =
      (splitGroup .braces t).map fun group => (group.1, group.2 ++ ['\n']) :=
  splitGroupFrom_concat (by decide) 0 .outside t

theorem front_concat (s t : Text) (c : Char) :
    Text.front (s ++ [c]) (t ++ [c]) = Text.front s t := by
  simp only [Text.front, List.length_append, List.length_singleton]
  rw [Nat.add_sub_add_right, List.take_append_of_le_length (Nat.sub_le _ _)]

theorem lineRest_concat_newline (t : Text) : lineRest (t ++ ['\n']) = lineRest t := by
  induction t with
  | nil => rfl
  | cons c t ih =>
      unfold lineRest at ih ⊢
      by_cases hc : c = '\n'
      · simp [hc]
      · simp [hc, ih]

theorem dropWhile_line_concat_newline (t : Text) :
    (t ++ ['\n']).dropWhile (fun c => c != '\n') =
      (t.dropWhile fun c => c != '\n') ++ ['\n'] := by
  induction t with
  | nil => rfl
  | cons c t ih =>
      by_cases hc : c = '\n'
      · simp [hc]
      · simp [hc, ih]

theorem regionsFrom_concat_newline (cursor : Cursor) (t : Text) :
    regionsFrom cursor (t ++ ['\n']) = regionsFrom cursor t := by
  fun_induction regionsFrom cursor t with
  | case1 cursor =>
      rw [List.nil_append, regionsFrom_of_memberAt?_eq_none (memberAt?_of_ne (by decide) _ _),
        regionsFrom]
  | case2 cursor c cs hnone ih =>
      have hmember := memberAt?_concat_newline cursor c cs
      rw [hnone] at hmember
      rw [List.cons_append, regionsFrom_of_memberAt?_eq_none hmember, ih]
  | case3 cursor c cs keyword inner hmember hgroup =>
      have hmember' := memberAt?_concat_newline cursor c cs
      have hgroup' := splitGroup_braces_concat_newline inner
      rw [hmember, Option.map_some] at hmember'
      rw [hgroup, Option.map_none] at hgroup'
      rw [List.cons_append, regionsFrom_of_unclosed hmember' hgroup']
  | case4 cursor c cs keyword inner hmember body rest hgroup closing howns ih =>
      have hmember' := memberAt?_concat_newline cursor c cs
      have hgroup' := splitGroup_braces_concat_newline inner
      rw [hmember, Option.map_some] at hmember'
      rw [hgroup, Option.map_some] at hgroup'
      rw [List.cons_append, regionsFrom_of_closed hmember' hgroup', ← List.cons_append,
        front_concat, lineRest_concat_newline, dropWhile_line_concat_newline]
      exact (if_pos howns).trans (congrArg _ ih)
  | case5 cursor c cs keyword inner hmember body rest hgroup closing howns ih =>
      have hmember' := memberAt?_concat_newline cursor c cs
      have hgroup' := splitGroup_braces_concat_newline inner
      rw [hmember, Option.map_some] at hmember'
      rw [hgroup, Option.map_some] at hgroup'
      rw [List.cons_append, regionsFrom_of_closed hmember' hgroup', ← List.cons_append,
        front_concat, lineRest_concat_newline]
      exact (if_neg howns).trans ih

/-- A line feed at the end of a document makes no difference to the search. -/
theorem findRegions_concat_newline (t : Text) : findRegions (t ++ ['\n']) = findRegions t :=
  regionsFrom_concat_newline {} t

end FinalNewline

end RazorLayout

import RazorLayout.Proofs.Document.Agreement
import RazorLayout.Proofs.Scan.Walk

/-!
# The lines that a member block owns

A member block that is found stands alone on its lines.  Joined again, these lines are the block,
from its sigil to its closing brace, and nothing but blanks around it.  The search jumps to the end
of a line behind a block that it takes, and right behind the brace of one that it passes over, so
the lines of a block are looked up from its two ends and not along the search.

* `unlines_lineSlice_append`: the lines that a part of a text stands on;
* `take_drop_of_blockEnd?`: the text from the sigil of a block to its closing brace.

Result.  `findRegions_exact`: the blocks that are found are in the order of their lines, no two of
them share a line, each of them is all of its lines, and none that the search comes to is missing.
-/

namespace RazorLayout

section Lines

variable {front middle back : Text}

/-- The lines behind a part of a text that ends with a line feed. -/
theorem drop_lines_append (h : front = [] ∨ front.getLast? = some '\n') (rest : Text) :
    (Text.lines (front ++ rest)).drop (front.count '\n') = Text.lines rest := by
  rcases h with rfl | h
  · rfl
  · obtain ⟨init, rfl⟩ := List.getLast?_eq_some_iff.1 h
    have hcount : (init ++ ['\n']).count '\n' = (Text.lines init).length := by
      rw [length_lines, List.count_append, List.count_singleton_self]
    rw [hcount, List.append_assoc, List.singleton_append, Text.lines_append_newline, List.drop_left]

/-- The lines in front of a line feed. -/
theorem take_lines_append (h : back = [] ∨ ∃ tail, back = '\n' :: tail) (t : Text) :
    (Text.lines (t ++ back)).take (t.count '\n' + 1) = Text.lines t := by
  rw [← length_lines]
  rcases h with rfl | ⟨tail, rfl⟩
  · rw [List.append_nil, List.take_length]
  · rw [Text.lines_append_newline, List.take_left]

/-- A part of a text that shares no line with the rest is what its lines are. -/
theorem unlines_lineSlice (hfront : front = [] ∨ front.getLast? = some '\n')
    (hback : back = [] ∨ ∃ tail, back = '\n' :: tail) :
    Text.unlines (lineSlice (Text.lines (front ++ (middle ++ back))) (front.count '\n')
      (front.count '\n' + middle.count '\n' + 1)) = middle := by
  have hlength : front.count '\n' + middle.count '\n' + 1 - front.count '\n' =
      middle.count '\n' + 1 := by
    omega
  rw [lineSlice, hlength, drop_lines_append hfront, take_lines_append hback, Text.unlines_lines]

/-- The lines that a part of a text stands on are that part, the beginning of its first line and the
end of its last one. -/
theorem unlines_lineSlice_append (s part rest : Text) :
    Text.unlines (lineSlice (Text.lines (s ++ part ++ rest)) (s.count '\n')
      ((s ++ part).count '\n' + 1)) = lastLine s ++ part ++ lineRest rest := by
  obtain ⟨front, hs, hfront⟩ := exists_append_lastLine s
  have hsplit : s ++ part ++ rest =
      front ++ (lastLine s ++ part ++ lineRest rest ++ rest.dropWhile fun c => c != '\n') := by
    have hrest : lineRest rest ++ rest.dropWhile (fun c => c != '\n') = rest :=
      List.takeWhile_append_dropWhile
    conv => lhs; rw [hs]
    simp only [List.append_assoc, hrest]
  have hstart : s.count '\n' = front.count '\n' := by
    conv => lhs; rw [hs]
    rw [List.count_append, count_lastLine, Nat.add_zero]
  have hstop : (s ++ part).count '\n' =
      front.count '\n' + (lastLine s ++ part ++ lineRest rest).count '\n' := by
    simp only [List.count_append, hstart, count_lastLine, count_lineRest]
    omega
  rw [hsplit, hstart, hstop]
  exact unlines_lineSlice hfront (dropWhile_line_cases rest)

end Lines

section Blocks

variable {t inner body : Text} {p q : Nat} {keyword : Keyword} {r : Region}

theorem line_cursorAt (t : Text) (p : Nat) : (cursorAt t p).line = (t.take p).count '\n' := by
  rw [cursorAt, Cursor.line_advance]
  exact Nat.zero_add _

/-- A block reaches from its sigil to its closing brace. -/
theorem take_drop_of_blockEnd? (hend : blockEnd? t p = some q)
    (hopening : openingAt? t p = some (keyword, inner))
    (hgroup : splitGroup .braces inner = some (body, t.drop q)) :
    ∃ gap, Text.isBlankText gap = true ∧
      (t.drop p).take (q - p) = sigil :: keyword.text ++ gap ++ '{' :: body ++ ['}'] := by
  obtain ⟨-, gap, hgap, hdrop⟩ := readMemberOpening?_eq_some (openingAt?_eq_some hopening)
  obtain ⟨hinner, -⟩ := Delimiters.splitGroup_braces_eq_some_iff.1 hgroup
  obtain ⟨-, -, -, -, -, -, -, hlt, hle, -⟩ := blockEnd?_eq_some hend
  have hblock : t.drop p = (sigil :: keyword.text ++ gap ++ '{' :: body ++ ['}']) ++ t.drop q := by
    rw [hdrop, hinner]
    simp
  have hlength : q - p = (sigil :: keyword.text ++ gap ++ '{' :: body ++ ['}']).length := by
    have hcount := congrArg List.length hblock
    rw [List.length_append, List.length_drop, List.length_drop] at hcount
    omega
  rw [hblock, hlength, List.take_left]
  exact ⟨gap, hgap, rfl⟩

/-- The lines of a block that owns them are the block and blanks around it. -/
theorem unlines_ownedLines (h : regionAt? t p = some r) :
    ∃ above gap below, Text.isBlankText above = true ∧ Text.isBlankText gap = true ∧
      Text.isBlankText below = true ∧
      Text.unlines (r.ownedLines (Text.lines t)) =
        above ++ sigil :: r.keyword.text ++ gap ++ '{' :: r.body ++ '}' :: below := by
  obtain ⟨q, inner, hend, howns, hopening, hgroup, hr⟩ := regionAt?_eq_some h
  obtain ⟨gap, hgap, hblock⟩ := take_drop_of_blockEnd? hend hopening hgroup
  obtain ⟨-, -, -, -, -, -, -, hlt, -⟩ := blockEnd?_eq_some hend
  rw [ownsLines, Bool.and_eq_true] at howns
  have htake : t.take p ++ (t.drop p).take (q - p) = t.take q := by
    rw [← List.take_add, Nat.add_sub_cancel' hlt.le]
  have hlines := unlines_lineSlice_append (t.take p) ((t.drop p).take (q - p)) (t.drop q)
  rw [htake, List.take_append_drop, ← line_cursorAt, ← line_cursorAt, hblock] at hlines
  refine ⟨lastLine (t.take p), gap, lineRest (t.drop q), howns.1, hgap, howns.2, ?_⟩
  rw [hr, Region.ownedLines, hlines]
  simp

/-- A brace behind the text between the braces of a block closes it. -/
theorem closingIndex?_of_regionAt? (h : regionAt? t p = some r) :
    closingIndex? .braces (r.body ++ ['}']) 0 = some r.body.length := by
  obtain ⟨q, inner, -, -, -, hgroup, -⟩ := regionAt?_eq_some h
  obtain ⟨-, hwalk⟩ := Delimiters.splitGroup_braces_eq_some_iff.1 hgroup
  have hclosed : splitGroup .braces (r.body ++ ['}']) = some (r.body, []) :=
    Delimiters.splitGroup_braces_eq_some_iff.2 ⟨rfl, hwalk⟩
  rw [closingIndex?, List.drop_zero, hclosed]
  simp

end Blocks

section Regions

theorem InOrder.pairwise {total start : Nat} {regions : List Region}
    (h : InOrder total start regions) :
    (regions.Pairwise fun r r' => r.endLine < r'.startLine) ∧
      ∀ r ∈ regions, start ≤ r.startLine ∧ r.startLine ≤ r.endLine ∧ r.endLine < total := by
  induction regions generalizing start with
  | nil => simp
  | cons first regions ih =>
      obtain ⟨hstart, hle, hlt, hrest⟩ := h
      obtain ⟨hpairwise, hall⟩ := ih hrest
      refine ⟨List.pairwise_cons.2 ⟨fun r hr => (hall r hr).1, hpairwise⟩, ?_⟩
      refine List.forall_mem_cons.2 ⟨⟨hstart, hle, hlt⟩, fun r hr => ?_⟩
      obtain ⟨hbehind, hr⟩ := hall r hr
      exact ⟨by omega, hr⟩

theorem findRegions_eq_regionsAt (t : Text) : findRegions t = regionsAt t 0 :=
  rfl

/-- The member blocks that are found are in the order of their lines and share none.  The lines of
each are the block with its balanced braces, and blanks around it.  Every block that the search
comes to and that owns its lines is found. -/
theorem findRegions_exact (t : Text) :
    ((findRegions t).Pairwise fun r r' => r.endLine < r'.startLine) ∧
      (∀ r ∈ findRegions t, r.startLine ≤ r.endLine ∧ r.endLine < (Text.lines t).length ∧
        (∃ above gap below, Text.isBlankText above = true ∧ Text.isBlankText gap = true ∧
          Text.isBlankText below = true ∧
          Text.unlines (r.ownedLines (Text.lines t)) =
            above ++ sigil :: r.keyword.text ++ gap ++ '{' :: r.body ++ '}' :: below) ∧
        closingIndex? .braces (r.body ++ ['}']) 0 = some r.body.length) ∧
      ∀ p q, Reached t p → blockEnd? t p = some q → ownsLines t p q = true →
        ∃ r ∈ findRegions t, r.span t = (p, q) := by
  obtain ⟨hpairwise, hrange⟩ := (inOrder_findRegions t).pairwise
  refine ⟨hpairwise, fun r hr => ?_, fun p q hreached hend howns => ?_⟩
  · obtain ⟨-, hle, hlt⟩ := hrange r hr
    rw [findRegions_eq_regionsAt] at hr
    obtain ⟨p, -, hregion⟩ := mem_regionsAt_iff.1 hr
    exact ⟨hle, hlt, unlines_ownedLines hregion, closingIndex?_of_regionAt? hregion⟩
  · exact List.mem_map.1 (mem_spansFrom_iff.2 ⟨hreached, hend, howns⟩)

/-- A block behind markup on its line is passed over.  The one on the lines below it is found, and
the brace in its quotes does not close it. -/
theorem findRegions_exact_quoted :
    let t : Text := "<p>@code \x7b a \x7d</p>\n@functions\n\x7b '\x7d' \x7d\n".toList
    let r : Region := ⟨.functionMembers, 1, 2, " '\x7d' ".toList⟩
    r ∈ findRegions t ∧
      (∃ above gap below, Text.isBlankText above = true ∧ Text.isBlankText gap = true ∧
        Text.isBlankText below = true ∧
        Text.unlines (r.ownedLines (Text.lines t)) =
          above ++ sigil :: r.keyword.text ++ gap ++ '{' :: r.body ++ '}' :: below) ∧
      Text.unlines (r.ownedLines (Text.lines t)) = "@functions\n\x7b '\x7d' \x7d".toList := by
  intro t r
  have hfound : r ∈ findRegions t := by
    decide +kernel
  exact ⟨hfound, ((findRegions_exact t).2.1 r hfound).2.2.1, by decide +kernel⟩

end Regions

end RazorLayout

import RazorLayout.Proofs.Document.LineEndings
import RazorLayout.Proofs.Document.Regions
import RazorLayout.Proofs.Layout.BlankLines

/-!
# The line feed at the end of a document

The line feed at the end of a document is set aside before the layout and put back behind it.  So a
document keeps it, or keeps being without it, provided that the lines in between never end with an
empty one.  They come from markup that is kept or laid out, from member blocks that are kept or laid
out, and from blank lines put in between.

* `Text.EndsInLine` says of a text that its last character is no line feed;
* `LastEndsInLine` says so of the last of several lines.

Results.  `Context.lastEndsInLine_itemLines`: the lines of an item that is written end that way.
`Context.placeAll_endsInLine`: so does a page on which something is written.
`documentLines_endsInLine`: so do the lines of a document, as those of its source do.
`formatDocument_lineEndings`: hence the line feed at the end stays as it is, and a carriage return
in front of every line feed makes no other difference.
-/

namespace RazorLayout

/-- A text whose last character is no line feed. -/
def Text.EndsInLine (t : Text) : Prop :=
  ∃ c ∈ t.getLast?, c ≠ '\n'

/-- Lines of which the last one ends with a character other than a line feed. -/
def LastEndsInLine (ls : List Text) : Prop :=
  ∃ line ∈ ls.getLast?, line.EndsInLine

namespace Text

section Ends

variable {s t : Text}

theorem EndsInLine.append_left (h : EndsInLine t) (s : Text) : EndsInLine (s ++ t) := by
  obtain ⟨c, hlast, hc⟩ := h
  refine ⟨c, ?_, hc⟩
  rw [List.getLast?_append, hlast]
  rfl

theorem endsInLine_singleton {c : Char} (hc : c ≠ '\n') : EndsInLine [c] :=
  ⟨c, rfl, hc⟩

theorem EndsInLine.ne_nil (h : EndsInLine t) : t ≠ [] := by
  rintro rfl
  obtain ⟨c, hlast, -⟩ := h
  cases hlast

theorem endsInLine_iff : EndsInLine t ↔ t ≠ [] ∧ t.getLast? ≠ some '\n' := by
  constructor
  · intro h
    refine ⟨h.ne_nil, ?_⟩
    obtain ⟨c, hlast, hc⟩ := h
    rw [hlast]
    simpa using hc
  · rintro ⟨hne, hlast⟩
    obtain ⟨c, hc⟩ := Option.isSome_iff_exists.1 (List.getLast?_isSome.2 hne)
    exact ⟨c, hc, by simpa [hc] using hlast⟩

theorem endsInLine_of_isLine (ht : IsLine t) (hne : t ≠ []) : EndsInLine t := by
  refine endsInLine_iff.2 ⟨hne, ?_⟩
  intro hlast
  exact ht (List.mem_of_mem_getLast? hlast)

/-- A text that is not blank ends in a line once the blanks at its end are gone. -/
theorem endsInLine_strip (h : isBlankText t = false) : EndsInLine (strip t) := by
  obtain ⟨-, c, hlast, hc⟩ := strip_eq_cons h
  refine ⟨c, hlast, ?_⟩
  rintro rfl
  cases hc

end Ends

end Text

section Lines

variable {t : Text} {ls ms : List Text}

theorem lastEndsInLine_concat {line : Text} (h : line.EndsInLine) (ls : List Text) :
    LastEndsInLine (ls ++ [line]) :=
  ⟨line, by simp, h⟩

theorem LastEndsInLine.append_left (h : LastEndsInLine ms) (ls : List Text) :
    LastEndsInLine (ls ++ ms) := by
  obtain ⟨line, hlast, hline⟩ := h
  refine ⟨line, ?_, hline⟩
  rw [List.getLast?_append, hlast]
  rfl

theorem LastEndsInLine.exists_concat (h : LastEndsInLine ls) :
    ∃ front line, ls = front ++ [line] ∧ line.EndsInLine := by
  obtain ⟨line, hlast, hline⟩ := h
  obtain ⟨front, rfl⟩ := List.getLast?_eq_some_iff.1 hlast
  exact ⟨front, line, rfl, hline⟩

theorem lastEndsInLine_of_isFramed (h : IsFramed ls) (hlines : ∀ line ∈ ls, Text.IsLine line) :
    LastEndsInLine ls := by
  obtain ⟨line, hlast⟩ := Option.isSome_iff_exists.1 (List.getLast?_isSome.2 h.ne_nil)
  exact ⟨line, hlast,
    Text.endsInLine_of_isLine (hlines line (List.mem_of_mem_getLast? hlast)) (h.last line hlast)⟩

theorem lastEndsInLine_lines (h : t.EndsInLine) : LastEndsInLine (Text.lines t) := by
  obtain ⟨c, hlast, hc⟩ := h
  obtain ⟨init, rfl⟩ := List.getLast?_eq_some_iff.1 hlast
  obtain ⟨front, last, first, rest, -, hsingle, happend⟩ := Text.exists_lines_append init [c]
  rw [Text.lines_of_isLine (by simpa [Text.IsLine] using hc.symm)] at hsingle
  obtain ⟨rfl, rfl⟩ := List.cons.inj hsingle
  rw [happend]
  exact lastEndsInLine_concat ((Text.endsInLine_singleton hc).append_left last) front

theorem LastEndsInLine.unlines (h : LastEndsInLine ls) : (Text.unlines ls).EndsInLine := by
  obtain ⟨front, line, rfl, hline⟩ := h.exists_concat
  by_cases hfront : front = []
  · rw [hfront]
    exact hline
  · rw [Text.unlines_append hfront (List.cons_ne_nil line []), ← List.singleton_append,
      ← List.append_assoc]
    exact hline.append_left _

end Lines

namespace Context

section Items

variable (ctx : Context) {indent : Text}

theorem endsInLine_closingTag (name : Text) : (closingTag name).EndsInLine :=
  (Text.endsInLine_singleton (by decide)).append_left _

theorem lastEndsInLine_preservedLines (tag : Tag) (content : Text) (j : Journal) :
    LastEndsInLine ((ctx.preservedLines indent tag content).run j).1 := by
  have hclosing := endsInLine_closingTag tag.name
  simp only [preservedLines]
  split
  · exact lastEndsInLine_concat (hclosing.append_left indent) _
  · exact lastEndsInLine_concat (hclosing.append_left _) []

theorem lastEndsInLine_inlineLines (tag : Tag) (content : Text) :
    LastEndsInLine (ctx.inlineLines indent tag content) := by
  have hclosing := (endsInLine_closingTag tag.name).append_left content
  simp only [inlineLines]
  split
  · have hne := Text.lines_ne_nil (tag.print ctx.config indent.length .opening)
    rw [← List.dropLast_concat_getLast hne, appendLast_concat, List.map_append, solid_append]
    have hlast := (hclosing.append_left ((Text.lines
      (tag.print ctx.config indent.length .opening)).getLast hne)).append_left indent
    rw [List.map_singleton, solid_cons_of_ne_nil hlast.ne_nil, solid_nil]
    exact lastEndsInLine_concat hlast _
  · exact lastEndsInLine_concat (hclosing.append_left _) []

theorem lastEndsInLine_trimmed {raw : Text} (hraw : Text.isBlankText raw = false) :
    LastEndsInLine [indent ++ Text.strip raw] :=
  lastEndsInLine_concat ((Text.endsInLine_strip hraw).append_left indent) []

theorem lastEndsInLine_trimmedLine {raw : Text} (hraw : Text.isBlankText raw = false) :
    LastEndsInLine (trimmedLine indent raw) := by
  have hlast := (Text.endsInLine_strip hraw).append_left indent
  rw [trimmedLine, solid_cons_of_ne_nil hlast.ne_nil]
  exact lastEndsInLine_trimmed hraw

theorem lastEndsInLine_partsLines {tail : Text} (htail : Text.EndsInLine ('}' :: tail))
    {parts : List Part} (hne : parts ≠ []) : LastEndsInLine (partsLines indent tail parts) := by
  fun_induction partsLines indent tail parts with
  | case1 => exact absurd rfl hne
  | case2 part => exact lastEndsInLine_concat (htail.append_left indent) _
  | case3 part next parts ih => exact (ih (List.cons_ne_nil _ _)).append_left _

theorem endsInLine_loopTail (loopTest : Option Text) :
    Text.EndsInLine ('}' :: loopTail loopTest) := by
  cases loopTest with
  | none => exact Text.endsInLine_singleton (by decide)
  | some condition =>
      have hend : Text.EndsInLine [';'] := Text.endsInLine_singleton (by decide)
      exact hend.append_left ('}' :: ' ' :: Flow.loopTestText condition)

/-- A block ends with a brace or with the test of a loop, or it is kept. -/
theorem lastEndsInLine_blockLines {raw : Text} (hraw : Text.isBlankText raw = false)
    (j : Journal) : LastEndsInLine ((ctx.blockLines indent raw).run j).1 := by
  have hbrace : (indent ++ ['}']).EndsInLine :=
    (Text.endsInLine_singleton (by decide)).append_left indent
  unfold blockLines
  split
  · exact lastEndsInLine_trimmed hraw
  · rename_i format _
    split
    · rename_i body _ _
      rcases hasked : (ctx.collaborators.askCode none body).run j with ⟨answer, asked⟩
      simp only [codeLines, StateT.run_bind, hasked]
      cases answer <;> exact lastEndsInLine_concat hbrace _
    · rename_i f _ _
      obtain ⟨config, c, nested⟩ := ctx
      cases hsections : sections? f with
      | none =>
          rw [flowLines_run_of_plain format config c nested hsections indent j]
          exact lastEndsInLine_partsLines (endsInLine_loopTail _) (List.cons_ne_nil _ _)
      | some cases =>
          rw [flowLines_run_of_sections format config c nested hsections indent j]
          exact lastEndsInLine_concat hbrace _
    · exact lastEndsInLine_trimmed hraw

/-- The lines of an item that is written: the last one ends with a character other than a line
feed. -/
theorem lastEndsInLine_itemLines (hindent : Text.IsLine indent) {item : Item} (h : item.IsSolid)
    (j : Journal) : LastEndsInLine ((ctx.itemLines indent item).run j).1 := by
  have htag : ∀ {tag : Tag}, tag.name ≠ [] → ∀ ending,
      LastEndsInLine (ctx.tagLines indent tag ending) := by
    intro tag hname ending
    refine lastEndsInLine_of_isFramed (ctx.isFramed_tagLines indent hname ending) ?_
    intro line hline
    obtain ⟨printed, hprinted, rfl⟩ := List.mem_map.1 (List.mem_filter.1 hline).1
    exact isLine_append.2 ⟨hindent, Text.isLine_of_mem_lines hprinted⟩
  cases item with
  | preserved tag content => exact ctx.lastEndsInLine_preservedLines tag content j
  | inline tag content => exact ctx.lastEndsInLine_inlineLines tag content
  | openTag tag => exact htag h .opening
  | selfClosingTag tag => exact htag h .selfClosing
  | closeTag name =>
      exact lastEndsInLine_concat ((endsInLine_closingTag name).append_left indent) []
  | text raw =>
      have hraw : Text.isBlankText raw = false := h
      simp only [itemLines, hraw]
      refine lastEndsInLine_of_isFramed (isFramed_textLines indent hraw) ?_
      intro line hline
      obtain ⟨source, hsource, rfl⟩ := List.mem_map.1 hline
      split
      · exact isLine_nil
      · exact isLine_append.2 ⟨hindent, fun hmem =>
          Text.isLine_of_mem_lines hsource (Text.mem_of_mem_strip hmem)⟩
  | comment raw => exact lastEndsInLine_trimmedLine h
  | doctype raw => exact lastEndsInLine_trimmedLine h
  | directive raw => exact lastEndsInLine_trimmedLine h
  | block raw => exact ctx.lastEndsInLine_blockLines h j

end Items

section Pages

variable (ctx : Context)

theorem lastEndsInLine_writeAll (s : Sheet) {ls : List Text} (h : LastEndsInLine ls) :
    LastEndsInLine (s.writeAll ls).toLines := by
  obtain ⟨front, line, rfl, hline⟩ := h.exists_concat
  have hwrite : s.writeAll (front ++ [line]) = (s.writeAll front).write line :=
    List.foldl_concat _ _ _ _
  have hempty : line.isEmpty = false := by
    simpa using hline.ne_nil
  rw [hwrite, Sheet.write, hempty]
  simpa [Sheet.toLines] using lastEndsInLine_concat hline _

/-- Placing an item that is written makes its last line the last line of the page. -/
theorem place_endsInLine (page : Page) {item : Item} (hunit : item.isUnit = true)
    (hsolid : item.IsSolid) (j : Journal) :
    LastEndsInLine ((ctx.place page item).run j).1.sheet.toLines := by
  let lines := (ctx.itemLines (ctx.config.indentation (item.levelAt page.level)) item).run j
  have hindent : Text.IsLine (ctx.config.indentation (item.levelAt page.level)) := by
    simp [Text.IsLine, Config.indentation, Text.spaces]
  have hplaced : ((ctx.place page item).run j).1 =
      ((page.ready item).write lines.1).behind item := by
    rw [ctx.place_eq page hunit]
    rfl
  rw [hplaced, Page.sheet_behind]
  exact lastEndsInLine_writeAll _ (ctx.lastEndsInLine_itemLines hindent hsolid j)

/-- So does a run: once something is written, the last line of the page is never empty. -/
theorem placeAll_endsInLine {items : List Item}
    (hitems : ∀ item ∈ items, item.isUnit = true → item.IsSolid) (page : Page) (j : Journal)
    (h : LastEndsInLine page.sheet.toLines ∨ ∃ item ∈ items, item.isUnit = true) :
    LastEndsInLine ((ctx.placeAll page items).run j).1.sheet.toLines := by
  induction items generalizing page j with
  | nil =>
      rcases h with hpage | ⟨item, hmem, -⟩
      · exact hpage
      · cases hmem
  | cons item items ih =>
      obtain ⟨hitem, hitems⟩ := List.forall_mem_cons.1 hitems
      rw [placeAll_cons_run]
      refine ih hitems _ _ ?_
      cases hunit : item.isUnit with
      | true => exact .inl (ctx.place_endsInLine page hunit (hitem hunit) j)
      | false =>
          rw [(ctx.place_of_not_isUnit page hunit).1]
          rcases h with hpage | ⟨other, hmem, hother⟩
          · exact .inl hpage
          · rcases List.mem_cons.1 hmem with rfl | hmem
            · rw [hunit] at hother
              cases hother
            · exact .inr ⟨other, hmem, hother⟩

end Pages

end Context

section Markup

/-- Pieces of which something is not blank form an item that is written. -/
theorem exists_isUnit_ofTokens {ts : List Token} (h : Text.isBlankText (joinRaw ts) = false) :
    ∃ item ∈ Item.ofTokens ts, item.isUnit = true := by
  fun_induction Item.ofTokens ts with
  | case1 => cases h
  | case2 t ts tag hkind ih =>
      refine ⟨_, List.mem_cons_self, ?_⟩
      unfold Item.ofOpenTag
      split
      · rfl
      · split <;> rfl
  | case3 t ts hkind ih =>
      cases hunit : (Item.ofToken t).isUnit with
      | true => exact ⟨_, List.mem_cons_self, hunit⟩
      | false =>
          have hblank : Text.isBlankText t.raw = true := by
            cases hkind : t.kind with
            | text => simpa [Item.ofToken, hkind, Item.isUnit] using hunit
            | block =>
                simp only [Item.ofToken, hkind] at hunit
                split at hunit <;> cases hunit
            | _ => simp [Item.ofToken, hkind, Item.isUnit] at hunit
          rw [joinRaw_cons, Text.isBlankText_append, hblank, Bool.true_and] at h
          obtain ⟨item, hmem, hitem⟩ := ih h
          exact ⟨item, List.mem_cons_of_mem _ hmem, hitem⟩

variable (config : Config) (c : Collaborators)

theorem endsInLine_formatMarkup (depth : Nat) {t : Text} (ht : Text.isBlankText t = false)
    (j : Journal) : ((formatMarkup config c depth t).run j).1.EndsInLine := by
  refine LastEndsInLine.unlines ?_
  refine Context.placeAll_endsInLine _ (Item.isSolid_ofTokens t) {} j (.inr ?_)
  exact exists_isUnit_ofTokens (by rwa [joinRaw_tokenize])

/-- A piece of markup below the last member block ends as its source does. -/
theorem lastEndsInLine_markupLines (afterCode : Bool) {chunk : List Text}
    (h : LastEndsInLine chunk) (j : Journal) :
    LastEndsInLine ((markupLines config c afterCode false chunk).run j).1 := by
  cases chunk with
  | nil => exact h
  | cons first rest =>
      rw [markupLines]
      simp only []
      split
      · rename_i hformat
        have hsolid : Text.isBlankText (Text.unlines (first :: rest)) = false := by
          simpa using (Bool.and_eq_true_iff.1 hformat).2
        have hlines := lastEndsInLine_lines (endsInLine_formatMarkup config c 0 hsolid j)
        show LastEndsInLine (_ ++ _ ++ [])
        rw [List.append_nil]
        exact hlines.append_left _
      · exact h

/-- A member block ends with its brace, or as its source does. -/
theorem lastEndsInLine_memberLines (written : List Text) (region : Region) {owned : List Text}
    (h : LastEndsInLine owned) (j : Journal) :
    LastEndsInLine ((memberLines config c written region owned).run j).1 := by
  rcases hasked : (c.askCode (some (Int.ofNat (region.startLine + 1))) region.body).run j with
    ⟨answer, asked⟩
  simp only [memberLines, StateT.run_bind, hasked]
  cases answer with
  | none => exact h
  | some output =>
      refine LastEndsInLine.append_left (lastEndsInLine_lines ?_) _
      exact (lastEndsInLine_concat (Text.endsInLine_singleton (by decide)) _).unlines

/-- Lines of a source that reach its end. -/
theorem lastEndsInLine_drop {source : List Text} (h : LastEndsInLine source) {start : Nat}
    (hne : source.drop start ≠ []) : LastEndsInLine (source.drop start) := by
  obtain ⟨line, hlast, hline⟩ := h
  refine ⟨line, ?_, hline⟩
  rw [List.getLast?_drop, if_neg (by simpa using hne)]
  exact hlast

/-- The lines of a document end as its source does: what reaches the end of the source is the last
piece of markup or, where there is none, the last member block. -/
theorem documentLines_endsInLine {source : List Text} (hsource : LastEndsInLine source)
    {start : Nat} {regions : List Region} (horder : InOrder source.length start regions)
    {written : List Text} (hwritten : source.drop start = [] → LastEndsInLine written)
    (j : Journal) :
    LastEndsInLine ((documentLines config c source start written regions).run j).1 := by
  induction regions generalizing start written j with
  | nil =>
      by_cases hdrop : source.drop start = []
      · have hmarkup : ((documentLines config c source start written []).run j).1 =
            written ++ ((markupLines config c (decide (0 < start)) false
              (source.drop start)).run j).1 := rfl
        rw [hmarkup, hdrop]
        exact (List.append_nil written).symm ▸ hwritten hdrop
      · exact LastEndsInLine.append_left
          (lastEndsInLine_markupLines config c _ (lastEndsInLine_drop hsource hdrop) j) written
  | cons region regions ih =>
      obtain ⟨-, hle, hlt, hrest⟩ := horder
      refine ih hrest (fun hdrop => ?_) _
      have hlength : source.length ≤ region.endLine + 1 := List.drop_eq_nil_iff.1 hdrop
      have howned : (source.drop region.startLine).take (region.endLine + 1 - region.startLine) =
          source.drop region.startLine := by
        refine List.take_of_length_le ?_
        rw [List.length_drop]
        omega
      refine LastEndsInLine.append_left (lastEndsInLine_memberLines config c _ region ?_ _) _
      rw [howned]
      exact lastEndsInLine_drop hsource (by rw [ne_eq, List.drop_eq_nil_iff]; omega)

end Markup

section Documents

variable (config : Config) (c : Collaborators)

/-- Without a line feed at the end there is none behind the layout either. -/
theorem getLast?_formatBody {t : Text} (h : t.getLast? ≠ some '\n') (j : Journal) :
    ((formatBody config c t).run j).1.getLast? ≠ some '\n' := by
  by_cases hnil : t = []
  · have hempty : ((formatBody config c []).run j).1 = [] := by
      have hchunk : markupLines config c false false [[]] = pure [[]] := by
        simp [markupLines, Text.unlines, Text.isBlankText]
      have hregions : findRegions [] = [] := by
        simp [findRegions, regionsFrom]
      unfold formatBody
      rw [hregions]
      show Text.unlines ([] ++ ((markupLines config c false false [[]]).run _).1) = []
      rw [hchunk]
      rfl
    rw [hnil, hempty]
    simp
  · have hlines := lastEndsInLine_lines (Text.endsInLine_iff.2 ⟨hnil, h⟩)
    refine (Text.endsInLine_iff.1 (LastEndsInLine.unlines ?_)).2
    exact documentLines_endsInLine config c hlines (inOrder_findRegions t)
      (fun hdrop => absurd hdrop (by simp [Text.lines_ne_nil])) _

theorem getLast?_formatUnix (t : Text) (j : Journal) :
    ((formatUnix config c t).run j).1.getLast? = some '\n' ↔ t.getLast? = some '\n' := by
  unfold formatUnix
  split
  · rename_i hlast
    exact iff_of_true List.getLast?_concat hlast
  · rename_i hlast
    exact iff_of_false (getLast?_formatBody config c hlast j) hlast

theorem getLast?_dropCr (t : Text) : (dropCr t).getLast? = t.getLast? := by
  fun_induction dropCr t with
  | case1 cs ih => simp [List.getLast?_cons, ih]
  | case2 c cs hne ih => rw [List.getLast?_cons, List.getLast?_cons, ih]
  | case3 => rfl

theorem getLast?_addCr (t : Text) : (addCr t).getLast? = t.getLast? := by
  rw [← getLast?_dropCr (addCr t), dropCr_addCr]

theorem hasCrLf_of_not_mem {t : Text} (h : '\r' ∉ t) : hasCrLf t = false := by
  fun_induction hasCrLf t with
  | case1 cs => simp at h
  | case2 c cs hne ih => exact ih fun hmem => h (List.mem_cons_of_mem c hmem)
  | case3 => rfl

/-- The layout keeps the line endings of a document.  It ends with a line feed exactly when the
document does; and where a document has line feeds only, putting a carriage return in front of each
of them puts one in front of each line feed of the layout and changes nothing else. -/
theorem formatDocument_lineEndings (t : Text) (j : Journal) :
    let result := (formatDocument config c t).run j
    (result.1.getLast? = some '\n' ↔ t.getLast? = some '\n') ∧
      ('\n' ∈ t → '\r' ∉ t →
        (formatDocument config c (addCr t)).run j = (addCr result.1, result.2)) := by
  intro result
  constructor
  · simp only [result, formatDocument]
    split
    · have hrun : ((formatUnix config c (dropCr t) >>= fun output => pure (addCr output)).run j).1 =
          addCr ((formatUnix config c (dropCr t)).run j).1 := rfl
      rw [hrun, getLast?_addCr, getLast?_formatUnix, getLast?_dropCr]
    · exact getLast?_formatUnix config c t j
  · intro hlf hcr
    have hpairs : hasCrLf (addCr t) = true := hasCrLf_addCr fun hline => hline hlf
    have hnone : hasCrLf t = false := hasCrLf_of_not_mem hcr
    simp only [result, formatDocument, hpairs, hnone, if_true, dropCr_addCr]
    rfl

/-- A document that ends with a member block, and a collaborator whose answer ends with empty
lines. -/
theorem formatDocument_lineEndings_members :
    let c : Collaborators := { code := some fun _ _ => .ok ⟨some "y;\n\n".toList, none⟩ }
    let t : Text := "<p>a</p>\n\n@code \x7b\n  x;\n\n\x7d".toList
    let result := (formatDocument .standard c t).run {}
    result.1.getLast? ≠ some '\n' ∧
      (formatDocument .standard c (addCr t)).run {} = (addCr result.1, result.2) := by
  intro c t result
  obtain ⟨hlast, hpairs⟩ := formatDocument_lineEndings .standard c t {}
  exact ⟨mt hlast.1 (by decide), hpairs (by decide) (by decide)⟩

end Documents

end RazorLayout

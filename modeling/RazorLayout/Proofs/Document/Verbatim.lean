import RazorLayout.Proofs.Document.Downgrade
import RazorLayout.Proofs.Document.LineEndings

/-!
# Member blocks survive as they are

With a code collaborator that is missing or always fails, the lines of a document's layout are the
layouts of the chunks between its member blocks, and the lines of the member blocks unchanged
between them.  The layout of a chunk depends on the chunk, on the configuration, and on which of its
sides touch a member block.  The warnings that name a line are one for each member block.

Where markup is not laid out at all, the chunks survive too, and so does the document as long as its
line endings are of one kind.

Results.  `lines_keptText`: the lines of the layout are those of the chunks and the member blocks.
`filterMap_place?_enterAll`: which warnings name a line.
`formatDocument_keeps_members`: both together, for whole documents.
-/

namespace RazorLayout

section Lines

theorem mem_weave {line : Text} {ms ls : List (List Text)} (h : line ∈ weave ms ls) :
    (∃ m ∈ ms, line ∈ m) ∨ ∃ l ∈ ls, line ∈ l := by
  fun_induction weave ms ls with
  | case1 chunk chunks lines rest ih =>
      rcases List.mem_append.1 h with h | h
      · rcases List.mem_append.1 h with h | h
        · exact Or.inl ⟨chunk, List.mem_cons_self, h⟩
        · exact Or.inr ⟨lines, List.mem_cons_self, h⟩
      · rcases ih h with ⟨m, hm, hline⟩ | ⟨l, hl, hline⟩
        · exact Or.inl ⟨m, List.mem_cons_of_mem chunk hm, hline⟩
        · exact Or.inr ⟨l, List.mem_cons_of_mem lines hl, hline⟩
  | case2 chunks others hne =>
      obtain ⟨m, hm, hline⟩ := List.mem_flatten.1 h
      exact Or.inl ⟨m, hm, hline⟩

/-- Nothing comes out only where nothing went in. -/
theorem weave_eq_nil_of_mapIdx {f : Nat → List Text → List Text} {ms ls : List (List Text)}
    (hf : ∀ i chunk, f i chunk = [] → chunk = []) (h : weave (ms.mapIdx f) ls = []) :
    weave ms ls = [] := by
  induction ms generalizing f ls with
  | nil => rfl
  | cons m ms ih =>
      rw [List.mapIdx_cons] at h
      cases ls with
      | nil =>
          rw [weave_nil, List.flatten_cons, List.append_eq_nil_iff, ← weave_nil] at h
          rw [weave_nil, List.flatten_cons, List.append_eq_nil_iff, ← weave_nil]
          exact ⟨hf 0 m h.1, ih (fun i => hf (i + 1)) h.2⟩
      | cons l ls =>
          simp only [weave, List.append_eq_nil_iff] at h ⊢
          exact ⟨⟨hf 0 m h.1.1, h.1.2⟩, ih (fun i => hf (i + 1)) h.2⟩

/-- The layout of a chunk is the chunk itself, or the lines of a text with at most one empty line on
each side. -/
theorem keptMarkup_cases (config : Config) (afterCode beforeCode : Bool) (chunk : List Text) :
    keptMarkup config afterCode beforeCode chunk = chunk ∨
      chunk ≠ [] ∧ config.formatHtml = true ∧ ∃ above laidOut below,
        keptMarkup config afterCode beforeCode chunk = above ++ Text.lines laidOut ++ below ∧
          ∀ line ∈ above ++ below, line = [] := by
  cases chunk with
  | nil => exact Or.inl rfl
  | cons first rest =>
      by_cases hformat : (config.formatHtml &&
          !Text.isBlankText (Text.unlines (first :: rest))) = true
      · refine Or.inr ⟨by simp, by simp_all, ?_⟩
        simp only [keptMarkup, markupLines, if_pos hformat]
        refine ⟨_, _, _, rfl, ?_⟩
        intro line hline
        rcases List.mem_append.1 hline with hline | hline
        all_goals
          split at hline
          · exact List.mem_singleton.1 hline
          · cases hline
      · refine Or.inl ?_
        simp only [keptMarkup, markupLines, if_neg hformat]
        rfl

theorem eq_nil_of_keptMarkup {config : Config} {afterCode beforeCode : Bool} {chunk : List Text}
    (h : keptMarkup config afterCode beforeCode chunk = []) : chunk = [] := by
  rcases keptMarkup_cases config afterCode beforeCode chunk with
    hkept | ⟨-, -, above, laidOut, below, hkept, -⟩
  · rwa [hkept] at h
  · rw [h] at hkept
    have hnil := (List.append_eq_nil_iff.1 (List.append_eq_nil_iff.1 hkept.symm).1).2
    exact absurd hnil (Text.lines_ne_nil laidOut)

theorem isLine_of_mem_keptMarkup {config : Config} {afterCode beforeCode : Bool}
    {chunk : List Text} (hchunk : ∀ line ∈ chunk, Text.IsLine line) {line : Text}
    (h : line ∈ keptMarkup config afterCode beforeCode chunk) : Text.IsLine line := by
  rcases keptMarkup_cases config afterCode beforeCode chunk with
    hkept | ⟨-, -, above, laidOut, below, hkept, hsides⟩
  · exact hchunk line (by rwa [hkept] at h)
  · rw [hkept, List.mem_append, List.mem_append] at h
    rcases h with (h | h) | h
    · rw [hsides line (List.mem_append_left below h)]
      exact List.not_mem_nil
    · exact Text.isLine_of_mem_lines h
    · rw [hsides line (List.mem_append_right above h)]
      exact List.not_mem_nil

theorem mem_of_mem_lineSlice {source : List Text} {start stop : Nat} {line : Text}
    (h : line ∈ lineSlice source start stop) : line ∈ source :=
  List.mem_of_mem_drop (List.mem_of_mem_take h)

theorem mem_of_mem_chunks {source chunk : List Text} {start : Nat} {regions : List Region}
    (h : chunk ∈ chunks source start regions) : ∀ line ∈ chunk, line ∈ source := by
  induction regions generalizing start with
  | nil =>
      rw [List.mem_singleton.1 h]
      exact fun line hline => List.mem_of_mem_drop hline
  | cons region regions ih =>
      rcases List.mem_cons.1 h with rfl | h
      · exact fun line hline => mem_of_mem_lineSlice hline
      · exact ih h

/-- The lines of the layout are those of the chunks and those of the member blocks. -/
theorem lines_keptText (config : Config) {t : Text} {regions : List Region}
    (horder : InOrder (Text.lines t).length 0 regions) :
    Text.lines (Text.unlines (keptLines config (Text.lines t) 0 regions)) =
      keptLines config (Text.lines t) 0 regions := by
  apply Text.lines_unlines
  · intro hnil
    have hsource := weave_eq_nil_of_mapIdx (fun i chunk => eq_nil_of_keptMarkup) hnil
    rw [weave_chunks horder] at hsource
    exact Text.lines_ne_nil t hsource
  · intro line hline
    rcases mem_weave hline with ⟨kept, hkept, hline⟩ | ⟨owned, howned, hline⟩
    · obtain ⟨i, hi, rfl⟩ := List.mem_mapIdx.1 hkept
      refine isLine_of_mem_keptMarkup ?_ hline
      intro other hother
      exact Text.isLine_of_mem_lines (mem_of_mem_chunks (List.getElem_mem hi) other hother)
    · obtain ⟨region, -, rfl⟩ := List.mem_map.1 howned
      exact Text.isLine_of_mem_lines (mem_of_mem_lineSlice hline)

/-- Where markup is not laid out, the lines stay. -/
theorem keptLines_of_formatHtml_eq_false {config : Config} (hhtml : config.formatHtml = false)
    {source : List Text} {total start : Nat} {regions : List Region}
    (horder : InOrder total start regions) :
    keptLines config source start regions = source.drop start := by
  have hchunk : ∀ (count i : Nat) (chunk : List Text),
      keptChunk config start count i chunk = chunk := by
    intro count i chunk
    rcases keptMarkup_cases config (decide (0 < start ∨ 0 < i)) (decide (i < count)) chunk with
      hkept | ⟨-, hformat, -⟩
    · exact hkept
    · rw [hhtml] at hformat
      cases hformat
  have hchunks : (chunks source start regions).mapIdx (keptChunk config start regions.length) =
      chunks source start regions := by
    apply List.ext_getElem
    · simp
    · intro i hi hi'
      simp [hchunk]
  rw [keptLines, hchunks, weave_chunks horder]

end Lines

section Warnings

/-- The code of a warning and the line that it names. -/
def Warning.place? (w : Warning) : Option (Text × Int) :=
  w.line.map fun line => (w.code, line)

variable {c : Collaborators}

theorem filterMap_place?_warnings (earlier : Calls) (entry : Entry) :
    (entry.warnings c earlier).filterMap Warning.place? =
      if c.code.isSome then entry.line?.toList.map (Prod.mk Warning.codeFormatterError)
      else [] := by
  cases entry with
  | asks call =>
      cases call with
      | code line text =>
          cases hcode : c.code with
          | none => simp [Entry.warnings, complaint, hcode]
          | some code =>
              cases line <;>
                simp [Entry.warnings, complaint, hcode, Warning.place?, Warning.make, Entry.line?]
      | style text size =>
          simp only [Entry.warnings, complaint, Entry.line?]
          split <;> simp [Warning.place?, Warning.make]
  | tooDeep limit =>
      simp [Entry.warnings, Warning.place?, Warning.tooDeep, Warning.make, Entry.line?]
  | documentRead lines regions => simp [Entry.warnings, Entry.line?]

/-- The warnings that name a line come from the calls that name a line. -/
theorem filterMap_place?_enterAll (hc : c.Idle) (j : Journal) (entries : List Entry) :
    (j.enterAll c entries).warnings.filterMap Warning.place? =
      j.warnings.filterMap Warning.place? ++
        if c.code.isSome then
          (entries.filterMap Entry.line?).map (Prod.mk Warning.codeFormatterError)
        else [] := by
  induction entries generalizing j with
  | nil => simp [Journal.enterAll]
  | cons entry entries ih =>
      have hstep : j.enterAll c (entry :: entries) = (j.enter c entry).enterAll c entries := rfl
      rw [hstep, ih, warnings_enter hc, List.filterMap_append, filterMap_place?_warnings,
        List.append_assoc]
      cases hcode : c.code.isSome with
      | false => simp
      | true => cases hline : entry.line? <;> simp [hline]

end Warnings

section Documents

theorem inOrder_chomp (t : Text) : InOrder (Text.lines t.chomp).length 0 (findRegions t) := by
  have horder := inOrder_findRegions t.chomp
  rwa [findRegions_chomp] at horder

/-- Where markup is not laid out, a document with line feeds only stays as it is. -/
theorem keptText_of_formatHtml_eq_false {config : Config} (hhtml : config.formatHtml = false)
    (t : Text) :
    Text.unlines (keptLines config (Text.lines t.chomp) 0 (findRegions t)) ++ t.finalNewline =
      t := by
  rw [keptLines_of_formatHtml_eq_false hhtml (inOrder_chomp t), List.drop_zero, Text.unlines_lines,
    Text.chomp_append_finalNewline]

variable {c : Collaborators}

/-- The lines and the warnings of a document with line feeds only. -/
theorem formatDocument_of_unix (config : Config) (hidle : c.Idle) {t : Text}
    (hcr : hasCrLf t = false) :
    let result := (formatDocument config c t).run {}
    (∃ body, result.1 = body ++ t.finalNewline ∧
      Text.lines body = keptLines config (Text.lines t.chomp) 0 (findRegions t)) ∧
    result.2.warnings.filterMap Warning.place? =
      if c.code.isSome then (findRegions t).map fun region =>
        (Warning.codeFormatterError, Int.ofNat (region.startLine + 1)) else [] := by
  obtain ⟨entries, henters, hlines⟩ := enters_formatUnix config t
  have hrun : (formatDocument config c t).run {} =
      (Text.unlines (keptLines config (Text.lines t.chomp) 0 (findRegions t)) ++ t.finalNewline,
        Journal.enterAll c {} entries) := by
    rw [formatDocument, if_neg (by simp [hcr])]
    exact henters c hidle {}
  simp only [hrun]
  refine ⟨⟨_, rfl, lines_keptText config (inOrder_chomp t)⟩, ?_⟩
  rw [filterMap_place?_enterAll hidle, hlines, List.map_map]
  rfl

/-- Where markup is not laid out, a document with line endings of one kind stays as it is. -/
theorem formatDocument_of_formatHtml_eq_false {config : Config} (hidle : c.Idle)
    (hhtml : config.formatHtml = false) {t : Text} (hendings : HasUniformEndings t) :
    ((formatDocument config c t).run {}).1 = t := by
  by_cases hcr : hasCrLf t = true
  · obtain ⟨entries, henters, -⟩ := enters_formatUnix config (dropCr t)
    have hrun : ((formatDocument config c t).run {}).1 =
        addCr ((formatUnix config c (dropCr t)).run {}).1 := by
      rw [formatDocument, if_pos hcr]
      rfl
    rw [hrun, henters c hidle {}, keptText_of_formatHtml_eq_false hhtml]
    exact addCr_dropCr (hendings.resolve_left (by simp [hcr]))
  · obtain ⟨entries, henters, -⟩ := enters_formatUnix config t
    rw [formatDocument, if_neg hcr, henters c hidle {}, keptText_of_formatHtml_eq_false hhtml]

/-- Member blocks survive as they are unless the code collaborator succeeds.  The lines of a
document are chunks and member blocks by turns.  In the lines of its layout every chunk is replaced
by what its lines, the configuration and the sides that touch a member block determine, and every
member block stands unchanged.  The warnings that name a line are one for each member block, with
the line where it starts, counted from one; without a code collaborator there are none.  Where
markup is not laid out, a document with line endings of one kind stays as it is. -/
theorem formatDocument_keeps_members (config : Config) (c : Collaborators)
    (hcode : ∀ code, c.code = some code → ∀ calls text, codeFailed (code calls text) = true)
    (hstyle : ∀ calls text size, c.style calls text size = .ok (some text)) (t : Text) :
    let source := Text.lines t.chomp
    let regions := findRegions t
    let between := chunks source 0 regions
    let owned := regions.map (Region.ownedLines source)
    let result := (formatDocument config c t).run {}
    source = weave between owned ∧
      (hasCrLf t = false →
        (∃ body, result.1 = body ++ t.finalNewline ∧ Text.lines body =
          weave (between.mapIdx fun i chunk =>
            keptMarkup config (decide (0 < i)) (decide (i < regions.length)) chunk) owned) ∧
        result.2.warnings.filterMap Warning.place? =
          if c.code.isSome then regions.map fun region =>
            (Warning.codeFormatterError, Int.ofNat (region.startLine + 1)) else []) ∧
      (config.formatHtml = false → HasUniformEndings t → result.1 = t) := by
  have hidle : c.Idle := by
    refine ⟨hcode, ?_⟩
    intro calls text size output houtput
    cases (hstyle calls text size).symm.trans houtput
    rfl
  have hchunk : keptChunk config 0 (findRegions t).length = fun i chunk =>
      keptMarkup config (decide (0 < i)) (decide (i < (findRegions t).length)) chunk := by
    funext i chunk
    simp [keptChunk]
  refine ⟨(weave_chunks (inOrder_chomp t)).symm, ?_, ?_⟩
  · intro hcr
    have hunix := formatDocument_of_unix config hidle hcr
    rwa [keptLines, hchunk] at hunix
  · intro hhtml hendings
    exact formatDocument_of_formatHtml_eq_false hidle hhtml hendings

/-- A document with two member blocks, a code collaborator without output and markup between the
blocks: the member blocks keep their lines, and there is a warning for each of them.  With markup
left alone, the same document with carriage returns stays as it is. -/
theorem formatDocument_keeps_members_two :
    let c : Collaborators := { code := some fun _ _ => .ok ⟨none, none⟩ }
    let kept : Config := { Config.standard with formatHtml := false }
    let t : Text := "@code \x7b\n  x\n\x7d\n<p><i>a</i></p>\n@functions \x7b\n\x7d\n".toList
    let result := (formatDocument .standard c t).run {}
    (∃ body, result.1 = body ++ ['\n'] ∧
      Text.lines body = ["@code \x7b".toList, "  x".toList, "\x7d".toList] ++
        keptMarkup .standard true true ["<p><i>a</i></p>".toList] ++
          ["@functions \x7b".toList, "\x7d".toList]) ∧
      result.2.warnings.filterMap Warning.place? =
        [(Warning.codeFormatterError, 1), (Warning.codeFormatterError, 5)] ∧
      ((formatDocument kept c (addCr t)).run {}).1 = addCr t := by
  intro c kept t result
  have hcode : ∀ code, c.code = some code → ∀ calls text, codeFailed (code calls text) = true := by
    rintro code hcode
    cases hcode
    exact fun _ _ => rfl
  have hregions : findRegions t =
      [⟨.codeMembers, 0, 2, "\n  x\n".toList⟩, ⟨.functionMembers, 4, 5, "\n".toList⟩] := by
    decide +kernel
  have hsource : Text.lines t.chomp = ["@code \x7b".toList, "  x".toList, "\x7d".toList,
      "<p><i>a</i></p>".toList, "@functions \x7b".toList, "\x7d".toList] := by
    decide +kernel
  have hempty : keptMarkup .standard false true [] = [] ∧ keptMarkup .standard true false [] = [] :=
    ⟨rfl, rfl⟩
  obtain ⟨-, hlaidOut, -⟩ := formatDocument_keeps_members .standard c hcode (fun _ _ _ => rfl) t
  obtain ⟨-, -, hkept⟩ := formatDocument_keeps_members kept c hcode (fun _ _ _ => rfl) (addCr t)
  obtain ⟨⟨body, hbody, hlines⟩, hwarnings⟩ := hlaidOut (by decide +kernel)
  rw [hregions] at hlines hwarnings
  refine ⟨⟨body, hbody, hlines.trans ?_⟩, hwarnings, hkept rfl (Or.inr ?_)⟩
  · rw [hsource]
    simp [chunks, lineSlice, Region.ownedLines, weave, hempty]
  · exact fun front back => getLast?_of_addCr

end Documents

end RazorLayout

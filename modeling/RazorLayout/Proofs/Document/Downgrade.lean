import RazorLayout.Document.Format
import RazorLayout.Proofs.Document.Regions
import RazorLayout.Proofs.Layout.Entries

/-!
# Documents with collaborators that fail

A document with idle collaborators is laid out as one with none.  Between its member blocks the
markup is laid out chunk by chunk, each chunk by itself; the member blocks keep their lines.  The
journal gets the entries of the chunks and one call for each member block, in the order of the
document.

* `keptMarkup` is the layout of a chunk when nobody helps;
* `complaints` are the warnings that a list of calls leaves behind, one call after the other.

Results.  `exists_enters_formatDocument`: text and entries of a document are the same with all idle
collaborators.  `warnings_enter`: an entry adds its warnings.  `formatDocument_of_failing`: failing
collaborators leave the text and the warnings about nesting as they are without collaborators, and
add one warning for each failure, in the order of the calls.
-/

namespace RazorLayout

section Chunks

variable (config : Config)

theorem steady_markupLines (afterCode beforeCode : Bool) (chunk : List Text) :
    Steady fun c => markupLines config c afterCode beforeCode chunk := by
  cases chunk with
  | nil => exact steady_pure []
  | cons first rest =>
      simp only [markupLines]
      split
      · exact (steady_formatMarkup config 0 _).bind fun laidOut => steady_pure _
      · exact steady_pure _

/-- The lines of a chunk of markup when nobody helps.  `afterCode` and `beforeCode` say which of its
sides touch a member block. -/
def keptMarkup (afterCode beforeCode : Bool) (chunk : List Text) : List Text :=
  ((markupLines config {} afterCode beforeCode chunk).run {}).1

theorem exists_enters_markupLines (afterCode beforeCode : Bool) (chunk : List Text) :
    ∃ entries, Enters (fun c => markupLines config c afterCode beforeCode chunk)
        (keptMarkup config afterCode beforeCode chunk) entries ∧
      ∀ entry ∈ entries, entry.line? = none := by
  obtain ⟨lines, entries, henters, hlines⟩ := steady_markupLines config afterCode beforeCode chunk
  have hkept : keptMarkup config afterCode beforeCode chunk = lines :=
    congrArg Prod.fst (henters {} Collaborators.idle_standard {})
  exact ⟨entries, by rwa [hkept], hlines⟩

/-- The call for a member block. -/
def Region.entry (region : Region) : Entry :=
  .asks (.code (some (Int.ofNat (region.startLine + 1))) region.body)

theorem enters_memberLines (written : List Text) (region : Region) (owned : List Text) :
    Enters (fun c => memberLines config c written region owned) owned [region.entry] :=
  (enters_askCode (some (Int.ofNat (region.startLine + 1))) region.body).bind (enters_pure owned)

/-- The layout of chunk number `i` of `count + 1` chunks, of which only the first one may touch no
member block above. -/
def keptChunk (start count i : Nat) (chunk : List Text) : List Text :=
  keptMarkup config (decide (0 < start ∨ 0 < i)) (decide (i < count)) chunk

/-- The lines of a document: the layouts of its chunks, and the member blocks with their own lines
between them. -/
def keptLines (source : List Text) (start : Nat) (regions : List Region) : List Text :=
  weave ((chunks source start regions).mapIdx (keptChunk config start regions.length))
    (regions.map (Region.ownedLines source))

theorem keptLines_cons (source : List Text) (start : Nat) (region : Region)
    (regions : List Region) :
    keptLines config source start (region :: regions) =
      keptMarkup config (decide (0 < start)) true (lineSlice source start region.startLine) ++
        region.ownedLines source ++ keptLines config source (region.endLine + 1) regions := by
  have hlater : (fun i => keptChunk config start (regions.length + 1) (i + 1)) =
      keptChunk config (region.endLine + 1) regions.length := by
    funext i chunk
    simp [keptChunk]
  simp only [keptLines, chunks, List.mapIdx_cons, List.length_cons, List.map_cons, weave, hlater]
  simp [keptChunk]

theorem exists_enters_documentLines (source written : List Text) (start : Nat)
    (regions : List Region) :
    ∃ entries, Enters (fun c => documentLines config c source start written regions)
        (written ++ keptLines config source start regions) entries ∧
      entries.filterMap Entry.line? =
        regions.map fun region => Int.ofNat (region.startLine + 1) := by
  induction regions generalizing start written with
  | nil =>
      obtain ⟨entries, henters, hlines⟩ :=
        exists_enters_markupLines config (decide (0 < start)) false (source.drop start)
      refine ⟨entries ++ [], henters.bind ?_, ?_⟩
      · have hlast : keptLines config source start [] =
            keptMarkup config (decide (0 < start)) false (source.drop start) := by
          simp [keptLines, chunks, weave, keptChunk]
        rw [hlast]
        exact enters_pure _
      · rw [List.append_nil]
        exact List.filterMap_eq_nil_iff.2 hlines
  | cons region regions ih =>
      obtain ⟨entries, henters, hlines⟩ :=
        exists_enters_markupLines config (decide (0 < start)) true
          (lineSlice source start region.startLine)
      have hmember := enters_memberLines config
        (written ++ keptMarkup config (decide (0 < start)) true
          (lineSlice source start region.startLine)) region (region.ownedLines source)
      obtain ⟨more, hmore, hmoreLines⟩ := ih
        (written ++ keptMarkup config (decide (0 < start)) true
          (lineSlice source start region.startLine) ++ region.ownedLines source)
        (region.endLine + 1)
      refine ⟨entries ++ ([region.entry] ++ more), henters.bind (hmember.bind ?_), ?_⟩
      · rw [keptLines_cons, ← List.append_assoc, ← List.append_assoc]
        exact hmore
      · rw [List.filterMap_append, List.filterMap_append, hmoreLines,
          List.filterMap_eq_nil_iff.2 hlines]
        rfl

end Chunks

section Documents

variable (config : Config)

theorem enters_formatBody (text : Text) :
    ∃ entries, Enters (fun c => formatBody config c text)
        (Text.unlines (keptLines config (Text.lines text) 0 (findRegions text))) entries ∧
      entries.filterMap Entry.line? =
        (findRegions text).map fun region => Int.ofNat (region.startLine + 1) := by
  obtain ⟨entries, henters, hlines⟩ :=
    exists_enters_documentLines config (Text.lines text) [] 0 (findRegions text)
  have hread : Enters (fun _ => modify fun journal : Journal => journal.log
      (.documentRead (Text.lines text).length (findRegions text).length)) ()
      [.documentRead (Text.lines text).length (findRegions text).length] :=
    fun _ _ _ => rfl
  refine ⟨_, hread.bind (henters.bind (enters_pure _)), ?_⟩
  rw [List.append_nil]
  exact (List.filterMap_cons_none rfl).trans hlines

/-- The text without the line feed at its end. -/
def Text.chomp (t : Text) : Text :=
  if t.getLast? = some '\n' then t.dropLast else t

/-- The line feed at the end of a text, if there is one. -/
def Text.finalNewline (t : Text) : Text :=
  if t.getLast? = some '\n' then ['\n'] else []

theorem Text.chomp_append_finalNewline (t : Text) : t.chomp ++ t.finalNewline = t := by
  unfold chomp finalNewline
  split
  · rename_i hlast
    obtain ⟨front, rfl⟩ := List.getLast?_eq_some_iff.1 hlast
    rw [List.dropLast_concat]
  · exact List.append_nil t

theorem findRegions_chomp (t : Text) : findRegions t.chomp = findRegions t := by
  conv => rhs; rw [← t.chomp_append_finalNewline]
  unfold Text.finalNewline
  split
  · exact (findRegions_concat_newline t.chomp).symm
  · rw [List.append_nil]

/-- A document with line feeds only keeps the lines of its member blocks and its last line feed. -/
theorem enters_formatUnix (t : Text) :
    ∃ entries, Enters (fun c => formatUnix config c t)
        (Text.unlines (keptLines config (Text.lines t.chomp) 0 (findRegions t)) ++ t.finalNewline)
        entries ∧
      entries.filterMap Entry.line? =
        (findRegions t).map fun region => Int.ofNat (region.startLine + 1) := by
  obtain ⟨entries, henters, hlines⟩ := enters_formatBody config t.chomp
  rw [findRegions_chomp] at henters hlines
  unfold Text.chomp at henters
  unfold Text.chomp Text.finalNewline formatUnix
  split
  · rename_i hlast
    rw [if_pos hlast] at henters
    exact ⟨entries ++ [], henters.bind (enters_pure _), by rwa [List.append_nil]⟩
  · rename_i hlast
    rw [if_neg hlast] at henters
    exact ⟨entries, by rwa [List.append_nil], hlines⟩

/-- Text and entries of a document are the same with all idle collaborators. -/
theorem exists_enters_formatDocument (t : Text) :
    ∃ out entries, Enters (fun c => formatDocument config c t) out entries := by
  unfold formatDocument
  split
  · obtain ⟨entries, henters, -⟩ := enters_formatUnix config (dropCr t)
    exact ⟨_, _, henters.bind (enters_pure _)⟩
  · obtain ⟨entries, henters, -⟩ := enters_formatUnix config t
    exact ⟨_, _, henters⟩

end Documents

section Warnings

/-- The calls so far and one more. -/
def Calls.add (calls : Calls) : Call → Calls
  | .code _ text => { calls with code := calls.code ++ [text] }
  | .style text size => { calls with style := calls.style ++ [(text, size)] }

/-- The warning of a call that idle collaborators leave behind: one for every call of the code
collaborator, and one for a call that makes the style collaborator break off. -/
def complaint (c : Collaborators) (earlier : Calls) : Call → List Warning
  | .code line text => c.code.toList.map fun code =>
      .make Warning.codeFormatterError (some (failureText (code earlier text))) line
  | .style text size =>
      match c.style earlier text size with
      | .error fault => [.make Warning.styleFormatterError (some fault.text) none]
      | .ok _ => []

/-- The warnings of calls in order, each of them made after the ones in front of it. -/
def complaints (c : Collaborators) (earlier : Calls) : List Call → List Warning
  | [] => []
  | call :: calls => complaint c earlier call ++ complaints c (earlier.add call) calls

/-- Whether a warning is about a block that is nested too deep. -/
def Warning.isTooDeep (w : Warning) : Bool :=
  w.code == Warning.maxDepthExceeded

namespace Entry

/-- The warnings of an entry. -/
def warnings (c : Collaborators) (earlier : Calls) : Entry → List Warning
  | .asks call => complaint c earlier call
  | .tooDeep limit => [.tooDeep limit]
  | .documentRead _ _ => []

/-- The call that an entry is about. -/
def call? : Entry → Option Call
  | .asks call => some call
  | _ => none

/-- The limit that a block went beyond. -/
def limit? : Entry → Option Nat
  | .tooDeep limit => some limit
  | _ => none

end Entry

variable {c : Collaborators}

/-- An entry adds its warnings. -/
theorem warnings_enter (hc : c.Idle) (j : Journal) (entry : Entry) :
    (j.enter c entry).warnings = j.warnings ++ entry.warnings c j.calls := by
  cases entry with
  | asks call =>
      cases call with
      | code line text =>
          cases hcode : c.code with
          | none =>
              simp [Journal.enter, Collaborators.askCode, StateT.run, Entry.warnings, complaint,
                hcode]
          | some code =>
              have hverdict := codeVerdict_of_codeFailed (hc.code code hcode j.calls text)
              simp [Journal.enter, Collaborators.askCode, StateT.run, Entry.warnings, complaint,
                hcode, hverdict, Journal.warn, Journal.log, Journal.askedCode]
      | style text size =>
          simp only [Journal.enter, Collaborators.askStyle, StateT.run, Entry.warnings, complaint]
          split <;> simp_all [Journal.warn, Journal.log, Journal.askedStyle]
  | tooDeep limit => rfl
  | documentRead lines regions => exact (List.append_nil _).symm

theorem calls_enter {code : Calls → Text → Except Fault CodeAnswer} (hcode : c.code = some code)
    (j : Journal) (entry : Entry) :
    (j.enter c entry).calls = entry.call?.toList.foldl Calls.add j.calls := by
  cases entry with
  | asks call =>
      cases call with
      | code line text =>
          simp only [Journal.enter, Collaborators.askCode, StateT.run, hcode]
          split <;> rfl
      | style text size =>
          simp only [Journal.enter, Collaborators.askStyle, StateT.run]
          split <;> rfl
  | tooDeep limit => rfl
  | documentRead lines regions => rfl

theorem isTooDeep_complaint {w : Warning} {earlier : Calls} {call : Call}
    (h : w ∈ complaint c earlier call) : w.isTooDeep = false := by
  cases call with
  | code line text =>
      obtain ⟨code, -, rfl⟩ := List.mem_map.1 h
      rfl
  | style text size =>
      simp only [complaint] at h
      split at h
      · rw [List.mem_singleton.1 h]
        rfl
      · cases h

/-- The warnings about nesting come from the entries about nesting. -/
theorem filter_isTooDeep_enterAll (hc : c.Idle) (j : Journal) (entries : List Entry) :
    (j.enterAll c entries).warnings.filter Warning.isTooDeep =
      j.warnings.filter Warning.isTooDeep ++
        (entries.filterMap Entry.limit?).map Warning.tooDeep := by
  induction entries generalizing j with
  | nil => simp [Journal.enterAll]
  | cons entry entries ih =>
      have hstep : j.enterAll c (entry :: entries) = (j.enter c entry).enterAll c entries := rfl
      have hentry : (entry.warnings c j.calls).filter Warning.isTooDeep =
          entry.limit?.toList.map Warning.tooDeep := by
        cases entry with
        | asks call =>
            refine List.filter_eq_nil_iff.2 ?_
            intro w hw
            simp [isTooDeep_complaint hw]
        | tooDeep limit => rfl
        | documentRead lines regions => rfl
      rw [hstep, ih, warnings_enter hc, List.filter_append, hentry, List.append_assoc]
      cases hlimit : entry.limit? with
      | none => simp [hlimit]
      | some limit => simp [hlimit]

/-- The other warnings are the complaints about the calls. -/
theorem filter_not_isTooDeep_enterAll (hc : c.Idle) {code : Calls → Text → Except Fault CodeAnswer}
    (hcode : c.code = some code) (j : Journal) (entries : List Entry) :
    (j.enterAll c entries).calls = (entries.filterMap Entry.call?).foldl Calls.add j.calls ∧
      (j.enterAll c entries).warnings.filter (fun w => !w.isTooDeep) =
        j.warnings.filter (fun w => !w.isTooDeep) ++
          complaints c j.calls (entries.filterMap Entry.call?) := by
  induction entries generalizing j with
  | nil => simp [Journal.enterAll, complaints]
  | cons entry entries ih =>
      have hstep : j.enterAll c (entry :: entries) = (j.enter c entry).enterAll c entries := rfl
      obtain ⟨hcalls, hwarnings⟩ := ih (j.enter c entry)
      rw [hstep, hcalls, hwarnings, warnings_enter hc, calls_enter hcode, List.filter_append]
      cases entry with
      | asks call =>
          have hall : (complaint c j.calls call).filter (fun w => !w.isTooDeep) =
              complaint c j.calls call := by
            refine List.filter_eq_self.2 ?_
            intro w hw
            simp [isTooDeep_complaint hw]
          simp [Entry.call?, Entry.warnings, hall, complaints]
      | tooDeep limit => exact ⟨rfl, congrArg (· ++ _) (List.append_nil _)⟩
      | documentRead lines regions => exact ⟨rfl, congrArg (· ++ _) (List.append_nil _)⟩

end Warnings

section Failing

/-- Collaborators that fail whenever they are asked downgrade to none.  The document alone says
which calls are made, and in which order.  The text is that of the layout without a code
collaborator and with style sheets handed back, and so are the warnings about nesting.  The other
warnings are one for each call of the code collaborator and one for each call that made the style
collaborator break off, in the order of the calls. -/
theorem formatDocument_of_failing (config : Config) (t : Text) :
    ∃ calls : List Call, ∀ (c : Collaborators) (code : Calls → Text → Except Fault CodeAnswer),
      c.code = some code → (∀ earlier text, codeFailed (code earlier text) = true) →
      (∀ earlier text size output, c.style earlier text size ≠ .ok (some output)) →
      let failing := (formatDocument config c t).run {}
      let plain := (formatDocument config {} t).run {}
      failing.1 = plain.1 ∧
        failing.2.warnings.filter Warning.isTooDeep = plain.2.warnings.filter Warning.isTooDeep ∧
        failing.2.calls = calls.foldl Calls.add {} ∧
        failing.2.warnings.filter (fun w => !w.isTooDeep) = complaints c {} calls := by
  obtain ⟨out, entries, henters⟩ := exists_enters_formatDocument config t
  refine ⟨entries.filterMap Entry.call?, ?_⟩
  intro c code hcode hfails hstyle
  have hidle : c.Idle := by
    refine ⟨?_, fun earlier text size output h => absurd h (hstyle earlier text size output)⟩
    intro other hother
    cases hcode.symm.trans hother
    exact hfails
  have hfailing := henters c hidle {}
  have hplain := henters {} Collaborators.idle_standard {}
  simp only [hfailing, hplain]
  refine ⟨trivial, ?_, filter_not_isTooDeep_enterAll hidle hcode {} entries⟩
  rw [filter_isTooDeep_enterAll hidle, filter_isTooDeep_enterAll Collaborators.idle_standard]

/-- Three calls that fail, one of the style collaborator and two of the code collaborator: the
text stays, and there are three warnings in the order of the calls. -/
theorem formatDocument_of_failing_three :
    let fault : Fault := ⟨"OSError".toList, "gone".toList⟩
    let code : Calls → Text → Except Fault CodeAnswer := fun _ _ => .ok ⟨none, none⟩
    let c : Collaborators := ⟨some code, fun _ _ _ => .error fault⟩
    let config : Config := { Config.standard with style := { enabled := true } }
    let t := "<style>a\x7b\x7d</style>\n@\x7b x \x7d\n@code \x7b\n  y\n\x7d".toList
    let failing := (formatDocument config c t).run {}
    failing.1 = ((formatDocument config {} t).run {}).1 ∧
      failing.2.calls = ⟨[" x ".toList, "\n  y\n".toList], [("a\x7b\x7d".toList, 4)]⟩ ∧
      failing.2.warnings.map Warning.code =
        [Warning.styleFormatterError, Warning.codeFormatterError, Warning.codeFormatterError] := by
  intro fault code c config t failing
  obtain ⟨calls, hcalls⟩ := formatDocument_of_failing config t
  have hsame := hcalls c code rfl (fun _ _ => rfl) (fun _ _ _ _ h => by cases h)
  exact ⟨hsame.1, by decide +kernel, by decide +kernel⟩

end Failing

end RazorLayout

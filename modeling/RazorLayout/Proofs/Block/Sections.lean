import RazorLayout.Block.Switch
import RazorLayout.Proofs.Text.Unblanked

/-!
# The sections of a switch body

A switch body is cut at its labels.  A label is read up to its colon, where quotes hide colons and
braces; the content behind it goes on to the next label, where quotes hide nothing and braces have
to balance.  Each cut trims the pieces, so the body can be put together again up to its blanks.

* `SwitchCase.CutInto` relates a text to its sections, one label and one content at a time;
* `SwitchCase.source` is a section as it is written: its label, the colon and its content.

Results.  `cutInto_of_readSections?`: the reader cuts a text in this way.
`CutInto.unblanked_eq`: nothing but blanks is lost.  `CutInto.balanced`: a content in front of
another section has as many opening as closing braces.  `readAll?_partition` puts them together.
-/

namespace RazorLayout

namespace SwitchCase

open Text (unblanked)

section Definitions

/-- The section as it is written. -/
def source (c : SwitchCase) : Text :=
  c.label.text ++ ':' :: c.content

/-- The text is a list of sections: a label, its content up to the next label, and the rest behind
the spaces in front of that label. -/
inductive CutInto : Text → List SwitchCase → Prop
  | nil : CutInto [] []
  | cons {cs rest content next : Text} {label : CaseLabel} {others : List SwitchCase} :
      readLabel? cs = some (label, rest) →
      splitSection 0 false (rest.dropWhile isTabOrSpace) = (content, next) →
      CutInto (afterSpaces next) others →
      CutInto cs (⟨label, Text.stripEnd content⟩ :: others)

end Definitions

theorem cutInto_of_readSections? {cs : Text} {cases : List SwitchCase}
    (h : readSections? cs = some cases) : CutInto cs cases := by
  fun_induction readSections? cs generalizing cases with
  | case1 =>
      cases h
      exact .nil
  | case2 c cs hlabel => cases h
  | case3 c cs label rest hlabel parts =>
      rename_i ih
      obtain ⟨others, hothers, rfl⟩ := Option.map_eq_some_iff.1 h
      exact .cons hlabel rfl (ih hothers)

section Labels

variable {cs rest : Text} {label : CaseLabel}

theorem eq_of_afterCase? (h : afterCase? cs = some rest) : cs = caseWord ++ rest := by
  unfold afterCase? at h
  split at h
  · rename_i c tail htail
    split at h
    · cases h
      exact Text.after?_eq_some_iff.1 htail
    · cases h
  · cases h

theorem unblanked_of_afterDefault? (h : afterDefault? cs = some rest) :
    unblanked cs = unblanked (defaultWord ++ ':' :: rest) := by
  unfold afterDefault? at h
  split at h
  · rename_i tail htail
    cases h
    rw [unblanked_of_afterWord? htail, Text.unblanked_append]
  · cases h

/-- A label and its colon are what has been read, up to the blanks around the pattern. -/
theorem unblanked_of_readLabel? (h : readLabel? cs = some (label, rest)) :
    unblanked cs = unblanked (label.text ++ ':' :: rest) := by
  unfold readLabel? at h
  split at h
  · rename_i tail htail
    obtain ⟨⟨pattern, behind⟩, hcolon, heq⟩ := Option.map_eq_some_iff.1 h
    cases heq
    rw [eq_of_afterCase? htail, splitColon?_eq hcolon]
    simp [CaseLabel.text]
  · obtain ⟨behind, hdefault, heq⟩ := Option.map_eq_some_iff.1 h
    cases heq
    exact unblanked_of_afterDefault? hdefault

end Labels

section Contents

/-- The braces of a content balance where a label follows: the count starts at `depth`, which may be
negative, and the label has to stand at depth zero. -/
theorem count_of_splitSection {depth : Int} {fresh : Bool} {cs content next : Text}
    (h : splitSection depth fresh cs = (content, next)) (hnext : next ≠ []) :
    depth + content.count '{' = content.count '}' := by
  induction cs generalizing depth fresh content with
  | nil =>
      cases h
      exact absurd rfl hnext
  | cons c cs ih =>
      unfold splitSection at h
      split at h
      · rename_i hopen
        subst hopen
        cases h
        have hinner := ih rfl
        rw [List.count_cons_self, List.count_cons_of_ne (by decide)]
        omega
      · split at h
        · rename_i hclose
          subst hclose
          cases h
          have hinner := ih rfl
          rw [List.count_cons_self, List.count_cons_of_ne (by decide)]
          omega
        · split at h
          · rename_i hlabel
            cases h
            simpa using hlabel.1
          · rename_i hopen hclose hlabel
            cases h
            rw [List.count_cons_of_ne hopen, List.count_cons_of_ne hclose]
            exact ih rfl

theorem getLast?_stripEnd (t : Text) : ∀ c ∈ (Text.stripEnd t).getLast?, isBlank c = false := by
  intro c hc
  rw [Text.stripEnd, List.getLast?_reverse] at hc
  have hstop := List.head?_dropWhile_not isBlank t.reverse
  rw [Option.mem_def.1 hc] at hstop
  simpa using hstop

end Contents

section Sections

variable {cs : Text} {cases : List SwitchCase}

theorem CutInto.unblanked_eq (h : CutInto cs cases) :
    unblanked cs = unblanked (cases.flatMap source) := by
  induction h with
  | nil => rfl
  | @cons cs rest content next label others hlabel hsection _ ih =>
      have hrest : unblanked rest = unblanked content ++ unblanked next := by
        have hparts := splitSection_eq 0 false (rest.dropWhile isTabOrSpace)
        rw [hsection] at hparts
        rw [← Text.unblanked_dropWhile_isTabOrSpace, ← hparts, Text.unblanked_append]
      rw [Text.unblanked_afterSpaces] at ih
      calc unblanked cs
          = unblanked label.text ++ ':' :: unblanked rest := by
            rw [unblanked_of_readLabel? hlabel, Text.unblanked_append]
            rfl
        _ = unblanked label.text ++ ':' :: unblanked content ++ unblanked next := by
            rw [hrest, List.append_assoc]
            rfl
        _ = unblanked (source ⟨label, Text.stripEnd content⟩) ++ unblanked next := by
            rw [source, Text.unblanked_append, Text.unblanked_cons ':', Text.unblanked_stripEnd]
            rfl
        _ = unblanked (List.flatMap source (⟨label, Text.stripEnd content⟩ :: others)) := by
            rw [ih, List.flatMap_cons, Text.unblanked_append]

/-- The last section ends with the body; every other one ends in front of a label. -/
theorem CutInto.balanced (h : CutInto cs cases) :
    ∀ c ∈ cases.dropLast, c.content.count '{' = c.content.count '}' := by
  induction h with
  | nil => simp
  | @cons cs rest content next label others _ hsection hothers ih =>
      cases others with
      | nil => simp
      | cons second others =>
          have hnext : next ≠ [] := by
            rintro rfl
            cases hothers with
            | cons hlabel _ _ => exact Nat.not_lt_zero _ (readLabel?_length_lt hlabel)
          have hcount := count_of_splitSection hsection hnext
          have hstrip := Text.unblanked_stripEnd content
          intro c hc
          rw [List.dropLast_cons_cons] at hc
          rcases List.mem_cons.1 hc with rfl | hc
          · rw [Text.count_eq_of_unblanked_eq (by decide) hstrip,
              Text.count_eq_of_unblanked_eq (by decide) hstrip]
            omega
          · exact ih c hc

theorem CutInto.trimmed (h : CutInto cs cases) :
    ∀ c ∈ cases, ∀ last ∈ c.content.getLast?, isBlank last = false := by
  induction h with
  | nil => simp
  | cons _ _ _ ih =>
      intro c hc
      rcases List.mem_cons.1 hc with rfl | hc
      · exact getLast?_stripEnd _
      · exact ih c hc

end Sections

/-- The sections of a switch body, with their colons, are the body without its blanks.  Each label is
`default` or a pattern behind `case`, each content ends in a solid character, and the braces of a
content balance unless it is the last one. -/
theorem readAll?_partition {body : Text} {cases : List SwitchCase} (h : readAll? body = some cases) :
    unblanked body = unblanked (cases.flatMap source) ∧
      (∀ c ∈ cases, c.label.text = "default".toList ∨ "case ".toList <+: c.label.text) ∧
      (∀ c ∈ cases, ∀ last ∈ c.content.getLast?, isBlank last = false) ∧
      ∀ c ∈ cases.dropLast, c.content.count '{' = c.content.count '}' := by
  have hcut := cutInto_of_readSections? h
  refine ⟨?_, ?_, hcut.trimmed, hcut.balanced⟩
  · rw [← Text.unblanked_afterSpaces, hcut.unblanked_eq]
  · rintro ⟨label, content⟩ -
    cases label with
    | fallback => exact .inl rfl
    | pattern text => exact .inr ⟨text, rfl⟩

/-- A property pattern, a colon inside a string, a word that is no label, braces that do not balance
at the end, and a line separator in front of the colon of the last label. -/
theorem readAll?_partition_patterns :
    let body := " case \x7b A: 1 \x7d : it's a case x\n\tcase \": \":y; default\u2028: \x7b ".toList
    let cases : List SwitchCase :=
      [⟨.pattern "\x7b A: 1 \x7d".toList, "it's a case x".toList⟩,
        ⟨.pattern "\": \"".toList, "y;".toList⟩, ⟨.fallback, ['{']⟩]
    readAll? body = some cases ∧
      unblanked body = unblanked (cases.flatMap source) ∧
      ∀ c ∈ cases.dropLast, c.content.count '{' = c.content.count '}' := by
  intro body cases
  have h : readAll? body = some cases := by decide +kernel
  obtain ⟨hsame, -, -, hbalanced⟩ := readAll?_partition h
  exact ⟨h, hsame, hbalanced⟩

end SwitchCase

end RazorLayout

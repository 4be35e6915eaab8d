import RazorLayout.Block.Reader

/-!
# Switch sections

Input.  The body of a switch block.

Result.  `SwitchCase.readAll?` cuts the body into its labelled sections, or gives up when some text
belongs to no label.

A label counts only outside braces and only at the start of a line or behind one of the characters
`;`, `}` and `>`, with tabs and spaces in between.  Quotes matter inside a label, where they hide
braces and colons; they do not matter in the text of a section, where apostrophes are common.
-/

namespace RazorLayout

/-- The label of a section. -/
inductive CaseLabel where
  /-- A label with a pattern. -/
  | pattern (text : Text)
  /-- The label that takes everything else. -/
  | fallback
  deriving DecidableEq, Repr

namespace CaseLabel

/-- The label as it is printed, without its colon. -/
def text : CaseLabel → Text
  | pattern text => caseWord ++ ' ' :: text
  | fallback => defaultWord

end CaseLabel

/-- A labelled section of a switch body. -/
structure SwitchCase where
  label : CaseLabel
  content : Text
  deriving DecidableEq, Repr

namespace SwitchCase

/-- The section as it is shown to the reader. -/
def describe (c : SwitchCase) : Text :=
  "SwitchCase(".toList ++ quoted c.label.text ++ [')']

section Labels

/-- The text behind the word of a label with a pattern; a blank has to follow the word. -/
def afterCase? (cs : Text) : Option Text :=
  match Text.after? caseWord cs with
  | some (c :: rest) => if isBlank c then some (c :: rest) else none
  | _ => none

/-- The text behind the label without a pattern and its colon. -/
def afterDefault? (cs : Text) : Option Text :=
  match afterWord? defaultWord cs with
  | some (':' :: rest) => some rest
  | _ => none

/-- Whether a label stands at the front of a text. -/
def startsLabel (cs : Text) : Bool :=
  (afterCase? cs).isSome || (afterDefault? cs).isSome

/-- The text in front of the first colon that is outside braces and quotes, and the text behind
it. -/
def splitColon? : Int → QuoteState → Text → Option (Text × Text)
  | _, _, [] => none
  | depth, .inside quote escaped, c :: cs =>
      (splitColon? depth ((QuoteState.inside quote escaped).step c) cs).map
        fun label => (c :: label.1, label.2)
  | depth, .outside, c :: cs =>
      if isQuote c then
        (splitColon? depth (.inside c false) cs).map fun label => (c :: label.1, label.2)
      else if c = '{' then
        (splitColon? (depth + 1) .outside cs).map fun label => (c :: label.1, label.2)
      else if c = '}' then
        (splitColon? (depth - 1) .outside cs).map fun label => (c :: label.1, label.2)
      else if c = ':' ∧ depth = 0 then some ([], cs)
      else (splitColon? depth .outside cs).map fun label => (c :: label.1, label.2)

/-- The label at the front of a text, and the text behind its colon. -/
def readLabel? (cs : Text) : Option (CaseLabel × Text) :=
  match afterCase? cs with
  | some rest =>
      (splitColon? 0 .outside rest).map fun label => (.pattern (Text.strip label.1), label.2)
  | none => (afterDefault? cs).map fun rest => (.fallback, rest)

end Labels

section Sections

/-- Whether a label may follow: tabs and spaces change nothing, and else the last character has to
end a line, a statement, a block or a tag. -/
def labelMayFollow (fresh : Bool) (c : Char) : Bool :=
  if isTabOrSpace c then fresh else c == '\n' || c == ';' || c == '}' || c == '>'

/-- The text in front of the next label, and the text from it on. -/
def splitSection : Int → Bool → Text → Text × Text
  | _, _, [] => ([], [])
  | depth, fresh, c :: cs =>
      if c = '{' then
        let (content, rest) := splitSection (depth + 1) (labelMayFollow fresh c) cs
        (c :: content, rest)
      else if c = '}' then
        let (content, rest) := splitSection (depth - 1) (labelMayFollow fresh c) cs
        (c :: content, rest)
      else if depth = 0 ∧ fresh = true ∧ startsLabel (c :: cs) then ([], c :: cs)
      else
        let (content, rest) := splitSection depth (labelMayFollow fresh c) cs
        (c :: content, rest)

end Sections

section Progress

theorem splitColon?_eq {depth : Int} {state : QuoteState} {cs label rest : Text}
    (h : splitColon? depth state cs = some (label, rest)) : cs = label ++ ':' :: rest := by
  induction cs generalizing depth state label with
  | nil => simp [splitColon?] at h
  | cons c cs ih =>
      have extend : ∀ {depth' : Int} {state' : QuoteState},
          (splitColon? depth' state' cs).map (fun label => (c :: label.1, label.2)) =
            some (label, rest) → c :: cs = label ++ ':' :: rest := by
        intro depth' state' h'
        obtain ⟨⟨inner, tail⟩, hi, he⟩ := Option.map_eq_some_iff.1 h'
        cases he
        rw [ih hi]
        rfl
      cases state with
      | inside quote escaped => exact extend h
      | outside =>
          unfold splitColon? at h
          split at h
          · exact extend h
          · split at h
            · exact extend h
            · split at h
              · exact extend h
              · split at h
                · rename_i hc
                  cases h
                  rw [hc.1]
                  rfl
                · exact extend h

theorem splitSection_eq (depth : Int) (fresh : Bool) (cs : Text) :
    (splitSection depth fresh cs).1 ++ (splitSection depth fresh cs).2 = cs := by
  induction cs generalizing depth fresh with
  | nil => rfl
  | cons c cs ih =>
      unfold splitSection
      split
      · simp [ih]
      · split
        · simp [ih]
        · split
          · rfl
          · simp [ih]

theorem afterCase?_length_lt {cs rest : Text} (h : afterCase? cs = some rest) :
    rest.length < cs.length := by
  unfold afterCase? at h
  split at h
  · rename_i c tail htail
    split at h
    · cases h
      rw [Text.after?_eq_some_iff.1 htail]
      simp [caseWord]
    · cases h
  · cases h

theorem afterDefault?_length_lt {cs rest : Text} (h : afterDefault? cs = some rest) :
    rest.length < cs.length := by
  unfold afterDefault? at h
  split at h
  · rename_i tail htail
    cases h
    exact Nat.lt_of_lt_of_le (Nat.lt_succ_self _) (afterWord?_suffix htail).length_le
  · cases h

theorem readLabel?_length_lt {cs rest : Text} {label : CaseLabel}
    (h : readLabel? cs = some (label, rest)) : rest.length < cs.length := by
  unfold readLabel? at h
  split at h
  · rename_i tail htail
    obtain ⟨⟨inner, final⟩, hi, he⟩ := Option.map_eq_some_iff.1 h
    cases he
    have := congrArg List.length (splitColon?_eq hi)
    have := afterCase?_length_lt htail
    simp at *
    omega
  · obtain ⟨final, hi, he⟩ := Option.map_eq_some_iff.1 h
    cases he
    exact afterDefault?_length_lt hi

theorem splitSection_length_le (depth : Int) (fresh : Bool) (cs : Text) :
    (splitSection depth fresh cs).2.length ≤ cs.length := by
  have := congrArg List.length (splitSection_eq depth fresh cs)
  simp at this
  omega

end Progress

/-- The sections of a text that starts with a label, or none when it does not. -/
def readSections? (cs : Text) : Option (List SwitchCase) :=
  match cs with
  | [] => some []
  | c :: cs =>
      match _h : readLabel? (c :: cs) with
      | none => none
      | some (label, rest) =>
          let parts := splitSection 0 false (rest.dropWhile isTabOrSpace)
          (readSections? (afterSpaces parts.2)).map
            fun cases => ⟨label, Text.stripEnd parts.1⟩ :: cases
  termination_by cs.length
  decreasing_by
    refine Nat.lt_of_le_of_lt ?_ (readLabel?_length_lt _h)
    refine Nat.le_trans (afterSpaces_suffix _).length_le ?_
    exact Nat.le_trans (splitSection_length_le _ _ _) (List.dropWhile_suffix _).length_le

/-- The sections of a switch body. -/
def readAll? (body : Text) : Option (List SwitchCase) :=
  readSections? (afterSpaces body)

end SwitchCase

end RazorLayout

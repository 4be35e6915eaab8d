import RazorLayout.AsciiSet

/-!
# Bracketed groups

A group is read from just behind its opening delimiter to the delimiter that closes it.  Nested
groups of the same delimiters count, and delimiters inside a quoted run do not.  A quoted run ends
at the next equal quote that has no backslash directly in front of it.

* `QuoteState` is the automaton of quoted runs;
* `splitGroup` gives the content of a group and the text behind it.

Main statement: `splitGroup_eq` says that content, closing delimiter and rest make up the text.
-/

namespace RazorLayout

/-- Where a scanner stands with respect to quoted runs. -/
inductive QuoteState where
  /-- Outside every quoted run. -/
  | outside
  /-- Inside a run of `quote`; `escaped` says that a backslash was read last. -/
  | inside (quote : Char) (escaped : Bool)
  deriving DecidableEq, Repr

namespace QuoteState

/-- The state behind one more character. -/
def step : QuoteState → Char → QuoteState
  | outside, c => if isQuote c then inside c false else outside
  | inside quote escaped, c =>
      if c = quote ∧ escaped = false then outside else inside quote (c == '\\')

end QuoteState

/-- The two delimiters of a group.  A missing one matches no character. -/
structure Delimiters where
  opening : Option Char
  closing : Option Char
  deriving DecidableEq, Repr

namespace Delimiters

/-- Curly braces. -/
def braces : Delimiters := ⟨some '{', some '}'⟩

/-- Round parentheses. -/
def parens : Delimiters := ⟨some '(', some ')'⟩

/-- Square brackets. -/
def brackets : Delimiters := ⟨some '[', some ']'⟩

/-- A delimiter given as a text: only a single character can match. -/
def single? : Text → Option Char
  | [c] => some c
  | _ => none

end Delimiters

section Splitting

/-- Reads on to the delimiter that closes the group, with `depth` nested groups still open. -/
def splitGroupFrom (d : Delimiters) : Nat → QuoteState → Text → Option (Text × Text)
  | _, _, [] => none
  | depth, .inside quote escaped, c :: cs =>
      (splitGroupFrom d depth ((QuoteState.inside quote escaped).step c) cs).map
        fun group => (c :: group.1, group.2)
  | depth, .outside, c :: cs =>
      if isQuote c then
        (splitGroupFrom d depth (.inside c false) cs).map fun group => (c :: group.1, group.2)
      else if d.opening = some c then
        (splitGroupFrom d (depth + 1) .outside cs).map fun group => (c :: group.1, group.2)
      else if d.closing = some c then
        match depth with
        | 0 => some ([], cs)
        | depth + 1 =>
            (splitGroupFrom d depth .outside cs).map fun group => (c :: group.1, group.2)
      else
        (splitGroupFrom d depth .outside cs).map fun group => (c :: group.1, group.2)

/-- The content of the group whose opening delimiter stands just in front of the text, and the text
behind its closing delimiter. -/
def splitGroup (d : Delimiters) (cs : Text) : Option (Text × Text) :=
  splitGroupFrom d 0 .outside cs

/-- The text behind the group.  A group that is never closed takes all of the text. -/
def afterGroup (d : Delimiters) (cs : Text) : Text :=
  match splitGroup d cs with
  | some (_, rest) => rest
  | none => []

/-- The characters of the group, with its closing delimiter where it has one. -/
def groupText (d : Delimiters) (cs : Text) : Text :=
  match splitGroup d cs with
  | some (content, _) => content ++ d.closing.toList
  | none => cs

/-- The content of a braced group that starts with its opening brace, and the text behind it. -/
def splitBraces : Text → Option (Text × Text)
  | '{' :: cs => splitGroup .braces cs
  | _ => none

/-- The content of a parenthesised group that starts with its opening parenthesis, and the text
behind it. -/
def splitParens : Text → Option (Text × Text)
  | '(' :: cs => splitGroup .parens cs
  | _ => none

end Splitting

section Lemmas

theorem splitGroupFrom_eq {d : Delimiters} {depth : Nat} {state : QuoteState}
    {cs content rest : Text} (h : splitGroupFrom d depth state cs = some (content, rest)) :
    ∃ close, d.closing = some close ∧ cs = content ++ close :: rest := by
  induction cs generalizing depth state content with
  | nil => simp [splitGroupFrom] at h
  | cons c cs ih =>
      have extend : ∀ {depth' : Nat} {state' : QuoteState},
          (splitGroupFrom d depth' state' cs).map (fun group => (c :: group.1, group.2)) =
            some (content, rest) →
          ∃ close, d.closing = some close ∧ c :: cs = content ++ close :: rest := by
        intro depth' state' h'
        obtain ⟨⟨inner, tail⟩, hi, he⟩ := Option.map_eq_some_iff.1 h'
        cases he
        obtain ⟨close, hc, rfl⟩ := ih hi
        exact ⟨close, hc, rfl⟩
      cases state with
      | inside quote escaped => exact extend h
      | outside =>
          unfold splitGroupFrom at h
          split at h
          · exact extend h
          · split at h
            · exact extend h
            · split at h
              · rename_i hclose
                split at h
                · cases h
                  exact ⟨c, hclose, rfl⟩
                · exact extend h
              · exact extend h

theorem splitGroup_eq {d : Delimiters} {cs content rest : Text}
    (h : splitGroup d cs = some (content, rest)) :
    ∃ close, d.closing = some close ∧ cs = content ++ close :: rest :=
  splitGroupFrom_eq h

theorem splitGroup_suffix {d : Delimiters} {cs content rest : Text}
    (h : splitGroup d cs = some (content, rest)) : rest <:+ cs := by
  obtain ⟨close, -, rfl⟩ := splitGroup_eq h
  exact ⟨content ++ [close], by simp⟩

theorem splitGroup_length_lt {d : Delimiters} {cs content rest : Text}
    (h : splitGroup d cs = some (content, rest)) : rest.length < cs.length := by
  obtain ⟨close, -, rfl⟩ := splitGroup_eq h
  simp
  omega

theorem groupText_append (d : Delimiters) (cs : Text) : groupText d cs ++ afterGroup d cs = cs := by
  unfold groupText afterGroup
  cases h : splitGroup d cs with
  | none => simp
  | some group =>
      obtain ⟨content, rest⟩ := group
      obtain ⟨close, hc, rfl⟩ := splitGroup_eq h
      simp [hc]

theorem afterGroup_suffix (d : Delimiters) (cs : Text) : afterGroup d cs <:+ cs := by
  unfold afterGroup
  split
  · rename_i h
    exact splitGroup_suffix h
  · exact List.nil_suffix

theorem splitBraces_eq {cs content rest : Text} (h : splitBraces cs = some (content, rest)) :
    cs = '{' :: content ++ '}' :: rest := by
  unfold splitBraces at h
  split at h
  · obtain ⟨close, hc, rfl⟩ := splitGroup_eq h
    cases hc
    rfl
  · cases h

theorem splitParens_eq {cs content rest : Text} (h : splitParens cs = some (content, rest)) :
    cs = '(' :: content ++ ')' :: rest := by
  unfold splitParens at h
  split at h
  · obtain ⟨close, hc, rfl⟩ := splitGroup_eq h
    cases hc
    rfl
  · cases h

end Lemmas

section Positions

/-- The index of the delimiter that closes the group which is open at `start`. -/
def closingIndex? (d : Delimiters) (cs : Text) (start : Nat) : Option Nat :=
  (splitGroup d (cs.drop start)).map fun group => start + group.1.length

/-- The content of the braces that open at `start`, and the index of the closing one. -/
def bracesAt? (cs : Text) (start : Nat) : Option (Text × Nat) :=
  (splitBraces (cs.drop start)).map fun group => (group.1, start + 1 + group.1.length)

/-- The index that a scanner has reached in `cs` when it started at `start` and left `rest`. -/
def indexOf (cs : Text) (start : Nat) (rest : Text) : Nat :=
  start + ((cs.drop start).length - rest.length)

end Positions

end RazorLayout

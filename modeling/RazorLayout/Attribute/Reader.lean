import RazorLayout.Attribute.Basic
import RazorLayout.Scan.Expression
import RazorLayout.Vocabulary

/-!
# Reading attributes

Input.  The text between the name of a tag and its closing bracket.

Rules.

* A name is an optional sigil and a run of name characters.  A run of other characters is kept as
  the name of a bare attribute, so no text is lost.
* An equals sign, with blanks on both sides, introduces a value.
* A quoted value ends at the next equal quote that is not part of an embedded expression; without
  one it takes the rest of the text.  An unquoted value ends at a space and is given double quotes;
  an expression at its start is taken whole.

Reading never fails.
-/

namespace RazorLayout

namespace Attribute

section Parts

/-- The sigil at the front of a text, if there is one, and the text behind it. -/
def splitSigil : Text → Text × Text
  | '@' :: cs => (['@'], cs)
  | cs => ([], cs)

/-- The attribute name at the front of a text and the text behind it. -/
def splitName? (cs : Text) : Option (Text × Text) :=
  match (splitSigil cs).2.takeWhile isNameChar with
  | [] => none
  | c :: name => some ((splitSigil cs).1 ++ c :: name, (splitSigil cs).2.dropWhile isNameChar)

/-- The text behind an equals sign and the blanks around it. -/
def afterEquals? (cs : Text) : Option Text :=
  match cs.dropWhile isBlank with
  | '=' :: rest => some (rest.dropWhile isBlank)
  | _ => none

/-- The text in front of the quote that ends a value, and the text behind that quote.  Embedded
expressions are passed over. -/
def splitQuoted? (quote : Char) : Text → Option (Text × Text)
  | [] => none
  | c :: cs =>
      if c = quote then some ([], cs)
      else if c = sigil then
        (splitQuoted? quote (afterExpression cs)).map
          fun parts => (c :: (splitExpression cs).1 ++ parts.1, parts.2)
      else (splitQuoted? quote cs).map fun parts => (c :: parts.1, parts.2)
  termination_by cs => cs.length
  decreasing_by
    · exact Nat.lt_succ_of_le (afterExpression_suffix cs).length_le
    · exact Nat.lt_succ_self _

/-- The run of characters up to the next space, and the text from that space on. -/
def splitRun (cs : Text) : Text × Text :=
  (cs.takeWhile fun c => !isSpace c, cs.dropWhile fun c => !isSpace c)

/-- An unquoted value, and the text behind it. -/
def splitBare : Text → Text × Text
  | [] => ([], [])
  | c :: cs =>
      if c = sigil then
        let run := splitRun (afterExpression cs)
        (c :: (splitExpression cs).1 ++ run.1, run.2)
      else splitRun (c :: cs)

/-- A value as it is written in a text. -/
structure Value where
  value : Text
  quote : Char
  rest : Text

/-- The value at the front of a text. -/
def readValue : Text → Value
  | [] => ⟨[], '"', []⟩
  | c :: cs =>
      if isQuote c then
        match splitQuoted? c cs with
        | some (value, rest) => ⟨value, c, rest⟩
        | none => ⟨cs, c, []⟩
      else
        let bare := splitBare (c :: cs)
        ⟨bare.1, '"', bare.2⟩

/-- The attribute that starts with `c`, which is no space, and the text behind it. -/
def read (c : Char) (cs : Text) : Attribute × Text :=
  match splitName? (c :: cs) with
  | none => ({ name := c :: (splitRun cs).1 }, (splitRun cs).2)
  | some (name, rest) =>
      match afterEquals? rest with
      | none => ({ name := name }, rest)
      | some rest =>
          let v := readValue rest
          ({ name := name, value := some v.value, quote := some [v.quote] }, v.rest)

end Parts

section Progress

theorem splitSigil_eq (cs : Text) : (splitSigil cs).1 ++ (splitSigil cs).2 = cs := by
  unfold splitSigil
  split <;> rfl

theorem splitName?_eq {cs name rest : Text} (h : splitName? cs = some (name, rest)) :
    cs = name ++ rest ∧ name ≠ [] := by
  unfold splitName? at h
  split at h
  · cases h
  · rename_i c run hrun
    cases h
    refine ⟨?_, by simp⟩
    rw [← hrun, List.append_assoc, List.takeWhile_append_dropWhile, splitSigil_eq]

theorem afterEquals?_suffix {cs rest : Text} (h : afterEquals? cs = some rest) : rest <:+ cs := by
  unfold afterEquals? at h
  split at h
  · rename_i tail htail
    cases h
    refine (List.dropWhile_suffix _).trans ((List.suffix_cons '=' tail).trans ?_)
    rw [← htail]
    exact List.dropWhile_suffix _
  · cases h

theorem splitQuoted?_eq {quote : Char} {cs value rest : Text}
    (h : splitQuoted? quote cs = some (value, rest)) : cs = value ++ quote :: rest := by
  fun_induction splitQuoted? quote cs generalizing value with
  | case1 => cases h
  | case2 cs =>
      cases h
      rfl
  | case3 cs _ ih =>
      obtain ⟨⟨inner, tail⟩, hi, he⟩ := Option.map_eq_some_iff.1 h
      cases he
      conv => lhs; rw [← splitExpression_append cs]
      rw [afterExpression] at hi ih
      rw [ih hi]
      simp
  | case4 c cs _ _ ih =>
      obtain ⟨⟨inner, tail⟩, hi, he⟩ := Option.map_eq_some_iff.1 h
      cases he
      rw [ih hi]
      rfl

theorem splitRun_append (cs : Text) : (splitRun cs).1 ++ (splitRun cs).2 = cs :=
  List.takeWhile_append_dropWhile

theorem splitBare_append (cs : Text) : (splitBare cs).1 ++ (splitBare cs).2 = cs := by
  cases cs with
  | nil => rfl
  | cons c cs =>
      simp only [splitBare]
      split
      · simp [splitRun_append, afterExpression, splitExpression_append]
      · exact splitRun_append _

theorem readValue_suffix (cs : Text) : (readValue cs).rest <:+ cs := by
  cases cs with
  | nil => exact List.suffix_refl _
  | cons c cs =>
      simp only [readValue]
      split
      · split
        · rename_i value rest h
          rw [splitQuoted?_eq h]
          exact ⟨c :: (value ++ [c]), by simp⟩
        · exact List.nil_suffix
      · exact ⟨_, splitBare_append (c :: cs)⟩

theorem read_length_le (c : Char) (cs : Text) : (read c cs).2.length ≤ cs.length := by
  unfold read
  split
  · exact (List.dropWhile_suffix _).length_le
  · rename_i name rest hname
    obtain ⟨heq, hne⟩ := splitName?_eq hname
    have hlen : rest.length ≤ cs.length := by
      have := congrArg List.length heq
      have := List.length_pos_iff.2 hne
      simp at *
      omega
    split
    · exact hlen
    · rename_i rest' heq'
      exact Nat.le_trans
        ((readValue_suffix rest').trans (afterEquals?_suffix heq')).length_le hlen

end Progress

/-- The attributes of a text, in order. -/
def readAll (cs : Text) : List Attribute :=
  match _h : afterSpaces cs with
  | [] => []
  | c :: rest => (read c rest).1 :: readAll (read c rest).2
  termination_by cs.length
  decreasing_by
    have hle := (afterSpaces_suffix cs).length_le
    have := read_length_le c rest
    simp [_h] at hle
    omega

end Attribute

end RazorLayout

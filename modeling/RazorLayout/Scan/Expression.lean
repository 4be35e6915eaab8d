import RazorLayout.Scan.Group

/-!
# Embedded expressions

An expression stands behind a sigil.  It is a parenthesised group, a bracketed group, or an
identifier with any number of members `.name`, indices `[…]` and calls `(…)` behind it.  A group
that is never closed takes the rest of the text.

Main statement: `splitExpression_append`, the expression and the rest make up the text.
-/

namespace RazorLayout

section Skipping

/-- The text behind the ASCII spaces at its front. -/
def afterSpaces (cs : Text) : Text :=
  cs.dropWhile isSpace

/-- The text behind the identifier characters at its front. -/
def afterIdentifier (cs : Text) : Text :=
  cs.dropWhile isIdentifierChar

theorem afterSpaces_suffix (cs : Text) : afterSpaces cs <:+ cs :=
  List.dropWhile_suffix _

theorem afterIdentifier_suffix (cs : Text) : afterIdentifier cs <:+ cs :=
  List.dropWhile_suffix _

end Skipping

section Expressions

/-- The members, indices and calls at the front of a text, and the text behind them. -/
def splitAccessors : Text → Text × Text
  | '.' :: cs =>
      let tail := splitAccessors (afterIdentifier cs)
      ('.' :: cs.takeWhile isIdentifierChar ++ tail.1, tail.2)
  | '[' :: cs =>
      let tail := splitAccessors (afterGroup .brackets cs)
      ('[' :: groupText .brackets cs ++ tail.1, tail.2)
  | '(' :: cs =>
      let tail := splitAccessors (afterGroup .parens cs)
      ('(' :: groupText .parens cs ++ tail.1, tail.2)
  | cs => ([], cs)
  termination_by cs => cs.length
  decreasing_by
    · exact Nat.lt_succ_of_le (afterIdentifier_suffix cs).length_le
    · exact Nat.lt_succ_of_le (afterGroup_suffix _ cs).length_le
    · exact Nat.lt_succ_of_le (afterGroup_suffix _ cs).length_le

/-- The expression at the front of a text, and the text behind it.  Where no expression starts,
nothing is read. -/
def splitExpression : Text → Text × Text
  | [] => ([], [])
  | c :: cs =>
      if c = '(' then (c :: groupText .parens cs, afterGroup .parens cs)
      else if c = '[' then (c :: groupText .brackets cs, afterGroup .brackets cs)
      else if isIdentifierStart c then
        let tail := splitAccessors (afterIdentifier cs)
        (c :: cs.takeWhile isIdentifierChar ++ tail.1, tail.2)
      else ([], c :: cs)

/-- The text behind the expression at its front. -/
def afterExpression (cs : Text) : Text :=
  (splitExpression cs).2

end Expressions

section Lemmas

theorem takeWhile_afterIdentifier (cs : Text) :
    cs.takeWhile isIdentifierChar ++ afterIdentifier cs = cs :=
  List.takeWhile_append_dropWhile

theorem splitAccessors_append (cs : Text) :
    (splitAccessors cs).1 ++ (splitAccessors cs).2 = cs := by
  fun_induction splitAccessors cs with
  | case1 cs tail ih => simp [tail, ih, takeWhile_afterIdentifier]
  | case2 cs tail ih => simp [tail, ih, groupText_append]
  | case3 cs tail ih => simp [tail, ih, groupText_append]
  | case4 cs => rfl

theorem splitExpression_append (cs : Text) :
    (splitExpression cs).1 ++ (splitExpression cs).2 = cs := by
  cases cs with
  | nil => rfl
  | cons c cs =>
      simp only [splitExpression]
      split
      · simp [groupText_append]
      · split
        · simp [groupText_append]
        · split
          · simp [splitAccessors_append, takeWhile_afterIdentifier]
          · rfl

theorem afterExpression_suffix (cs : Text) : afterExpression cs <:+ cs :=
  ⟨(splitExpression cs).1, splitExpression_append cs⟩

end Lemmas

end RazorLayout

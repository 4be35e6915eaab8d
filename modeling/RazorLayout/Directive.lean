import RazorLayout.Scan.Expression
import RazorLayout.Vocabulary

/-!
# Line directives

A line directive is a sigil, one of the directive names and the rest of the line.  A name with a
member, a call or an index behind it is an expression and not a directive.
-/

namespace RazorLayout

/-- Whether the text goes on with a member, a call or an index. -/
def startsAccessor : Text → Bool
  | c :: _ => c == '.' || c == '(' || c == '['
  | [] => false

/-- The line directive at the front of a text, and the text behind it; the line feed is not part of
the directive. -/
def splitDirective? : Text → Option (Text × Text)
  | '@' :: cs =>
      if lineDirectives.contains (cs.takeWhile isIdentifierChar) &&
          !startsAccessor (afterIdentifier cs) then
        some ('@' :: cs.takeWhile (fun c => c != '\n'), cs.dropWhile fun c => c != '\n')
      else none
  | _ => none

theorem splitDirective?_eq {cs raw rest : Text} (h : splitDirective? cs = some (raw, rest)) :
    cs = raw ++ rest ∧ raw ≠ [] := by
  unfold splitDirective? at h
  split at h
  · split at h
    · cases h
      exact ⟨by simp, by simp⟩
    · cases h
  · cases h

end RazorLayout

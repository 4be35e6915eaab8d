import RazorLayout.Block.Reader
import RazorLayout.Text.Margin
import RazorLayout.Text.Word

/-!
# Member blocks that own their lines

A document is cut into the member blocks that share no line with anything else and the markup
between them.

The search looks for the keyword of a member block behind a sigil, with blanks up to the opening
brace.  The sigil must not follow a word character or another sigil.  A block that shares a line
with something else stays part of the markup, and a block that is never closed ends the search.
-/

namespace RazorLayout

/-- A member block that owns its lines, numbered from zero. -/
structure Region where
  keyword : Keyword
  startLine : Nat
  endLine : Nat
  body : Text
  deriving DecidableEq, Repr

/-- Where the search stands. -/
structure Cursor where
  /-- The number of line feeds in front. -/
  line : Nat := 0
  /-- Whether the current line is blank so far. -/
  blankSoFar : Bool := true
  /-- The character in front. -/
  previous : Option Char := none
  deriving DecidableEq, Repr

namespace Cursor

/-- The cursor behind one more character. -/
def step (cursor : Cursor) (c : Char) : Cursor :=
  if c = '\n' then ⟨cursor.line + 1, true, some c⟩
  else ⟨cursor.line, cursor.blankSoFar && isBlank c, some c⟩

/-- The cursor behind a text. -/
def advance (cursor : Cursor) (cs : Text) : Cursor :=
  cs.foldl step cursor

/-- Whether a sigil here would be part of a word or of another sigil. -/
def isJoined (cursor : Cursor) : Bool :=
  match cursor.previous with
  | none => false
  | some c => c == sigil || isWordChar c

end Cursor

section Search

/-- The text behind the opening brace of a block with this keyword. -/
def afterMemberOpening? (keyword : Keyword) (cs : Text) : Option Text :=
  match afterWord? (sigil :: keyword.text) cs with
  | some ('{' :: rest) => some rest
  | _ => none

/-- The keyword of the member block that opens at the front of a text, and the text behind its
opening brace. -/
def readMemberOpening? (cs : Text) : Option (Keyword × Text) :=
  match afterMemberOpening? .codeMembers cs with
  | some rest => some (.codeMembers, rest)
  | none => (afterMemberOpening? .functionMembers cs).map fun rest => (.functionMembers, rest)

/-- The member block that opens at the cursor, and the text behind its opening brace. -/
def memberAt? (cursor : Cursor) (cs : Text) : Option (Keyword × Text) :=
  match cs with
  | '@' :: _ => if cursor.isJoined then none else readMemberOpening? cs
  | _ => none

theorem afterMemberOpening?_suffix {keyword : Keyword} {cs rest : Text}
    (h : afterMemberOpening? keyword cs = some rest) : rest <:+ cs := by
  unfold afterMemberOpening? at h
  split at h
  · rename_i tail htail
    cases h
    exact (List.suffix_cons _ _).trans (afterWord?_suffix htail)
  · cases h

theorem memberAt?_suffix {cursor : Cursor} {cs rest : Text} {keyword : Keyword}
    (h : memberAt? cursor cs = some (keyword, rest)) : rest <:+ cs := by
  unfold memberAt? at h
  split at h
  · split at h
    · cases h
    · unfold readMemberOpening? at h
      split at h
      · rename_i ho
        cases h
        exact afterMemberOpening?_suffix ho
      · obtain ⟨tail, ho, he⟩ := Option.map_eq_some_iff.1 h
        cases he
        exact afterMemberOpening?_suffix ho
  · cases h

/-- The part of a text on the current line. -/
def lineRest (cs : Text) : Text :=
  cs.takeWhile fun c => c != '\n'

/-- The member blocks from the cursor on that own their lines. -/
def regionsFrom (cursor : Cursor) : Text → List Region
  | [] => []
  | c :: cs =>
      match _h : memberAt? cursor (c :: cs) with
      | none => regionsFrom (cursor.step c) cs
      | some (keyword, inner) =>
          match _hg : splitGroup .braces inner with
          | none => []
          | some (body, rest) =>
              let closing := cursor.advance (Text.front (c :: cs) rest)
              if cursor.blankSoFar && Text.isBlankText (lineRest rest) then
                ⟨keyword, cursor.line, closing.line, body⟩ ::
                  regionsFrom (closing.advance (lineRest rest))
                    (rest.dropWhile fun c => c != '\n')
              else regionsFrom closing rest
  termination_by cs => cs.length
  decreasing_by
    · exact Nat.lt_succ_self _
    · exact Nat.lt_of_le_of_lt (List.dropWhile_suffix _).length_le
        (Nat.lt_of_lt_of_le (splitGroup_length_lt _hg) (memberAt?_suffix _h).length_le)
    · exact Nat.lt_of_lt_of_le (splitGroup_length_lt _hg) (memberAt?_suffix _h).length_le

/-- The member blocks of a text that own their lines, in order. -/
def findRegions (cs : Text) : List Region :=
  regionsFrom {} cs

end Search

section Wrapping

/-- The text between the braces of a member block. -/
def memberBody? (cs : Text) : Option Text :=
  (splitBraces (cs.dropWhile fun c => c != '{')).map Prod.fst

/-- Code put back between the braces of a member block. -/
def wrapMembers (keyword : Text) (indentSize : Nat) (code : Text) : Text :=
  let lines := Text.reindent (Text.spaces indentSize) code
  Text.unlines ((sigil :: keyword ++ " \x7b".toList) :: lines ++ [['}']])

end Wrapping

end RazorLayout

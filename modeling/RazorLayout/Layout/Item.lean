import RazorLayout.Token.Basic

/-!
# Items

The layout places items.  An item is one token, or an element that is written as one piece with
its content:

* a *preserved* element, up to its first closing tag, with its content as it is;
* an *inline* element, whose content is single-line text only, with that text trimmed.

Which tokens form an item depends on the tokens alone.
-/

namespace RazorLayout

/-- What the layout places. -/
inductive Item where
  | preserved (tag : Tag) (content : Text)
  | inline (tag : Tag) (content : Text)
  | openTag (tag : Tag)
  | selfClosingTag (tag : Tag)
  | closeTag (name : Text)
  | text (raw : Text)
  | comment (raw : Text)
  | doctype (raw : Text)
  | directive (raw : Text)
  | block (raw : Text)
  deriving DecidableEq, Repr

namespace Token

/-- Whether the token closes the element with this lower-case name. -/
def closes (name : Text) (t : Token) : Bool :=
  match t.kind with
  | .closeTag other => Text.lower other == name
  | _ => false

end Token

namespace Item

section Elements

/-- The tokens up to the closing tag of an element, and the tokens behind it. -/
def splitClose? (name : Text) : List Token → Option (List Token × List Token)
  | [] => none
  | t :: ts =>
      if t.closes name then some ([], ts)
      else (splitClose? name ts).map fun parts => (t :: parts.1, parts.2)

/-- Adds a text to the texts of an inline element, unless it is empty. -/
def consSolid (part : Text) (parts : List Text) : List Text :=
  if part.isEmpty then parts else part :: parts

/-- The single-line texts up to the closing tag of an element, trimmed, and the tokens behind it.
There is no result when anything else comes first. -/
def splitInline? (name : Text) : List Token → Option (List Text × List Token)
  | [] => none
  | t :: ts =>
      if t.closes name then some ([], ts)
      else if t.kind = .text ∧ Text.isMultiline t.raw = false then
        (splitInline? name ts).map fun parts => (consSolid (Text.strip t.raw) parts.1, parts.2)
      else none

/-- The content of an element that is preserved, and the tokens behind it. -/
def splitPreserved? (tag : Tag) (ts : List Token) : Option (List Token × List Token) :=
  if isPreservedName tag.name then splitClose? (Text.lower tag.name) ts else none

/-- The item that an opening tag starts, and the tokens behind it. -/
def ofOpenTag (tag : Tag) (ts : List Token) : Item × List Token :=
  match splitPreserved? tag ts with
  | some (content, rest) => (.preserved tag (joinRaw content), rest)
  | none =>
      match splitInline? (Text.lower tag.name) ts with
      | some (parts, rest) => (.inline tag (Text.joinWith [' '] parts), rest)
      | none => (.openTag tag, ts)

end Elements

section Progress

theorem splitClose?_length_le {name : Text} {ts content rest : List Token}
    (h : splitClose? name ts = some (content, rest)) : rest.length ≤ ts.length := by
  induction ts generalizing content with
  | nil => cases h
  | cons t ts ih =>
      unfold splitClose? at h
      split at h
      · cases h
        exact Nat.le_succ _
      · obtain ⟨⟨inner, tail⟩, hi, he⟩ := Option.map_eq_some_iff.1 h
        cases he
        exact Nat.le_succ_of_le (ih hi)

theorem splitInline?_length_le {name : Text} {ts rest : List Token} {parts : List Text}
    (h : splitInline? name ts = some (parts, rest)) : rest.length ≤ ts.length := by
  induction ts generalizing parts with
  | nil => cases h
  | cons t ts ih =>
      unfold splitInline? at h
      split at h
      · cases h
        exact Nat.le_succ _
      · split at h
        · obtain ⟨⟨inner, tail⟩, hi, he⟩ := Option.map_eq_some_iff.1 h
          cases he
          exact Nat.le_succ_of_le (ih hi)
        · cases h

theorem ofOpenTag_length_le (tag : Tag) (ts : List Token) :
    (ofOpenTag tag ts).2.length ≤ ts.length := by
  unfold ofOpenTag
  split
  · rename_i h
    unfold splitPreserved? at h
    split at h
    · exact splitClose?_length_le h
    · cases h
  · split
    · rename_i h
      exact splitInline?_length_le h
    · exact Nat.le_refl _

end Progress

/-- The item of a token that starts no element. -/
def ofToken (t : Token) : Item :=
  match t.kind with
  | .openTag tag => .openTag tag
  | .selfClosingTag tag => .selfClosingTag tag
  | .closeTag name => .closeTag name
  | .text => .text t.raw
  | .comment => .comment t.raw
  | .doctype => .doctype t.raw
  | .directive => .directive t.raw
  | .block => if Text.startsWith "@*".toList t.raw then .comment t.raw else .block t.raw

/-- The items that tokens form. -/
def ofTokens : List Token → List Item
  | [] => []
  | t :: ts =>
      match t.kind with
      | .openTag tag => (ofOpenTag tag ts).1 :: ofTokens (ofOpenTag tag ts).2
      | _ => ofToken t :: ofTokens ts
  termination_by ts => ts.length
  decreasing_by
    · exact Nat.lt_succ_of_le (ofOpenTag_length_le tag ts)
    · exact Nat.lt_succ_self _

end Item

end RazorLayout

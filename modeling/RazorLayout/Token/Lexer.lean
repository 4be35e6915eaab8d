import RazorLayout.Token.Basic
import RazorLayout.Attribute.Reader
import RazorLayout.Block.Reader
import RazorLayout.Directive

/-!
# Cutting a template into tokens

Input.  Any text.

Algorithm.  At each position the first recognizer that applies takes a piece: block, directive,
comment, doctype, closing tag, opening tag.  Where none applies, text runs up to the next place at
which a construct may start.  A construct that is never finished takes the rest of the template as
text.  The content of a preserved element is one piece of text up to its closing tag.

Results.  Every piece is at least one character long (`readToken_raw_ne_nil`), and together the
pieces are the template (`joinRaw_tokenize`).
-/

namespace RazorLayout

section Recognizers

/-- A construct that is never finished: all of the text, as text. -/
def unfinished (cs : Text) : Token × Text :=
  (⟨.text, cs⟩, [])

/-- A block. -/
def readBlock? (cs : Text) : Option (Token × Text) :=
  (Block.read? cs).map fun block => (⟨.block, Text.front cs block.2⟩, block.2)

/-- A line directive. -/
def readDirective? (cs : Text) : Option (Token × Text) :=
  (splitDirective? cs).map fun parts => (⟨.directive, parts.1⟩, parts.2)

/-- The characters that open a comment. -/
def commentOpening : Text := "<!--".toList

/-- The characters that close a comment. -/
def commentClosing : Text := "-->".toList

/-- A comment. -/
def readComment? (cs : Text) : Option (Token × Text) :=
  (Text.after? commentOpening cs).map fun inner =>
    match Text.splitAt? commentClosing inner with
    | some (content, rest) =>
        (⟨.comment, commentOpening ++ content ++ commentClosing⟩, rest)
    | none => unfinished cs

/-- The text in front of the next closing angle bracket. -/
def beforeBracket (cs : Text) : Text :=
  cs.takeWhile fun c => c != '>'

/-- The text behind the next closing angle bracket, if there is one. -/
def afterBracket? (cs : Text) : Option Text :=
  match cs.dropWhile fun c => c != '>' with
  | [] => none
  | _ :: rest => some rest

/-- The characters that open a document type declaration, in lower case. -/
def doctypeOpening : Text := "<!doctype".toList

/-- A document type declaration. -/
def readDoctype? (cs : Text) : Option (Token × Text) :=
  if Text.lower (cs.take doctypeOpening.length) = doctypeOpening then
    match afterBracket? (cs.drop doctypeOpening.length) with
    | some rest =>
        some (⟨.doctype, cs.take doctypeOpening.length ++
          beforeBracket (cs.drop doctypeOpening.length) ++ ['>']⟩, rest)
    | none => some (unfinished cs)
  else none

/-- The tag name at the front of a text; it starts with a letter. -/
def leadingName : Text → Text
  | [] => []
  | c :: cs => if c.isAlpha then c :: cs.takeWhile isNameChar else []

/-- The kind of a closing tag.  Without a name it is text. -/
def closeKind (inner : Text) : TokenKind :=
  match leadingName (afterSpaces inner) with
  | [] => .text
  | c :: name => .closeTag (c :: name)

/-- The characters that open a closing tag. -/
def closeOpening : Text := "</".toList

/-- A closing tag. -/
def readCloseTag? (cs : Text) : Option (Token × Text) :=
  (Text.after? closeOpening cs).map fun inner =>
    match afterBracket? inner with
    | some rest =>
        (⟨closeKind (beforeBracket inner), closeOpening ++ beforeBracket inner ++ ['>']⟩, rest)
    | none => unfinished cs

/-- The text in front of the bracket that ends a tag, and the text behind it.  Quoted values and
embedded expressions are passed over. -/
def splitTag? : Option Char → Text → Option (Text × Text)
  | _, [] => none
  | some quote, c :: cs =>
      if c = quote then
        (splitTag? none cs).map fun parts => (c :: parts.1, parts.2)
      else if c = sigil then
        (splitTag? (some quote) (afterExpression cs)).map
          fun parts => (c :: (splitExpression cs).1 ++ parts.1, parts.2)
      else (splitTag? (some quote) cs).map fun parts => (c :: parts.1, parts.2)
  | none, c :: cs =>
      if isQuote c then
        (splitTag? (some c) cs).map fun parts => (c :: parts.1, parts.2)
      else if c = sigil then
        (splitTag? none (afterExpression cs)).map
          fun parts => (c :: (splitExpression cs).1 ++ parts.1, parts.2)
      else if c = '>' then some ([], cs)
      else (splitTag? none cs).map fun parts => (c :: parts.1, parts.2)
  termination_by _ cs => cs.length
  decreasing_by
    all_goals first
      | exact Nat.lt_succ_of_le (afterExpression_suffix cs).length_le
      | exact Nat.lt_succ_self _

/-- The tag whose characters between the angle brackets are `inner`, and whether it ends with a
slash. -/
def tagOf (inner : Text) : Tag × Bool :=
  let name := inner.takeWhile isNameChar
  let tail := Text.stripEnd (inner.dropWhile isNameChar)
  if tail.getLast? = some '/' then (⟨name, Attribute.readAll tail.dropLast⟩, true)
  else (⟨name, Attribute.readAll tail⟩, false)

/-- The kind of an opening tag.  A void element is complete with or without a slash. -/
def tagKind (inner : Text) : TokenKind :=
  let (tag, slash) := tagOf inner
  if slash || isVoidName tag.name then .selfClosingTag tag else .openTag tag

/-- An opening tag. -/
def readOpenTag? : Text → Option (Token × Text)
  | '<' :: c :: cs =>
      if c.isAlpha then
        match splitTag? none (c :: cs) with
        | some (inner, rest) => some (⟨tagKind inner, '<' :: inner ++ ['>']⟩, rest)
        | none => some (unfinished ('<' :: c :: cs))
      else none
  | _ => none

/-- The construct at the front of a text, and the text behind it. -/
def readConstruct? (cs : Text) : Option (Token × Text) :=
  (readBlock? cs).or <| (readDirective? cs).or <| (readComment? cs).or <|
    (readDoctype? cs).or <| (readCloseTag? cs).or (readOpenTag? cs)

end Recognizers

section RunningText

/-- Whether text has to stop here because a construct may start. -/
def startsConstruct : Text → Bool
  | '<' :: c :: _ => c.isAlpha || c == '/' || c == '!'
  | '@' :: cs => (Block.read? ('@' :: cs)).isSome || (splitDirective? ('@' :: cs)).isSome
  | _ => false

/-- The text up to the next place at which a construct may start, and the text from there on. -/
def splitText : Text → Text × Text
  | [] => ([], [])
  | c :: cs =>
      if startsConstruct (c :: cs) then ([], c :: cs)
      else
        let parts := splitText cs
        (c :: parts.1, parts.2)

/-- The piece that starts with `c`, and the text behind it. -/
def readToken (c : Char) (cs : Text) : Token × Text :=
  match readConstruct? (c :: cs) with
  | some piece => piece
  | none => (⟨.text, c :: (splitText cs).1⟩, (splitText cs).2)

end RunningText

section PreservedContent

/-- Whether the closing tag of `name` stands at the front of a text. -/
def startsCloseTag (name : Text) : Text → Bool
  | '<' :: '/' :: cs =>
      Text.lower (cs.take name.length) == name &&
        (match cs.drop name.length with
          | c :: _ => !isNameChar c
          | [] => true)
  | _ => false

/-- The text up to the closing tag of `name`, and the text from there on. -/
def splitCloseTag? (name : Text) : Text → Option (Text × Text)
  | [] => none
  | c :: cs =>
      if startsCloseTag name (c :: cs) then some ([], c :: cs)
      else (splitCloseTag? name cs).map fun parts => (c :: parts.1, parts.2)

/-- The content that is kept behind a piece of this kind, and the text behind it.  Without a closing
tag nothing is kept. -/
def splitContent (kind : TokenKind) (cs : Text) : Text × Text :=
  match kind.preservedName? with
  | none => ([], cs)
  | some name => (splitCloseTag? name cs).getD ([], cs)

/-- Content as a piece of its own; no content makes no piece. -/
def contentToken : Text → List Token
  | [] => []
  | c :: cs => [⟨.text, c :: cs⟩]

end PreservedContent

section Lemmas

/-- A piece and the text behind it are a text that has been cut: nothing is lost and something was
read. -/
def Cuts (cs : Text) (piece : Token × Text) : Prop :=
  cs = piece.1.raw ++ piece.2 ∧ piece.1.raw ≠ []

theorem cuts_unfinished {cs : Text} (h : cs ≠ []) : Cuts cs (unfinished cs) :=
  ⟨by simp [unfinished], h⟩

theorem afterBracket?_eq {cs rest : Text} (h : afterBracket? cs = some rest) :
    cs = beforeBracket cs ++ '>' :: rest := by
  unfold afterBracket? at h
  split at h
  · cases h
  · rename_i c tail htail
    cases h
    have hc : c = '>' := by
      have := List.head_dropWhile_not (l := cs) (fun c => c != '>') (by simp [htail])
      simpa [htail] using this
    have := List.takeWhile_append_dropWhile (p := fun c => c != '>') (l := cs)
    rw [htail, hc] at this
    exact this.symm

theorem splitTag?_eq {state : Option Char} {cs inner rest : Text}
    (h : splitTag? state cs = some (inner, rest)) : cs = inner ++ '>' :: rest := by
  have expression : ∀ {cs inner rest : Text},
      (afterExpression cs = inner ++ '>' :: rest) →
      cs = (splitExpression cs).1 ++ inner ++ '>' :: rest := by
    intro cs inner rest he
    conv => lhs; rw [← splitExpression_append cs]
    rw [afterExpression] at he
    simp [he]
  fun_induction splitTag? state cs generalizing inner with
  | case1 => cases h
  | case2 quote cs ih =>
      obtain ⟨⟨inner', tail⟩, hi, he⟩ := Option.map_eq_some_iff.1 h
      cases he
      rw [ih hi]
      rfl
  | case3 quote cs _ ih =>
      obtain ⟨⟨inner', tail⟩, hi, he⟩ := Option.map_eq_some_iff.1 h
      cases he
      conv => lhs; rw [expression (ih hi)]
      rfl
  | case4 quote c cs _ _ ih =>
      obtain ⟨⟨inner', tail⟩, hi, he⟩ := Option.map_eq_some_iff.1 h
      cases he
      rw [ih hi]
      rfl
  | case5 c cs _ ih =>
      obtain ⟨⟨inner', tail⟩, hi, he⟩ := Option.map_eq_some_iff.1 h
      cases he
      rw [ih hi]
      rfl
  | case6 cs _ ih =>
      obtain ⟨⟨inner', tail⟩, hi, he⟩ := Option.map_eq_some_iff.1 h
      cases he
      conv => lhs; rw [expression (ih hi)]
      rfl
  | case7 cs =>
      cases h
      rfl
  | case8 c cs _ _ _ ih =>
      obtain ⟨⟨inner', tail⟩, hi, he⟩ := Option.map_eq_some_iff.1 h
      cases he
      rw [ih hi]
      rfl

theorem readBlock?_cuts {cs : Text} {piece : Token × Text} (h : readBlock? cs = some piece) :
    Cuts cs piece := by
  obtain ⟨⟨block, rest⟩, hb, rfl⟩ := Option.map_eq_some_iff.1 h
  exact ⟨(Text.front_append (Block.read?_suffix hb)).symm, Block.front_read?_ne_nil hb⟩

theorem readDirective?_cuts {cs : Text} {piece : Token × Text}
    (h : readDirective? cs = some piece) : Cuts cs piece := by
  obtain ⟨⟨raw, rest⟩, hd, rfl⟩ := Option.map_eq_some_iff.1 h
  exact splitDirective?_eq hd

theorem readComment?_cuts {cs : Text} {piece : Token × Text} (h : readComment? cs = some piece) :
    Cuts cs piece := by
  obtain ⟨inner, hi, he⟩ := Option.map_eq_some_iff.1 h
  have hcs := Text.after?_eq_some_iff.1 hi
  split at he
  · rename_i content rest hs
    cases he
    refine ⟨?_, by simp [commentOpening]⟩
    rw [hcs, Text.splitAt?_eq hs]
    simp
  · cases he
    exact cuts_unfinished (by rw [hcs]; simp [commentOpening])

theorem readDoctype?_cuts {cs : Text} {piece : Token × Text} (h : readDoctype? cs = some piece) :
    Cuts cs piece := by
  unfold readDoctype? at h
  by_cases hopening : Text.lower (cs.take doctypeOpening.length) = doctypeOpening
  · rw [if_pos hopening] at h
    cases hb : afterBracket? (cs.drop doctypeOpening.length) with
    | some rest =>
        simp only [hb, Option.some.injEq] at h
        subst h
        refine ⟨?_, by simp⟩
        conv => lhs; rw [← List.take_append_drop doctypeOpening.length cs, afterBracket?_eq hb]
        simp
    | none =>
        simp only [hb, Option.some.injEq] at h
        subst h
        refine cuts_unfinished fun hnil => ?_
        rw [hnil] at hopening
        exact absurd hopening (by decide)
  · rw [if_neg hopening] at h
    cases h

theorem readCloseTag?_cuts {cs : Text} {piece : Token × Text} (h : readCloseTag? cs = some piece) :
    Cuts cs piece := by
  obtain ⟨inner, hi, he⟩ := Option.map_eq_some_iff.1 h
  have hcs := Text.after?_eq_some_iff.1 hi
  split at he
  · rename_i rest hb
    cases he
    refine ⟨?_, by simp [closeOpening]⟩
    conv => lhs; rw [hcs, afterBracket?_eq hb]
    simp
  · cases he
    exact cuts_unfinished (by rw [hcs]; simp [closeOpening])

theorem readOpenTag?_cuts {cs : Text} {piece : Token × Text} (h : readOpenTag? cs = some piece) :
    Cuts cs piece := by
  unfold readOpenTag? at h
  split at h
  · split at h
    · split at h
      · rename_i hs
        cases h
        refine ⟨?_, by simp⟩
        rw [splitTag?_eq hs]
        simp
      · cases h
        exact cuts_unfinished (by simp)
    · cases h
  · cases h

theorem readConstruct?_cuts {cs : Text} {piece : Token × Text}
    (h : readConstruct? cs = some piece) : Cuts cs piece := by
  simp only [readConstruct?, Option.or_eq_some_iff] at h
  rcases h with h | ⟨-, h | ⟨-, h | ⟨-, h | ⟨-, h | ⟨-, h⟩⟩⟩⟩⟩
  · exact readBlock?_cuts h
  · exact readDirective?_cuts h
  · exact readComment?_cuts h
  · exact readDoctype?_cuts h
  · exact readCloseTag?_cuts h
  · exact readOpenTag?_cuts h

theorem splitText_append (cs : Text) : (splitText cs).1 ++ (splitText cs).2 = cs := by
  induction cs with
  | nil => rfl
  | cons c cs ih =>
      simp only [splitText]
      split
      · rfl
      · simp [ih]

theorem readToken_cuts (c : Char) (cs : Text) : Cuts (c :: cs) (readToken c cs) := by
  unfold readToken
  split
  · rename_i h
    exact readConstruct?_cuts h
  · exact ⟨by simp [splitText_append], by simp⟩

theorem readToken_raw_ne_nil (c : Char) (cs : Text) : (readToken c cs).1.raw ≠ [] :=
  (readToken_cuts c cs).2

theorem readToken_length_le (c : Char) (cs : Text) : (readToken c cs).2.length ≤ cs.length := by
  obtain ⟨heq, hne⟩ := readToken_cuts c cs
  have := congrArg List.length heq
  have := List.length_pos_iff.2 hne
  simp at *
  omega

theorem splitCloseTag?_eq {name cs content rest : Text}
    (h : splitCloseTag? name cs = some (content, rest)) : cs = content ++ rest := by
  induction cs generalizing content with
  | nil => cases h
  | cons c cs ih =>
      unfold splitCloseTag? at h
      split at h
      · cases h
        rfl
      · obtain ⟨⟨inner, tail⟩, hi, he⟩ := Option.map_eq_some_iff.1 h
        cases he
        rw [ih hi]
        rfl

theorem splitContent_append (kind : TokenKind) (cs : Text) :
    (splitContent kind cs).1 ++ (splitContent kind cs).2 = cs := by
  unfold splitContent
  split
  · rfl
  · rename_i name _
    cases h : splitCloseTag? name cs with
    | none => rfl
    | some parts => exact (splitCloseTag?_eq h).symm

theorem splitContent_length_le (kind : TokenKind) (cs : Text) :
    (splitContent kind cs).2.length ≤ cs.length := by
  have := congrArg List.length (splitContent_append kind cs)
  simp at this
  omega

end Lemmas

/-- The pieces of a template. -/
def tokenize : Text → List Token
  | [] => []
  | c :: cs =>
      let piece := readToken c cs
      let content := splitContent piece.1.kind piece.2
      piece.1 :: (contentToken content.1 ++ tokenize content.2)
  termination_by cs => cs.length
  decreasing_by
    exact Nat.lt_succ_of_le
      (Nat.le_trans (splitContent_length_le _ _) (readToken_length_le c cs))

section RoundTrip

@[simp] theorem joinRaw_nil : joinRaw [] = [] := rfl

@[simp] theorem joinRaw_cons (t : Token) (ts : List Token) :
    joinRaw (t :: ts) = t.raw ++ joinRaw ts := rfl

@[simp] theorem joinRaw_append (ts us : List Token) :
    joinRaw (ts ++ us) = joinRaw ts ++ joinRaw us := by
  simp [joinRaw]

@[simp] theorem joinRaw_contentToken (cs : Text) : joinRaw (contentToken cs) = cs := by
  cases cs <;> simp [contentToken]

theorem joinRaw_tokenize (cs : Text) : joinRaw (tokenize cs) = cs := by
  fun_induction tokenize cs with
  | case1 => rfl
  | case2 c cs piece content ih =>
      have hcontent : content.1 ++ content.2 = piece.2 := splitContent_append _ _
      have hpiece : c :: cs = piece.1.raw ++ piece.2 := (readToken_cuts c cs).1
      simp [ih, hcontent, hpiece]

end RoundTrip

end RazorLayout

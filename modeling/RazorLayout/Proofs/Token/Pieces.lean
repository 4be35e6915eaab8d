import RazorLayout.Proofs.Tag.Spelling

/-!
# The first piece of a text

What stands at the front of a text decides its first token, and the rest is cut on its own.  There
is one equation for each construct that a forest is written with:

* `tokenize_text`, `tokenize_gap`: running text up to the next construct;
* `tokenize_openTag`, `tokenize_selfClosingTag`, `tokenize_closeTag`: tags;
* `tokenize_block`: blocks.

The other way round, `forall_mem_tokenize` carries what is known of the first token over to all
tokens of a text: a piece that is no text is not blank (`isBlankText_raw`), and a tag has a name and
stands between angle brackets (`tokenize_tag`).
-/

namespace RazorLayout

section Steps

theorem tokenize_of_readToken {c : Char} {cs rest : Text} {token : Token}
    (h : readToken c cs = (token, rest)) (hkind : token.kind.preservedName? = none) :
    tokenize (c :: cs) = token :: tokenize rest := by
  have hcontent : splitContent token.kind rest = ([], rest) := by
    simp [splitContent, hkind]
  rw [tokenize, h]
  simp only [hcontent]
  rfl

/-- A text that is one piece.  There is no content to keep behind it. -/
theorem tokenize_eq_singleton {c : Char} {cs : Text} {token : Token}
    (h : readToken c cs = (token, [])) : tokenize (c :: cs) = [token] := by
  have hcontent : splitContent token.kind [] = ([], []) := by
    unfold splitContent
    split <;> rfl
  rw [tokenize, h]
  simp only [hcontent, tokenize]
  rfl

theorem readToken_of_readConstruct? {c : Char} {cs : Text} {piece : Token × Text}
    (h : readConstruct? (c :: cs) = some piece) : readToken c cs = piece := by
  simp [readToken, h]

theorem exists_raw_eq_cons {c : Char} {cs rest : Text} {token : Token}
    (h : readToken c cs = (token, rest)) :
    ∃ tail, token.raw = c :: tail ∧ cs = tail ++ rest := by
  have hcuts : Cuts (c :: cs) (token, rest) := h ▸ readToken_cuts c cs
  obtain ⟨hcut, hne⟩ := hcuts
  obtain ⟨d, tail, hraw : token.raw = d :: tail⟩ := List.exists_cons_of_ne_nil hne
  rw [hraw, List.cons_append, List.cons.injEq] at hcut
  exact ⟨tail, by rw [hraw, hcut.1], hcut.2⟩

/-- Only an upper-case letter has another lower-case form. -/
theorem eq_of_toLower_eq {c d : Char} (h : c.toLower = d) (hd : d.isAlpha = false) : c = d := by
  by_cases hupper : c.isUpper = true
  · have hletter : c.toLower.isAlpha = true :=
      of_forall_ascii (P := fun c => c.isUpper = true → c.toLower.isAlpha = true) (by decide)
        (lt_of_isUpper hupper) hupper
    rw [h, hd] at hletter
    cases hletter
  · have hsame : c.toLower = c := by
      unfold Char.toLower
      split
      · rename_i hrange
        exact absurd (decide_eq_true hrange) hupper
      · rfl
    rw [← h, hsame]

/-- A document type declaration starts with an angle bracket and an exclamation mark. -/
theorem readDoctype?_eq_none {cs : Text} (h : ¬ ∃ rest, cs = '<' :: '!' :: rest) :
    readDoctype? cs = none := by
  have hopening : doctypeOpening = '<' :: '!' :: "doctype".toList := rfl
  rw [readDoctype?, if_neg]
  intro hlower
  rw [hopening, List.length_cons, List.length_cons] at hlower
  match cs with
  | [] => simp [Text.lower] at hlower
  | [c] => simp [Text.lower] at hlower
  | c :: d :: cs =>
      rw [List.take_succ_cons, List.take_succ_cons, Text.lower, List.map_cons, List.map_cons,
        List.cons.injEq, List.cons.injEq] at hlower
      have hc : c = '<' := eq_of_toLower_eq hlower.1 (by decide)
      have hd : d = '!' := eq_of_toLower_eq hlower.2.1 (by decide)
      exact h ⟨cs, by rw [hc, hd]⟩

end Steps

section RunningText

/-- A character that no construct starts with. -/
def isRunning (c : Char) : Bool :=
  c != '<' && c != '@'

theorem readConstruct?_eq_none {c : Char} (h : isRunning c = true) (cs : Text) :
    readConstruct? (c :: cs) = none := by
  simp only [isRunning, Bool.and_eq_true, bne_iff_ne] at h
  obtain ⟨hangle, hsigil⟩ := h
  have hblock : Block.read? (c :: cs) = none := by
    unfold Block.read?
    split <;> simp_all
  have hdirective : splitDirective? (c :: cs) = none := by
    unfold splitDirective?
    split <;> simp_all
  have hdoctype : readDoctype? (c :: cs) = none := by
    apply readDoctype?_eq_none
    rintro ⟨rest, hrest⟩
    cases hrest
    exact hangle rfl
  have hopen : readOpenTag? (c :: cs) = none := by
    unfold readOpenTag?
    split <;> simp_all
  have hangle' : '<' ≠ c := Ne.symm hangle
  simp [readConstruct?, readBlock?, hblock, readDirective?, hdirective, readComment?, Text.after?,
    commentOpening, hangle', hdoctype, readCloseTag?, closeOpening, hopen]

/-- A piece that is no text starts with a character that constructs start with. -/
theorem isRunning_eq_false_of_readToken {c : Char} {cs rest : Text} {token : Token}
    (h : readToken c cs = (token, rest)) (hkind : token.kind ≠ .text) : isRunning c = false := by
  by_contra hrunning
  rw [readToken, readConstruct?_eq_none (by simpa using hrunning)] at h
  cases h
  exact hkind rfl

/-- A fact about what is read at the front of a text, and about texts, is one about all pieces. -/
theorem forall_mem_tokenize {P : Token → Prop} (hread : ∀ c cs, P (readToken c cs).1)
    (htext : ∀ raw, P ⟨.text, raw⟩) (t : Text) : ∀ token ∈ tokenize t, P token := by
  fun_induction tokenize t with
  | case1 => simp
  | case2 c cs piece content ih =>
      refine List.forall_mem_cons.2 ⟨hread c cs, List.forall_mem_append.2 ⟨?_, ih⟩⟩
      -- Content that is kept is text.
      cases hchars : content.1 with
      | nil => simp [contentToken]
      | cons d ds => simpa [contentToken] using htext (d :: ds)

/-- A piece that is no text is not blank. -/
theorem isBlankText_raw (t : Text) :
    ∀ token ∈ tokenize t, token.kind ≠ .text → Text.isBlankText token.raw = false := by
  refine forall_mem_tokenize ?_ (fun _ hkind => absurd rfl hkind) t
  intro c cs hkind
  obtain ⟨tail, hraw, -⟩ := exists_raw_eq_cons (Prod.eta (readToken c cs)).symm
  have hstart := isRunning_eq_false_of_readToken (Prod.eta (readToken c cs)).symm hkind
  have hmark : c = '<' ∨ c = '@' := by
    simpa [isRunning, or_iff_not_imp_left] using hstart
  rw [hraw, Text.isBlankText, List.all_cons, Bool.and_eq_false_iff]
  rcases hmark with rfl | rfl <;> exact Or.inl (by decide)

theorem startsConstruct_eq_false {c : Char} (h : isRunning c = true) (cs : Text) :
    startsConstruct (c :: cs) = false := by
  simp only [isRunning, Bool.and_eq_true, bne_iff_ne] at h
  unfold startsConstruct
  split <;> simp_all

/-- A text behind which running text stops: nothing, or a construct. -/
def EndsText (rest : Text) : Prop :=
  rest = [] ∨ startsConstruct rest = true

theorem splitText_append_stop {x rest : Text} (hx : ∀ c ∈ x, isRunning c = true)
    (hrest : EndsText rest) : splitText (x ++ rest) = (x, rest) := by
  induction x with
  | nil =>
      rcases hrest with rfl | hrest
      · rfl
      · cases rest with
        | nil => rfl
        | cons c rest => simp [splitText, hrest]
  | cons c x ih =>
      have htail := ih fun d hd => hx d (List.mem_cons_of_mem c hd)
      simp [splitText, startsConstruct_eq_false (hx c List.mem_cons_self), htail]

theorem tokenize_text {x rest : Text} (hne : x ≠ []) (hx : ∀ c ∈ x, isRunning c = true)
    (hrest : EndsText rest) : tokenize (x ++ rest) = ⟨.text, x⟩ :: tokenize rest := by
  obtain ⟨c, x, rfl⟩ := List.exists_cons_of_ne_nil hne
  have hsplit : splitText (x ++ rest) = (x, rest) :=
    splitText_append_stop (fun d hd => hx d (List.mem_cons_of_mem c hd)) hrest
  have hread : readToken c (x ++ rest) = (⟨.text, c :: x⟩, rest) := by
    simp [readToken, readConstruct?_eq_none (hx c List.mem_cons_self), hsplit]
  exact tokenize_of_readToken hread rfl

theorem isRunning_of_isSpace {c : Char} (h : isSpace c = true) : isRunning c = true := by
  simp only [isRunning, Bool.and_eq_true, bne_iff_ne]
  constructor
  · rintro rfl
    exact absurd h (by decide)
  · rintro rfl
    exact absurd h (by decide)

theorem tokenize_gap {g rest : Text} (hg : Text.IsGap g) (hrest : EndsText rest) :
    tokenize (g ++ rest) = contentToken g ++ tokenize rest := by
  cases g with
  | nil => rfl
  | cons c g =>
      rw [tokenize_text (by simp) (fun d hd => isRunning_of_isSpace (hg d hd)) hrest]
      rfl

end RunningText

section Tags

theorem readToken_tag {tag : Tag} {ending : TagEnd} {t : Text} (hprintable : tag.isPrintable = true)
    (h : tag.Spells ending t) (rest : Text) :
    ∃ c cs, t ++ rest = c :: cs ∧ startsConstruct (c :: cs) = true ∧
      readToken c cs = (⟨if ending = .selfClosing ∨ isVoidName tag.name = true then
        .selfClosingTag tag else .openTag tag, t⟩, rest) := by
  obtain ⟨c, inside, rfl, hc, hsplit, htag⟩ := h.exists_inside hprintable
  have hmark : c ≠ '!' := by
    rintro rfl
    exact absurd hc (by decide)
  have hslash : c ≠ '/' := by
    rintro rfl
    exact absurd hc (by decide)
  have hkind : tagKind (c :: inside) = if ending = .selfClosing ∨ isVoidName tag.name = true then
      .selfClosingTag tag else .openTag tag := by
    simp [tagKind, htag]
  have hopen : readOpenTag? ('<' :: c :: (inside ++ '>' :: rest)) =
      some (⟨tagKind (c :: inside), '<' :: (c :: inside) ++ ['>']⟩, rest) := by
    have hfound : splitTag? none (c :: (inside ++ '>' :: rest)) = some (c :: inside, rest) :=
      hsplit rest
    simp [readOpenTag?, hc, hfound]
  have hdoctype : readDoctype? ('<' :: c :: (inside ++ '>' :: rest)) = none := by
    apply readDoctype?_eq_none
    rintro ⟨tail, htail⟩
    cases htail
    exact hmark rfl
  refine ⟨'<', c :: (inside ++ '>' :: rest), by simp, by simp [startsConstruct, hc], ?_⟩
  apply readToken_of_readConstruct?
  simp [readConstruct?, readBlock?, Block.read?, readDirective?, splitDirective?, readComment?,
    Text.after?, commentOpening, closeOpening, hmark.symm, hslash.symm, readCloseTag?,
    hdoctype, hopen, hkind]

theorem tokenize_openTag {tag : Tag} {t : Text} (hreadable : tag.isReadable = true)
    (hvoid : isVoidName tag.name = false) (hpreserved : isPreservedName tag.name = false)
    (h : tag.Spells .opening t) (rest : Text) :
    tokenize (t ++ rest) = ⟨.openTag tag, t⟩ :: tokenize rest := by
  obtain ⟨c, cs, hcons, -, hread⟩ := readToken_tag (Tag.isPrintable_of_isReadable hreadable) h rest
  rw [if_neg (by simp [hvoid])] at hread
  rw [hcons]
  exact tokenize_of_readToken hread (by simp [TokenKind.preservedName?, hpreserved])

theorem tokenize_selfClosingTag {tag : Tag} {t : Text} (hreadable : tag.isReadable = true)
    (h : tag.Spells .selfClosing t) (rest : Text) :
    tokenize (t ++ rest) = ⟨.selfClosingTag tag, t⟩ :: tokenize rest := by
  obtain ⟨c, cs, hcons, -, hread⟩ := readToken_tag (Tag.isPrintable_of_isReadable hreadable) h rest
  rw [if_pos (Or.inl rfl)] at hread
  rw [hcons]
  exact tokenize_of_readToken hread rfl

theorem Tag.Spells.startsConstruct {tag : Tag} {ending : TagEnd} {t : Text}
    (hreadable : tag.isReadable = true) (h : tag.Spells ending t) (rest : Text) :
    startsConstruct (t ++ rest) = true := by
  obtain ⟨c, cs, hcons, hstart, -⟩ := readToken_tag (Tag.isPrintable_of_isReadable hreadable) h rest
  rw [hcons]
  exact hstart

theorem closeKind_of_isTagName {name : Text} (h : isTagName name = true) :
    closeKind name = .closeTag name := by
  obtain ⟨c, cs, rfl, hc, hchars⟩ := isTagName_cases h
  have hspace : isSpace c = false := isSpace_eq_false_of_isNameChar (isNameChar_of_isAlpha hc)
  have htake : cs.takeWhile isNameChar = cs :=
    List.takeWhile_eq_self_iff.2 fun d hd => hchars d (List.mem_cons_of_mem c hd)
  simp [closeKind, Text.afterSpaces_of_not_isSpace hspace, leadingName, hc, htake]

theorem isLine_closingTag {name : Text} (h : isTagName name = true) :
    Text.IsLine (Context.closingTag name) := by
  obtain ⟨-, -, -, -, hchars⟩ := isTagName_cases h
  exact isLine_append.2 ⟨isLine_append.2 ⟨by decide, isLine_name hchars⟩, by decide⟩

theorem not_mem_beforeBracket (cs : Text) : '>' ∉ beforeBracket cs := by
  intro h
  have hne := List.mem_takeWhile_imp (p := fun c => c != '>') h
  cases hne

theorem beforeBracket_append {inside : Text} (h : '>' ∉ inside) (rest : Text) :
    beforeBracket (inside ++ '>' :: rest) = inside := by
  apply takeWhile_append_all
  · intro c hc
    rw [bne_iff_ne]
    rintro rfl
    exact h hc
  · simp

theorem afterBracket?_append {inside : Text} (h : '>' ∉ inside) (rest : Text) :
    afterBracket? (inside ++ '>' :: rest) = some rest := by
  have hdrop : (inside ++ '>' :: rest).dropWhile (fun c => c != '>') = '>' :: rest := by
    apply dropWhile_append_all
    · intro c hc
      rw [bne_iff_ne]
      rintro rfl
      exact h hc
    · simp
  rw [afterBracket?, hdrop]

theorem tokenize_closeTag {name : Text} (h : isTagName name = true) (rest : Text) :
    tokenize (Context.closingTag name ++ rest) =
      ⟨.closeTag name, Context.closingTag name⟩ :: tokenize rest := by
  obtain ⟨-, -, -, -, hchars⟩ := isTagName_cases h
  have hinside : '>' ∉ name := fun hmem => ne_of_isNameChar (hchars _ hmem) (by decide) rfl
  have htext : Context.closingTag name ++ rest = '<' :: '/' :: (name ++ '>' :: rest) := by
    simp [Context.closingTag]
  have hdoctype : readDoctype? ('<' :: '/' :: (name ++ '>' :: rest)) = none :=
    readDoctype?_eq_none (by simp)
  have hread : readToken '<' ('/' :: (name ++ '>' :: rest)) =
      (⟨.closeTag name, Context.closingTag name⟩, rest) := by
    apply readToken_of_readConstruct?
    simp [readConstruct?, readBlock?, Block.read?, readDirective?, splitDirective?, readComment?,
      Text.after?, commentOpening, closeOpening, readCloseTag?, hdoctype,
      beforeBracket_append hinside, afterBracket?_append hinside, closeKind_of_isTagName h,
      Context.closingTag]
  rw [htext]
  exact tokenize_of_readToken hread rfl

end Tags

section Names

theorem isTagName_takeWhile {c : Char} (hc : c.isAlpha = true) (cs : Text) :
    isTagName (c :: cs.takeWhile isNameChar) = true := by
  simp only [isTagName, hc, Bool.true_and, List.all_eq_true]
  exact fun d hd => List.mem_takeWhile_imp hd

theorem isTagName_of_closeKind {inner name : Text}
    (h : (closeKind inner).tagName? = some name) : isTagName name = true := by
  unfold closeKind at h
  split at h
  · cases h
  · rename_i c tail hname
    cases h
    cases hstart : afterSpaces inner with
    | nil => simp [hstart, leadingName] at hname
    | cons d cs =>
        rw [hstart, leadingName] at hname
        split at hname
        · rename_i hd
          rw [← hname]
          exact isTagName_takeWhile hd cs
        · cases hname

theorem isTagName_of_tagKind {c : Char} (hc : c.isAlpha = true) {cs name : Text}
    (h : (tagKind (c :: cs)).tagName? = some name) : isTagName name = true := by
  have hname : (tagOf (c :: cs)).1.name = (c :: cs).takeWhile isNameChar := by
    simp only [tagOf]
    split <;> rfl
  have htag : name = (tagOf (c :: cs)).1.name := by
    simp only [tagKind] at h
    split at h <;> exact (Option.some.inj h).symm
  rw [htag, hname, List.takeWhile_cons_of_pos (isNameChar_of_isAlpha hc)]
  exact isTagName_takeWhile hc cs

theorem readOpenTag?_tagName? {cs : Text} {piece : Token × Text} (h : readOpenTag? cs = some piece)
    {name : Text} (hname : piece.1.kind.tagName? = some name) :
    isTagName name = true ∧ ∃ inner, piece.1.raw = '<' :: inner ++ ['>'] := by
  unfold readOpenTag? at h
  split at h
  · rename_i c cs
    split at h
    · rename_i halpha
      split at h
      · rename_i inner rest hinner
        cases h
        refine ⟨?_, inner, rfl⟩
        have hcut := splitTag?_eq hinner
        cases inner with
        | nil =>
            rw [(List.cons.inj hcut).1] at halpha
            exact absurd halpha (by decide)
        | cons d inner =>
            rw [(List.cons.inj hcut).1] at halpha
            exact isTagName_of_tagKind halpha hname
      · cases h
        cases hname
    · cases h
  · cases h

/-- A tag that is read has a name and stands between angle brackets. -/
theorem readToken_tagName? (c : Char) (cs : Text) :
    ∀ name, (readToken c cs).1.kind.tagName? = some name →
      isTagName name = true ∧ ∃ inner, (readToken c cs).1.raw = '<' :: inner ++ ['>'] := by
  intro name
  unfold readToken
  split
  · rename_i piece h
    intro hname
    simp only [readConstruct?, Option.or_eq_some_iff] at h
    rcases h with h | ⟨-, h | ⟨-, h | ⟨-, h | ⟨-, h | ⟨-, h⟩⟩⟩⟩⟩
    · obtain ⟨block, -, rfl⟩ := Option.map_eq_some_iff.1 h
      cases hname
    · obtain ⟨parts, -, rfl⟩ := Option.map_eq_some_iff.1 h
      cases hname
    · obtain ⟨inner, -, heq⟩ := Option.map_eq_some_iff.1 h
      split at heq <;> cases heq <;> cases hname
    · unfold readDoctype? at h
      split at h
      · split at h <;> cases h <;> cases hname
      · cases h
    · obtain ⟨inner, -, heq⟩ := Option.map_eq_some_iff.1 h
      split at heq
      · cases heq
        exact ⟨isTagName_of_closeKind hname, '/' :: beforeBracket inner, rfl⟩
      · cases heq
        cases hname
    · exact readOpenTag?_tagName? h hname
  · intro hname
    cases hname

theorem tokenize_tag (t : Text) : ∀ token ∈ tokenize t, ∀ name, token.kind.tagName? = some name →
    isTagName name = true ∧ ∃ inner, token.raw = '<' :: inner ++ ['>'] := by
  refine forall_mem_tokenize readToken_tagName? ?_ t
  intro raw name hname
  cases hname

theorem tokenize_tagName? (t : Text) : ∀ token ∈ tokenize t, token.kind.tagName? ≠ some [] := by
  intro token htoken hname
  cases (tokenize_tag t token htoken [] hname).1

end Names

section Blocks

theorem tokenize_block {x rest : Text} {block : Block}
    (h : Block.read? (x ++ rest) = some (block, rest)) :
    tokenize (x ++ rest) = ⟨.block, x⟩ :: tokenize rest ∧ startsConstruct (x ++ rest) = true := by
  obtain ⟨tail, htail, -⟩ := Block.read?_eq_cons h
  have hread : readToken '@' tail = (⟨.block, x⟩, rest) := by
    apply readToken_of_readConstruct?
    rw [← htail]
    simp [readConstruct?, readBlock?, h]
  constructor
  · rw [htail]
    exact tokenize_of_readToken hread rfl
  · rw [htail] at h ⊢
    simp [startsConstruct, h]

end Blocks

end RazorLayout

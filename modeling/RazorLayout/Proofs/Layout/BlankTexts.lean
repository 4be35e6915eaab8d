import RazorLayout.Proofs.Layout.Content

/-!
# Blank texts between tags

A blank text is never written, so it matters only to the search for the content of an element.
That search goes through the texts behind an opening tag: it swallows those on one line, and it
gives up at one on several lines.  The content of a preserved element is joined from all its
pieces, and there a blank text is content.

A blank text stands at a place between pieces, `before` and `after`.

* `isInsidePreserved` says that the place lies inside a preserved element;
* `isAllText` says that only texts stand between the place and the two tags of an element.

Results.  `Item.ofOpenTag_insert_text`: what a blank text changes for the element in front of it.
`Item.filter_isUnit_ofTokens`: the items that are written are the same with and without the text.
`layoutAt_insert_blank`: so is the layout.
-/

namespace RazorLayout

section Places

namespace Token

/-- Whether the piece is text. -/
def isText (t : Token) : Bool :=
  t.kind == .text

/-- Whether the piece opens an element that the other one closes. -/
def isClosedBy (opening closing : Token) : Bool :=
  match opening.kind with
  | .openTag tag => closing.closes (Text.lower tag.name)
  | _ => false

end Token

/-- Whether a preserved element is opened in front of the place, and the first tag that closes it
stands behind the place. -/
def isInsidePreserved : (before after : List Token) → Bool
  | [], _ => false
  | t :: before, after =>
      (match t.kind.preservedName? with
        | none => false
        | some name => !before.any (Token.closes name) && after.any (Token.closes name)) ||
      isInsidePreserved before after

/-- Whether the run of texts around the place stands between the opening tag of an element and the
tag that closes it. -/
def isAllText (before after : List Token) : Bool :=
  match before.reverse.find? (fun t => !t.isText), after.find? (fun t => !t.isText) with
  | some opening, some closing => opening.isClosedBy closing
  | _, _ => false

variable {before after front : List Token}

theorem isInsidePreserved_of_suffix (hfront : front <:+ before)
    (h : isInsidePreserved before after = false) : isInsidePreserved front after = false := by
  induction before with
  | nil => rwa [List.suffix_nil.1 hfront]
  | cons t before ih =>
      rcases List.suffix_cons_iff.1 hfront with rfl | hsuffix
      · exact h
      · exact ih hsuffix (Bool.or_eq_false_iff.1 h).2

/-- A place in the same run of texts has the same construct in front of it, or none. -/
theorem isAllText_of_suffix (hfront : front <:+ before) (h : isAllText before after = false) :
    isAllText front after = false := by
  obtain ⟨more, rfl⟩ := hfront
  unfold isAllText at h ⊢
  cases hfind : front.reverse.find? (fun t => !t.isText) with
  | none => rfl
  | some opening => rwa [List.reverse_append, List.find?_append, hfind] at h

end Places

namespace Item

section Searches

variable {name : Text} {ts : List Token}

theorem splitClose?_append {content rest : List Token}
    (h : splitClose? name ts = some (content, rest)) (more : List Token) :
    splitClose? name (ts ++ more) = some (content, rest ++ more) := by
  induction ts generalizing content with
  | nil => cases h
  | cons t ts ih =>
      rw [List.cons_append]
      unfold splitClose? at h ⊢
      split
      · rename_i hclose
        rw [if_pos hclose] at h
        cases h
        rfl
      · rename_i hopen
        rw [if_neg hopen] at h
        obtain ⟨⟨inner, tail⟩, hinner, heq⟩ := Option.map_eq_some_iff.1 h
        cases heq
        rw [ih hinner]
        rfl

theorem splitClose?_eq_none_of_any (h : ts.any (Token.closes name) = false) :
    splitClose? name ts = none := by
  cases hsplit : splitClose? name ts with
  | none => rfl
  | some parts =>
      obtain ⟨close, rfl, hclose, -⟩ := splitClose?_eq_some hsplit
      simp [hclose] at h

/-- An inline element ends with the first piece that is no text. -/
theorem find?_of_splitInline? {parts : List Text} {rest : List Token}
    (h : splitInline? name ts = some (parts, rest)) :
    ∃ closing, ts.find? (fun t => !t.isText) = some closing ∧ closing.closes name = true := by
  induction ts generalizing parts with
  | nil => cases h
  | cons t ts ih =>
      unfold splitInline? at h
      split at h
      · rename_i hclose
        obtain ⟨other, hkind, -⟩ := closes_eq_true hclose
        exact ⟨t, List.find?_cons_of_pos (by simp [Token.isText, hkind]), hclose⟩
      · split at h
        · rename_i htext
          obtain ⟨⟨inner, tail⟩, hinner, heq⟩ := Option.map_eq_some_iff.1 h
          cases heq
          rw [List.find?_cons_of_neg (by simp [Token.isText, htext.1])]
          exact ih hinner
        · cases h

/-- An element that is found behind texts only has the place among texts only. -/
theorem isAllText_of_splitInline? {opening : Token} {tag : Tag} {before after : List Token}
    {parts : List Text × List Token} (hkind : opening.kind = .openTag tag)
    (htexts : ∀ t ∈ before, t.isText = true)
    (hsplit : splitInline? (Text.lower tag.name) after = some parts) :
    isAllText (opening :: before) after = true := by
  obtain ⟨closing, hfind, hclose⟩ := find?_of_splitInline? hsplit
  have hnearest : (opening :: before).reverse.find? (fun t => !t.isText) = some opening := by
    rw [List.reverse_cons, List.find?_append, List.find?_eq_none.2 (by simpa using htexts)]
    simp [Token.isText, hkind]
  unfold isAllText
  rw [hnearest, hfind]
  simpa [Token.isClosedBy, hkind] using hclose

/-- The search for the content of an inline element through `before`: it ends there with an
element, or without one, or it goes on behind texts. -/
theorem splitInline?_append_cases (name : Text) (before : List Token) :
    (∃ parts rest, rest <:+ before ∧
      ∀ ts, splitInline? name (before ++ ts) = some (parts, rest ++ ts)) ∨
    (∀ ts, splitInline? name (before ++ ts) = none) ∨
    ((∀ t ∈ before, t.isText = true) ∧ ∃ join : List Text → List Text,
      ∀ ts, splitInline? name (before ++ ts) =
        (splitInline? name ts).map fun parts => (join parts.1, parts.2)) := by
  induction before with
  | nil =>
      refine .inr (.inr ⟨by simp, id, fun ts => ?_⟩)
      rw [List.nil_append]
      cases splitInline? name ts <;> rfl
  | cons t before ih =>
      by_cases hclose : t.closes name = true
      · refine .inl ⟨[], before, List.suffix_cons t before, fun ts => ?_⟩
        rw [List.cons_append, splitInline?, if_pos hclose]
      · by_cases htext : t.kind = .text ∧ Text.isMultiline t.raw = false
        · have hstep : ∀ ts, splitInline? name (t :: before ++ ts) =
              (splitInline? name (before ++ ts)).map
                fun parts => (consSolid (Text.strip t.raw) parts.1, parts.2) := by
            intro ts
            rw [List.cons_append, splitInline?, if_neg hclose, if_pos htext]
          rcases ih with ⟨parts, rest, hrest, hfound⟩ | hnone | ⟨htexts, join, hjoin⟩
          · refine .inl ⟨consSolid (Text.strip t.raw) parts, rest,
              hrest.trans (List.suffix_cons t before), fun ts => ?_⟩
            rw [hstep, hfound]
            rfl
          · refine .inr (.inl fun ts => ?_)
            rw [hstep, hnone]
            rfl
          · refine .inr (.inr ⟨List.forall_mem_cons.2 ⟨by simp [Token.isText, htext.1], htexts⟩,
              fun parts => consSolid (Text.strip t.raw) (join parts), fun ts => ?_⟩)
            rw [hstep, hjoin, Option.map_map]
            rfl
        · refine .inr (.inl fun ts => ?_)
          rw [List.cons_append, splitInline?, if_neg hclose, if_neg htext]

end Searches

section Insertion

variable {before after : List Token} {t : Token}
variable (htext : t.kind = .text)
include htext

theorem closes_of_text (name : Text) : t.closes name = false := by
  simp [Token.closes, htext]

/-- A preserved element in front of a text ends in front of it, or is not closed at all. -/
theorem splitPreserved?_insert_text {opening : Token} {tag : Tag}
    (hkind : opening.kind = .openTag tag)
    (hplace : isInsidePreserved (opening :: before) after = false) :
    (∃ content front, front <:+ before ∧
      splitPreserved? tag (before ++ t :: after) = some (content, front ++ t :: after) ∧
      splitPreserved? tag (before ++ after) = some (content, front ++ after)) ∨
    splitPreserved? tag (before ++ t :: after) = none ∧
      splitPreserved? tag (before ++ after) = none := by
  unfold splitPreserved?
  split
  · rename_i hname
    cases hsplit : splitClose? (Text.lower tag.name) before with
    | some parts =>
        obtain ⟨content, front⟩ := parts
        obtain ⟨close, rfl, -⟩ := splitClose?_eq_some hsplit
        exact .inl ⟨content, front, ⟨content ++ [close], by simp⟩, splitClose?_append hsplit _,
          splitClose?_append hsplit _⟩
    | none =>
        have hbefore := splitClose?_eq_none hsplit
        have hafter : after.any (Token.closes (Text.lower tag.name)) = false := by
          simpa [isInsidePreserved, hkind, TokenKind.preservedName?, hname, hbefore] using
            (Bool.or_eq_false_iff.1 hplace).1
        refine .inr ⟨splitClose?_eq_none_of_any ?_, splitClose?_eq_none_of_any ?_⟩
        · rw [List.any_append, List.any_cons, hbefore, closes_of_text htext, hafter]
          rfl
        · rw [List.any_append, hbefore, hafter]
          rfl
  · exact .inr ⟨rfl, rfl⟩

variable (hblank : Text.isBlankText t.raw = true)
include hblank

/-- The search for the content of an inline element ends in front of a blank text, or the text does
not matter to it. -/
theorem splitInline?_insert_text {opening : Token} {tag : Tag}
    (hkind : opening.kind = .openTag tag)
    (hplace : Text.isMultiline t.raw = false ∨ isAllText (opening :: before) after = false) :
    (∃ parts front, front <:+ before ∧
      splitInline? (Text.lower tag.name) (before ++ t :: after) =
        some (parts, front ++ t :: after) ∧
      splitInline? (Text.lower tag.name) (before ++ after) = some (parts, front ++ after)) ∨
    splitInline? (Text.lower tag.name) (before ++ t :: after) =
      splitInline? (Text.lower tag.name) (before ++ after) := by
  rcases splitInline?_append_cases (Text.lower tag.name) before with
    ⟨parts, front, hfront, hfound⟩ | hnone | ⟨htexts, join, hjoin⟩
  · exact .inl ⟨parts, front, hfront, hfound _, hfound _⟩
  · exact .inr ((hnone _).trans (hnone _).symm)
  · refine .inr ?_
    rw [hjoin, hjoin]
    congr 1
    rw [splitInline?, if_neg (by simp [closes_of_text htext])]
    cases hline : Text.isMultiline t.raw with
    | false =>
        have hstrip : Text.strip t.raw = [] := Text.strip_eq_nil_iff.2 hblank
        rw [if_pos ⟨htext, rfl⟩, hstrip]
        cases splitInline? (Text.lower tag.name) after <;> rfl
    | true =>
        -- The search gives up at this text, and without the text it would not succeed either.
        rw [if_neg (by simp)]
        cases hsplit : splitInline? (Text.lower tag.name) after with
        | none => rfl
        | some parts =>
            have hall := isAllText_of_splitInline? hkind htexts hsplit
            rw [hline, hall] at hplace
            simp at hplace

/-- The element that a tag in front of a blank text starts: it ends in front of the text, or the
text does not matter to it. -/
theorem ofOpenTag_insert_text {opening : Token} {tag : Tag} (hkind : opening.kind = .openTag tag)
    (hkept : isInsidePreserved (opening :: before) after = false)
    (hplace : Text.isMultiline t.raw = false ∨ isAllText (opening :: before) after = false) :
    (∃ item front, front <:+ before ∧
      ofOpenTag tag (before ++ t :: after) = (item, front ++ t :: after) ∧
      ofOpenTag tag (before ++ after) = (item, front ++ after)) ∨
    ofOpenTag tag (before ++ t :: after) = ofOpenTag tag (before ++ after) := by
  unfold ofOpenTag
  rcases splitPreserved?_insert_text htext hkind hkept with
    ⟨content, front, hfront, hwith, hwithout⟩ | ⟨hwith, hwithout⟩
  · exact .inl ⟨_, front, hfront, by rw [hwith], by rw [hwithout]⟩
  · rw [hwith, hwithout]
    rcases splitInline?_insert_text htext hblank hkind hplace with
      ⟨parts, front, hfront, hwith, hwithout⟩ | hsame
    · exact .inl ⟨_, front, hfront, by rw [hwith], by rw [hwithout]⟩
    · rw [hsame]
      cases splitInline? (Text.lower tag.name) (before ++ after) with
      | none => exact .inl ⟨_, before, List.suffix_refl before, rfl, rfl⟩
      | some parts => exact .inr rfl

/-- The items that are written are the same with and without the blank text. -/
theorem filter_isUnit_ofTokens (hkept : isInsidePreserved before after = false)
    (hplace : Text.isMultiline t.raw = false ∨ isAllText before after = false) :
    (ofTokens (before ++ t :: after)).filter isUnit =
      (ofTokens (before ++ after)).filter isUnit := by
  -- An element takes several pieces of `before` at once, so the induction is on their number.
  induction hn : before.length using Nat.strong_induction_on generalizing before with
  | _ n ih =>
      have hnext : ∀ {front : List Token}, front <:+ before → front.length < n →
          (ofTokens (front ++ t :: after)).filter isUnit =
            (ofTokens (front ++ after)).filter isUnit :=
        fun hfront hlength => ih _ hlength (isInsidePreserved_of_suffix hfront hkept)
          (hplace.imp_right (isAllText_of_suffix hfront)) rfl
      cases before with
      | nil =>
          have hitem : ofTokens (t :: after) = .text t.raw :: ofTokens after := by
            simp [ofTokens, ofToken, htext]
          rw [List.nil_append, List.nil_append, hitem,
            List.filter_cons_of_neg (by simp [isUnit, hblank])]
      | cons first before =>
          have hshorter : ∀ {front : List Token}, front <:+ before → front.length < n := by
            intro front hfront
            rw [← hn, List.length_cons]
            exact Nat.lt_succ_of_le hfront.length_le
          rw [List.cons_append, List.cons_append]
          cases hkind : first.kind with
          | openTag tag =>
              have hopen : ∀ ts, ofTokens (first :: ts) =
                  (ofOpenTag tag ts).1 :: ofTokens (ofOpenTag tag ts).2 := by
                intro ts
                rw [ofTokens, hkind]
              rw [hopen, hopen]
              rcases ofOpenTag_insert_text htext hblank hkind hkept hplace with
                ⟨item, front, hfront, hwith, hwithout⟩ | hsame
              · have hrest := hnext (hfront.trans (List.suffix_cons first before)) (hshorter hfront)
                rw [hwith, hwithout, List.filter_cons, List.filter_cons, hrest]
              · rw [hsame]
          | _ =>
              have hrest :=
                hnext (List.suffix_cons first before) (hshorter (List.suffix_refl before))
              simp only [ofTokens, hkind, List.filter_cons, hrest]

end Insertion

end Item

/-- Items that are not written do not matter. -/
theorem Context.placeAll_filter_isUnit (ctx : Context) (page : Page) (items : List Item) :
    ctx.placeAll page items = ctx.placeAll page (items.filter Item.isUnit) := by
  induction items generalizing page with
  | nil => rfl
  | cons item items ih =>
      cases hunit : item.isUnit with
      | false =>
          rw [List.filter_cons_of_neg (by simp [hunit]), ← ih, placeAll,
            (ctx.place_of_not_isUnit page hunit).1]
          rfl
      | true =>
          rw [List.filter_cons_of_pos hunit, placeAll, placeAll]
          congr 1
          funext next
          exact ih next

/-- White space between tags does not matter.  A blank text can be put anywhere among pieces, and
taken away, without a change to the layout, provided that it does not become content of a preserved
element, and that it is on one line or does not stand among texts only between the two tags of an
element. -/
theorem layoutAt_insert_blank (config : Config) (c : Collaborators) (depth : Nat)
    {before after : List Token} {t : Token} (htext : t.kind = .text)
    (hblank : Text.isBlankText t.raw = true) (hkept : isInsidePreserved before after = false)
    (hplace : Text.isMultiline t.raw = false ∨ isAllText before after = false) :
    layoutAt config c depth (before ++ t :: after) = layoutAt config c depth (before ++ after) := by
  have hitems := Item.filter_isUnit_ofTokens htext hblank hkept hplace
  unfold layoutAt Context.layout
  rw [Context.placeAll_filter_isUnit, hitems, ← Context.placeAll_filter_isUnit]

/-- The line break between two opening tags goes, and so does the blank next to a word, with the
paragraph on one line all the same. -/
theorem layoutAt_insert_blank_nested :
    let div : Tag := ⟨"div".toList, []⟩
    let p : Tag := ⟨"p".toList, []⟩
    let opening : List Token := [⟨.openTag div, "<div>".toList⟩]
    let word : List Token := [⟨.openTag p, "<p>".toList⟩, ⟨.text, "a".toList⟩]
    let closing : List Token :=
      [⟨.closeTag p.name, "</p>".toList⟩, ⟨.closeTag div.name, "</div>".toList⟩]
    let layout := fun tokens => layoutAt .standard {} 0 tokens
    layout (opening ++ ⟨.text, "\n  ".toList⟩ :: (word ++ closing)) =
        layout (opening ++ (word ++ closing)) ∧
      layout (opening ++ word ++ ⟨.text, "  ".toList⟩ :: closing) =
        layout (opening ++ word ++ closing) ∧
      ((layout (opening ++ word ++ closing)).run {}).1.sheet.text =
        "<div>\n    <p>a</p>\n</div>".toList := by
  intro div p opening word closing layout
  refine ⟨?_, ?_, by decide +kernel⟩
  · exact layoutAt_insert_blank .standard {} 0 rfl (by decide +kernel) (by decide +kernel)
      (.inr (by decide +kernel))
  · exact layoutAt_insert_blank .standard {} 0 rfl (by decide +kernel) (by decide +kernel)
      (.inl (by decide +kernel))

-- Between the two tags of an element a line break does matter.
example :
    let p : Tag := ⟨"p".toList, []⟩
    let opening : Token := ⟨.openTag p, "<p>".toList⟩
    let closing : Token := ⟨.closeTag p.name, "</p>".toList⟩
    let layout := fun tokens => ((layoutAt .standard {} 0 tokens).run {}).1.sheet.text
    layout [opening, closing] = "<p></p>".toList ∧
      layout [opening, ⟨.text, "\n".toList⟩, closing] = "<p>\n</p>".toList := by
  decide +kernel

end RazorLayout

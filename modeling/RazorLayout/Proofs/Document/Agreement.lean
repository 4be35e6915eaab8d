import Mathlib.Data.List.Pairwise
import Mathlib.Data.List.Sort
import RazorLayout.Document.Format
import RazorLayout.Proofs.Block.Spelling
import RazorLayout.Proofs.Document.Search
import RazorLayout.Proofs.Token.Pass

/-!
# The search and the pieces of a document

Member blocks are recognized twice: by the search that cuts a document into regions, and by the
reader that cuts it into pieces.  The search looks at the characters only.  It does not know what
comments, tags, preserved elements and other blocks are, it takes any blanks in front of the brace
and no condition, and it stops at a block that is never closed.

* `memberSpans` are the spans of the member blocks among the pieces, and `owningSpans` those that
  own their lines;
* `InStep` says that the blocks that open in a document are its member blocks, up to some that are
  closed, share a line and meet no member block.

Results.  `splitGroup_of_read?`: where both recognize a block, they agree on its end.
`spans_findRegions_eq_iff`: in a document in step the search finds the member blocks that own their
lines and nothing else; in any document it does so exactly when it comes to all of them and to no
other closed block that owns its lines.
-/

namespace RazorLayout

section Openings

theorem isIdentifierChar_eq_false_of_isBlank {c : Char} (h : isBlank c = true) :
    isIdentifierChar c = false := by
  by_contra hchar
  have hname := isNameChar_of_isIdentifierChar (by simpa using hchar)
  rw [isBlank_eq_false_of_isNameChar hname] at h
  cases h

/-- What the search takes for the opening of a member block. -/
theorem readMemberOpening?_eq_some {cs inner : Text} {keyword : Keyword}
    (h : readMemberOpening? cs = some (keyword, inner)) :
    keyword.holdsMembers = true ∧ ∃ gap, Text.isBlankText gap = true ∧
      cs = sigil :: keyword.text ++ (gap ++ '{' :: inner) := by
  have hafter : ∀ {keyword : Keyword}, afterMemberOpening? keyword cs = some inner →
      ∃ gap, Text.isBlankText gap = true ∧ cs = sigil :: keyword.text ++ (gap ++ '{' :: inner) := by
    intro keyword h
    unfold afterMemberOpening? at h
    split at h
    · rename_i rest hword
      cases h
      obtain ⟨behind, hbehind, hdrop⟩ := Option.map_eq_some_iff.1 hword
      refine ⟨behind.takeWhile isBlank, List.all_takeWhile, ?_⟩
      rw [← hdrop, List.takeWhile_append_dropWhile]
      exact Text.after?_eq_some_iff.1 hbehind
    · cases h
  unfold readMemberOpening? at h
  split at h
  · rename_i hcode
    cases h
    exact ⟨rfl, hafter hcode⟩
  · obtain ⟨rest, hfunctions, heq⟩ := Option.map_eq_some_iff.1 h
    cases heq
    exact ⟨rfl, hafter hfunctions⟩

theorem openingAt?_eq_some {t inner : Text} {p : Nat} {keyword : Keyword}
    (h : openingAt? t p = some (keyword, inner)) :
    readMemberOpening? (t.drop p) = some (keyword, inner) := by
  unfold openingAt? memberAt? at h
  split at h
  · split at h
    · cases h
    · exact h
  · cases h

/-- Behind the spaces that follow a keyword stands the brace or another blank. -/
theorem afterSpaces_gap {gap : Text} (hgap : Text.isBlankText gap = true) (inner : Text) :
    afterSpaces (gap ++ '{' :: inner) = '{' :: inner ∨
      ∃ c rest, afterSpaces (gap ++ '{' :: inner) = c :: rest ∧ isBlank c = true ∧
        isSpace c = false := by
  induction gap with
  | nil => exact Or.inl rfl
  | cons c gap ih =>
      rw [Text.isBlankText, List.all_cons, Bool.and_eq_true] at hgap
      by_cases hspace : isSpace c = true
      · have hstep : afterSpaces (c :: gap ++ '{' :: inner) =
            afterSpaces (gap ++ '{' :: inner) := by
          simp [afterSpaces, hspace]
        rw [hstep]
        exact ih hgap.2
      · refine Or.inr ⟨c, gap ++ '{' :: inner, ?_, hgap.1, by simpa using hspace⟩
        simp [afterSpaces, hspace]

/-- Where the reader takes a block and the search an opening, both find the same closing brace. -/
theorem splitGroup_of_read? {cs inner rest : Text} {keyword : Keyword} {block : Block}
    (hread : Block.read? cs = some (block, rest))
    (hopening : readMemberOpening? cs = some (keyword, inner)) :
    ∃ body, splitGroup .braces inner = some (body, rest) := by
  obtain ⟨hmembers, gap, hgap, rfl⟩ := readMemberOpening?_eq_some hopening
  have hstop : ∀ c ∈ (gap ++ '{' :: inner).head?, isIdentifierChar c = false := by
    intro c hc
    cases gap with
    | nil =>
        cases hc
        decide
    | cons d gap =>
        cases hc
        exact isIdentifierChar_eq_false_of_isBlank (List.all_eq_true.1 hgap _ List.mem_cons_self)
  have hsection : keyword ≠ .sectionBlock := by
    rintro rfl
    cases hmembers
  have husing : keyword ≠ .usingBlock := by
    rintro rfl
    cases hmembers
  rw [Block.read?_keyword hstop] at hread
  simp only [readKeywordBlock?, readName?, if_neg hsection, hmembers, if_true, Option.bind_eq_bind,
    Option.bind_some, Option.bind_eq_some_iff, Prod.exists] at hread
  obtain ⟨condition, behind, hcondition, body, final, hbody, hrest⟩ := hread
  cases hrest
  rcases afterSpaces_gap hgap inner with hspaces | ⟨c, tail, hspaces, hblank, hspace⟩
  · simp only [hspaces, readCondition?, if_neg husing] at hcondition
    cases hcondition
    exact ⟨body, hbody⟩
  · -- A blank that is no space hides the brace from the reader.
    have hparen : c ≠ '(' := by
      rintro rfl
      exact absurd hblank (by decide)
    have hbrace : c ≠ '{' := by
      rintro rfl
      exact absurd hblank (by decide)
    have hnone : readCondition? keyword (c :: tail) = some (none, c :: tail) := by
      simp [readCondition?, hparen, husing]
    have hclosed : splitBody (c :: tail) = none := by
      simp [splitBody, afterSpaces, hspace, splitBraces, hbrace]
    rw [hspaces, hnone] at hcondition
    cases hcondition
    rw [hclosed] at hbody
    cases hbody

end Openings

section Pieces

/-- The keyword behind the sigil of a block. -/
def Token.keyword? (token : Token) : Option Keyword :=
  if token.kind = .block then Keyword.ofText? (token.raw.tail.takeWhile isIdentifierChar) else none

/-- Whether a piece is a member block. -/
def Token.isMembers (token : Token) : Bool :=
  token.keyword?.any Keyword.holdsMembers

/-- The spans of the member blocks among pieces that start at a position. -/
def memberSpansFrom (start : Nat) : List Token → List (Nat × Nat)
  | [] => []
  | token :: tokens =>
      let stop := start + token.raw.length
      (if token.isMembers then [(start, stop)] else []) ++ memberSpansFrom stop tokens

/-- The spans of the member blocks of a template. -/
def memberSpans (t : Text) : List (Nat × Nat) :=
  memberSpansFrom 0 (tokenize t)

/-- The spans of the member blocks of a template that share no line with anything but blanks. -/
def owningSpans (t : Text) : List (Nat × Nat) :=
  (memberSpans t).filter fun s => ownsLines t s.1 s.2

theorem kind_of_isMembers {token : Token} (h : token.isMembers = true) : token.kind = .block := by
  by_contra hkind
  simp [Token.isMembers, Token.keyword?, hkind] at h

/-- A span among the pieces is that of a member block behind other pieces. -/
theorem exists_of_mem_memberSpansFrom {start : Nat} {tokens : List Token} {s : Nat × Nat}
    (h : s ∈ memberSpansFrom start tokens) :
    ∃ before token after, tokens = before ++ token :: after ∧ token.isMembers = true ∧
      s.1 = start + (joinRaw before).length ∧ s.2 = s.1 + token.raw.length := by
  induction tokens generalizing start with
  | nil => cases h
  | cons token tokens ih =>
      rcases List.mem_append.1 h with h | h
      · split at h
        · rename_i hmembers
          rw [List.mem_singleton.1 h]
          exact ⟨[], token, tokens, rfl, hmembers, rfl, rfl⟩
        · cases h
      · obtain ⟨before, other, after, rfl, hmembers, hstart, hstop⟩ := ih h
        refine ⟨token :: before, other, after, rfl, hmembers, ?_, hstop⟩
        rw [hstart, joinRaw_cons, List.length_append, Nat.add_assoc]

theorem pairwise_memberSpansFrom (start : Nat) (tokens : List Token) :
    (memberSpansFrom start tokens).Pairwise fun s s' => s.2 ≤ s'.1 := by
  induction tokens generalizing start with
  | nil => exact List.Pairwise.nil
  | cons token tokens ih =>
      refine List.pairwise_append.2 ⟨?_, ih _, ?_⟩
      · split <;> simp
      · intro s hs s' hs'
        obtain ⟨before, -, -, -, -, hstart, -⟩ := exists_of_mem_memberSpansFrom hs'
        split at hs
        · rw [List.mem_singleton.1 hs, hstart]
          exact Nat.le_add_right _ _
        · cases hs

/-- Only the block reader makes blocks. -/
theorem readBlock?_of_kind {c : Char} {cs : Text} (h : (readToken c cs).1.kind = .block) :
    readBlock? (c :: cs) = some (readToken c cs) := by
  unfold readToken at h ⊢
  split at h
  · rename_i piece hconstruct
    simp only [readConstruct?, Option.or_eq_some_iff] at hconstruct
    rcases hconstruct with hread | ⟨-, hread | ⟨-, hread | ⟨-, hread | ⟨-, hread | ⟨-, hread⟩⟩⟩⟩⟩
    · exact hread
    all_goals exfalso
    · obtain ⟨parts, -, rfl⟩ := Option.map_eq_some_iff.1 hread
      cases h
    · obtain ⟨inner, -, rfl⟩ := Option.map_eq_some_iff.1 hread
      split at h <;> cases h
    · unfold readDoctype? at hread
      split at hread
      · split at hread <;> cases hread <;> cases h
      · cases hread
    · obtain ⟨inner, -, rfl⟩ := Option.map_eq_some_iff.1 hread
      split at h
      · simp only [closeKind] at h
        split at h <;> cases h
      · cases h
    · unfold readOpenTag? at hread
      split at hread
      · split at hread
        · split at hread
          · cases hread
            simp only [tagKind] at h
            split at h <;> cases h
          · cases hread
            cases h
        · cases hread
      · cases hread
  · cases h

/-- A block among the pieces is what the reader takes in front of the later pieces. -/
theorem exists_read?_of_tokenize {t : Text} {before after : List Token} {token : Token}
    (h : tokenize t = before ++ token :: after) (hkind : token.kind = .block) :
    ∃ block, Block.read? (joinRaw (token :: after)) = some (block, joinRaw after) := by
  fun_induction tokenize t generalizing before with
  | case1 => simp at h
  | case2 c cs piece content =>
      rename_i ih
      have hcontent : content.1 ++ content.2 = piece.2 := splitContent_append _ _
      cases before with
      | nil =>
          obtain ⟨htoken, hafter⟩ := List.cons.inj h
          have hjoin : joinRaw after = piece.2 := by
            rw [← hafter, joinRaw_append, joinRaw_contentToken, joinRaw_tokenize, hcontent]
          rw [← htoken] at hkind ⊢
          obtain ⟨⟨block, rest⟩, hread, hpiece⟩ :=
            Option.map_eq_some_iff.1 (readBlock?_of_kind hkind)
          have hrest : rest = piece.2 := congrArg Prod.snd hpiece
          have hwhole : c :: cs = piece.1.raw ++ piece.2 := (readToken_cuts c cs).1
          exact ⟨block, by rw [joinRaw_cons, hjoin, ← hwhole, hread, hrest]⟩
      | cons first before =>
          have hrest := (List.cons.inj h).2
          cases hkept : content.1 with
          | nil =>
              rw [hkept] at hrest
              exact ih hrest
          | cons d ds =>
              rw [hkept] at hrest
              cases before with
              | nil =>
                  -- The content of a preserved element is text.
                  rw [← (List.cons.inj hrest).1] at hkind
                  cases hkind
              | cons second before => exact ih (List.cons.inj hrest).2

/-- Where a member block of the template opens for the search, both agree on its end. -/
theorem blockEnd?_of_mem_memberSpans {t : Text} {s : Nat × Nat} (h : s ∈ memberSpans t)
    (hopening : (openingAt? t s.1).isSome = true) : blockEnd? t s.1 = some s.2 := by
  obtain ⟨before, token, after, htokens, hmembers, hstart, hstop⟩ := exists_of_mem_memberSpansFrom h
  obtain ⟨block, hread⟩ := exists_read?_of_tokenize htokens (kind_of_isMembers hmembers)
  obtain ⟨⟨keyword, inner⟩, hopening⟩ := Option.isSome_iff_exists.1 hopening
  rw [Nat.zero_add] at hstart
  have ht : t = joinRaw before ++ joinRaw (token :: after) := by
    rw [← joinRaw_append, ← htokens, joinRaw_tokenize]
  have hdrop : t.drop s.1 = joinRaw (token :: after) := by
    rw [hstart, ht, List.drop_left]
  rw [← hdrop] at hread
  obtain ⟨body, hgroup⟩ := splitGroup_of_read? hread (openingAt?_eq_some hopening)
  have hlength : t.length - (joinRaw after).length = s.2 := by
    have hcount := congrArg List.length ht
    rw [joinRaw_cons, List.length_append, List.length_append] at hcount
    omega
  simp [blockEnd?, hopening, hgroup, hlength]

theorem bounds_of_mem_memberSpans {t : Text} {s : Nat × Nat} (h : s ∈ memberSpans t) :
    s.1 < s.2 ∧ s.2 ≤ t.length := by
  obtain ⟨before, token, after, htokens, -, hstart, hstop⟩ := exists_of_mem_memberSpansFrom h
  have hraw : token.raw ≠ [] := tokenize_raw_ne_nil t token (by simp [htokens])
  have hpos := List.length_pos_iff.2 hraw
  have hcount : t.length =
      (joinRaw before).length + (token.raw.length + (joinRaw after).length) := by
    rw [← joinRaw_tokenize t, htokens, joinRaw_append, joinRaw_cons, List.length_append,
      List.length_append]
  omega

/-- Two member blocks are the same, or one of them stands in front of the other. -/
theorem memberSpans_trichotomy {t : Text} {s s' : Nat × Nat} (h : s ∈ memberSpans t)
    (h' : s' ∈ memberSpans t) : s = s' ∨ s.2 ≤ s'.1 ∨ s'.2 ≤ s.1 := by
  have hapart : (memberSpans t).Pairwise fun s s' => s.2 ≤ s'.1 ∨ s'.2 ≤ s.1 :=
    (pairwise_memberSpansFrom 0 (tokenize t)).imp Or.inl
  have hsymm : Std.Symm fun s s' : Nat × Nat => s.2 ≤ s'.1 ∨ s'.2 ≤ s.1 := ⟨fun _ _ => Or.symm⟩
  by_cases hsame : s = s'
  · exact Or.inl hsame
  · exact Or.inr (hapart.forall h h' hsame)

theorem pairwise_owningSpans (t : Text) : (owningSpans t).Pairwise fun s s' => s.1 < s'.1 := by
  have hmembers : (memberSpans t).Pairwise fun s s' => s.1 < s'.1 := by
    refine (pairwise_memberSpansFrom 0 (tokenize t)).imp_of_mem ?_
    intro s s' hs _ hle
    exact (bounds_of_mem_memberSpans hs).1.trans_le hle
  exact hmembers.filter _

end Pieces

section Agreement

/-- The member blocks of a template that open for the search as well. -/
def openSpans (t : Text) : List (Nat × Nat) :=
  (memberSpans t).filter fun s => (openingAt? t s.1).isSome

/-- The blocks that open in a template are in step with its member blocks. -/
structure InStep (t : Text) : Prop where
  /-- The member blocks that own their lines open for the search. -/
  opens : ∀ s ∈ owningSpans t, (openingAt? t s.1).isSome = true
  /-- What opens elsewhere is closed, shares a line and meets no member block. -/
  strays : ∀ p, (openingAt? t p).isSome = true → (∃ s ∈ openSpans t, s.1 ≤ p ∧ p < s.2) ∨
    ∃ q ∈ blockEnd? t p, ownsLines t p q = false ∧ ∀ s ∈ openSpans t, s.2 ≤ p ∨ q ≤ s.1

variable {t : Text}

theorem mem_openSpans {s : Nat × Nat} :
    s ∈ openSpans t ↔ s ∈ memberSpans t ∧ (openingAt? t s.1).isSome = true :=
  List.mem_filter

theorem isSome_of_blockEnd? {p q : Nat} (h : blockEnd? t p = some q) :
    (openingAt? t p).isSome = true := by
  obtain ⟨keyword, inner, -, -, -, hopening, -⟩ := blockEnd?_eq_some h
  simp [hopening]

theorem lt_of_openingAt? {p : Nat} (h : (openingAt? t p).isSome = true) : p < t.length := by
  by_contra hle
  rw [openingAt?, List.drop_eq_nil_of_le (Nat.le_of_not_lt hle)] at h
  cases h

/-- In step, a member block that opens is where the search finds its end, and what opens at a
position that is outside all member blocks is one of them or a stray. -/
theorem InStep.cases (h : InStep t) {p : Nat} (hopening : (openingAt? t p).isSome = true)
    (hp : ∀ s ∈ openSpans t, p ≤ s.1 ∨ s.2 ≤ p) :
    (∃ s ∈ openSpans t, s.1 = p ∧ blockEnd? t p = some s.2) ∨
      ∃ q ∈ blockEnd? t p, ownsLines t p q = false ∧ ∀ s ∈ openSpans t, s.2 ≤ p ∨ q ≤ s.1 := by
  rcases h.strays p hopening with ⟨s, hs, hle, hlt⟩ | hstray
  · have hstart : s.1 = p := by
      rcases hp s hs with hp | hp <;> omega
    have hmem := mem_openSpans.1 hs
    refine Or.inl ⟨s, hs, hstart, ?_⟩
    rw [← hstart, blockEnd?_of_mem_memberSpans hmem.1 hmem.2]
  · exact Or.inr hstray

/-- In step, the search never stands inside a member block. -/
theorem InStep.outside (h : InStep t) {p : Nat} (hp : Reached t p) :
    ∀ s ∈ openSpans t, p ≤ s.1 ∨ s.2 ≤ p := by
  induction hp with
  | refl => exact fun s _ => Or.inl (Nat.zero_le _)
  | @tail p q _ hstep ih =>
      intro s hs
      have hlt := (searchNext?_advances hstep).1
      rcases ih s hs with hle | hle
      · cases hopening : openingAt? t p with
        | none =>
            have hne : p ≠ s.1 := by
              rintro rfl
              have hopens := (mem_openSpans.1 hs).2
              rw [hopening] at hopens
              cases hopens
            have hq : q = p + 1 := by
              simp only [searchNext?, hopening] at hstep
              split at hstep
              · exact (Option.some.inj hstep).symm
              · cases hstep
            exact Or.inl (by omega)
        | some opening =>
            have hend : blockEnd? t p = some q := by
              simpa [searchNext?, hopening] using hstep
            rcases h.cases (by simp [hopening]) ih with
              ⟨s', hs', rfl, hend'⟩ | ⟨q', hend', -, hfree⟩
            · cases hend.symm.trans hend'
              rcases memberSpans_trichotomy (mem_openSpans.1 hs).1 (mem_openSpans.1 hs').1 with
                rfl | hfront | hbehind
              · exact Or.inr (Nat.le_refl _)
              · exact Or.inr (hfront.trans hlt.le)
              · exact Or.inl hbehind
            · cases hend.symm.trans hend'
              rcases hfree s hs with hfront | hbehind
              · exact Or.inr (hfront.trans hlt.le)
              · exact Or.inl hbehind
      · exact Or.inr (hle.trans hlt.le)

/-- In step, the search comes to every member block that opens. -/
theorem InStep.reached (h : InStep t) {s : Nat × Nat} (hs : s ∈ openSpans t) : Reached t s.1 := by
  obtain ⟨hlt, hle⟩ := bounds_of_mem_memberSpans (mem_openSpans.1 hs).1
  rcases reachedFrom_or (Nat.zero_le s.1) (hlt.le.trans hle) with
    hreached | ⟨b, hb, hbs, hopening, hpass⟩
  · exact hreached
  · exfalso
    rcases h.cases hopening (h.outside hb) with ⟨s', hs', rfl, hend⟩ | ⟨q, hend, -, hfree⟩
    · have hover := hpass s'.2 hend
      rcases memberSpans_trichotomy (mem_openSpans.1 hs).1 (mem_openSpans.1 hs').1 with
        rfl | hfront | hbehind
      · omega
      · omega
      · omega
    · have hover := hpass q hend
      rcases hfree s hs with hfront | hbehind <;> omega

theorem spansFrom_eq_owningSpans_iff :
    spansFrom t 0 = owningSpans t ↔
      (∀ s ∈ owningSpans t, Reached t s.1 ∧ (openingAt? t s.1).isSome = true) ∧
        ∀ p q, Reached t p → blockEnd? t p = some q → ownsLines t p q = true →
          (p, q) ∈ memberSpans t := by
  have howning : ∀ {p q : Nat}, (p, q) ∈ owningSpans t ↔
      (p, q) ∈ memberSpans t ∧ ownsLines t p q = true := List.mem_filter
  constructor
  · intro heq
    constructor
    · rintro ⟨p, q⟩ hs
      rw [← heq] at hs
      obtain ⟨hreached, hend, -⟩ := mem_spansFrom_iff.1 hs
      exact ⟨hreached, isSome_of_blockEnd? hend⟩
    · intro p q hreached hend howns
      have hmem := mem_spansFrom_iff.2 ⟨hreached, hend, howns⟩
      rw [heq] at hmem
      exact (howning.1 hmem).1
  · rintro ⟨hall, honly⟩
    -- Both lists are in the order of the document, so it is enough to compare their members.
    have hirrefl : Std.Irrefl fun s s' : Nat × Nat => s.1 < s'.1 := ⟨fun s => Nat.lt_irrefl s.1⟩
    have hantisymm : Std.Antisymm fun s s' : Nat × Nat => s.1 < s'.1 :=
      ⟨fun s s' hlt hlt' => absurd hlt hlt'.asymm⟩
    refine List.Pairwise.eq_of_mem_iff (pairwise_spansFrom t 0) (pairwise_owningSpans t) ?_
    rintro ⟨p, q⟩
    rw [mem_spansFrom_iff]
    constructor
    · rintro ⟨hreached, hend, howns⟩
      exact howning.2 ⟨honly p q hreached hend howns, howns⟩
    · intro hs
      obtain ⟨hreached, hopening⟩ := hall (p, q) hs
      obtain ⟨hmember, howns⟩ := howning.1 hs
      exact ⟨hreached, blockEnd?_of_mem_memberSpans hmember hopening, howns⟩

theorem InStep.spansFrom_eq_owningSpans (h : InStep t) : spansFrom t 0 = owningSpans t := by
  refine spansFrom_eq_owningSpans_iff.2 ⟨?_, ?_⟩
  · intro s hs
    have hopening := h.opens s hs
    exact ⟨h.reached (mem_openSpans.2 ⟨(List.mem_filter.1 hs).1, hopening⟩), hopening⟩
  · intro p q hreached hend howns
    rcases h.cases (isSome_of_blockEnd? hend) (h.outside hreached) with
      ⟨s, hs, rfl, hend'⟩ | ⟨q', hend', hshares, -⟩
    · cases hend.symm.trans hend'
      exact (mem_openSpans.1 hs).1
    · cases hend.symm.trans hend'
      rw [howns] at hshares
      cases hshares

/-- The search and the reader agree on every document in which the blocks that open are in step with
the member blocks.  On any document they agree exactly when the search comes to every member block
that owns its lines, with its opening where the block starts, and every block that it comes to and
that is closed and owns its lines is a member block. -/
theorem spans_findRegions_eq_iff (t : Text) :
    (InStep t → (findRegions t).map (Region.span t) = owningSpans t) ∧
      ((findRegions t).map (Region.span t) = owningSpans t ↔
        (∀ s ∈ owningSpans t, Reached t s.1 ∧ (openingAt? t s.1).isSome = true) ∧
          ∀ p q, Reached t p → blockEnd? t p = some q → ownsLines t p q = true →
            (p, q) ∈ memberSpans t) :=
  ⟨InStep.spansFrom_eq_owningSpans, spansFrom_eq_owningSpans_iff⟩

/-- In step: a stray in a quoted value, and an opening without an end inside a member block. -/
theorem spans_findRegions_eq_iff_sample :
    let t : Text := "<a b=\"@code \x7b\x7d\">\n@code \x7b\n  \"@code \x7b\"\n\x7d\n</a>".toList
    InStep t ∧ (findRegions t).map (Region.span t) = owningSpans t ∧
      owningSpans t = [(17, 38)] := by
  intro t
  have hstrays : ∀ p < t.length, (openingAt? t p).isSome = true →
      (∃ s ∈ openSpans t, s.1 ≤ p ∧ p < s.2) ∨
        ∃ q ∈ blockEnd? t p, ownsLines t p q = false ∧ ∀ s ∈ openSpans t, s.2 ≤ p ∨ q ≤ s.1 := by
    decide +kernel
  have hstep : InStep t :=
    ⟨by decide +kernel, fun p hopening => hstrays p (lt_of_openingAt? hopening) hopening⟩
  exact ⟨hstep, (spans_findRegions_eq_iff t).1 hstep, by decide +kernel⟩

/-- The search cuts a block out of a preserved element, which the reader keeps as text, and the rest
of the element is then laid out.  A block that is never closed hides a member block from the search,
and not from the reader. -/
theorem spans_findRegions_ne_owningSpans :
    let kept : Text := "<pre>\n   a\n@code \x7b\n\x7d\n</pre>".toList
    let moved : Text := "<pre>\n    a\n@code \x7b\n\x7d\n</pre>".toList
    let unclosed : Text := "@code \x7b\n@code \x7b\n\x7d".toList
    (findRegions kept).map (Region.span kept) = [(11, 20)] ∧ owningSpans kept = [] ∧
      ((formatDocument .standard {} kept).run {}).1 = moved ∧
      (findRegions unclosed).map (Region.span unclosed) = [] ∧
      owningSpans unclosed = [(8, 17)] := by
  decide +kernel

end Agreement

end RazorLayout

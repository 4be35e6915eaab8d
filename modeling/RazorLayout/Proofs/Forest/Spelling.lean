import RazorLayout.Proofs.Block.Spelling
import RazorLayout.Proofs.Token.Pieces

/-!
# The spellings of a forest

A forest may be written with gaps around its parts.  `Forest.Spells` relates a forest to the texts
that it can be written as.  A body is spelled by its rows: what counts is what its lines hold, not
where they start, since the layout moves bodies to another margin.

The relation is indexed by how deep blocks may still be nested.  A block that is nested too deep has
only one spelling, the one on a single line.

Results.

* `Forest.Spells.passes`: a spelling can stand inside braces.
* `Forest.Spells.isQuiet`, `Forest.Spells.endsText`: what stands in front of a spelling, a body or a
  text, ends there.
* `Forest.Spells.tokenize_text`, `Forest.tokenize_element`, `Forest.tokenize_selfClosing`,
  `Forest.tokenize_flow`: the first token of a spelling, behind its gap, for each constructor.
-/

namespace RazorLayout

section Definitions

/-- Whether there are no siblings. -/
def Forest.isNil : Forest → Bool
  | .nil => true
  | _ => false

/-- A forest whose element is written on one line: it has at most a text. -/
def Forest.isInline : Forest → Bool
  | .nil => true
  | .text _ .nil => true
  | _ => false

/-- A character that a text may be spelled with. -/
def isTextChar (c : Char) : Bool :=
  isPlainChar c || c == '\n'

variable (spacing : Spacing)

/-- A block on one line. -/
def Forest.flowSource (head : FlowHead) (body : Forest) (chain : Chain) : Text :=
  head.words ++ spacing.conditionText head.condition ++ '{' :: body.source spacing ++
    '}' :: chain.source spacing

mutual

/-- The texts that a forest can be written as where blocks may be nested `n` levels deep. -/
def Forest.Spells (n : Nat) : Forest → Text → Prop
  | .nil, t => Text.IsGap t
  | .text content rest, t => ∃ x tail, t = x ++ tail ∧ Text.strip x = Text.strip content ∧
      (∀ c ∈ x, isTextChar c = true) ∧ Text.IsTight tail ∧ rest.Spells n tail
  | .element tag children rest, t => ∃ g x inner tail,
      t = g ++ (x ++ (inner ++ (Context.closingTag tag.name ++ tail))) ∧ Text.IsGap g ∧
        tag.Spells .opening x ∧ children.Spells n inner ∧
        (children.isInline = true → Text.IsLine inner) ∧ rest.Spells n tail
  | .selfClosing tag rest, t => ∃ g x tail, t = g ++ (x ++ tail) ∧ Text.IsGap g ∧
      tag.Spells .selfClosing x ∧ rest.Spells n tail
  | .flow head body chain rest, t => ∃ g x b clauses tail, t = g ++ (x ++ tail) ∧ Text.IsGap g ∧
      SpellsFlow head b clauses x ∧
      (∀ row ∈ Text.rows b, Text.isBlankText row = false) ∧
      (∀ b', Text.rows b' = Text.rows b → body.Spells (n - 1) b') ∧
      chain.Matches n clauses ∧ (n = 0 → x = Forest.flowSource spacing head body chain) ∧
      rest.Spells n tail

/-- Clauses whose bodies can be written as these texts. -/
def Chain.Matches (n : Nat) : Chain → List Clause → Prop
  | .nil, clauses => clauses = []
  | .clause head body rest, clauses => ∃ b others, clauses = ⟨head, b⟩ :: others ∧
      (∀ row ∈ Text.rows b, Text.isBlankText row = false) ∧
      (∀ b', Text.rows b' = Text.rows b → body.Spells (n - 1) b') ∧ rest.Matches n others

end

end Definitions

section Characters

theorem isTextChar_of_isSpace {c : Char} (h : isSpace c = true) : isTextChar c = true := by
  have hne : ∀ {d : Char}, isSpace d = false → c ≠ d := by
    rintro d hd rfl
    rw [h] at hd
    cases hd
  by_cases hline : c = '\n'
  · simp [isTextChar, hline]
  · simp [isTextChar, isPlainChar, hline, hne (d := '<') rfl, hne (d := '@') rfl,
      hne (d := '{') rfl, hne (d := '}') rfl, hne (d := '(') rfl, hne (d := ')') rfl,
      hne (d := '"') rfl, hne (d := '\'') rfl]

theorem isRunning_of_isTextChar {c : Char} (h : isTextChar c = true) : isRunning c = true := by
  simp only [isRunning, Bool.and_eq_true, bne_iff_ne]
  constructor
  · rintro rfl
    exact absurd h (by decide)
  · rintro rfl
    exact absurd h (by decide)

end Characters

theorem Forest.isRegular_of_isClean {F : Forest} (h : F.isClean = true) : F.isRegular = true := by
  match F with
  | .nil => rfl
  | .text content rest =>
      obtain ⟨hleaf, hnext, hrest⟩ := Forest.isClean_text.1 h
      exact Forest.isRegular_text.2 ⟨hleaf, hnext, Forest.isRegular_of_isClean hrest⟩
  | .element tag children rest =>
      obtain ⟨htag, hvoid, hpreserved, hchildren, hrest⟩ := Forest.isClean_element.1 h
      exact Forest.isRegular_element.2 ⟨Tag.isRegular_of_isClean htag, hvoid, hpreserved,
        Forest.isRegular_of_isClean hchildren, Forest.isRegular_of_isClean hrest⟩
  | .selfClosing tag rest =>
      obtain ⟨htag, hrest⟩ := Forest.isClean_selfClosing.1 h
      exact Forest.isRegular_selfClosing.2
        ⟨Tag.isRegular_of_isClean htag, Forest.isRegular_of_isClean hrest⟩
  | .flow head body chain rest =>
      obtain ⟨hhead, hbody, hchain, hrest⟩ := Forest.isClean_flow.1 h
      exact Forest.isRegular_flow.2 ⟨hhead, hbody, hchain, Forest.isRegular_of_isClean hrest⟩

section Braces

variable {spacing : Spacing}

theorem isFree_of_isTextChar {c : Char} (h : isTextChar c = true) :
    Delimiters.braces.isFree c = true := by
  simp [isTextChar, isPlainChar] at h
  simp [Delimiters.isFree, Delimiters.braces, isQuote]
  grind

mutual

/-- A spelling can stand inside braces. -/
theorem Forest.Spells.passes {n : Nat} {F : Forest} {t : Text} (hregular : F.isRegular = true)
    (h : F.Spells spacing n t) : Passes .braces t := by
  match F with
  | .nil => exact passes_gap h
  | .text content rest =>
      obtain ⟨-, -, hrest⟩ := Forest.isRegular_text.1 hregular
      obtain ⟨x, tail, rfl, -, hchars, -, htail⟩ := h
      exact (passes_of_forall_isFree fun c hc => isFree_of_isTextChar (hchars c hc)).append
        (Forest.Spells.passes hrest htail)
  | .element tag children rest =>
      obtain ⟨htag, -, -, hchildren, hrest⟩ := Forest.isRegular_element.1 hregular
      have hreadable := Tag.isReadable_of_isRegular htag
      obtain ⟨g, x, inner, tail, rfl, hg, hx, hinner, -, htail⟩ := h
      obtain ⟨-, -, -, -, hname⟩ := isTagName_cases (Tag.isRegular_cases htag).1
      have hclosing : Passes .braces (Context.closingTag tag.name) :=
        ((passes_of_all (p := "</".toList) (by decide)).append (passes_name hname)).append
          (passes_of_isFree (by decide))
      exact (passes_gap hg).append ((hx.passes hreadable).append
        ((Forest.Spells.passes hchildren hinner).append
          (hclosing.append (Forest.Spells.passes hrest htail))))
  | .selfClosing tag rest =>
      obtain ⟨htag, hrest⟩ := Forest.isRegular_selfClosing.1 hregular
      have hreadable := Tag.isReadable_of_isRegular htag
      obtain ⟨g, x, tail, rfl, hg, hx, htail⟩ := h
      exact (passes_gap hg).append ((hx.passes hreadable).append
        (Forest.Spells.passes hrest htail))
  | .flow head body chain rest =>
      obtain ⟨hhead, hbody, hchain, hrest⟩ := Forest.isRegular_flow.1 hregular
      obtain ⟨g, x, b, clauses, tail, rfl, hg, hx, -, hb, hclauses, -, htail⟩ := h
      have hpass : Passes .braces x :=
        hx.passes hhead (Forest.Spells.passes (Forest.isRegular_of_isClean hbody) (hb b rfl))
          (Chain.Matches.isReadable hchain hclauses)
      exact (passes_gap hg).append (hpass.append (Forest.Spells.passes hrest htail))

theorem Chain.Matches.isReadable {n : Nat} {chain : Chain} {clauses : List Clause}
    (hclean : chain.isClean = true) (h : chain.Matches spacing n clauses) :
    ∀ c ∈ clauses, c.IsReadable := by
  match chain with
  | .nil =>
      rw [show clauses = [] from h]
      simp
  | .clause head body rest =>
      obtain ⟨hhead, hbody, hrest⟩ := Chain.isClean_clause.1 hclean
      obtain ⟨b, others, rfl, -, hb, hothers⟩ := h
      intro c hc
      rcases List.mem_cons.1 hc with rfl | hc
      · exact ⟨hhead, Forest.Spells.passes (Forest.isRegular_of_isClean hbody) (hb b rfl)⟩
      · exact Chain.Matches.isReadable hrest hothers c hc

end

end Braces

section Gaps

variable {spacing : Spacing} {n : Nat}

theorem isLeafText_cases {content : Text} (h : isLeafText content = true) :
    Text.isBlankText content = false ∧ ∀ c ∈ content, isPlainChar c = true := by
  simpa [isLeafText] using h

theorem FlowHead.words_eq_cons (head : FlowHead) : ∃ rest, head.words = '@' :: rest :=
  ⟨_, rfl⟩

theorem SpellsFlow.eq_cons {head : FlowHead} {b t : Text} {clauses : List Clause}
    (h : SpellsFlow head b clauses t) : ∃ rest, t = '@' :: rest := by
  obtain ⟨w, rest, rfl, -⟩ := h
  obtain ⟨words, hwords⟩ := head.words_eq_cons
  exact ⟨_, by rw [hwords]; rfl⟩

theorem Tag.Spells.eq_cons {tag : Tag} {ending : TagEnd} {t : Text} (h : tag.Spells ending t) :
    ∃ rest, t = '<' :: rest := by
  obtain ⟨inner, gap, rfl, -⟩ := h
  exact ⟨_, rfl⟩

/-- Behind a gap, the text of a construct is tight. -/
theorem Text.afterSpaces_gap_construct {g x : Text} {c : Char} (hg : Text.IsGap g)
    (hx : ∃ rest, x = c :: rest) (hc : isSpace c = false) (tail : Text) :
    afterSpaces (g ++ (x ++ tail)) = x ++ tail := by
  obtain ⟨rest, rfl⟩ := hx
  rw [Text.afterSpaces_gap_append hg]
  exact Text.afterSpaces_of_not_isSpace hc _

/-- What a spelling looks like behind its leading gap. -/
theorem Forest.Spells.afterSpaces_cases {F : Forest} {t : Text} (h : F.Spells spacing n t) :
    F = .nil ∧ afterSpaces t = [] ∨ F.startsWithText = true ∨
      ∃ rest, afterSpaces t = '<' :: rest ∨ afterSpaces t = '@' :: rest := by
  have hskip : ∀ {g x tail : Text} {c : Char}, Text.IsGap g → isSpace c = false →
      (∃ rest, x = c :: rest) → ∃ rest, afterSpaces (g ++ (x ++ tail)) = c :: rest := by
    intro g x tail c hg hc hx
    rw [Text.afterSpaces_gap_construct hg hx hc]
    obtain ⟨rest, rfl⟩ := hx
    exact ⟨rest ++ tail, rfl⟩
  match F with
  | .nil => exact Or.inl ⟨rfl, List.dropWhile_eq_nil_iff.2 h⟩
  | .text content rest => exact Or.inr (Or.inl rfl)
  | .element tag children rest =>
      obtain ⟨g, x, inner, tail, rfl, hg, hx, -⟩ := h
      obtain ⟨tail, htail⟩ := hskip hg (by decide) hx.eq_cons
      exact Or.inr (Or.inr ⟨tail, Or.inl htail⟩)
  | .selfClosing tag rest =>
      obtain ⟨g, x, tail, rfl, hg, hx, -⟩ := h
      obtain ⟨tail, htail⟩ := hskip hg (by decide) hx.eq_cons
      exact Or.inr (Or.inr ⟨tail, Or.inl htail⟩)
  | .flow head body chain rest =>
      obtain ⟨g, x, b, clauses, tail, rfl, hg, hx, -⟩ := h
      obtain ⟨tail, htail⟩ := hskip hg (by decide) hx.eq_cons
      exact Or.inr (Or.inr ⟨tail, Or.inr htail⟩)

theorem isBlankText_eq_false_of_strip {x content : Text} (h : Text.strip x = Text.strip content)
    (hcontent : Text.isBlankText content = false) : Text.isBlankText x = false := by
  by_contra hblank
  have hnil := Text.strip_of_isBlankText (by simpa using hblank)
  rw [h, Text.strip_eq_nil_iff, hcontent] at hnil
  cases hnil

/-- The leading gap of a spelling can be changed. -/
theorem Forest.Spells.regap {F : Forest} {s t : Text} (hregular : F.isRegular = true)
    (h : F.Spells spacing n s) (heq : afterSpaces s = afterSpaces t) : F.Spells spacing n t := by
  obtain ⟨gap, hgap, ht⟩ := Text.exists_gap t
  rw [← heq] at ht
  match F with
  | .nil =>
      have hs : afterSpaces s = [] := List.dropWhile_eq_nil_iff.2 h
      rw [hs, List.append_nil] at ht
      rw [ht]
      exact hgap
  | .text content rest =>
      obtain ⟨hleaf, -⟩ := Forest.isRegular_text.1 hregular
      obtain ⟨x, tail, rfl, hstrip, hchars, htail, hrest⟩ := h
      have hsolid : Text.isBlankText x = false :=
        isBlankText_eq_false_of_strip hstrip (isLeafText_cases hleaf).1
      obtain ⟨lead, hlead, hx⟩ := Text.exists_gap x
      refine ⟨gap ++ afterSpaces x, tail, ?_, ?_, ?_, htail, hrest⟩
      · rw [ht, Text.afterSpaces_append hsolid, List.append_assoc]
      · rw [Text.strip_blank_append hgap.isBlankText, ← hstrip]
        conv => rhs; rw [hx]
        exact (Text.strip_blank_append hlead.isBlankText _).symm
      · intro c hc
        rcases List.mem_append.1 hc with hc | hc
        · exact isTextChar_of_isSpace (hgap c hc)
        · exact hchars c ((afterSpaces_suffix x).subset hc)
  | .element tag children rest =>
      obtain ⟨g, x, inner, tail, rfl, hg, hx, hparts⟩ := h
      rw [Text.afterSpaces_gap_construct hg hx.eq_cons (by decide)] at ht
      exact ⟨gap, x, inner, tail, ht, hgap, hx, hparts⟩
  | .selfClosing tag rest =>
      obtain ⟨g, x, tail, rfl, hg, hx, hrest⟩ := h
      rw [Text.afterSpaces_gap_construct hg hx.eq_cons (by decide)] at ht
      exact ⟨gap, x, tail, ht, hgap, hx, hrest⟩
  | .flow head body chain rest =>
      obtain ⟨g, x, b, clauses, tail, rfl, hg, hx, hparts⟩ := h
      rw [Text.afterSpaces_gap_construct hg hx.eq_cons (by decide)] at ht
      exact ⟨gap, x, b, clauses, tail, ht, hgap, hx, hparts⟩

theorem Forest.Spells.ne_nil {F : Forest} {t : Text} (hF : F ≠ .nil)
    (htext : F.startsWithText = false) (h : F.Spells spacing n t) : t ≠ [] := by
  rintro rfl
  rcases h.afterSpaces_cases with ⟨hnil, -⟩ | hstart | ⟨rest, hcons | hcons⟩
  · exact hF hnil
  · rw [htext] at hstart
    cases hstart
  · cases hcons
  · cases hcons

/-- A gap behind a spelling belongs to it. -/
theorem Forest.Spells.append_gap {F : Forest} {t g : Text} (hregular : F.isRegular = true)
    (h : F.Spells spacing n t) (hg : Text.IsGap g) : F.Spells spacing n (t ++ g) := by
  match F with
  | .nil => exact Text.IsGap.append h hg
  | .text content rest =>
      obtain ⟨-, hnext, hrest⟩ := Forest.isRegular_text.1 hregular
      obtain ⟨x, tail, rfl, hstrip, hchars, htail, hspells⟩ := h
      by_cases hnil : rest = .nil
      · subst hnil
        have htailNil : tail = [] := by
          have hgapTail : Text.IsGap tail := hspells
          exact hgapTail.eq_nil_of_isTight (t := []) (by rwa [List.append_nil])
        subst htailNil
        refine ⟨x ++ g, [], by simp, ?_, ?_, Text.isTight_nil, Text.isGap_nil⟩
        · rw [Text.strip_append_blank hg.isBlankText, hstrip]
        · intro c hc
          rcases List.mem_append.1 hc with hc | hc
          · exact hchars c hc
          · exact isTextChar_of_isSpace (hg c hc)
      · obtain ⟨c, cs, rfl⟩ := List.exists_cons_of_ne_nil (hspells.ne_nil hnil hnext)
        refine ⟨x, c :: cs ++ g, by simp, hstrip, hchars, ?_, hspells.append_gap hrest hg⟩
        exact Text.isTight_cons _ (Text.not_isSpace_of_isTight htail)
  | .element tag children rest =>
      obtain ⟨-, -, -, -, hrest⟩ := Forest.isRegular_element.1 hregular
      obtain ⟨lead, x, inner, tail, rfl, hlead, hx, hinner, hline, htail⟩ := h
      exact ⟨lead, x, inner, tail ++ g, by simp, hlead, hx, hinner, hline,
        htail.append_gap hrest hg⟩
  | .selfClosing tag rest =>
      obtain ⟨-, hrest⟩ := Forest.isRegular_selfClosing.1 hregular
      obtain ⟨lead, x, tail, rfl, hlead, hx, htail⟩ := h
      exact ⟨lead, x, tail ++ g, by simp, hlead, hx, htail.append_gap hrest hg⟩
  | .flow head body chain rest =>
      obtain ⟨-, -, -, hrest⟩ := Forest.isRegular_flow.1 hregular
      obtain ⟨lead, x, b, clauses, tail, rfl, hlead, hx, hrows, hb, hclauses, hexact, htail⟩ := h
      exact ⟨lead, x, b, clauses, tail ++ g, by simp, hlead, hx, hrows, hb, hclauses, hexact,
        htail.append_gap hrest hg⟩

theorem Forest.Spells.isBlankText {F : Forest} {t : Text} (hregular : F.isRegular = true)
    (hF : F ≠ .nil) (h : F.Spells spacing n t) : Text.isBlankText t = false := by
  by_contra hblank
  have hblank : Text.isBlankText t = true := by
    simpa using hblank
  obtain ⟨g, hg, ht⟩ := Text.exists_gap t
  rcases h.afterSpaces_cases with ⟨hnil, -⟩ | hstart | ⟨rest, hcons⟩
  · exact hF hnil
  · cases F with
    | text content rest =>
        obtain ⟨hleaf, -⟩ := Forest.isRegular_text.1 hregular
        obtain ⟨x, tail, rfl, hstrip, -⟩ := h
        rw [Text.isBlankText_append, Bool.and_eq_true] at hblank
        rw [isBlankText_eq_false_of_strip hstrip (isLeafText_cases hleaf).1] at hblank
        cases hblank.1
    | nil => cases hstart
    | element => cases hstart
    | selfClosing => cases hstart
    | flow => cases hstart
  · rw [ht, Text.isBlankText_append, Bool.and_eq_true] at hblank
    rcases hcons with hcons | hcons
    · rw [hcons] at hblank
      cases hblank.2
    · rw [hcons] at hblank
      cases hblank.2

end Gaps

section Ends

variable {spacing : Spacing} {n : Nat}

/-- Where siblings end: at the end of the text, or at the closing tag around them. -/
def EndsSiblings (k : Text) : Prop :=
  k = [] ∨ ∃ rest, k = '<' :: '/' :: rest

theorem endsSiblings_nil : EndsSiblings [] :=
  Or.inl rfl

theorem endsSiblings_closingTag (name rest : Text) :
    EndsSiblings (Context.closingTag name ++ rest) :=
  Or.inr ⟨name ++ '>' :: rest, by simp [Context.closingTag]⟩

theorem EndsSiblings.endsText {k : Text} (h : EndsSiblings k) : EndsText k := by
  rcases h with rfl | ⟨rest, rfl⟩
  · exact Or.inl rfl
  · exact Or.inr rfl

theorem EndsSiblings.isQuiet {k : Text} (h : EndsSiblings k) : IsQuiet k := by
  rcases h with rfl | ⟨rest, rfl⟩
  · exact isQuiet_nil
  · exact isQuiet_cons (Or.inl rfl) _

theorem isMark_eq_false_of_isTextChar {c : Char} (h : isTextChar c = true) :
    isMark c = false := by
  by_contra hmark
  simp only [isMark, Bool.not_eq_false, Bool.or_eq_true, beq_iff_eq] at hmark
  rcases hmark with ((rfl | rfl) | rfl) | rfl <;> exact absurd h (by decide)

/-- No clause starts in a spelling, nor behind it. -/
theorem Forest.Spells.isQuiet {F : Forest} {t k : Text} (hregular : F.isRegular = true)
    (h : F.Spells spacing n t) (hk : EndsSiblings k) : IsQuiet (t ++ k) := by
  have hsplit : ∀ {g x tail : Text} {c : Char}, t = g ++ (x ++ tail) → Text.IsGap g →
      (∃ rest, x = c :: rest) → c = '<' ∨ c = '@' → IsQuiet (t ++ k) := by
    rintro g x tail c rfl hg ⟨rest, rfl⟩ hc
    rw [List.append_assoc, isQuiet_append (isMark_eq_false_of_isGap hg)]
    exact isQuiet_cons hc _
  match F with
  | .nil =>
      rw [isQuiet_append (isMark_eq_false_of_isGap h)]
      exact hk.isQuiet
  | .text content rest =>
      obtain ⟨-, -, hrest⟩ := Forest.isRegular_text.1 hregular
      obtain ⟨x, tail, rfl, -, hchars, -, hspells⟩ := h
      rw [List.append_assoc,
        isQuiet_append fun c hc => isMark_eq_false_of_isTextChar (hchars c hc)]
      exact hspells.isQuiet hrest hk
  | .element tag children rest =>
      obtain ⟨g, x, inner, tail, ht, hg, hx, -⟩ := h
      exact hsplit ht hg hx.eq_cons (Or.inl rfl)
  | .selfClosing tag rest =>
      obtain ⟨g, x, tail, ht, hg, hx, -⟩ := h
      exact hsplit ht hg hx.eq_cons (Or.inl rfl)
  | .flow head body chain rest =>
      obtain ⟨g, x, b, clauses, tail, ht, hg, hx, -⟩ := h
      exact hsplit ht hg hx.eq_cons (Or.inr rfl)

/-- The parts of a block that is spelled, with the block read from it. -/
theorem Forest.Spells.flow_cases {head : FlowHead} {body rest : Forest} {chain : Chain} {t : Text}
    (hregular : (Forest.flow head body chain rest).isRegular = true)
    (h : (Forest.flow head body chain rest).Spells spacing n t) :
    ∃ g x b clauses tail, t = g ++ (x ++ tail) ∧ Text.IsGap g ∧
      (∀ k, EndsSiblings k →
        Block.read? (x ++ (tail ++ k)) = some (.flow (head.toFlow b clauses), tail ++ k)) ∧
      Block.read? x = some (.flow (head.toFlow b clauses), []) ∧
      (∀ row ∈ Text.rows b, Text.isBlankText row = false) ∧
      (∀ b', Text.rows b' = Text.rows b → body.Spells spacing (n - 1) b') ∧
      chain.Matches spacing n clauses ∧ (n = 0 → x = Forest.flowSource spacing head body chain) ∧
      SpellsFlow head b clauses x ∧ rest.Spells spacing n tail := by
  obtain ⟨hhead, hbody, hchain, hrest⟩ := Forest.isRegular_flow.1 hregular
  obtain ⟨g, x, b, clauses, tail, rfl, hg, hx, hrows, hb, hclauses, hexact, htail⟩ := h
  have hread : ∀ {r : Text}, IsQuiet r →
      Block.read? (x ++ r) = some (.flow (head.toFlow b clauses), r) :=
    fun hr => Block.read?_of_spells hx hhead ((hb b rfl).passes (Forest.isRegular_of_isClean hbody))
      (hclauses.isReadable hchain) hr
  have hwhole := hread isQuiet_nil
  rw [List.append_nil] at hwhole
  exact ⟨g, x, b, clauses, tail, rfl, hg, fun k hk => hread (htail.isQuiet hrest hk), hwhole,
    hrows, hb, hclauses, hexact, hx, htail⟩

/-- Running text ends in front of a spelling that does not go on with text. -/
theorem Forest.Spells.endsText {F : Forest} {t k : Text} (hregular : F.isRegular = true)
    (htext : F.startsWithText = false) (h : F.Spells spacing n t) (hk : EndsSiblings k)
    (ht : Text.IsTight t) : EndsText (t ++ k) := by
  match F with
  | .nil =>
      have hgap : Text.IsGap t := h
      rw [hgap.eq_nil_of_isTight (t := []) (by rwa [List.append_nil])]
      exact hk.endsText
  | .text content rest => cases htext
  | .element tag children rest =>
      obtain ⟨htag, -⟩ := Forest.isRegular_element.1 hregular
      have hreadable := Tag.isReadable_of_isRegular htag
      obtain ⟨g, x, inner, tail, rfl, hg, hx, -⟩ := h
      rw [hg.eq_nil_of_isTight ht, List.nil_append, List.append_assoc]
      exact Or.inr (hx.startsConstruct hreadable _)
  | .selfClosing tag rest =>
      obtain ⟨htag, -⟩ := Forest.isRegular_selfClosing.1 hregular
      have hreadable := Tag.isReadable_of_isRegular htag
      obtain ⟨g, x, tail, rfl, hg, hx, -⟩ := h
      rw [hg.eq_nil_of_isTight ht, List.nil_append, List.append_assoc]
      exact Or.inr (hx.startsConstruct hreadable _)
  | .flow head body chain rest =>
      obtain ⟨g, x, b, clauses, tail, rfl, hg, hread, -⟩ := h.flow_cases hregular
      rw [hg.eq_nil_of_isTight ht, List.nil_append, List.append_assoc]
      exact Or.inr (tokenize_block (hread k hk)).2

/-- A text is one token, with all the blanks around it. -/
theorem Forest.Spells.tokenize_text {content x tail k : Text} {rest : Forest}
    (hregular : (Forest.text content rest).isRegular = true)
    (hstrip : Text.strip x = Text.strip content) (hchars : ∀ c ∈ x, isTextChar c = true)
    (htight : Text.IsTight tail) (htail : rest.Spells spacing n tail) (hk : EndsSiblings k) :
    tokenize (x ++ tail ++ k) = ⟨.text, x⟩ :: tokenize (tail ++ k) := by
  obtain ⟨hleaf, hnext, hrest⟩ := Forest.isRegular_text.1 hregular
  have hne : x ≠ [] := by
    rintro rfl
    have hsolid := isBlankText_eq_false_of_strip hstrip (isLeafText_cases hleaf).1
    cases hsolid
  rw [List.append_assoc]
  exact RazorLayout.tokenize_text hne (fun c hc => isRunning_of_isTextChar (hchars c hc))
    (htail.endsText hrest hnext hk htight)

end Ends

section Tokens

variable {g x : Text}

/-- An element is the gap in front of it, its opening tag, and what stands behind that tag. -/
theorem Forest.tokenize_element {tag : Tag} {children rest : Forest}
    (hregular : (Forest.element tag children rest).isRegular = true) (hg : Text.IsGap g)
    (hx : tag.Spells .opening x) (inner tail k : Text) :
    tokenize (g ++ (x ++ (inner ++ (Context.closingTag tag.name ++ tail))) ++ k) =
      contentToken g ++ ⟨.openTag tag, x⟩ ::
        tokenize (inner ++ (Context.closingTag tag.name ++ (tail ++ k))) := by
  obtain ⟨htag, hvoid, hpreserved, -, -⟩ := Forest.isRegular_element.1 hregular
  have hreadable := Tag.isReadable_of_isRegular htag
  simp only [List.append_assoc]
  rw [tokenize_gap hg (Or.inr (hx.startsConstruct hreadable _)),
    tokenize_openTag hreadable hvoid hpreserved hx]

theorem Forest.tokenize_selfClosing {tag : Tag} {rest : Forest}
    (hregular : (Forest.selfClosing tag rest).isRegular = true) (hg : Text.IsGap g)
    (hx : tag.Spells .selfClosing x) (tail k : Text) :
    tokenize (g ++ (x ++ tail) ++ k) =
      contentToken g ++ ⟨.selfClosingTag tag, x⟩ :: tokenize (tail ++ k) := by
  obtain ⟨htag, -⟩ := Forest.isRegular_selfClosing.1 hregular
  have hreadable := Tag.isReadable_of_isRegular htag
  simp only [List.append_assoc]
  rw [tokenize_gap hg (Or.inr (hx.startsConstruct hreadable _)),
    tokenize_selfClosingTag hreadable hx]

theorem Forest.tokenize_flow {tail k : Text} {block : Block} (hg : Text.IsGap g)
    (hread : Block.read? (x ++ (tail ++ k)) = some (block, tail ++ k)) :
    tokenize (g ++ (x ++ tail) ++ k) = contentToken g ++ ⟨.block, x⟩ :: tokenize (tail ++ k) := by
  obtain ⟨hblock, hstart⟩ := tokenize_block hread
  simp only [List.append_assoc]
  rw [tokenize_gap hg (Or.inr hstart), hblock]

end Tokens

end RazorLayout

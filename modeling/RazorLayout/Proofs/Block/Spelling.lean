import RazorLayout.Proofs.Tag.Spelling

/-!
# The spellings of a control-flow block

The head of a block, its clauses and their conditions may stand apart by any gaps.

* `SpellsFlow` relates a head, the text of its body and its clauses to their spellings;
* `FillsBraces` and `FillsParens` say of a text that it is read whole between its delimiters, and
  `FlowHead.IsReadable` and `Clause.IsClosed` say what a head and a clause need to be read back;
* `readHead?` reads a block up to the end of its body, and `FlowHead.complete` goes on from there;
* `IsQuiet` says of a text that no clause can start in it: a tag, a block or the end of the text
  comes before any group.

Results.  `readClauses_of_spells`: behind a body exactly the clauses are read that stand there, if
no clause starts in what follows.  `Block.read?_of_spells`: hence every spelling of a clean block in
front of a quiet text is read as that block.
-/

namespace RazorLayout

section Definitions

/-- An optional condition between gaps. -/
def SpellsCondition : Option Text → Text → Prop
  | none, t => Text.IsGap t
  | some condition, t => ∃ g h, t = g ++ parenthesised condition ++ h ∧ Text.IsGap g ∧ Text.IsGap h

/-- Clauses one after the other, with gaps in front of them and of their braces. -/
def SpellsClauses : List Clause → Text → Prop
  | [], t => t = []
  | c :: clauses, t => ∃ g w rest, t = g ++ c.head.words ++ w ++ '{' :: c.body ++ '}' :: rest ∧
      Text.IsGap g ∧ SpellsCondition c.head.condition? w ∧ SpellsClauses clauses rest

/-- A block with its body and its clauses. -/
def SpellsFlow (head : FlowHead) (body : Text) (clauses : List Clause) (t : Text) : Prop :=
  ∃ w rest, t = head.words ++ w ++ '{' :: body ++ '}' :: rest ∧
    SpellsCondition head.condition w ∧ SpellsClauses clauses rest

/-- The block with this head. -/
def FlowHead.toFlow (head : FlowHead) (body : Text) (clauses : List Clause) : Flow where
  keyword := head.keyword
  name := head.name
  condition := head.condition
  body := body
  clauses := clauses

/-- A text that is read whole between braces, whatever follows them. -/
def FillsBraces (body : Text) : Prop :=
  ∀ rest, splitBraces ('{' :: (body ++ '}' :: rest)) = some (body, rest)

/-- A text that is read whole between parentheses, whatever follows them. -/
def FillsParens (condition : Text) : Prop :=
  ∀ rest, splitParens ('(' :: (condition ++ ')' :: rest)) = some (condition, rest)

/-- A clause that is read back: its condition and its body are read whole. -/
structure Clause.IsClosed (c : Clause) : Prop where
  condition : ∀ condition ∈ c.head.condition?, FillsParens condition
  body : FillsBraces c.body

/-- A head that is read back: its condition is read whole, a section and nothing else has a name,
and a resource block has a condition. -/
structure FlowHead.IsReadable (head : FlowHead) : Prop where
  name : head.keyword ≠ .sectionBlock ∧ head.name = none ∨
    head.keyword = .sectionBlock ∧ ∃ name, head.name = some name ∧ isIdentifier name = true
  condition : ∀ condition ∈ head.condition, FillsParens condition
  resource : head.keyword ≠ .usingBlock ∨ head.condition.isSome = true

/-- A clause whose head is clean and whose body can stand inside braces. -/
def Clause.IsReadable (c : Clause) : Prop :=
  c.head.isClean = true ∧ Passes .braces c.body

/-- A character that starts a construct or a group. -/
def isMark (c : Char) : Bool :=
  c == '<' || c == '@' || c == '{' || c == '('

/-- No group comes before the first construct. -/
def IsQuiet (t : Text) : Prop :=
  ∀ c ∈ (t.dropWhile fun c => !isMark c).head?, c ≠ '{' ∧ c ≠ '('

end Definitions

section Quiet

theorem isQuiet_append {p t : Text} (hp : ∀ c ∈ p, isMark c = false) :
    IsQuiet (p ++ t) ↔ IsQuiet t := by
  have hdrop : (p ++ t).dropWhile (fun c => !isMark c) = t.dropWhile fun c => !isMark c :=
    List.dropWhile_append_of_pos (by simpa using hp)
  rw [IsQuiet, IsQuiet, hdrop]

theorem isQuiet_nil : IsQuiet [] := by
  simp [IsQuiet]

theorem isQuiet_cons {c : Char} (hc : c = '<' ∨ c = '@') (t : Text) : IsQuiet (c :: t) := by
  rcases hc with rfl | rfl <;> simp [IsQuiet, isMark]

theorem isMark_eq_false_of_isBlank {c : Char} (h : isBlank c = true) : isMark c = false := by
  by_contra hmark
  simp only [isMark, Bool.not_eq_false, Bool.or_eq_true, beq_iff_eq] at hmark
  rcases hmark with ((rfl | rfl) | rfl) | rfl <;> exact absurd h (by decide)

theorem isMark_eq_false_of_isGap {g : Text} (hg : Text.IsGap g) : ∀ c ∈ g, isMark c = false :=
  fun c hc => isMark_eq_false_of_isBlank (isBlank_of_isSpace (hg c hc))

variable {t : Text} (h : IsQuiet t)
include h

theorem IsQuiet.afterSpaces : IsQuiet (afterSpaces t) := by
  obtain ⟨g, hg, ht⟩ := Text.exists_gap t
  rw [ht, isQuiet_append (isMark_eq_false_of_isGap hg)] at h
  exact h

theorem IsQuiet.afterWord? {word rest : Text} (hword : word.any isMark = false)
    (hread : afterWord? word t = some rest) : IsQuiet rest := by
  obtain ⟨tail, htail, rfl⟩ := Option.map_eq_some_iff.1 hread
  have hword : ∀ c ∈ word, isMark c = false := by
    simpa using hword
  rw [Text.after?_eq_some_iff.1 htail, isQuiet_append hword] at h
  have hblanks : ∀ c ∈ tail.takeWhile isBlank, isMark c = false :=
    fun c hc => isMark_eq_false_of_isBlank (List.mem_takeWhile_imp hc)
  rw [← List.takeWhile_append_dropWhile (p := isBlank) (l := tail), isQuiet_append hblanks] at h
  exact h

theorem IsQuiet.splitBraces : splitBraces t = none := by
  cases hread : RazorLayout.splitBraces t with
  | none => rfl
  | some group =>
      obtain ⟨content, rest⟩ := group
      rw [splitBraces_eq hread] at h
      exact absurd rfl (h '{' (by simp [isMark])).1

theorem IsQuiet.splitParens : splitParens t = none := by
  cases hread : RazorLayout.splitParens t with
  | none => rfl
  | some group =>
      obtain ⟨content, rest⟩ := group
      rw [splitParens_eq hread] at h
      exact absurd rfl (h '(' (by simp [isMark])).2

/-- No clause starts in a quiet text. -/
theorem IsQuiet.readClause? : readClause? t = none := by
  have hparens : ∀ {word rest : Text}, word.any isMark = false →
      RazorLayout.afterWord? word t = some rest → RazorLayout.splitParens rest = none :=
    fun hword hread => (h.afterWord? hword hread).splitParens
  have hbraces : ∀ {word rest : Text}, word.any isMark = false →
      RazorLayout.afterWord? word t = some rest → RazorLayout.splitBraces rest = none :=
    fun hword hread => (h.afterWord? hword hread).splitBraces
  have helseIf : readElseIf? t = none := by
    cases helse : RazorLayout.afterWord? elseWord t with
    | none => simp [readElseIf?, helse]
    | some rest =>
        have hrest : IsQuiet rest := h.afterWord? (by decide) helse
        cases hif : RazorLayout.afterWord? ['i', 'f'] rest with
        | none => simp [readElseIf?, helse, hif]
        | some tail =>
            have htail : IsQuiet tail := hrest.afterWord? (by decide) hif
            simp [readElseIf?, helse, hif, htail.splitParens]
  have helse : readElse? t = none := by
    cases hread : RazorLayout.afterWord? elseWord t with
    | none => simp [readElse?, hread]
    | some rest => simp [readElse?, hread, hbraces (by decide) hread]
  have hfiltered : readFilteredCatch? t = none := by
    cases hread : RazorLayout.afterWord? catchWord t with
    | none => simp [readFilteredCatch?, hread]
    | some rest => simp [readFilteredCatch?, hread, hparens (by decide) hread]
  have hplain : readPlainCatch? t = none := by
    cases hread : RazorLayout.afterWord? catchWord t with
    | none => simp [readPlainCatch?, hread]
    | some rest => simp [readPlainCatch?, hread, hbraces (by decide) hread]
  have hfinally : readFinally? t = none := by
    cases hread : RazorLayout.afterWord? finallyWord t with
    | none => simp [readFinally?, hread]
    | some rest => simp [readFinally?, hread, hbraces (by decide) hread]
  simp [RazorLayout.readClause?, helseIf, helse, hfiltered, hplain, hfinally]

end Quiet

section Clauses

theorem readClauses_of_eq_none {t : Text} (h : readClause? (afterSpaces t) = none) :
    readClauses t = ([], t) := by
  rw [readClauses]
  split
  · rfl
  · rename_i hsome
    rw [h] at hsome
    cases hsome

theorem readClauses_of_eq_some {t rest : Text} {c : Clause}
    (h : readClause? (afterSpaces t) = some (c, rest)) :
    readClauses t = (c :: (readClauses rest).1, (readClauses rest).2) := by
  rw [readClauses]
  split
  · rename_i hnone
    rw [h] at hnone
    cases hnone
  · rename_i d tail hsome
    rw [h] at hsome
    cases hsome
    rfl

theorem ClauseHead.text_eq (head : ClauseHead) :
    head.text = head.words ++ conditionText head.condition? := by
  cases head <;> simp [text, words, condition?, conditionText]

theorem spellsCondition_conditionText {gap : Text} (hgap : Text.IsGap gap)
    (condition : Option Text) :
    SpellsCondition condition (conditionText condition ++ gap) := by
  cases condition with
  | none => exact hgap
  | some condition => exact ⟨[' '], gap, by simp [conditionText], Text.isGap_spaces 1, hgap⟩

/-- A condition is found behind the blanks in front of it. -/
theorem dropWhile_condition {condition w : Text} (h : SpellsCondition (some condition) w)
    (rest : Text) :
    ∃ gap, Text.IsGap gap ∧
      (w ++ rest).dropWhile isBlank = '(' :: (condition ++ ')' :: (gap ++ rest)) := by
  obtain ⟨g, gap, rfl, hg, hgap⟩ := h
  refine ⟨gap, hgap, ?_⟩
  rw [List.append_assoc, List.append_assoc,
    List.dropWhile_append_of_pos fun c hc => isBlank_of_isSpace (hg c hc)]
  have hparen : parenthesised condition ++ (gap ++ rest) =
      '(' :: (condition ++ ')' :: (gap ++ rest)) := by
    simp [parenthesised]
  rw [hparen]
  exact List.dropWhile_cons_of_neg (by decide)

theorem dropWhile_no_condition {w : Text} (h : SpellsCondition none w) (rest : Text) :
    (w ++ '{' :: rest).dropWhile isBlank = '{' :: rest := by
  have hw : Text.IsGap w := h
  rw [List.dropWhile_append_of_pos fun c hc => isBlank_of_isSpace (hw c hc)]
  exact List.dropWhile_cons_of_neg (by decide)

theorem splitBody_gap {g body : Text} (hg : Text.IsGap g) (hbody : FillsBraces body)
    (rest : Text) : splitBody (g ++ '{' :: (body ++ '}' :: rest)) = some (body, rest) := by
  rw [splitBody, Text.afterSpaces_gap_append hg, Text.afterSpaces_of_not_isSpace (by decide)]
  exact hbody rest

theorem fillsParens_of_all {condition : Option Text} (h : condition.all isCondition = true) :
    ∀ inner ∈ condition, FillsParens inner := by
  rintro inner rfl
  exact splitParens_of_isCondition h

theorem Clause.IsReadable.isClosed {c : Clause} (h : c.IsReadable) : c.IsClosed where
  condition := fillsParens_of_all h.1
  body := splitBraces_of_passes h.2

theorem afterWord?_append (word t : Text) :
    afterWord? word (word ++ t) = some (t.dropWhile isBlank) := by
  have hafter : Text.after? word (word ++ t) = some t := Text.after?_eq_some_iff.2 rfl
  rw [afterWord?, hafter]
  rfl

/-- A clause is read back. -/
theorem readClause?_of_spells {c : Clause} {w : Text} (hc : c.IsClosed)
    (hw : SpellsCondition c.head.condition? w) (rest : Text) :
    readClause? (c.head.words ++ w ++ '{' :: c.body ++ '}' :: rest) = some (c, rest) := by
  obtain ⟨head, body⟩ := c
  obtain ⟨hhead, hbody⟩ := hc
  have hassoc : head.words ++ w ++ '{' :: body ++ '}' :: rest =
      head.words ++ (w ++ '{' :: (body ++ '}' :: rest)) := by
    simp
  have hbraces : splitBraces ('{' :: (body ++ '}' :: rest)) = some (body, rest) := hbody rest
  simp only [hassoc]
  cases head with
  | elseIf condition =>
      obtain ⟨gap, hgap, hdrop⟩ := dropWhile_condition hw ('{' :: (body ++ '}' :: rest))
      have hcondition : FillsParens condition := hhead condition rfl
      have helse : afterWord? elseWord (elseIfWords ++ (w ++ '{' :: (body ++ '}' :: rest))) =
          some ('i' :: 'f' :: (w ++ '{' :: (body ++ '}' :: rest))) :=
        afterWord?_append elseWord (" if".toList ++ (w ++ '{' :: (body ++ '}' :: rest)))
      have hif : afterWord? ['i', 'f'] ('i' :: 'f' :: (w ++ '{' :: (body ++ '}' :: rest))) =
          some ('(' :: (condition ++ ')' :: (gap ++ '{' :: (body ++ '}' :: rest)))) := by
        rw [← hdrop]
        exact afterWord?_append ['i', 'f'] _
      simp [readClause?, readElseIf?, ClauseHead.words, helse, hif, hcondition _,
        splitBody_gap hgap hbody]
  | otherwise =>
      have hdrop := dropWhile_no_condition hw (body ++ '}' :: rest)
      have hif : afterWord? ['i', 'f'] ('{' :: (body ++ '}' :: rest)) = none := rfl
      simp [readClause?, readElseIf?, readElse?, ClauseHead.words, afterWord?_append, hdrop, hif,
        hbraces]
  | handler condition =>
      have helse : afterWord? elseWord (catchWord ++ (w ++ '{' :: (body ++ '}' :: rest))) =
          none := rfl
      cases condition with
      | some condition =>
          obtain ⟨gap, hgap, hdrop⟩ := dropWhile_condition hw ('{' :: (body ++ '}' :: rest))
          have hcondition : FillsParens condition := hhead condition rfl
          simp [readClause?, readElseIf?, readElse?, readFilteredCatch?, ClauseHead.words, helse,
            afterWord?_append, hdrop, hcondition _, splitBody_gap hgap hbody]
      | none =>
          have hdrop := dropWhile_no_condition hw (body ++ '}' :: rest)
          have hparens : splitParens ('{' :: (body ++ '}' :: rest)) = none := rfl
          simp [readClause?, readElseIf?, readElse?, readFilteredCatch?, readPlainCatch?,
            ClauseHead.words, helse, afterWord?_append, hdrop, hparens, hbraces]
  | cleanup =>
      have hdrop := dropWhile_no_condition hw (body ++ '}' :: rest)
      have helse : afterWord? elseWord (finallyWord ++ (w ++ '{' :: (body ++ '}' :: rest))) =
          none := rfl
      have hcatch : afterWord? catchWord (finallyWord ++ (w ++ '{' :: (body ++ '}' :: rest))) =
          none := rfl
      simp [readClause?, readElseIf?, readElse?, readFilteredCatch?, readPlainCatch?, readFinally?,
        ClauseHead.words, helse, hcatch, afterWord?_append, hdrop, hbraces]

theorem isTight_words (head : ClauseHead) (rest : Text) :
    Text.IsTight (head.words ++ rest) := by
  cases head <;> exact Text.isTight_cons _ (by decide)

/-- Exactly the clauses are read that stand in front of a text in which no clause starts. -/
theorem readClauses_of_spells {clauses : List Clause} {t rest : Text}
    (h : SpellsClauses clauses t) (hclauses : ∀ c ∈ clauses, c.IsClosed)
    (hrest : readClause? (afterSpaces rest) = none) :
    readClauses (t ++ rest) = (clauses, rest) := by
  induction clauses generalizing t with
  | nil =>
      rw [show t = [] from h]
      exact readClauses_of_eq_none hrest
  | cons c clauses ih =>
      obtain ⟨g, w, tail, rfl, hg, hw, htail⟩ := h
      have hothers := ih htail fun d hd => hclauses d (List.mem_cons_of_mem c hd)
      have hskip : afterSpaces (g ++ c.head.words ++ w ++ '{' :: c.body ++ '}' :: tail ++ rest) =
          c.head.words ++ w ++ '{' :: c.body ++ '}' :: (tail ++ rest) := by
        have hassoc : g ++ c.head.words ++ w ++ '{' :: c.body ++ '}' :: tail ++ rest =
            g ++ (c.head.words ++ (w ++ '{' :: c.body ++ '}' :: (tail ++ rest))) := by
          simp
        rw [hassoc, Text.afterSpaces_gap_append hg,
          show afterSpaces (c.head.words ++ _) = _ from isTight_words c.head _]
        simp
      have hread := readClause?_of_spells (hclauses c List.mem_cons_self) hw (tail ++ rest)
      rw [← hskip] at hread
      rw [readClauses_of_eq_some hread, hothers]

end Clauses

section Heads

theorem isNameChar_of_isIdentifier {name : Text} (h : isIdentifier name = true) :
    ∀ c ∈ name, isNameChar c = true := by
  cases name with
  | nil => cases h
  | cons c cs =>
      simp only [isIdentifier, isIdentifierStart, Bool.and_eq_true, List.all_eq_true] at h
      intro d hd
      apply isNameChar_of_isIdentifierChar
      rcases List.mem_cons.1 hd with rfl | hd
      · simp [isIdentifierChar, h.1]
      · exact h.2 d hd

theorem Keyword.text_cases (keyword : Keyword) :
    ∃ c cs, keyword.text = c :: cs ∧ c ≠ '{' ∧ c ≠ '*' ∧
      ∀ d ∈ keyword.text, isIdentifierChar d = true := by
  cases keyword <;> exact ⟨_, _, rfl, by decide, by decide, List.all_eq_true.1 (by decide)⟩

/-- A keyword is recognized when no identifier character follows it. -/
theorem Block.read?_keyword {keyword : Keyword} {rest : Text}
    (hrest : ∀ c ∈ rest.head?, isIdentifierChar c = false) :
    Block.read? (sigil :: keyword.text ++ rest) = readKeywordBlock? keyword rest := by
  obtain ⟨c, cs, htext, hbrace, hstar, hchars⟩ := keyword.text_cases
  have htake : (c :: (cs ++ rest)).takeWhile isIdentifierChar = keyword.text := by
    rw [← List.cons_append, ← htext]
    exact takeWhile_append_all hchars hrest
  have hdrop : afterIdentifier (c :: (cs ++ rest)) = rest := by
    rw [← List.cons_append, ← htext]
    exact dropWhile_append_all hchars hrest
  have hread : Block.read? ('@' :: c :: (cs ++ rest)) =
      (Keyword.ofText? ((c :: (cs ++ rest)).takeWhile isIdentifierChar)).bind
        fun keyword => readKeywordBlock? keyword (afterIdentifier (c :: (cs ++ rest))) := by
    unfold Block.read?
    split
    · rename_i heq
      cases heq
      exact absurd rfl hbrace
    · rename_i heq
      cases heq
      exact absurd rfl hstar
    · rename_i heq
      cases heq
      rfl
    · rename_i hnone
      exact absurd rfl (hnone _)
  have hcons : sigil :: keyword.text ++ rest = '@' :: c :: (cs ++ rest) := by
    rw [htext]
    rfl
  rw [hcons, hread, htake, hdrop, Keyword.ofText?_text]
  rfl

/-- What may stand between the words of a head and its brace does not belong to the words. -/
theorem SpellsCondition.stops {condition : Option Text} {w : Text}
    (h : SpellsCondition condition w) (rest : Text) :
    ∀ c ∈ (w ++ '{' :: rest).head?, isIdentifierChar c = false := by
  have hstop : ∀ {g tail : Text} {d : Char}, Text.IsGap g → isIdentifierChar d = false →
      ∀ c ∈ (g ++ d :: tail).head?, isIdentifierChar c = false := by
    intro g tail d hg hd c hc
    cases g with
    | nil =>
        have hcd : d = c := by
          simpa using hc
        exact hcd ▸ hd
    | cons e g =>
        have hce : e = c := by
          simpa using hc
        have hspace : isSpace c = true := hce ▸ hg e List.mem_cons_self
        by_contra hchar
        have hname := isNameChar_eq_false_of_isSpace hspace
        rw [isNameChar_of_isIdentifierChar (by simpa using hchar)] at hname
        cases hname
  cases condition with
  | none => exact hstop h (by decide)
  | some condition =>
      obtain ⟨g, gap, rfl, hg, -⟩ := h
      have hassoc : g ++ parenthesised condition ++ gap ++ '{' :: rest =
          g ++ '(' :: (condition ++ ')' :: (gap ++ '{' :: rest)) := by
        simp [parenthesised]
      rw [hassoc]
      exact hstop hg (by decide)

theorem afterSpaces_condition {condition w : Text} (h : SpellsCondition (some condition) w)
    (rest : Text) :
    ∃ gap, Text.IsGap gap ∧
      afterSpaces (w ++ rest) = '(' :: (condition ++ ')' :: (gap ++ rest)) := by
  obtain ⟨g, gap, rfl, hg, hgap⟩ := h
  refine ⟨gap, hgap, ?_⟩
  rw [List.append_assoc, List.append_assoc, Text.afterSpaces_gap_append hg]
  have hparen : parenthesised condition ++ (gap ++ rest) =
      '(' :: (condition ++ ')' :: (gap ++ rest)) := by
    simp [parenthesised]
  rw [hparen]
  exact Text.afterSpaces_of_not_isSpace (by decide) _

/-- The condition of a head and its body are found. -/
theorem readCondition?_of_spells (keyword : Keyword) {condition : Option Text} {w body : Text}
    (hcondition : ∀ inner ∈ condition, FillsParens inner)
    (husing : keyword ≠ .usingBlock ∨ condition.isSome = true)
    (hw : SpellsCondition condition w) (hbody : FillsBraces body) (rest : Text) :
    ∃ mid, readCondition? keyword (afterSpaces (w ++ '{' :: (body ++ '}' :: rest))) =
        some (condition, mid) ∧ splitBody mid = some (body, rest) := by
  cases condition with
  | none =>
      have hgap : Text.IsGap w := hw
      have hskip : afterSpaces (w ++ '{' :: (body ++ '}' :: rest)) =
          '{' :: (body ++ '}' :: rest) := by
        rw [Text.afterSpaces_gap_append hgap]
        exact Text.afterSpaces_of_not_isSpace (by decide) _
      have hkeyword : keyword ≠ .usingBlock := by
        rcases husing with husing | husing
        · exact husing
        · cases husing
      refine ⟨'{' :: (body ++ '}' :: rest), ?_, splitBody_gap Text.isGap_nil hbody rest⟩
      rw [hskip, readCondition?, if_neg hkeyword]
      simp
  | some condition =>
      obtain ⟨gap, hgap, hskip⟩ := afterSpaces_condition hw ('{' :: (body ++ '}' :: rest))
      refine ⟨gap ++ '{' :: (body ++ '}' :: rest), ?_, splitBody_gap hgap hbody rest⟩
      rw [hskip, readCondition?, hcondition condition rfl]
      rfl

/-- The parts of a clean head. -/
theorem FlowHead.isClean_cases {head : FlowHead} (h : head.isClean = true) :
    head.keyword.isMarkupBlock = true ∧ head.condition.all isCondition = true ∧
      (head.keyword ≠ .usingBlock ∨ head.condition.isSome = true) ∧
      (head.keyword ≠ .sectionBlock ∧ head.name = none ∨
        head.keyword = .sectionBlock ∧ head.condition = none ∧
          ∃ name, head.name = some name ∧ isIdentifier name = true) := by
  simp only [isClean, Bool.and_eq_true] at h
  obtain ⟨hkeyword, h⟩ := h
  refine ⟨hkeyword, ?_⟩
  split at h
  · rename_i hsection
    simp only [Bool.and_eq_true, Option.isNone_iff_eq_none, Option.any_eq_true] at h
    obtain ⟨⟨name, hname, hid⟩, hcondition⟩ := h
    refine ⟨by simp [hcondition], Or.inl (by simp [hsection]), Or.inr ⟨hsection, hcondition, ?_⟩⟩
    exact ⟨name, hname, hid⟩
  · rename_i hsection
    simp only [Bool.and_eq_true, Option.isNone_iff_eq_none, Bool.or_eq_true, bne_iff_ne] at h
    exact ⟨h.1.2, h.2, Or.inl ⟨hsection, h.1.1⟩⟩

theorem FlowHead.isReadable_of_isClean {head : FlowHead} (h : head.isClean = true) :
    head.IsReadable := by
  obtain ⟨-, hcondition, hresource, hname⟩ := isClean_cases h
  exact ⟨hname.imp_right fun hsection => ⟨hsection.1, hsection.2.2⟩,
    fillsParens_of_all hcondition, hresource⟩

/-- The name of a head is found, and what follows it. -/
theorem readName?_of_spells {head : FlowHead} {w : Text} (hhead : head.IsReadable)
    (hw : SpellsCondition head.condition w) (body rest : Text) :
    ∃ tail, sigil :: head.keyword.text ++ tail =
        head.words ++ (w ++ '{' :: (body ++ '}' :: rest)) ∧
      (∀ c ∈ tail.head?, isIdentifierChar c = false) ∧
      readName? head.keyword (afterSpaces tail) =
        some (head.name, afterSpaces (w ++ '{' :: (body ++ '}' :: rest))) := by
  obtain ⟨hsection, hname⟩ | ⟨hsection, name, hname, hid⟩ := hhead.name
  · refine ⟨w ++ '{' :: (body ++ '}' :: rest), ?_, hw.stops _, ?_⟩
    · simp [FlowHead.words, hname]
    · simp [readName?, hsection, hname]
  · refine ⟨' ' :: (name ++ (w ++ '{' :: (body ++ '}' :: rest))), ?_, by simp; decide, ?_⟩
    · simp [FlowHead.words, hname]
    · cases name with
      | nil => cases hid
      | cons c cs =>
          have hletters := isNameChar_of_isIdentifier hid
          simp only [isIdentifier, Bool.and_eq_true, List.all_eq_true] at hid
          obtain ⟨hstart, hchars⟩ := hid
          have hspace : isSpace c = false :=
            isSpace_eq_false_of_isNameChar (hletters c List.mem_cons_self)
          have hskip : afterSpaces (' ' :: (c :: cs ++ (w ++ '{' :: (body ++ '}' :: rest)))) =
              c :: (cs ++ (w ++ '{' :: (body ++ '}' :: rest))) := by
            rw [afterSpaces, List.dropWhile_cons_of_pos (by decide), ← afterSpaces]
            exact Text.afterSpaces_of_not_isSpace hspace _
          have htake : (cs ++ (w ++ '{' :: (body ++ '}' :: rest))).takeWhile isIdentifierChar =
              cs := takeWhile_append_all hchars (hw.stops _)
          have hdrop : afterIdentifier (cs ++ (w ++ '{' :: (body ++ '}' :: rest))) =
              w ++ '{' :: (body ++ '}' :: rest) := dropWhile_append_all hchars (hw.stops _)
          rw [hskip, readName?, if_pos hsection]
          simp only [hstart, if_true, htake, hdrop, hname]

/-- A block up to the end of its body: its head and the body. -/
def readHead? (keyword : Keyword) (cs : Text) : Option ((FlowHead × Text) × Text) := do
  let (name, cs) ← readName? keyword (afterSpaces cs)
  let (condition, cs) ← readCondition? keyword cs
  let (body, cs) ← splitBody cs
  pure ((⟨keyword, name, condition⟩, body), cs)

/-- The block with this head and body, and the text behind its clauses. -/
def FlowHead.complete (head : FlowHead) (body rest : Text) : Block × Text :=
  if head.keyword.holdsMembers then (.members head.keyword, rest)
  else
    let clauses := readClauses rest
    let test := readTrailing head.keyword clauses.2
    (.flow { head.toFlow body clauses.1 with loopTest := test.1 }, test.2)

theorem readKeywordBlock?_eq (keyword : Keyword) (cs : Text) :
    readKeywordBlock? keyword cs =
      (readHead? keyword cs).map fun parts => parts.1.1.complete parts.1.2 parts.2 := by
  rw [readKeywordBlock?, readHead?]
  cases readName? keyword (afterSpaces cs) with
  | none => rfl
  | some name =>
      cases hcondition : readCondition? keyword name.2 with
      | none => simp [hcondition]
      | some condition =>
          cases hbody : splitBody condition.2 with
          | none => simp [hcondition, hbody]
          | some body =>
              simp only [hcondition, hbody, Option.bind_eq_bind, Option.bind_some, Option.pure_def,
                Option.map_some, FlowHead.complete]
              split <;> rfl

/-- A readable head with its body is read, and what follows is left to the clauses. -/
theorem Block.read?_head {head : FlowHead} {body w : Text} (hhead : head.IsReadable)
    (hbody : FillsBraces body) (hw : SpellsCondition head.condition w) (rest : Text) :
    Block.read? (head.words ++ (w ++ '{' :: (body ++ '}' :: rest))) =
      some (head.complete body rest) := by
  obtain ⟨tail, htext, hstop, hname⟩ := readName?_of_spells hhead hw body rest
  obtain ⟨mid, hcondition, hsplit⟩ :=
    readCondition?_of_spells head.keyword hhead.condition hhead.resource hw hbody rest
  have hread : readHead? head.keyword tail = some ((head, body), rest) := by
    simp only [readHead?, hname, hcondition, hsplit, Option.bind_eq_bind, Option.bind_some,
      Option.pure_def]
  rw [← htext, Block.read?_keyword hstop, readKeywordBlock?_eq, hread]
  rfl

theorem SpellsFlow.startsWith_comment {head : FlowHead} {body t : Text} {clauses : List Clause}
    (h : SpellsFlow head body clauses t) : Text.startsWith "@*".toList t = false := by
  obtain ⟨w, rest, rfl, -⟩ := h
  obtain ⟨c, cs, htext, -, hstar, -⟩ := head.keyword.text_cases
  simp [FlowHead.words, htext, Text.startsWith, Text.after?, sigil, hstar.symm]

/-- Every spelling of a clean block in front of a quiet text is read as that block. -/
theorem Block.read?_of_spells {head : FlowHead} {body t rest : Text} {clauses : List Clause}
    (h : SpellsFlow head body clauses t) (hhead : head.isClean = true)
    (hbody : Passes .braces body) (hclauses : ∀ c ∈ clauses, c.IsReadable)
    (hrest : IsQuiet rest) :
    Block.read? (t ++ rest) = some (.flow (head.toFlow body clauses), rest) := by
  obtain ⟨w, tail, rfl, hw, htail⟩ := h
  obtain ⟨hkeyword, -⟩ := FlowHead.isClean_cases hhead
  have hreadable := FlowHead.isReadable_of_isClean hhead
  have hassoc : head.words ++ w ++ '{' :: body ++ '}' :: tail ++ rest =
      head.words ++ (w ++ '{' :: (body ++ '}' :: (tail ++ rest))) := by
    simp
  have hothers := readClauses_of_spells htail (fun c hc => (hclauses c hc).isClosed)
    hrest.afterSpaces.readClause?
  have hmembers : head.keyword.holdsMembers = false := by
    cases hk : head.keyword <;> simp [hk, Keyword.isMarkupBlock, Keyword.holdsMembers] at hkeyword ⊢
  have hloop : head.keyword ≠ .doLoop := by
    intro hk
    rw [hk] at hkeyword
    cases hkeyword
  rw [hassoc, Block.read?_head hreadable (splitBraces_of_passes hbody) hw]
  simp [FlowHead.complete, hmembers, readTrailing, hloop, hothers, FlowHead.toFlow]

end Heads

section Braces

theorem SpellsCondition.passes {condition : Option Text} {w : Text}
    (hcondition : condition.all isCondition = true) (h : SpellsCondition condition w) :
    Passes .braces w := by
  cases condition with
  | none => exact passes_gap h
  | some condition =>
      obtain ⟨g, gap, rfl, hg, hgap⟩ := h
      have hclean : isCondition condition = true := hcondition
      have hopen : Passes .braces ['('] := passes_of_isFree (by decide)
      have hclose : Passes .braces [')'] := passes_of_isFree (by decide)
      have hgroup : Passes .braces (parenthesised condition) :=
        (hopen.append (passes_of_isCondition hclean)).append hclose
      exact ((passes_gap hg).append hgroup).append (passes_gap hgap)

theorem Passes.body {body : Text} (h : Passes .braces body) {p q : Text} (hp : Passes .braces p)
    (hq : Passes .braces q) : Passes .braces (p ++ '{' :: body ++ '}' :: q) := by
  have hassoc : p ++ '{' :: body ++ '}' :: q = p ++ ('{' :: body ++ ['}']) ++ q := by
    simp
  rw [hassoc]
  exact (hp.append h.inBraces).append hq

theorem SpellsClauses.passes {clauses : List Clause} {t : Text} (h : SpellsClauses clauses t)
    (hclauses : ∀ c ∈ clauses, c.IsReadable) : Passes .braces t := by
  induction clauses generalizing t with
  | nil =>
      rw [show t = [] from h]
      exact passes_nil _
  | cons c clauses ih =>
      obtain ⟨g, w, rest, rfl, hg, hw, hrest⟩ := h
      obtain ⟨hhead, hbody⟩ := hclauses c List.mem_cons_self
      have hwords : Passes .braces c.head.words := by
        apply passes_of_all
        cases c.head <;> rw [ClauseHead.words] <;> decide
      have hothers : Passes .braces rest :=
        ih hrest fun d hd => hclauses d (List.mem_cons_of_mem c hd)
      exact Passes.body hbody (((passes_gap hg).append hwords).append (hw.passes hhead)) hothers

/-- The words of a head are its keyword, or its keyword and a name. -/
theorem FlowHead.words_cases {head : FlowHead} (h : head.isClean = true) :
    head.words = sigil :: head.keyword.text ∨
      ∃ name, isIdentifier name = true ∧
        head.words = (sigil :: head.keyword.text) ++ ' ' :: name := by
  obtain ⟨-, -, -, ⟨-, hnone⟩ | ⟨-, -, name, hsome, hid⟩⟩ := isClean_cases h
  · left
    rw [words, hnone, List.append_nil]
  · right
    exact ⟨name, hid, by rw [words, hsome]⟩

theorem FlowHead.passes_words {head : FlowHead} (h : head.isClean = true) :
    Passes .braces head.words := by
  have hkeyword : Passes .braces (sigil :: head.keyword.text) := by
    apply passes_of_all
    cases head.keyword <;> decide
  rcases words_cases h with hwords | ⟨name, hid, hwords⟩
  · rw [hwords]
    exact hkeyword
  · have hspace : Passes .braces [' '] := passes_of_isFree (by decide)
    rw [hwords]
    exact hkeyword.append (hspace.append (passes_name (isNameChar_of_isIdentifier hid)))

/-- A spelling of a block can stand inside braces. -/
theorem SpellsFlow.passes {head : FlowHead} {body t : Text} {clauses : List Clause}
    (h : SpellsFlow head body clauses t) (hhead : head.isClean = true)
    (hbody : Passes .braces body) (hclauses : ∀ c ∈ clauses, c.IsReadable) : Passes .braces t := by
  obtain ⟨w, rest, rfl, hw, hrest⟩ := h
  obtain ⟨-, hcondition, -⟩ := FlowHead.isClean_cases hhead
  exact Passes.body hbody ((FlowHead.passes_words hhead).append (hw.passes hcondition))
    (hrest.passes hclauses)

end Braces

end RazorLayout

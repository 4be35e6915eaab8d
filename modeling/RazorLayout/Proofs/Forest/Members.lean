import RazorLayout.Document.Region
import RazorLayout.Proofs.Forest.Spelling

/-!
# No member block in a spelling

The search for member blocks looks at every sigil of a document.  In a spelling of a regular forest
none of them opens a member block: a sigil in front of a name or inside a condition is stopped
before any brace, and the keyword of a block is another one.

Results.  `Forest.Spells.isMemberFree`: no member block opens in a spelling, whatever follows it.
`findRegions_of_isMemberFree`: hence a document that is a spelling is markup throughout.
-/

namespace RazorLayout

section Definitions

/-- No member block opens in the text, whatever follows it. -/
def IsMemberFree : Text → Prop
  | [] => True
  | c :: cs => (∀ k, readMemberOpening? (c :: (cs ++ k)) = none) ∧ IsMemberFree cs

/-- A character that can stand neither in a keyword nor between it and its brace. -/
def isStopper (c : Char) : Bool :=
  ['=', '>', ')'].contains c

/-- A text with a stopper in front of its first brace. -/
def IsStopped (t : Text) : Prop :=
  ∃ u d v, t = u ++ d :: v ∧ '{' ∉ u ∧ isStopper d = true

end Definitions

section Search

theorem IsMemberFree.append {s t : Text} (hs : IsMemberFree s) (ht : IsMemberFree t) :
    IsMemberFree (s ++ t) := by
  induction s with
  | nil => exact ht
  | cons c s ih =>
      obtain ⟨hfirst, hrest⟩ := hs
      rw [List.cons_append]
      refine ⟨?_, ih hrest⟩
      intro k
      rw [List.append_assoc]
      exact hfirst (t ++ k)

theorem regionsFrom_of_isMemberFree {t : Text} (h : IsMemberFree t) (cursor : Cursor) :
    regionsFrom cursor t = [] := by
  induction t generalizing cursor with
  | nil => rw [regionsFrom]
  | cons c t ih =>
      obtain ⟨hfirst, hrest⟩ := h
      have hread : readMemberOpening? (c :: t) = none := by
        simpa using hfirst []
      have hmember : memberAt? cursor (c :: t) = none := by
        unfold memberAt?
        split
        · split
          · rfl
          · exact hread
        · rfl
      rw [regionsFrom]
      split
      · exact ih hrest _
      · rename_i hsome
        rw [hmember] at hsome
        cases hsome

/-- A document in which no member block opens is markup throughout. -/
theorem findRegions_of_isMemberFree {t : Text} (h : IsMemberFree t) : findRegions t = [] :=
  regionsFrom_of_isMemberFree h {}

theorem readMemberOpening?_of_ne {c : Char} (h : c ≠ '@') (cs : Text) :
    readMemberOpening? (c :: cs) = none := by
  have hafter : ∀ keyword : Keyword, afterMemberOpening? keyword (c :: cs) = none := by
    intro keyword
    have hword : Text.after? (sigil :: keyword.text) (c :: cs) = none := by
      exact if_neg (Ne.symm h)
    rw [afterMemberOpening?, afterWord?, hword]
    rfl
  rw [readMemberOpening?, hafter, hafter]
  rfl

theorem isMemberFree_of_not_mem {t : Text} (h : '@' ∉ t) : IsMemberFree t := by
  induction t with
  | nil => trivial
  | cons c t ih =>
      obtain ⟨hc, ht⟩ := List.ne_and_not_mem_of_not_mem_cons h
      exact ⟨fun k => readMemberOpening?_of_ne (Ne.symm hc) _, ih ht⟩

theorem isStopper_ne {c d : Char} (hd : isStopper d = true)
    (h : c.isAlpha = true ∨ isBlank c = true ∨ c = '{') : c ≠ d := by
  rintro rfl
  simp only [isStopper, List.contains_cons, List.contains_nil, Bool.or_false, Bool.or_eq_true,
    beq_iff_eq] at hd
  rcases hd with rfl | rfl | rfl <;> revert h <;> decide

/-- Nothing but the keyword and blanks stands between the sigil of a member block and its brace. -/
theorem afterMemberOpening?_of_isStopped {keyword : Keyword} {t : Text} (h : IsStopped t) :
    afterMemberOpening? keyword ('@' :: t) = none := by
  obtain ⟨u, d, v, rfl, hu, hd⟩ := h
  by_contra hsome
  obtain ⟨rest, hrest⟩ := Option.ne_none_iff_exists'.1 hsome
  unfold afterMemberOpening? at hrest
  split at hrest
  · rename_i tail hword
    obtain ⟨behind, hafter, hbrace⟩ := Option.map_eq_some_iff.1 hword
    have hsplit : u ++ d :: v =
        (keyword.text ++ behind.takeWhile isBlank) ++ '{' :: tail := by
      have heq := Text.after?_eq_some_iff.1 hafter
      rw [List.append_assoc, ← hbrace, List.takeWhile_append_dropWhile]
      exact (List.cons.inj heq).2
    have hfront : ∀ c ∈ keyword.text ++ behind.takeWhile isBlank, c ≠ d := by
      intro c hc
      rcases List.mem_append.1 hc with hc | hc
      · have halpha : ∀ c ∈ keyword.text, c.isAlpha = true :=
          List.all_eq_true.1 (by cases keyword <;> decide)
        exact isStopper_ne hd (Or.inl (halpha c hc))
      · exact isStopper_ne hd (Or.inr (Or.inl (List.mem_takeWhile_imp hc)))
    -- Whichever of the two fronts is shorter, its end lies where it cannot.
    rcases List.append_eq_append_iff.1 hsplit with ⟨w, hw, htail⟩ | ⟨w, hw, htail⟩
    · cases w with
      | nil =>
          rw [List.nil_append] at htail
          exact isStopper_ne hd (Or.inr (Or.inr rfl)) (List.cons.inj htail).1.symm
      | cons c w =>
          rw [List.cons_append] at htail
          refine hfront c ?_ (List.cons.inj htail).1.symm
          rw [hw]
          simp
    · cases w with
      | nil =>
          rw [List.nil_append] at htail
          exact isStopper_ne hd (Or.inr (Or.inr rfl)) (List.cons.inj htail).1
      | cons c w =>
          rw [List.cons_append] at htail
          rw [hw, (List.cons.inj htail).1] at hu
          simp at hu
  · cases hrest

theorem readMemberOpening?_of_isStopped {t : Text} (h : IsStopped t) :
    readMemberOpening? ('@' :: t) = none := by
  rw [readMemberOpening?, afterMemberOpening?_of_isStopped h, afterMemberOpening?_of_isStopped h]
  rfl

theorem IsStopped.append_left {t u : Text} (h : IsStopped t) (hu : '{' ∉ u) :
    IsStopped (u ++ t) := by
  obtain ⟨w, d, v, rfl, hw, hd⟩ := h
  exact ⟨u ++ w, d, v, by simp, List.not_mem_append hu hw, hd⟩

theorem IsStopped.append_right {t : Text} (h : IsStopped t) (k : Text) : IsStopped (t ++ k) := by
  obtain ⟨u, d, v, rfl, hu, hd⟩ := h
  exact ⟨u, d, v ++ k, by simp, hu, hd⟩

/-- Text without braces in front of a stopper, sigils included. -/
theorem IsMemberFree.append_left {t u : Text} (h : IsMemberFree t) (hstop : IsStopped t)
    (hu : '{' ∉ u) : IsMemberFree (u ++ t) := by
  induction u with
  | nil => exact h
  | cons c u ih =>
      have hu : '{' ∉ u := List.not_mem_of_not_mem_cons hu
      refine ⟨?_, ih hu⟩
      intro k
      by_cases hsigil : c = '@'
      · rw [hsigil]
        exact readMemberOpening?_of_isStopped ((hstop.append_left hu).append_right k)
      · exact readMemberOpening?_of_ne hsigil _

end Search

section Pieces

theorem isMemberFree_gap {g : Text} (h : Text.IsGap g) : IsMemberFree g :=
  isMemberFree_of_not_mem (Text.not_mem_of_forall h (by decide))

theorem isMemberFree_name {name : Text} (h : ∀ c ∈ name, isNameChar c = true) :
    IsMemberFree name :=
  isMemberFree_of_not_mem (Text.not_mem_of_forall h (by decide))

theorem brace_not_mem_of_isGap {g : Text} (h : Text.IsGap g) : '{' ∉ g :=
  Text.not_mem_of_forall h (by decide)

theorem brace_not_mem_of_isAttributeName {name : Text} (h : isAttributeName name = true) :
    '{' ∉ name := by
  obtain ⟨base, -, hchars, hname⟩ := isAttributeName_cases h
  have hbase : '{' ∉ base := Text.not_mem_of_forall hchars (by decide)
  rcases hname with rfl | rfl
  · exact hbase
  · exact List.not_mem_cons_of_ne_of_not_mem (by decide) hbase

theorem isStopped_cons {d : Char} (h : isStopper d = true) (v : Text) : IsStopped (d :: v) :=
  ⟨[], d, v, rfl, by simp, h⟩

/-- An attribute stands between its name, without a brace, and a stopper. -/
theorem isMemberFree_render {a : Attribute} {t : Text} (hreadable : a.isReadable = true)
    (ht : IsMemberFree t) (hstop : IsStopped t) :
    IsMemberFree (a.render ++ t) ∧ IsStopped (a.render ++ t) := by
  obtain ⟨hname, ha | ⟨value, quote, ha, hquote, hvalue⟩⟩ := Attribute.isReadable_cases hreadable
  · rw [ha, Attribute.render_bare]
    have hbrace := brace_not_mem_of_isAttributeName hname
    exact ⟨ht.append_left hstop hbrace, hstop.append_left hbrace⟩
  · have hbrace := brace_not_mem_of_isAttributeName hname
    have hsigil : '@' ∉ '=' :: quote :: (value ++ [quote]) := by
      have hquoteNe : '@' ≠ quote := by
        rintro rfl
        exact absurd hquote (by decide)
      have hvalueNe : '@' ∉ value := Text.not_mem_of_forall hvalue (by decide)
      simp [hquoteNe, hvalueNe]
    have hrest : IsMemberFree (('=' :: quote :: (value ++ [quote])) ++ t) :=
      (isMemberFree_of_not_mem hsigil).append ht
    have hequals : IsStopped (('=' :: quote :: (value ++ [quote])) ++ t) :=
      isStopped_cons (by decide) _
    rw [ha, Attribute.render_quoted, List.append_assoc]
    exact ⟨hrest.append_left hequals hbrace, hequals.append_left hbrace⟩

theorem SpellsAttributes.isMemberFree {attributes : List Attribute} {inner t : Text}
    (h : SpellsAttributes attributes inner) (hreadable : ∀ a ∈ attributes, a.isReadable = true)
    (ht : IsMemberFree t) (hstop : IsStopped t) :
    IsMemberFree (inner ++ t) ∧ IsStopped (inner ++ t) := by
  induction attributes generalizing inner with
  | nil =>
      rw [show inner = [] from h]
      exact ⟨ht, hstop⟩
  | cons a attributes ih =>
      obtain ⟨ha, hattributes⟩ := List.forall_mem_cons.1 hreadable
      obtain ⟨g, rest, rfl, hg, -, hrest⟩ := h
      obtain ⟨hfree, hstopped⟩ := ih hrest hattributes
      obtain ⟨hfree, hstopped⟩ := isMemberFree_render ha hfree hstopped
      have hbrace := brace_not_mem_of_isGap hg
      rw [List.append_assoc, List.append_assoc]
      exact ⟨hfree.append_left hstopped hbrace, hstopped.append_left hbrace⟩

theorem Tag.Spells.isMemberFree {tag : Tag} {ending : TagEnd} {t : Text}
    (hreadable : tag.isReadable = true) (h : tag.Spells ending t) : IsMemberFree t := by
  obtain ⟨inner, gap, rfl, hinner, hgap⟩ := h
  obtain ⟨hname, hattributes⟩ := Tag.isReadable_cases hreadable
  obtain ⟨-, -, -, -, hchars⟩ := isTagName_cases hname
  have hending : IsMemberFree ending.stackedText ∧ IsStopped ending.stackedText := by
    cases ending with
    | opening => exact ⟨isMemberFree_of_not_mem (by decide), isStopped_cons (by decide) _⟩
    | selfClosing =>
        exact ⟨isMemberFree_of_not_mem (by decide), ['/'], '>', [], rfl, by decide, by decide⟩
  have hbrace := brace_not_mem_of_isGap hgap
  obtain ⟨hfree, -⟩ := hinner.isMemberFree hattributes
    (hending.1.append_left hending.2 hbrace) (hending.2.append_left hbrace)
  have hopening : IsMemberFree ('<' :: tag.name) :=
    (isMemberFree_of_not_mem (t := ['<']) (by decide)).append (isMemberFree_name hchars)
  have hassoc : '<' :: tag.name ++ inner ++ gap ++ ending.stackedText =
      ('<' :: tag.name) ++ (inner ++ (gap ++ ending.stackedText)) := by
    simp
  rw [hassoc]
  exact hopening.append hfree

theorem SpellsCondition.isMemberFree {condition : Option Text} {w : Text}
    (h : SpellsCondition condition w) (hcondition : condition.all isCondition = true) :
    IsMemberFree w := by
  cases condition with
  | none => exact isMemberFree_gap h
  | some condition =>
      obtain ⟨g, gap, rfl, hg, hgap⟩ := h
      have hchars : '{' ∉ condition :=
        Text.not_mem_of_forall (fun c hc => isConditionChar_of_mem hcondition hc) (by decide)
      have hclosing : IsMemberFree [')'] := isMemberFree_of_not_mem (by decide)
      have hgroup : IsMemberFree (parenthesised condition) := by
        exact hclosing.append_left (u := '(' :: condition) (isStopped_cons (by decide) _)
          (List.not_mem_cons_of_ne_of_not_mem (by decide) hchars)
      exact ((isMemberFree_gap hg).append hgroup).append (isMemberFree_gap hgap)

theorem isMemberFree_braced {p b rest : Text} (hp : IsMemberFree p) (hb : IsMemberFree b)
    (hrest : IsMemberFree rest) : IsMemberFree (p ++ '{' :: b ++ '}' :: rest) := by
  have hopening : IsMemberFree ['{'] := isMemberFree_of_not_mem (by decide)
  have hclosing : IsMemberFree ['}'] := isMemberFree_of_not_mem (by decide)
  exact (hp.append (hopening.append hb)).append (hclosing.append hrest)

/-- The keyword of a block with markup is not one of a member block. -/
theorem FlowHead.isMemberFree_words {head : FlowHead} (h : head.isClean = true) :
    IsMemberFree head.words := by
  obtain ⟨hkeyword, -⟩ := isClean_cases h
  have hread : ∀ k, readMemberOpening? ('@' :: (head.keyword.text ++ k)) = none := by
    intro k
    revert hkeyword
    cases head.keyword <;> intro hkeyword <;> first | rfl | cases hkeyword
  have hletters : '@' ∉ head.keyword.text := by
    cases head.keyword <;> decide
  rcases words_cases h with hwords | ⟨name, hid, hwords⟩
  · rw [hwords]
    exact ⟨hread, isMemberFree_of_not_mem hletters⟩
  · have hname : '@' ∉ ' ' :: name :=
      List.not_mem_cons_of_ne_of_not_mem (by decide)
        (Text.not_mem_of_forall (isNameChar_of_isIdentifier hid) (by decide))
    rw [hwords]
    refine ⟨?_, isMemberFree_of_not_mem (List.not_mem_append hletters hname)⟩
    intro k
    rw [List.append_eq, List.append_assoc]
    exact hread _

end Pieces

section Forests

variable {spacing : Spacing}

theorem ClauseHead.isMemberFree_words (head : ClauseHead) : IsMemberFree head.words := by
  refine isMemberFree_of_not_mem ?_
  cases head <;> rw [words] <;> decide

mutual

/-- No member block opens in a spelling. -/
theorem Forest.Spells.isMemberFree {n : Nat} {F : Forest} {t : Text} (hregular : F.isRegular = true)
    (h : F.Spells spacing n t) : IsMemberFree t := by
  match F with
  | .nil => exact isMemberFree_gap h
  | .text content rest =>
      obtain ⟨-, -, hrest⟩ := Forest.isRegular_text.1 hregular
      obtain ⟨x, tail, rfl, -, hchars, -, htail⟩ := h
      have hx : IsMemberFree x :=
        isMemberFree_of_not_mem (Text.not_mem_of_forall hchars (by decide))
      exact hx.append (Forest.Spells.isMemberFree hrest htail)
  | .element tag children rest =>
      obtain ⟨htag, -, -, hchildren, hrest⟩ := Forest.isRegular_element.1 hregular
      have hreadable := Tag.isReadable_of_isRegular htag
      obtain ⟨g, x, inner, tail, rfl, hg, hx, hinner, -, htail⟩ := h
      obtain ⟨-, -, -, -, hname⟩ := isTagName_cases (Tag.isRegular_cases htag).1
      have hclosing : IsMemberFree (Context.closingTag tag.name) :=
        ((isMemberFree_of_not_mem (t := "</".toList) (by decide)).append
          (isMemberFree_name hname)).append (isMemberFree_of_not_mem (by decide))
      have hopening := Tag.Spells.isMemberFree hreadable hx
      exact (isMemberFree_gap hg).append (hopening.append
        ((Forest.Spells.isMemberFree hchildren hinner).append
          (hclosing.append (Forest.Spells.isMemberFree hrest htail))))
  | .selfClosing tag rest =>
      obtain ⟨htag, hrest⟩ := Forest.isRegular_selfClosing.1 hregular
      have hreadable := Tag.isReadable_of_isRegular htag
      obtain ⟨g, x, tail, rfl, hg, hx, htail⟩ := h
      have htagFree := Tag.Spells.isMemberFree hreadable hx
      exact (isMemberFree_gap hg).append (htagFree.append
        (Forest.Spells.isMemberFree hrest htail))
  | .flow head body chain rest =>
      obtain ⟨hhead, hbody, hchain, hrest⟩ := Forest.isRegular_flow.1 hregular
      obtain ⟨g, x, b, clauses, tail, rfl, hg, hx, -, hb, hclauses, -, htail⟩ := h
      obtain ⟨w, y, rfl, hw, hy⟩ := hx
      obtain ⟨-, hcondition, -⟩ := FlowHead.isClean_cases hhead
      have hblock := isMemberFree_braced
        ((FlowHead.isMemberFree_words hhead).append (hw.isMemberFree hcondition))
        (Forest.Spells.isMemberFree (Forest.isRegular_of_isClean hbody) (hb b rfl))
        (Chain.Matches.isMemberFree hchain hclauses hy)
      exact (isMemberFree_gap hg).append
        (hblock.append (Forest.Spells.isMemberFree hrest htail))

theorem Chain.Matches.isMemberFree {n : Nat} {chain : Chain} {clauses : List Clause} {t : Text}
    (hclean : chain.isClean = true) (h : chain.Matches spacing n clauses)
    (ht : SpellsClauses clauses t) : IsMemberFree t := by
  match chain with
  | .nil =>
      rw [show clauses = [] from h] at ht
      rw [show t = [] from ht]
      trivial
  | .clause head body rest =>
      obtain ⟨hhead, hbody, hrest⟩ := Chain.isClean_clause.1 hclean
      obtain ⟨b, others, rfl, -, hb, hothers⟩ := h
      obtain ⟨g, w, y, rfl, hg, hw, hy⟩ := ht
      exact isMemberFree_braced
        (((isMemberFree_gap hg).append (ClauseHead.isMemberFree_words head)).append
          (hw.isMemberFree hhead))
        (Forest.Spells.isMemberFree (Forest.isRegular_of_isClean hbody) (hb b rfl))
        (Chain.Matches.isMemberFree hrest hothers hy)

end

end Forests

end RazorLayout

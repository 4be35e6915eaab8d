import RazorLayout.Proofs.Block.Spelling
import RazorLayout.Proofs.Token.Pass

/-!
# The span of a block

A block is found by one scan, which gives its parts and the place where it ends.  The scan looks
behind that place: for a semicolon, for another clause, for the end of a clause that is never
closed.  None of this changes when the text is cut where the block ends.

* The reader of a head with its body is self-delimiting, and so is the reader of a clause.
* Clauses are read as long as there are any, so they are read alike in front of every text in which
  no clause starts (`readClauses_read`).

Results.  `Block.read?_cut`: a block that is cut out of its text is read as the same block.
`Block.read?_eq_none_of_append`: a text that is cut short starts with no block unless it did before.
`Block.endAt?_slice`: the slice that a block covers is that block, to its end.
-/

namespace RazorLayout

section Clauses

theorem selfDelimiting_readElseIf? : SelfDelimiting readElseIf? :=
  ((selfDelimiting_splitParens.bind fun condition =>
    selfDelimiting_splitBody.map fun body => (⟨.elseIf condition, body⟩ : Clause)).afterWord
      "if".toList).afterWord elseWord

theorem selfDelimiting_readElse? : SelfDelimiting readElse? :=
  (selfDelimiting_splitBraces.map fun body => (⟨.otherwise, body⟩ : Clause)).afterWord elseWord

theorem selfDelimiting_readFilteredCatch? : SelfDelimiting readFilteredCatch? :=
  (selfDelimiting_splitParens.bind fun condition =>
    selfDelimiting_splitBody.map fun body => (⟨.handler (some condition), body⟩ : Clause)).afterWord
      catchWord

theorem selfDelimiting_readPlainCatch? : SelfDelimiting readPlainCatch? :=
  (selfDelimiting_splitBraces.map fun body => (⟨.handler none, body⟩ : Clause)).afterWord catchWord

theorem selfDelimiting_readFinally? : SelfDelimiting readFinally? :=
  (selfDelimiting_splitBraces.map fun body => (⟨.cleanup, body⟩ : Clause)).afterWord finallyWord

theorem afterWord?_eq_none {word cs : Text} {c : Char} (hword : word.head? = some c)
    (h : cs.head? ≠ some c) : afterWord? word cs = none := by
  cases hread : afterWord? word cs with
  | none => rfl
  | some rest =>
      obtain ⟨tail, htail, -⟩ := Option.map_eq_some_iff.1 hread
      rw [Text.after?_eq_some_iff.1 htail, List.head?_append, hword] at h
      exact absurd rfl h

/-- The first letter of a clause decides which clauses it can be. -/
theorem readClause?_eq_byHead (cs : Text) :
    readClause? cs =
      if cs.head? = some 'e' then (readElseIf? cs).or (readElse? cs)
      else if cs.head? = some 'c' then (readFilteredCatch? cs).or (readPlainCatch? cs)
      else if cs.head? = some 'f' then readFinally? cs
      else none := by
  have helse : cs.head? ≠ some 'e' → readElseIf? cs = none ∧ readElse? cs = none := by
    intro h
    have hword : afterWord? elseWord cs = none := afterWord?_eq_none rfl h
    simp [readElseIf?, readElse?, hword]
  have hcatch : cs.head? ≠ some 'c' → readFilteredCatch? cs = none ∧ readPlainCatch? cs = none := by
    intro h
    have hword : afterWord? catchWord cs = none := afterWord?_eq_none rfl h
    simp [readFilteredCatch?, readPlainCatch?, hword]
  have hfinally : cs.head? ≠ some 'f' → readFinally? cs = none := by
    intro h
    have hword : afterWord? finallyWord cs = none := afterWord?_eq_none rfl h
    simp [readFinally?, hword]
  rw [readClause?]
  split
  · rename_i h
    obtain ⟨hfiltered, hplain⟩ := hcatch (by simp [h])
    simp [hfiltered, hplain, hfinally (by simp [h])]
  · rename_i h
    obtain ⟨helseIf, hother⟩ := helse h
    split
    · rename_i h
      simp [helseIf, hother, hfinally (by simp [h])]
    · rename_i h
      obtain ⟨hfiltered, hplain⟩ := hcatch h
      split
      · simp [helseIf, hother, hfiltered, hplain]
      · rename_i h
        simp [helseIf, hother, hfiltered, hplain, hfinally h]

theorem selfDelimiting_readClause? : SelfDelimiting readClause? := by
  -- What stands behind the word tells the two forms of an alternative, or of a handler, apart.
  have halternative : SelfDelimiting fun cs => (readElseIf? cs).or (readElse? cs) := by
    refine selfDelimiting_readElseIf?.or selfDelimiting_readElse? fun cs h => ?_
    obtain ⟨⟨clause, rest⟩, hclause⟩ := Option.isSome_iff_exists.1 h
    simp only [readElse?, Option.bind_eq_bind, Option.bind_eq_some_iff] at hclause
    obtain ⟨behind, hword, ⟨body, tail⟩, hbody, -⟩ := hclause
    have hif : afterWord? ['i', 'f'] behind = none := by
      apply afterWord?_eq_none (c := 'i') rfl
      simp [splitBraces_eq hbody]
    simp [readElseIf?, hword, hif]
  have hhandler : SelfDelimiting fun cs => (readFilteredCatch? cs).or (readPlainCatch? cs) := by
    refine selfDelimiting_readFilteredCatch?.or selfDelimiting_readPlainCatch? fun cs h => ?_
    obtain ⟨⟨clause, rest⟩, hclause⟩ := Option.isSome_iff_exists.1 h
    simp only [readPlainCatch?, Option.bind_eq_bind, Option.bind_eq_some_iff] at hclause
    obtain ⟨behind, hword, ⟨body, tail⟩, hbody, -⟩ := hclause
    have hparens : splitParens behind = none := by
      rw [splitBraces_eq hbody]
      rfl
    simp [readFilteredCatch?, hword, hparens]
  have hall := SelfDelimiting.byHead (fun c cs =>
    if c = some 'e' then (readElseIf? cs).or (readElse? cs)
    else if c = some 'c' then (readFilteredCatch? cs).or (readPlainCatch? cs)
    else if c = some 'f' then readFinally? cs
    else none) fun c => by
      split
      · exact halternative
      · split
        · exact hhandler
        · split
          · exact selfDelimiting_readFinally?
          · exact selfDelimiting_none
  rwa [← funext readClause?_eq_byHead] at hall

/-- Clauses are read as long as there are any. -/
theorem readClause?_readClauses (cs : Text) :
    readClause? (afterSpaces (readClauses cs).2) = none := by
  fun_induction readClauses cs with
  | case1 cs h => exact h
  | case2 cs clause rest h clauses final hrest ih => rwa [hrest] at ih

/-- Clauses are read alike in front of every text in which no clause starts. -/
theorem readClauses_read {x rest other : Text} {clauses : List Clause}
    (h : readClauses (x ++ rest) = (clauses, rest))
    (hother : readClause? (afterSpaces other) = none) :
    readClauses (x ++ other) = (clauses, other) := by
  -- The induction follows the clauses that are read; only behind the last does `other` matter.
  generalize hcs : x ++ rest = cs at h
  fun_induction readClauses cs generalizing x clauses with
  | case1 cs hnone =>
      cases h
      have hx : x = [] := by simpa using hcs
      rw [hx, List.nil_append, readClauses_of_eq_none hother]
  | case2 cs clause tail hclause clauses' final htail ih =>
      cases h
      obtain ⟨read, hread, -, hagain⟩ := selfDelimiting_readClause?.dropWhile isSpace hclause
      have hsuffix := readClauses_suffix tail
      rw [htail] at hsuffix
      obtain ⟨y, rfl⟩ := hsuffix
      rw [← List.append_assoc] at hread
      have hx : x = read ++ y := List.append_cancel_right (hcs.trans hread)
      rw [hx, List.append_assoc, readClauses_of_eq_some (hagain (y ++ other)), ih rfl htail]

end Clauses

section LoopTests

/-- The text behind a semicolon, if one follows. -/
def afterSemicolon (cs : Text) : Text :=
  match afterSpaces cs with
  | ';' :: rest => rest
  | _ => cs

/-- A loop test up to its closing parenthesis. -/
def readTest? (cs : Text) : Option (Text × Text) :=
  (afterWord? whileWord cs).bind splitParens

theorem selfDelimiting_readTest? : SelfDelimiting readTest? :=
  selfDelimiting_splitParens.afterWord whileWord

theorem readLoopTest?_eq (cs : Text) :
    readLoopTest? cs = (readTest? cs).map fun parts => (parts.1, afterSemicolon parts.2) := by
  cases hword : afterWord? whileWord cs with
  | none => simp [readLoopTest?, readTest?, hword]
  | some behind =>
      cases hparens : splitParens behind with
      | none => simp [readLoopTest?, readTest?, hword, hparens]
      | some parts =>
          simp only [readLoopTest?, readTest?, hword, hparens, afterSemicolon, Option.bind_eq_bind,
            Option.bind_some, Option.map_some]
          split <;> simp_all

theorem afterSemicolon_cut {x rest : Text} (h : afterSemicolon (x ++ rest) = rest) :
    afterSemicolon x = [] := by
  unfold afterSemicolon at h
  split at h
  · rename_i tail htail
    subst h
    obtain ⟨gap, hgap, hsplit⟩ := Text.exists_gap (x ++ tail)
    rw [htail, List.append_cons] at hsplit
    rw [List.append_cancel_right hsplit, afterSemicolon, Text.afterSpaces_gap_append hgap]
    rfl
  · have hx : x = [] := by simpa using h
    rw [hx]
    rfl

theorem afterSemicolon_suffix (cs : Text) : afterSemicolon cs <:+ cs := by
  unfold afterSemicolon
  split
  · rename_i rest hrest
    refine (List.suffix_cons ';' rest).trans ?_
    rw [← hrest]
    exact afterSpaces_suffix cs
  · exact List.suffix_refl cs

theorem readLoopTest?_cut {x rest condition : Text}
    (h : readLoopTest? (afterSpaces (x ++ rest)) = some (condition, rest)) :
    readLoopTest? (afterSpaces x) = some (condition, []) := by
  rw [readLoopTest?_eq] at h
  obtain ⟨⟨inner, tail⟩, htest, he⟩ := Option.map_eq_some_iff.1 h
  obtain ⟨rfl, hrest⟩ := Prod.mk.inj he
  obtain ⟨read, hread, -, hagain⟩ := selfDelimiting_readTest?.dropWhile isSpace htest
  obtain ⟨y, hy⟩ := afterSemicolon_suffix tail
  rw [hrest] at hy
  subst hy
  rw [← List.append_assoc] at hread
  have hy : readTest? (afterSpaces (read ++ y)) = some (inner, y) := hagain y
  rw [List.append_cancel_right hread, readLoopTest?_eq, hy, Option.map_some,
    afterSemicolon_cut hrest]

theorem readTrailing_cut {keyword : Keyword} {x rest : Text} {test : Option Text}
    (h : readTrailing keyword (x ++ rest) = (test, rest)) :
    readTrailing keyword x = (test, []) := by
  have hnil : ∀ {test : Option Text}, (none, x ++ rest) = (test, rest) → x = [] ∧ test = none := by
    rintro test heq
    obtain ⟨rfl, hx⟩ := Prod.mk.inj heq
    exact ⟨by simpa using hx, rfl⟩
  unfold readTrailing at h ⊢
  by_cases hdo : keyword = .doLoop
  · rw [if_pos hdo] at h ⊢
    cases htest : readLoopTest? (afterSpaces (x ++ rest)) with
    | none =>
        rw [htest] at h
        obtain ⟨rfl, rfl⟩ := hnil h
        rfl
    | some parts =>
        obtain ⟨condition, tail⟩ := parts
        rw [htest] at h
        cases h
        rw [readLoopTest?_cut htest]
  · rw [if_neg hdo] at h ⊢
    obtain ⟨rfl, rfl⟩ := hnil h
    rfl

end LoopTests

section Heads

variable {α : Type} {keyword : Keyword}

/-- A scanner that goes on behind the name of a section, or where no name is needed. -/
theorem SelfDelimiting.afterName {next : Option Text → Text → Option (α × Text)}
    (h : ∀ name, SelfDelimiting (next name)) (keyword : Keyword) :
    SelfDelimiting fun cs => (readName? keyword cs).bind fun parts => next parts.1 parts.2 := by
  by_cases hsection : keyword = .sectionBlock
  · intro cs a rest hscan
    cases cs with
    | nil => simp [readName?, hsection] at hscan
    | cons c cs =>
        by_cases hstart : isIdentifierStart c = true
        · have hread : ∀ tail, (readName? keyword (c :: tail)).bind
              (fun parts => next parts.1 parts.2) =
                next (some (c :: tail.takeWhile isIdentifierChar))
                  (afterSpaces (tail.dropWhile isIdentifierChar)) := by
            intro tail
            simp [readName?, hsection, hstart, afterIdentifier]
          have hbehind := SelfDelimiting.span
            (fun run => (h (some (c :: run))).dropWhile isSpace) isIdentifierChar
          exact (hbehind ((hread cs).symm.trans hscan)).cons (f := id) fun tail => by
            rw [hread]
            simp [afterSpaces]
        · simp [readName?, hsection, hstart] at hscan
  · have hread : (fun cs => (readName? keyword cs).bind fun parts => next parts.1 parts.2) =
        next none := by
      funext cs
      simp [readName?, hsection]
    rw [hread]
    exact h none

/-- A scanner that goes on behind an optional condition. -/
theorem SelfDelimiting.afterCondition {next : Option Text → Text → Option (α × Text)}
    (h : ∀ condition, SelfDelimiting (next condition)) (keyword : Keyword) :
    SelfDelimiting fun cs =>
      (readCondition? keyword cs).bind fun parts => next parts.1 parts.2 := by
  have hread : (fun cs => (readCondition? keyword cs).bind fun parts => next parts.1 parts.2) =
      fun cs => if cs.head? = some '(' then
          (splitParens cs).bind fun parts => next (some parts.1) parts.2
        else if keyword = .usingBlock then none else next none cs := by
    funext cs
    unfold readCondition?
    split
    · rw [Option.bind_map, if_pos List.head?_cons]
      rfl
    · rename_i hparen
      have hhead : cs.head? ≠ some '(' := by
        intro hhead
        obtain ⟨tail, rfl⟩ := List.head?_eq_some_iff.1 hhead
        exact hparen tail rfl
      rw [if_neg hhead]
      split <;> rfl
  rw [hread]
  refine SelfDelimiting.byHead (fun c cs => if c = some '(' then
      (splitParens cs).bind fun parts => next (some parts.1) parts.2
    else if keyword = .usingBlock then none else next none cs) fun c => ?_
  split
  · exact selfDelimiting_splitParens.bind fun condition => h (some condition)
  · split
    · exact selfDelimiting_none
    · exact h none

theorem selfDelimiting_readHead? (keyword : Keyword) : SelfDelimiting (readHead? keyword) :=
  (SelfDelimiting.afterName (fun name => SelfDelimiting.afterCondition (fun condition =>
    selfDelimiting_splitBody.map fun body => ((⟨keyword, name, condition⟩, body) : FlowHead × Text))
      keyword) keyword).dropWhile isSpace

theorem FlowHead.complete_cut {head : FlowHead} {body x rest : Text} {block : Block}
    (h : head.complete body (x ++ rest) = (block, rest)) :
    head.complete body x = (block, []) := by
  unfold complete at h ⊢
  split
  · rename_i hmembers
    rw [if_pos hmembers] at h
    obtain ⟨rfl, hx⟩ := Prod.mk.inj h
    rw [show x = [] by simpa using hx]
  · rename_i hmembers
    rw [if_neg hmembers] at h
    obtain ⟨hblock, hrest⟩ := Prod.mk.inj h
    -- The text falls into the clauses, the test and the rest.
    obtain ⟨z, hz⟩ := readTrailing_suffix head.keyword (readClauses (x ++ rest)).2
    obtain ⟨y, hy⟩ := readClauses_suffix (x ++ rest)
    rw [hrest] at hz
    rw [← hz, ← List.append_assoc] at hy
    have hx : x = y ++ z := (List.append_cancel_right hy).symm
    have hclauses : readClauses (y ++ (z ++ rest)) = ((readClauses (x ++ rest)).1, z ++ rest) := by
      rw [← List.append_assoc, ← hx, hz]
    have hquiet : readClause? (afterSpaces z) = none := by
      apply (selfDelimiting_readClause?.dropWhile isSpace).eq_none_of_append
      rw [hz]
      exact readClause?_readClauses (x ++ rest)
    have htest : readTrailing head.keyword (z ++ rest) =
        ((readTrailing head.keyword (readClauses (x ++ rest)).2).1, rest) := by
      rw [hz]
      exact Prod.ext rfl hrest
    have hcut : readClauses x = ((readClauses (x ++ rest)).1, z) := by
      conv => lhs; rw [hx]
      exact readClauses_read hclauses hquiet
    simp only [hcut, readTrailing_cut htest, ← hblock]

theorem FlowHead.complete_suffix (head : FlowHead) (body rest : Text) :
    (head.complete body rest).2 <:+ rest := by
  unfold complete
  split
  · exact List.suffix_refl rest
  · exact (readTrailing_suffix _ _).trans (readClauses_suffix rest)

/-- A block behind its keyword that is cut out of its text is read as the same block. -/
theorem readKeywordBlock?_cut {x rest : Text} {block : Block}
    (h : readKeywordBlock? keyword (x ++ rest) = some (block, rest)) :
    readKeywordBlock? keyword x = some (block, []) := by
  rw [readKeywordBlock?_eq] at h ⊢
  obtain ⟨⟨⟨head, body⟩, tail⟩, hhead, hcomplete⟩ := Option.map_eq_some_iff.1 h
  obtain ⟨read, hread, -, hagain⟩ := selfDelimiting_readHead? keyword hhead
  obtain ⟨y, hy⟩ := head.complete_suffix body tail
  simp only [hcomplete] at hy
  rw [← hy, ← List.append_assoc] at hread
  rw [← hy] at hcomplete
  rw [List.append_cancel_right hread, hagain, Option.map_some]
  simp only [FlowHead.complete_cut hcomplete]

/-- What can be read behind a keyword can be read in front of more text as well; the block may then
be longer. -/
theorem isSome_readKeywordBlock?_append {x : Text} {parts : Block × Text}
    (h : readKeywordBlock? keyword x = some parts) (y : Text) :
    x ≠ [] ∧ (readKeywordBlock? keyword (x ++ y)).isSome = true := by
  rw [readKeywordBlock?_eq] at h
  obtain ⟨⟨⟨head, body⟩, tail⟩, hhead, -⟩ := Option.map_eq_some_iff.1 h
  obtain ⟨read, rfl, hne, hagain⟩ := selfDelimiting_readHead? keyword hhead
  refine ⟨by simp [hne], ?_⟩
  rw [readKeywordBlock?_eq, List.append_assoc, hagain]
  rfl

end Heads

section Blocks

variable {x y cs rest : Text} {block : Block}

theorem Keyword.text_of_ofText? {word : Text} {keyword : Keyword}
    (h : Keyword.ofText? word = some keyword) : keyword.text = word := by
  simpa using List.find?_some h

/-- The ways to read a block: between braces, up to the end of a comment, or behind a keyword. -/
theorem Block.read?_cases (h : Block.read? cs = some (block, rest)) :
    (∃ inner body, cs = '@' :: '{' :: inner ∧ splitGroup .braces inner = some (body, rest) ∧
      block = .code body) ∨
    (∃ inner, cs = '@' :: '*' :: inner ∧ block = .comment ∧
      ((∃ content, Text.splitAt? "*@".toList inner = some (content, rest)) ∨
        Text.splitAt? "*@".toList inner = none ∧ rest = [])) ∨
    (∃ keyword tail, cs = sigil :: keyword.text ++ tail ∧
      (∀ c ∈ tail.head?, isIdentifierChar c = false) ∧
      readKeywordBlock? keyword tail = some (block, rest)) := by
  unfold Block.read? at h
  split at h
  · rename_i inner
    obtain ⟨⟨body, tail⟩, hgroup, he⟩ := Option.map_eq_some_iff.1 h
    cases he
    exact .inl ⟨inner, body, rfl, hgroup, rfl⟩
  · rename_i inner
    refine .inr (.inl ⟨inner, rfl, ?_⟩)
    split at h
    · rename_i content tail hsplit
      cases h
      exact ⟨rfl, .inl ⟨content, hsplit⟩⟩
    · rename_i hsplit
      cases h
      exact ⟨rfl, .inr ⟨hsplit, rfl⟩⟩
  · rename_i tail hbrace hstar
    simp only [Option.bind_eq_bind, Option.bind_eq_some_iff] at h
    obtain ⟨keyword, hkeyword, h⟩ := h
    refine .inr (.inr ⟨keyword, afterIdentifier tail, ?_, head?_dropWhile_eq_false _ tail, h⟩)
    rw [Keyword.text_of_ofText? hkeyword, List.cons_append, afterIdentifier,
      List.takeWhile_append_dropWhile]
    rfl
  · cases h

/-- A block that is cut out of its text is read as the same block. -/
theorem Block.read?_cut (h : Block.read? (x ++ rest) = some (block, rest)) :
    Block.read? x = some (block, []) := by
  obtain ⟨inner, body, hcs, hgroup, rfl⟩ | ⟨inner, hcs, rfl, ⟨content, hsplit⟩ | ⟨hsplit, rfl⟩⟩ |
    ⟨keyword, tail, hcs, hstop, hread⟩ := Block.read?_cases h
  · obtain ⟨read, rfl⟩ := splitGroup_suffix hgroup
    have hx : x = '@' :: '{' :: read := List.append_cancel_right hcs
    rw [hx, Block.read?, (selfDelimiting_splitGroup .braces).cut hgroup]
    rfl
  · rw [Text.splitAt?_eq hsplit] at hcs hsplit
    have hx : x = '@' :: '*' :: (content ++ "*@".toList) := List.append_cancel_right hcs
    rw [hx, Block.read?, (selfDelimiting_splitAt? (by decide)).cut hsplit]
  · rwa [List.append_nil] at h
  · obtain ⟨y, rfl⟩ := readKeywordBlock?_suffix hread
    rw [← List.append_assoc] at hcs
    have hy : ∀ c ∈ y.head?, isIdentifierChar c = false := by
      intro c hc
      apply hstop c
      rw [List.head?_append, Option.mem_def.1 hc]
      rfl
    rw [List.append_cancel_right hcs, Block.read?_keyword hy, readKeywordBlock?_cut hread]

/-- Where no block starts, none starts in a shorter text. -/
theorem Block.read?_eq_none_of_append (h : Block.read? (x ++ y) = none) : Block.read? x = none := by
  cases hread : Block.read? x with
  | none => rfl
  | some parts =>
      exfalso
      obtain ⟨inner, body, rfl, hgroup, -⟩ | ⟨inner, rfl, -⟩ |
        ⟨keyword, tail, rfl, hstop, hblock⟩ := Block.read?_cases hread
      · obtain ⟨read, rfl, -, hagain⟩ := selfDelimiting_splitGroup .braces hgroup
        rw [List.cons_append, List.cons_append, List.append_assoc, Block.read?, hagain] at h
        cases h
      · rw [List.cons_append, List.cons_append, Block.read?] at h
        split at h <;> cases h
      · obtain ⟨hne, hsome⟩ := isSome_readKeywordBlock?_append hblock y
        obtain ⟨c, tail, rfl⟩ := List.exists_cons_of_ne_nil hne
        rw [List.append_assoc, Block.read?_keyword (by simpa using hstop)] at h
        rw [h] at hsome
        cases hsome

end Blocks

section Positions

namespace Block

/-- The block that starts at a position of a text. -/
def at? (t : Text) (start : Nat) : Option Block :=
  (read? (t.drop start)).map Prod.fst

/-- The position behind the block that starts at a position of a text. -/
def endAt? (t : Text) (start : Nat) : Option Nat :=
  (read? (t.drop start)).map fun parts => indexOf t start parts.2

end Block

/-- The slice that a block covers is that block and nothing else, whatever stands behind it: read on
its own, it has the same parts and ends at its own end. -/
theorem Block.endAt?_slice {t : Text} {start stop : Nat} (h : Block.endAt? t start = some stop) :
    start < stop ∧ stop ≤ t.length ∧
      ∃ block, Block.at? t start = some block ∧ Block.at? (t.slice start stop) 0 = some block ∧
        Block.endAt? (t.slice start stop) 0 = some (t.slice start stop).length := by
  obtain ⟨⟨block, rest⟩, hread, hstop⟩ := Option.map_eq_some_iff.1 h
  obtain ⟨x, hx⟩ := Block.read?_suffix hread
  have hpos : 0 < x.length := by
    have hfront := Block.front_read?_ne_nil hread
    rw [← hx, Text.front_append_right] at hfront
    exact List.length_pos_iff.2 hfront
  have hlength : start + x.length + rest.length = t.length := by
    have hdrop := congrArg List.length hx
    simp only [List.length_append, List.length_drop] at hdrop
    omega
  have hend : stop = start + x.length := by
    rw [← hstop, indexOf, ← hx, List.length_append, Nat.add_sub_cancel]
  have hslice : t.slice start stop = x := by
    rw [hend, Text.slice, Nat.add_sub_cancel_left, ← hx, List.take_left]
  have hcut : Block.read? ((t.slice start stop).drop 0) = some (block, []) := by
    rw [hslice, List.drop_zero]
    rw [← hx] at hread
    exact Block.read?_cut hread
  refine ⟨by omega, by omega, block, ?_, ?_, ?_⟩
  · rw [Block.at?, hread, Option.map_some]
  · rw [Block.at?, hcut, Option.map_some]
  · rw [Block.endAt?, hcut, Option.map_some, indexOf]
    simp

/-- The scan takes the handler, tries the test behind it and gives it up, because its condition is
never closed. -/
theorem Block.endAt?_slice_loop :
    Block.endAt? "<p>@do { a } catch { b } while (c".toList 3 = some 24 ∧
      ∃ block, Block.at? "<p>@do { a } catch { b } while (c".toList 3 = some block ∧
        Block.at? "@do { a } catch { b }".toList 0 = some block ∧
        Block.endAt? "@do { a } catch { b }".toList 0 = some 21 := by
  have hend : Block.endAt? "<p>@do { a } catch { b } while (c".toList 3 = some 24 := by
    decide +kernel
  exact ⟨hend, (Block.endAt?_slice hend).2.2⟩

end Positions

end RazorLayout

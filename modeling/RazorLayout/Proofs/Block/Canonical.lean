import RazorLayout.Proofs.Block.Span
import RazorLayout.Proofs.Layout.Clauses
import RazorLayout.Proofs.Layout.Ink

/-!
# The canonical text of a block

A block is read into its parts: the words of its head, conditions, bodies and clauses.  Written down
again with single spaces between them, the parts make up the canonical text of the block.

* `Block.canonical?` is that text, for the blocks that have a structure;
* `Restores` compares a canonical text with its source: they differ in blanks and in one semicolon
  at most.

What a reader has taken between delimiters is taken again from the same delimiters
(`fillsBraces_of_splitBraces`), so the parts of a block are readable, and they account for
everything that is not blank.

Results.  `readClauses_canonical`, `readTrailing_canonical`, `readHead?_canonical`: what a part is
and what it accounts for.  `Flow.read?_canonical`: the canonical text of readable parts is read
back.  `Block.endAt?_canonical`: hence every block is read back from its canonical text, to its end,
and its canonical text restores the slice that it covers.
-/

namespace RazorLayout

section Definitions

/-- A body with its braces. -/
def braced (body : Text) : Text :=
  '{' :: body ++ ['}']

/-- A clause behind a space: its head and its body. -/
def Clause.canonical (c : Clause) : Text :=
  ' ' :: c.head.text ++ ' ' :: braced c.body

/-- A control-flow block with single spaces between its parts. -/
def Flow.canonical (f : Flow) : Text :=
  f.header ++ ' ' :: braced f.body ++ f.clauses.flatMap Clause.canonical ++ loopTail f.loopTest

/-- The canonical text of a block that has a structure. -/
def Block.canonical? : Block → Option Text
  | comment => none
  | members _ => none
  | code body => some (sigil :: braced body)
  | flow f => some f.canonical

/-- The test at the end of a block. -/
def Block.loopTest? : Block → Option Text
  | flow f => f.loopTest
  | _ => none

/-- Apart from blanks the text is the source, with a semicolon behind a test that may have had none
there. -/
def Restores (test : Option Text) (source t : Text) : Prop :=
  t.unblanked = source.unblanked ∨
    test.isSome = true ∧ t.unblanked = source.unblanked ++ [';']

end Definitions

theorem Restores.append_left {test : Option Text} {source t x y : Text} (h : Restores test source t)
    (hx : x.unblanked = y.unblanked) : Restores test (x ++ source) (y ++ t) := by
  rcases h with h | ⟨htest, h⟩
  · exact .inl (by simp [h, hx])
  · exact .inr ⟨htest, by simp [h, hx]⟩

open Text (unblanked unblanked_of_isGap)

section Groups

variable {cs content rest : Text}

/-- What is read between braces is read whole from the same braces. -/
theorem fillsBraces_of_splitBraces (h : splitBraces cs = some (content, rest)) :
    FillsBraces content ∧ unblanked cs = unblanked (braced content) ++ unblanked rest := by
  have hcs : cs = braced content ++ rest := by
    rw [splitBraces_eq h, braced]
    simp
  refine ⟨fun other => ?_, by rw [hcs, Text.unblanked_append]⟩
  rw [hcs] at h
  simpa [braced] using selfDelimiting_splitBraces.read h other

theorem fillsBraces_of_splitBody (h : splitBody cs = some (content, rest)) :
    FillsBraces content ∧ unblanked cs = unblanked (braced content) ++ unblanked rest := by
  have hbraces := fillsBraces_of_splitBraces h
  rwa [Text.unblanked_afterSpaces] at hbraces

theorem fillsParens_of_splitParens (h : splitParens cs = some (content, rest)) :
    FillsParens content ∧ unblanked cs = unblanked (parenthesised content) ++ unblanked rest := by
  have hcs : cs = parenthesised content ++ rest := by
    rw [splitParens_eq h, parenthesised]
    simp
  refine ⟨fun other => ?_, by rw [hcs, Text.unblanked_append]⟩
  rw [hcs] at h
  simpa [parenthesised] using selfDelimiting_splitParens.read h other

end Groups

section Clauses

variable {cs rest : Text}

theorem Clause.unblanked_canonical (c : Clause) :
    unblanked c.canonical = unblanked c.head.words ++
      (unblanked (conditionText c.head.condition?) ++ unblanked (braced c.body)) := by
  rw [canonical, ClauseHead.text_eq]
  simp

theorem Clause.canonical_of_splitBraces {head : ClauseHead} {behind body : Text}
    (hhead : head.condition? = none)
    (hwords : unblanked cs = unblanked head.words ++ unblanked behind)
    (hbody : splitBraces behind = some (body, rest)) :
    Clause.IsClosed ⟨head, body⟩ ∧
      unblanked cs = unblanked (Clause.canonical ⟨head, body⟩) ++ unblanked rest := by
  obtain ⟨hbody, hbraces⟩ := fillsBraces_of_splitBraces hbody
  refine ⟨⟨by simp [hhead], hbody⟩, ?_⟩
  rw [Clause.unblanked_canonical, hwords, hbraces, hhead]
  simp [conditionText]

theorem Clause.canonical_of_splitParens {head : ClauseHead} {mid behind condition body : Text}
    (hhead : head.condition? = some condition)
    (hwords : unblanked cs = unblanked head.words ++ unblanked mid)
    (hparens : splitParens mid = some (condition, behind))
    (hbody : splitBody behind = some (body, rest)) :
    Clause.IsClosed ⟨head, body⟩ ∧
      unblanked cs = unblanked (Clause.canonical ⟨head, body⟩) ++ unblanked rest := by
  obtain ⟨hcondition, hgroup⟩ := fillsParens_of_splitParens hparens
  obtain ⟨hbody, hbraces⟩ := fillsBraces_of_splitBody hbody
  refine ⟨⟨by simpa [hhead] using hcondition, hbody⟩, ?_⟩
  rw [Clause.unblanked_canonical, hwords, hgroup, hbraces, hhead]
  simp [conditionText, parenthesised]

/-- A clause that is read is closed, and its canonical text accounts for what was read. -/
theorem readClause?_canonical {c : Clause} (h : readClause? cs = some (c, rest)) :
    c.IsClosed ∧ unblanked cs = unblanked c.canonical ++ unblanked rest := by
  simp only [readClause?, Option.or_eq_some_iff] at h
  rcases h with h | ⟨-, h | ⟨-, h | ⟨-, h | ⟨-, h⟩⟩⟩⟩
  all_goals
    simp only [readElseIf?, readElse?, readFilteredCatch?, readPlainCatch?, readFinally?,
      Option.bind_eq_bind, Option.bind_eq_some_iff, Option.pure_def, Option.some.injEq,
      Prod.mk.injEq, Prod.exists] at h
  · obtain ⟨_, hword, mid, hif, condition, _, hparens, body, _, hbody, rfl, rfl⟩ := h
    have hwords : unblanked cs = unblanked elseIfWords ++ unblanked mid := by
      rw [unblanked_of_afterWord? hword, unblanked_of_afterWord? hif, ← List.append_assoc]
      rfl
    exact Clause.canonical_of_splitParens rfl hwords hparens hbody
  · obtain ⟨_, hword, body, _, hbody, rfl, rfl⟩ := h
    exact Clause.canonical_of_splitBraces rfl (unblanked_of_afterWord? hword) hbody
  · obtain ⟨_, hword, condition, _, hparens, body, _, hbody, rfl, rfl⟩ := h
    exact Clause.canonical_of_splitParens rfl (unblanked_of_afterWord? hword) hparens hbody
  · obtain ⟨_, hword, body, _, hbody, rfl, rfl⟩ := h
    exact Clause.canonical_of_splitBraces rfl (unblanked_of_afterWord? hword) hbody
  · obtain ⟨_, hword, body, _, hbody, rfl, rfl⟩ := h
    exact Clause.canonical_of_splitBraces rfl (unblanked_of_afterWord? hword) hbody

theorem readClauses_canonical (cs : Text) :
    (∀ c ∈ (readClauses cs).1, c.IsClosed) ∧
      unblanked cs = unblanked ((readClauses cs).1.flatMap Clause.canonical) ++
        unblanked (readClauses cs).2 := by
  fun_induction readClauses cs with
  | case1 cs hnone => simp
  | case2 cs clause rest hread clauses final hrest ih =>
      obtain ⟨hclosed, hink⟩ := readClause?_canonical hread
      obtain ⟨hothers, hmore⟩ := ih
      rw [hrest] at hothers hmore
      refine ⟨List.forall_mem_cons.2 ⟨hclosed, hothers⟩, ?_⟩
      rw [← Text.unblanked_afterSpaces, hink, hmore]
      simp

/-- The canonical text of clauses is a spelling of them. -/
theorem spellsClauses_canonical (clauses : List Clause) :
    SpellsClauses clauses (clauses.flatMap Clause.canonical) := by
  have hspace : Text.IsGap [' '] := Text.isGap_spaces 1
  induction clauses with
  | nil => rfl
  | cons c clauses ih =>
      refine ⟨[' '], conditionText c.head.condition? ++ [' '], clauses.flatMap Clause.canonical, ?_,
        hspace, spellsCondition_conditionText hspace _, ih⟩
      simp [Clause.canonical, ClauseHead.text_eq, braced]

end Clauses

section LoopTests

variable {cs rest : Text} {keyword : Keyword}

theorem exists_mark_afterSemicolon (cs : Text) :
    ∃ mark, (mark = [] ∨ mark = [';']) ∧
      unblanked cs = mark ++ unblanked (afterSemicolon cs) := by
  unfold afterSemicolon
  split
  · rename_i tail htail
    refine ⟨[';'], .inr rfl, ?_⟩
    rw [← Text.unblanked_afterSpaces, htail]
    rfl
  · exact ⟨[], .inl rfl, rfl⟩

/-- The test of a loop that is read, and the semicolon behind it if there is one. -/
theorem readLoopTest?_canonical {condition : Text}
    (h : readLoopTest? cs = some (condition, rest)) :
    FillsParens condition ∧ ∃ mark, (mark = [] ∨ mark = [';']) ∧
      unblanked cs = unblanked (Flow.loopTestText condition) ++ mark ++ unblanked rest := by
  rw [readLoopTest?_eq] at h
  obtain ⟨⟨inner, behind⟩, hread, heq⟩ := Option.map_eq_some_iff.1 h
  obtain ⟨rfl, rfl⟩ := Prod.mk.inj heq
  obtain ⟨mid, hword, hparens⟩ := Option.bind_eq_some_iff.1 hread
  obtain ⟨hcondition, hgroup⟩ := fillsParens_of_splitParens hparens
  obtain ⟨mark, hmark, hbehind⟩ := exists_mark_afterSemicolon behind
  refine ⟨hcondition, mark, hmark, ?_⟩
  rw [unblanked_of_afterWord? hword, hgroup, hbehind]
  simp [Flow.loopTestText]

/-- The test of a loop that is read, and the source that it accounts for.  The canonical text has a
semicolon where there may be none in the source. -/
theorem readTrailing_canonical {test : Option Text} (h : readTrailing keyword cs = (test, rest)) :
    (∀ condition ∈ test, keyword = .doLoop ∧ FillsParens condition) ∧
      ∃ x, cs = x ++ rest ∧ Restores test x (loopTail test) := by
  -- Where there is no test, nothing is read.
  have hnone : (none, cs) = (test, rest) → test = none ∧ cs = [] ++ rest := by
    rintro ⟨⟩
    exact ⟨rfl, rfl⟩
  obtain ⟨x, hx⟩ := readTrailing_suffix keyword cs
  rw [h] at hx
  unfold readTrailing at h
  split at h
  · rename_i hdo
    split at h
    · rename_i condition tail htest
      obtain ⟨rfl, rfl⟩ := Prod.mk.inj h
      obtain ⟨hcondition, mark, hmark, hink⟩ := readLoopTest?_canonical htest
      have hfront : unblanked x = unblanked (Flow.loopTestText condition) ++ mark := by
        rw [Text.unblanked_afterSpaces, ← hx, Text.unblanked_append] at hink
        exact List.append_cancel_right hink
      have htail : unblanked (loopTail (some condition)) =
          unblanked (Flow.loopTestText condition) ++ [';'] := by
        rw [loopTail, List.cons_append, Text.unblanked_space, Text.unblanked_append]
        rfl
      refine ⟨by simpa using ⟨hdo, hcondition⟩, x, hx.symm, ?_⟩
      rw [Restores, htail, hfront]
      rcases hmark with rfl | rfl
      · exact .inr ⟨rfl, by rw [List.append_nil]⟩
      · exact .inl rfl
    · obtain ⟨rfl, hcs⟩ := hnone h
      exact ⟨by simp, [], hcs, .inl rfl⟩
  · obtain ⟨rfl, hcs⟩ := hnone h
    exact ⟨by simp, [], hcs, .inl rfl⟩

/-- A test behind a space is no clause. -/
theorem readClause?_loopTail (test : Option Text) :
    readClause? (afterSpaces (loopTail test)) = none := by
  cases test with
  | none => rfl
  | some condition => exact readClause?_eq_byHead _

theorem readTrailing_loopTail {test : Option Text}
    (h : ∀ condition ∈ test, keyword = .doLoop ∧ FillsParens condition) :
    readTrailing keyword (loopTail test) = (test, []) := by
  cases test with
  | none =>
      have hnone : readLoopTest? (afterSpaces []) = none := rfl
      simp [readTrailing, loopTail, hnone]
  | some condition =>
      obtain ⟨rfl, hcondition⟩ := h condition rfl
      have hspaced : loopTail (some condition) =
          ' ' :: (whileWord ++ ' ' :: '(' :: (condition ++ ')' :: [';'])) := by
        simp [loopTail, Flow.loopTestText, parenthesised]
      have htail : afterSpaces (loopTail (some condition)) =
          whileWord ++ ' ' :: '(' :: (condition ++ ')' :: [';']) := by
        rw [hspaced]
        rfl
      have htest : readTest? (whileWord ++ ' ' :: '(' :: (condition ++ ')' :: [';'])) =
          some (condition, [';']) := by
        rw [readTest?, afterWord?_append]
        exact hcondition [';']
      rw [readTrailing, if_pos rfl, htail, readLoopTest?_eq, htest]
      rfl

end LoopTests

section Heads

variable {cs body rest : Text} {keyword : Keyword} {head : FlowHead}

theorem readName?_canonical {name : Option Text} (h : readName? keyword cs = some (name, rest)) :
    (keyword ≠ .sectionBlock ∧ name = none ∨
        keyword = .sectionBlock ∧ ∃ inner, name = some inner ∧ isIdentifier inner = true) ∧
      unblanked cs = unblanked (name.getD []) ++ unblanked rest := by
  unfold readName? at h
  split at h
  · rename_i hsection
    split at h
    · rename_i c tail
      split at h
      · rename_i hstart
        cases h
        refine ⟨.inr ⟨hsection, _, rfl, ?_⟩, ?_⟩
        · simp only [isIdentifier, hstart, Bool.true_and, List.all_eq_true]
          exact fun d hd => List.mem_takeWhile_imp hd
        · rw [Text.unblanked_afterSpaces, ← Text.unblanked_append]
          simp [afterIdentifier]
      · cases h
    · cases h
  · rename_i hsection
    cases h
    exact ⟨.inl ⟨hsection, rfl⟩, rfl⟩

theorem readCondition?_canonical {condition : Option Text}
    (h : readCondition? keyword cs = some (condition, rest)) :
    (∀ inner ∈ condition, FillsParens inner) ∧
      (keyword ≠ .usingBlock ∨ condition.isSome = true) ∧
      unblanked cs = unblanked (conditionText condition) ++ unblanked rest := by
  unfold readCondition? at h
  split at h
  · obtain ⟨⟨inner, tail⟩, hparens, heq⟩ := Option.map_eq_some_iff.1 h
    cases heq
    obtain ⟨hcondition, hgroup⟩ := fillsParens_of_splitParens hparens
    exact ⟨by simpa using hcondition, .inr rfl, hgroup⟩
  · split at h
    · cases h
    · rename_i husing
      cases h
      exact ⟨by simp, .inl husing, rfl⟩

/-- A head that is read is readable, and its words account for what was read. -/
theorem readHead?_canonical (h : readHead? keyword cs = some ((head, body), rest)) :
    head.IsReadable ∧ FillsBraces body ∧
      unblanked (sigil :: keyword.text ++ cs) =
        unblanked (head.words ++ conditionText head.condition) ++ unblanked (braced body) ++
          unblanked rest := by
  simp only [readHead?, Option.bind_eq_bind, Option.bind_eq_some_iff, Option.pure_def,
    Option.some.injEq, Prod.mk.injEq, Prod.exists] at h
  obtain ⟨name, _, hname, condition, _, hcondition, _, _, hbody, ⟨rfl, rfl⟩, rfl⟩ := h
  obtain ⟨hname, hnameInk⟩ := readName?_canonical hname
  obtain ⟨hcondition, hresource, hconditionInk⟩ := readCondition?_canonical hcondition
  obtain ⟨hbody, hbraces⟩ := fillsBraces_of_splitBody hbody
  refine ⟨⟨hname, hcondition, hresource⟩, hbody, ?_⟩
  have hwords : unblanked (FlowHead.words ⟨keyword, name, condition⟩) =
      unblanked (sigil :: keyword.text) ++ unblanked (name.getD []) := by
    cases name with
    | none => simp [FlowHead.words]
    | some inner => exact Text.unblanked_append (sigil :: keyword.text) (' ' :: inner)
  rw [Text.unblanked_afterSpaces] at hnameInk
  rw [Text.unblanked_append, Text.unblanked_append, hwords, hnameInk, hconditionInk, hbraces]
  simp

end Heads

section Blocks

theorem FlowHead.canonical_toFlow (head : FlowHead) (body : Text) (clauses : List Clause)
    (test : Option Text) :
    Flow.canonical { head.toFlow body clauses with loopTest := test } =
      head.words ++ conditionText head.condition ++ ' ' :: braced body ++
        (clauses.flatMap Clause.canonical ++ loopTail test) :=
  List.append_assoc _ _ _

/-- The canonical text of a block whose parts are readable is read back. -/
theorem Flow.read?_canonical {head : FlowHead} {body : Text} {clauses : List Clause}
    {test : Option Text} (hhead : head.IsReadable) (hmembers : head.keyword.holdsMembers = false)
    (hbody : FillsBraces body) (hclauses : ∀ c ∈ clauses, c.IsClosed)
    (htest : ∀ condition ∈ test, head.keyword = .doLoop ∧ FillsParens condition) :
    let f : Flow := { head.toFlow body clauses with loopTest := test }
    Block.read? f.canonical = some (.flow f, []) := by
  intro f
  have hothers := readClauses_of_spells (spellsClauses_canonical clauses) hclauses
    (readClause?_loopTail test)
  have hw : SpellsCondition head.condition (conditionText head.condition ++ [' ']) :=
    spellsCondition_conditionText (Text.isGap_spaces 1) _
  have hassoc : f.canonical = head.words ++ (conditionText head.condition ++ [' '] ++
      '{' :: (body ++ '}' :: (clauses.flatMap Clause.canonical ++ loopTail test))) := by
    rw [FlowHead.canonical_toFlow, braced]
    simp
  rw [hassoc, Block.read?_head hhead hbody hw, FlowHead.complete, if_neg (by simp [hmembers])]
  simp only [hothers, readTrailing_loopTail htest, f]

/-- A block is read back whose head, spelled `source`, is completed by what follows. -/
theorem FlowHead.complete_canonical {head : FlowHead} {body source cs rest canon : Text}
    {block : Block} (hhead : head.IsReadable) (hbody : FillsBraces body)
    (hsource : unblanked source =
      unblanked (head.words ++ conditionText head.condition ++ ' ' :: braced body))
    (h : head.complete body cs = (block, rest)) (hcanon : block.canonical? = some canon) :
    Block.read? canon = some (block, []) ∧
      ∃ x, cs = x ++ rest ∧ Restores block.loopTest? (source ++ x) canon := by
  unfold complete at h
  split at h
  · obtain ⟨rfl, -⟩ := Prod.mk.inj h
    cases hcanon
  · rename_i hmembers
    obtain ⟨rfl, hrest⟩ := Prod.mk.inj h
    cases hcanon
    -- The text behind the head falls into the clauses, the test and the rest.
    obtain ⟨hclauses, hclausesInk⟩ := readClauses_canonical cs
    obtain ⟨y, hy, hyInk⟩ := Text.exists_unblanked_eq (readClauses_suffix cs) hclausesInk
    have htrailing : readTrailing head.keyword (readClauses cs).2 =
        ((readTrailing head.keyword (readClauses cs).2).1, rest) := Prod.ext rfl hrest
    obtain ⟨htest, z, hz, hrestores⟩ := readTrailing_canonical htrailing
    refine ⟨Flow.read?_canonical hhead (by simpa using hmembers) hbody hclauses htest, y ++ z,
      by rw [List.append_assoc, ← hz, ← hy], ?_⟩
    rw [canonical_toFlow]
    exact (hrestores.append_left hyInk).append_left hsource

theorem Block.read?_braced {body : Text} (hbody : FillsBraces body) :
    Block.read? (sigil :: braced body) = some (.code body, []) := by
  have hgroup : splitGroup .braces (body ++ ['}']) = some (body, []) := hbody []
  show (splitGroup .braces (body ++ ['}'])).map _ = _
  rw [hgroup, Option.map_some]

/-- Every block that has a structure is read back from its canonical text, which restores what was
read. -/
theorem Block.read?_canonical {cs rest canon : Text} {block : Block}
    (h : Block.read? cs = some (block, rest)) (hcanon : block.canonical? = some canon) :
    Block.read? canon = some (block, []) ∧
      ∃ x, cs = x ++ rest ∧ Restores block.loopTest? x canon := by
  obtain ⟨inner, body, rfl, hgroup, rfl⟩ | ⟨inner, rfl, rfl, -⟩ |
    ⟨keyword, tail, rfl, hstop, hread⟩ := Block.read?_cases h
  · cases hcanon
    have hsplit : splitBraces ('{' :: inner) = some (body, rest) := hgroup
    obtain ⟨hbody, hbraces⟩ := fillsBraces_of_splitBraces hsplit
    have hink : unblanked (sigil :: '{' :: inner) =
        unblanked (sigil :: braced body) ++ unblanked rest := by
      rw [Text.unblanked_cons, hbraces, Text.unblanked_cons sigil (braced body), List.append_assoc]
    obtain ⟨x, hx, hxInk⟩ := Text.exists_unblanked_eq (Block.read?_suffix h) hink
    exact ⟨Block.read?_braced hbody, x, hx, .inl hxInk.symm⟩
  · cases hcanon
  · rw [readKeywordBlock?_eq] at hread
    obtain ⟨⟨⟨head, body⟩, behind⟩, hhead, hcomplete⟩ := Option.map_eq_some_iff.1 hread
    obtain ⟨hreadable, hbody, hink⟩ := readHead?_canonical hhead
    obtain ⟨read, rfl, -⟩ := selfDelimiting_readHead? keyword hhead
    have hsource : unblanked (sigil :: keyword.text ++ read) =
        unblanked (head.words ++ conditionText head.condition ++ ' ' :: braced body) := by
      rw [← List.append_assoc, Text.unblanked_append] at hink
      rw [List.append_cancel_right hink, Text.unblanked_append _ (' ' :: braced body),
        Text.unblanked_space]
    obtain ⟨hagain, x, rfl, hrestores⟩ :=
      FlowHead.complete_canonical hreadable hbody hsource hcomplete hcanon
    exact ⟨hagain, sigil :: keyword.text ++ read ++ x, by simp, hrestores⟩

end Blocks

section Positions

/-- Every block that has a structure is read back from its canonical text, to its end.  Apart from
blanks the canonical text is the slice that the block covers, with a semicolon behind the test of a
loop that may have had none. -/
theorem Block.endAt?_canonical {s canon : Text} {block : Block} (h : Block.at? s 0 = some block)
    (hcanon : block.canonical? = some canon) :
    Block.endAt? canon 0 = some canon.length ∧ Block.at? canon 0 = some block ∧
      ∃ stop, Block.endAt? s 0 = some stop ∧
        (unblanked canon = unblanked (s.take stop) ∨
          block.loopTest?.isSome = true ∧
            unblanked canon = unblanked (s.take stop) ++ [';']) := by
  obtain ⟨⟨block, rest⟩, hread, rfl⟩ := Option.map_eq_some_iff.1 h
  obtain ⟨hagain, x, rfl, hrestores⟩ := Block.read?_canonical hread hcanon
  have hcanonRead : Block.read? (canon.drop 0) = some (block, []) := by
    rwa [List.drop_zero]
  refine ⟨?_, ?_, x.length, ?_, ?_⟩
  · rw [Block.endAt?, hcanonRead, Option.map_some, indexOf]
    simp
  · rw [Block.at?, hcanonRead, Option.map_some]
  · rw [Block.endAt?, hread, Option.map_some, indexOf]
    simp
  · rw [List.take_left]
    exact hrestores

/-- A loop with an alternative: a parenthesis is quoted, parentheses are nested, and the semicolon
is not there. -/
theorem Block.endAt?_canonical_loop :
    ∃ block, Block.at? "@do{ a }else  if(x == \")\"){ b }\n while ( c (d) ) <p>".toList 0 =
        some block ∧
      block.canonical? = some "@do { a } else if (x == \")\") { b } while ( c (d) );".toList ∧
      Block.at? "@do { a } else if (x == \")\") { b } while ( c (d) );".toList 0 = some block ∧
      Block.endAt? "@do { a } else if (x == \")\") { b } while ( c (d) );".toList 0 = some 51 := by
  have hparse : (Block.at? "@do{ a }else  if(x == \")\"){ b }\n while ( c (d) ) <p>".toList 0).bind
      Block.canonical? =
        some "@do { a } else if (x == \")\") { b } while ( c (d) );".toList := by
    decide +kernel
  obtain ⟨block, hread, hcanon⟩ := Option.bind_eq_some_iff.1 hparse
  obtain ⟨hend, hagain, -⟩ := Block.endAt?_canonical hread hcanon
  exact ⟨block, hread, hcanon, hagain, hend⟩

end Positions

end RazorLayout

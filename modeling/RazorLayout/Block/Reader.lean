import RazorLayout.Block.Basic
import RazorLayout.Scan.Expression

/-!
# Reading blocks

Input.  A text that may start with a sigil.

Result.  `Block.read?` gives the block at the front of the text together with the text behind it.
One scan serves both to find the end of a block and to take it apart, so the two never disagree.

Clauses are read greedily.  A clause whose condition or body is never closed is not part of the
block.  The test behind a loop body ends the block, with its semicolon if there is one.
-/

namespace RazorLayout

section Parts

/-- The text behind a word and the blanks that follow it. -/
def afterWord? (word cs : Text) : Option Text :=
  (Text.after? word cs).map fun rest => rest.dropWhile isBlank

/-- The body of a block and the text behind it; spaces may stand in front. -/
def splitBody (cs : Text) : Option (Text × Text) :=
  splitBraces (afterSpaces cs)

/-- An alternative with a condition. -/
def readElseIf? (cs : Text) : Option (Clause × Text) := do
  let cs ← afterWord? elseWord cs
  let cs ← afterWord? "if".toList cs
  let (condition, cs) ← splitParens cs
  let (body, cs) ← splitBody cs
  pure (⟨.elseIf condition, body⟩, cs)

/-- The alternative without a condition. -/
def readElse? (cs : Text) : Option (Clause × Text) := do
  let cs ← afterWord? elseWord cs
  let (body, cs) ← splitBraces cs
  pure (⟨.otherwise, body⟩, cs)

/-- An exception handler with a condition. -/
def readFilteredCatch? (cs : Text) : Option (Clause × Text) := do
  let cs ← afterWord? catchWord cs
  let (condition, cs) ← splitParens cs
  let (body, cs) ← splitBody cs
  pure (⟨.handler (some condition), body⟩, cs)

/-- An exception handler without a condition. -/
def readPlainCatch? (cs : Text) : Option (Clause × Text) := do
  let cs ← afterWord? catchWord cs
  let (body, cs) ← splitBraces cs
  pure (⟨.handler none, body⟩, cs)

/-- The clause that always runs. -/
def readFinally? (cs : Text) : Option (Clause × Text) := do
  let cs ← afterWord? finallyWord cs
  let (body, cs) ← splitBraces cs
  pure (⟨.cleanup, body⟩, cs)

/-- The clause at the front of a text. -/
def readClause? (cs : Text) : Option (Clause × Text) :=
  (readElseIf? cs).or <| (readElse? cs).or <| (readFilteredCatch? cs).or <|
    (readPlainCatch? cs).or (readFinally? cs)

/-- The test behind a loop body, with its semicolon. -/
def readLoopTest? (cs : Text) : Option (Text × Text) := do
  let cs ← afterWord? whileWord cs
  let (condition, cs) ← splitParens cs
  match afterSpaces cs with
  | ';' :: rest => pure (condition, rest)
  | _ => pure (condition, cs)

/-- The name behind the keyword of a section; other blocks have none. -/
def readName? (keyword : Keyword) (cs : Text) : Option (Option Text × Text) :=
  if keyword = .sectionBlock then
    match cs with
    | c :: rest =>
        if isIdentifierStart c then
          some (some (c :: rest.takeWhile isIdentifierChar), afterSpaces (afterIdentifier rest))
        else none
    | [] => none
  else some (none, cs)

/-- The condition behind the keyword; only a resource block cannot do without one. -/
def readCondition? (keyword : Keyword) (cs : Text) : Option (Option Text × Text) :=
  match cs with
  | '(' :: _ => (splitParens cs).map fun group => (some group.1, group.2)
  | _ => if keyword = .usingBlock then none else some (none, cs)

end Parts

section Progress

theorem afterWord?_suffix {word cs rest : Text} (h : afterWord? word cs = some rest) :
    rest <:+ cs := by
  obtain ⟨tail, ht, rfl⟩ := Option.map_eq_some_iff.1 h
  exact (List.dropWhile_suffix _).trans (Text.after?_suffix ht)

theorem splitBraces_length_lt {cs content rest : Text}
    (h : splitBraces cs = some (content, rest)) : rest.length < cs.length := by
  have := congrArg List.length (splitBraces_eq h)
  simp at this
  omega

theorem splitBraces_suffix {cs content rest : Text} (h : splitBraces cs = some (content, rest)) :
    rest <:+ cs := by
  rw [splitBraces_eq h]
  exact ⟨'{' :: content ++ ['}'], by simp⟩

theorem splitParens_suffix {cs content rest : Text} (h : splitParens cs = some (content, rest)) :
    rest <:+ cs := by
  rw [splitParens_eq h]
  exact ⟨'(' :: content ++ [')'], by simp⟩

theorem splitBody_suffix {cs content rest : Text} (h : splitBody cs = some (content, rest)) :
    rest <:+ cs :=
  (splitBraces_suffix h).trans (afterSpaces_suffix cs)

theorem splitBody_length_lt {cs content rest : Text} (h : splitBody cs = some (content, rest)) :
    rest.length < cs.length :=
  Nat.lt_of_lt_of_le (splitBraces_length_lt h) (afterSpaces_suffix cs).length_le

/-- A scan has made progress: a proper suffix is left. -/
def Progress (cs rest : Text) : Prop :=
  rest <:+ cs ∧ rest.length < cs.length

theorem Progress.of_suffix {cs mid rest : Text} (h : Progress mid rest) (hs : mid <:+ cs) :
    Progress cs rest :=
  ⟨h.1.trans hs, Nat.lt_of_lt_of_le h.2 hs.length_le⟩

theorem splitBraces_progress {cs content rest : Text}
    (h : splitBraces cs = some (content, rest)) : Progress cs rest :=
  ⟨splitBraces_suffix h, splitBraces_length_lt h⟩

theorem splitBody_progress {cs content rest : Text} (h : splitBody cs = some (content, rest)) :
    Progress cs rest :=
  ⟨splitBody_suffix h, splitBody_length_lt h⟩

theorem readElseIf?_progress {cs rest : Text} {clause : Clause}
    (h : readElseIf? cs = some (clause, rest)) : Progress cs rest := by
  simp only [readElseIf?, Option.bind_eq_bind, Option.bind_eq_some_iff, Option.pure_def,
    Option.some.injEq, Prod.mk.injEq, Prod.exists] at h
  obtain ⟨_, hw, _, hi, _, _, hp, _, _, hb, -, rfl⟩ := h
  exact (splitBody_progress hb).of_suffix
    ((splitParens_suffix hp).trans ((afterWord?_suffix hi).trans (afterWord?_suffix hw)))

theorem readElse?_progress {cs rest : Text} {clause : Clause}
    (h : readElse? cs = some (clause, rest)) : Progress cs rest := by
  simp only [readElse?, Option.bind_eq_bind, Option.bind_eq_some_iff, Option.pure_def,
    Option.some.injEq, Prod.mk.injEq, Prod.exists] at h
  obtain ⟨_, hw, _, _, hb, -, rfl⟩ := h
  exact (splitBraces_progress hb).of_suffix (afterWord?_suffix hw)

theorem readFilteredCatch?_progress {cs rest : Text} {clause : Clause}
    (h : readFilteredCatch? cs = some (clause, rest)) : Progress cs rest := by
  simp only [readFilteredCatch?, Option.bind_eq_bind, Option.bind_eq_some_iff, Option.pure_def,
    Option.some.injEq, Prod.mk.injEq, Prod.exists] at h
  obtain ⟨_, hw, _, _, hp, _, _, hb, -, rfl⟩ := h
  exact (splitBody_progress hb).of_suffix
    ((splitParens_suffix hp).trans (afterWord?_suffix hw))

theorem readPlainCatch?_progress {cs rest : Text} {clause : Clause}
    (h : readPlainCatch? cs = some (clause, rest)) : Progress cs rest := by
  simp only [readPlainCatch?, Option.bind_eq_bind, Option.bind_eq_some_iff, Option.pure_def,
    Option.some.injEq, Prod.mk.injEq, Prod.exists] at h
  obtain ⟨_, hw, _, _, hb, -, rfl⟩ := h
  exact (splitBraces_progress hb).of_suffix (afterWord?_suffix hw)

theorem readFinally?_progress {cs rest : Text} {clause : Clause}
    (h : readFinally? cs = some (clause, rest)) : Progress cs rest := by
  simp only [readFinally?, Option.bind_eq_bind, Option.bind_eq_some_iff, Option.pure_def,
    Option.some.injEq, Prod.mk.injEq, Prod.exists] at h
  obtain ⟨_, hw, _, _, hb, -, rfl⟩ := h
  exact (splitBraces_progress hb).of_suffix (afterWord?_suffix hw)

theorem readClause?_progress {cs rest : Text} {clause : Clause}
    (h : readClause? cs = some (clause, rest)) : Progress cs rest := by
  simp only [readClause?, Option.or_eq_some_iff] at h
  rcases h with h | ⟨-, h | ⟨-, h | ⟨-, h | ⟨-, h⟩⟩⟩⟩
  · exact readElseIf?_progress h
  · exact readElse?_progress h
  · exact readFilteredCatch?_progress h
  · exact readPlainCatch?_progress h
  · exact readFinally?_progress h

end Progress

/-- The clauses at the front of a text, with spaces between them, and the text behind the last. -/
def readClauses (cs : Text) : List Clause × Text :=
  match _h : readClause? (afterSpaces cs) with
  | none => ([], cs)
  | some (clause, rest) =>
      let (clauses, final) := readClauses rest
      (clause :: clauses, final)
  termination_by cs.length
  decreasing_by
    exact ((readClause?_progress _h).of_suffix (afterSpaces_suffix cs)).2

/-- The test behind the body of a loop that tests last, and the text behind it. -/
def readTrailing (keyword : Keyword) (cs : Text) : Option Text × Text :=
  if keyword = .doLoop then
    match readLoopTest? (afterSpaces cs) with
    | some (condition, rest) => (some condition, rest)
    | none => (none, cs)
  else (none, cs)

/-- The block that a keyword starts, from behind the keyword, and the text behind it. -/
def readKeywordBlock? (keyword : Keyword) (cs : Text) : Option (Block × Text) := do
  let (name, cs) ← readName? keyword (afterSpaces cs)
  let (condition, cs) ← readCondition? keyword cs
  let (body, cs) ← splitBody cs
  if keyword.holdsMembers then
    pure (.members keyword, cs)
  else
    let (clauses, cs) := readClauses cs
    let (loopTest, cs) := readTrailing keyword cs
    pure (.flow { keyword, name, condition, body, clauses, loopTest }, cs)

namespace Block

/-- The block at the front of a text, and the text behind it.  A comment that is never closed takes
all of the text. -/
def read? : Text → Option (Block × Text)
  | '@' :: '{' :: cs => (splitGroup .braces cs).map fun group => (.code group.1, group.2)
  | '@' :: '*' :: cs =>
      match Text.splitAt? "*@".toList cs with
      | some (_, rest) => some (.comment, rest)
      | none => some (.comment, [])
  | '@' :: cs => do
      let keyword ← Keyword.ofText? (cs.takeWhile isIdentifierChar)
      readKeywordBlock? keyword (afterIdentifier cs)
  | _ => none

end Block

section Suffixes

theorem readClauses_suffix (cs : Text) : (readClauses cs).2 <:+ cs := by
  fun_induction readClauses cs with
  | case1 => exact List.suffix_refl _
  | case2 cs clause rest h clauses final hrest ih =>
      rw [hrest] at ih
      exact ih.trans ((readClause?_progress h).of_suffix (afterSpaces_suffix cs)).1

theorem readLoopTest?_suffix {cs condition rest : Text}
    (h : readLoopTest? cs = some (condition, rest)) : rest <:+ cs := by
  simp only [readLoopTest?, Option.bind_eq_bind, Option.bind_eq_some_iff, Prod.exists] at h
  obtain ⟨mid, hw, _, tail, hp, h⟩ := h
  have htail : tail <:+ cs := (splitParens_suffix hp).trans (afterWord?_suffix hw)
  split at h
  · rename_i hs
    cases h
    refine List.IsSuffix.trans ?_ ((afterSpaces_suffix tail).trans htail)
    rw [hs]
    exact List.suffix_cons _ _
  · cases h
    exact htail

theorem readTrailing_suffix (keyword : Keyword) (cs : Text) :
    (readTrailing keyword cs).2 <:+ cs := by
  unfold readTrailing
  split
  · split
    · rename_i h
      exact (readLoopTest?_suffix h).trans (afterSpaces_suffix cs)
    · exact List.suffix_refl _
  · exact List.suffix_refl _

theorem readName?_suffix {keyword : Keyword} {cs rest : Text} {name : Option Text}
    (h : readName? keyword cs = some (name, rest)) : rest <:+ cs := by
  unfold readName? at h
  split at h
  · split at h
    · split at h
      · cases h
        exact ((afterSpaces_suffix _).trans (afterIdentifier_suffix _)).trans
          (List.suffix_cons _ _)
      · cases h
    · cases h
  · cases h
    exact List.suffix_refl _

theorem readCondition?_suffix {keyword : Keyword} {cs rest : Text} {condition : Option Text}
    (h : readCondition? keyword cs = some (condition, rest)) : rest <:+ cs := by
  unfold readCondition? at h
  split at h
  · obtain ⟨⟨inner, tail⟩, hp, he⟩ := Option.map_eq_some_iff.1 h
    cases he
    exact splitParens_suffix hp
  · split at h
    · cases h
    · cases h
      exact List.suffix_refl _

theorem readKeywordBlock?_suffix {keyword : Keyword} {cs rest : Text} {block : Block}
    (h : readKeywordBlock? keyword cs = some (block, rest)) : rest <:+ cs := by
  simp only [readKeywordBlock?, Option.bind_eq_bind, Option.bind_eq_some_iff, Prod.exists] at h
  obtain ⟨_, _, hn, _, _, hc, _, tail, hb, h⟩ := h
  have htail : tail <:+ cs :=
    (splitBody_suffix hb).trans ((readCondition?_suffix hc).trans
      ((readName?_suffix hn).trans (afterSpaces_suffix cs)))
  split at h
  · cases h
    exact htail
  · cases h
    exact ((readTrailing_suffix _ _).trans (readClauses_suffix _)).trans htail

theorem Block.read?_eq_cons {cs rest : Text} {block : Block}
    (h : Block.read? cs = some (block, rest)) : ∃ tail, cs = '@' :: tail ∧ rest <:+ tail := by
  unfold Block.read? at h
  split at h
  · obtain ⟨⟨inner, tail⟩, hg, he⟩ := Option.map_eq_some_iff.1 h
    cases he
    exact ⟨_, rfl, (splitGroup_suffix hg).trans (List.suffix_cons _ _)⟩
  · split at h
    · rename_i hs
      cases h
      rw [Text.splitAt?_eq hs]
      exact ⟨_, rfl, '*' :: (_ ++ "*@".toList), rfl⟩
    · cases h
      exact ⟨_, rfl, List.nil_suffix⟩
  · simp only [Option.bind_eq_bind, Option.bind_eq_some_iff] at h
    obtain ⟨_, -, h⟩ := h
    exact ⟨_, rfl, (readKeywordBlock?_suffix h).trans (afterIdentifier_suffix _)⟩
  · cases h

theorem Block.read?_suffix {cs rest : Text} {block : Block}
    (h : Block.read? cs = some (block, rest)) : rest <:+ cs := by
  obtain ⟨tail, rfl, hs⟩ := Block.read?_eq_cons h
  exact hs.trans (List.suffix_cons _ _)

theorem Block.front_read?_ne_nil {cs rest : Text} {block : Block}
    (h : Block.read? cs = some (block, rest)) : Text.front cs rest ≠ [] := by
  obtain ⟨tail, rfl, hs⟩ := Block.read?_eq_cons h
  intro hn
  have happ := congrArg List.length (Text.front_append (hs.trans (List.suffix_cons '@' tail)))
  have := hs.length_le
  simp [hn] at happ
  omega

end Suffixes

end RazorLayout

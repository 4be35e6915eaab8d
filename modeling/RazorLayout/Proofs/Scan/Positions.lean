import Mathlib.Data.Nat.Count
import Mathlib.Order.Bounds.Defs
import RazorLayout.Proofs.Scan.Delimited
import RazorLayout.Proofs.Scan.QuotedRuns

/-!
# Where groups and expressions end

Input.  A text and a position in it: the one behind the opening delimiter of a group, or the one
behind a sigil.

A group is closed by a delimiter with as many opening as closing ones in front of it, where those in
quoted runs do not count.  A scanner keeps a depth instead.  `GroupState.Tracks` says what its state
knows about the counts.  As long as no position closes the group, each step keeps that
(`walk?_tracks`), and no scanner gets past one that does (`not_closesGroup_of_walk?`).

Results.

* `closingIndex?_isLeast`: a group is closed at the first position that may close it.
* `expressionEnd_within`: an expression ends in the text.
* Both are decided by the characters up to that position, whatever stands around them
  (`AgreeWithin`).
-/

namespace RazorLayout

section Agreement

variable {t other read tail : Text} {c : Char} {start stop : Nat}

/-- Two texts have the same characters from position `start` up to position `stop`. -/
def AgreeWithin (start stop : Nat) (t other : Text) : Prop :=
  ∀ i, start ≤ i → i ≤ stop → other[i]? = t[i]?

/-- A text that agrees with what a scanner has read, and with the next character, starts alike. -/
theorem AgreeWithin.drop_eq (h : AgreeWithin start (start + read.length) t other)
    (ht : t.drop start = read ++ c :: tail) :
    ∃ rest, other.drop start = read ++ c :: rest := by
  have htake : (other.drop start).take (read.length + 1) = read ++ [c] := by
    have hread : (t.drop start).take (read.length + 1) = read ++ [c] := by
      rw [ht, List.append_cons]
      exact List.take_left' (by simp)
    rw [← hread]
    apply List.ext_getElem?
    intro i
    by_cases hi : i < read.length + 1
    · rw [List.getElem?_take_of_lt hi, List.getElem?_take_of_lt hi, List.getElem?_drop,
        List.getElem?_drop]
      exact h (start + i) (by omega) (by omega)
    · simp [hi]
  refine ⟨(other.drop start).drop (read.length + 1), ?_⟩
  rw [List.append_cons, ← htake, List.take_append_drop]

end Agreement

section Groups

/-- How often `c` stands between the positions `start` and `stop` without being quoted. -/
def unquotedCount (t : Text) (start stop : Nat) (c : Char) : Nat :=
  Nat.count (fun i => start ≤ i ∧ t[i]? = some c ∧ ¬IsQuoted t start i) stop

/-- At position `r` an unquoted closing delimiter has as many opening as closing ones between it and
`start`. -/
structure ClosesGroup (opening closing : Char) (t : Text) (start r : Nat) : Prop where
  start_le : start ≤ r
  getElem?_eq : t[r]? = some closing
  not_isQuoted : ¬IsQuoted t start r
  balanced : unquotedCount t start r opening = unquotedCount t start r closing

variable {d : Delimiters} {t : Text} {c opening closing : Char} {start i r : Nat}
  {state next : GroupState}

@[simp] theorem unquotedCount_self (t : Text) (start : Nat) (c : Char) :
    unquotedCount t start start c = 0 :=
  Nat.count_iff_forall_not.2 fun _ hi h => absurd h.1 (by omega)

theorem unquotedCount_succ (hstart : start ≤ i) (hc : t[i]? = some c) (b : Char) :
    unquotedCount t start (i + 1) b = unquotedCount t start i b +
      if c = b ∧ quotesAt t start i = .outside ∧ isQuote c = false then 1 else 0 := by
  rw [unquotedCount, Nat.count_succ, ← unquotedCount]
  congr 1
  simp only [hstart, hc, Option.some.injEq, not_isQuoted_iff hstart hc, true_and]

/-- What a scanner of a group knows at position `i`: the state of quoted runs, and how many more
opening than closing delimiters it has passed. -/
structure GroupState.Tracks (opening closing : Char) (t : Text) (start i : Nat)
    (state : GroupState) : Prop where
  quotes_eq : state.quotes = quotesAt t start i
  depth_add : state.depth + unquotedCount t start i closing = unquotedCount t start i opening

theorem GroupState.tracks_start (opening closing : Char) (t : Text) (start : Nat) :
    GroupState.Tracks opening closing t start start {} :=
  ⟨(quotesAt_self t start).symm, by simp⟩

/-- A scanner stops where the group may be closed, and nowhere else. -/
theorem GroupState.Tracks.step?_eq_none_iff (h : state.Tracks opening closing t start i)
    (hne : opening ≠ closing) (hstart : start ≤ i) (hc : t[i]? = some c) :
    Delimiters.step? ⟨some opening, some closing⟩ state c = none ↔
      ClosesGroup opening closing t start i := by
  rw [Delimiters.step?_eq_none_iff]
  constructor
  · rintro ⟨rfl, hquote, -, hclosing⟩
    cases hclosing
    have hbalanced := h.depth_add
    rw [Nat.zero_add] at hbalanced
    have hunquoted := (not_isQuoted_iff hstart hc).2 ⟨h.quotes_eq.symm, hquote⟩
    exact ⟨hstart, hc, hunquoted, hbalanced.symm⟩
  · intro hcloses
    obtain rfl : c = closing := by
      rw [hcloses.getElem?_eq] at hc
      exact (Option.some.inj hc).symm
    obtain ⟨houtside, hquote⟩ := (not_isQuoted_iff hstart hc).1 hcloses.not_isQuoted
    have hdepth : state.depth = 0 := by
      have hdepth := h.depth_add
      have hbalanced := hcloses.balanced
      omega
    obtain ⟨depth, quotes⟩ := state
    obtain rfl : depth = 0 := hdepth
    obtain rfl : quotes = .outside := h.quotes_eq.trans houtside
    exact ⟨rfl, hquote, by simpa using hne, rfl⟩

/-- A character outside quoted runs changes the depth by what it counts, and no other one does. -/
theorem depth?_add {depth : Nat} (hne : opening ≠ closing)
    (h : Delimiters.depth? ⟨some opening, some closing⟩ state c = some depth) :
    depth + (if c = closing ∧ state.quotes = .outside ∧ isQuote c = false then 1 else 0) =
      state.depth + if c = opening ∧ state.quotes = .outside ∧ isQuote c = false then 1 else 0 := by
  rw [Delimiters.depth?] at h
  split at h
  · rename_i hquoted
    cases h
    have hcount : ¬(state.quotes = .outside ∧ isQuote c = false) := by
      rintro ⟨houtside, hquote⟩
      simp [houtside, hquote] at hquoted
    simp [hcount]
  · rename_i hquoted
    have hcount : state.quotes = .outside ∧ isQuote c = false := by
      simpa using hquoted
    simp only [hcount, and_true]
    split at h
    · rename_i hopening
      cases hopening
      cases h
      simp [hne]
    · rename_i hopening
      have hother : c ≠ opening := fun heq => hopening (by rw [heq])
      split at h
      · rename_i hclosing
        cases hclosing
        split at h
        · cases h
        · rename_i hdepth
          cases h
          simp [hother, hdepth]
      · rename_i hclosing
        have hother' : c ≠ closing := fun heq => hclosing (by rw [heq])
        cases h
        simp [hother, hother']

theorem GroupState.Tracks.step (h : state.Tracks opening closing t start i)
    (hne : opening ≠ closing) (hstart : start ≤ i) (hc : t[i]? = some c)
    (hstep : Delimiters.step? ⟨some opening, some closing⟩ state c = some next) :
    next.Tracks opening closing t start (i + 1) := by
  obtain ⟨depth, hdepth, rfl⟩ := Option.map_eq_some_iff.1 hstep
  have hbefore := h.depth_add
  have hchange := depth?_add hne hdepth
  rw [h.quotes_eq] at hchange
  refine ⟨by rw [quotesAt_succ hstart hc, h.quotes_eq], ?_⟩
  rw [unquotedCount_succ hstart hc, unquotedCount_succ hstart hc]
  dsimp only
  omega

theorem walk?_extract_succ (hstart : start ≤ i) (hc : t[i]? = some c) :
    d.walk? {} (t.extract start (i + 1)) =
      (d.walk? {} (t.extract start i)).bind fun state => d.step? state c := by
  rw [extract_succ hstart hc, Delimiters.walk?_append]
  simp

/-- As long as the group is open, the scanner goes on and knows where it is. -/
theorem walk?_tracks (hne : opening ≠ closing) (hstart : start ≤ i) (hi : i ≤ t.length)
    (hopen : ∀ j, j < i → ¬ClosesGroup opening closing t start j) :
    ∃ state, Delimiters.walk? ⟨some opening, some closing⟩ {} (t.extract start i) = some state ∧
      state.Tracks opening closing t start i := by
  induction i, hstart using Nat.le_induction with
  | base => exact ⟨{}, by simp, GroupState.tracks_start opening closing t start⟩
  | succ i hstart ih =>
      obtain ⟨state, hwalk, htracks⟩ := ih (by omega) fun j hj => hopen j (by omega)
      have hc : t[i]? = some t[i] := List.getElem?_eq_getElem _
      rw [walk?_extract_succ hstart hc, hwalk, Option.bind_some]
      cases hstep : Delimiters.step? ⟨some opening, some closing⟩ state t[i] with
      | none =>
          exact absurd ((htracks.step?_eq_none_iff hne hstart hc).1 hstep)
            (hopen i i.lt_succ_self)
      | some next => exact ⟨next, rfl, htracks.step hne hstart hc hstep⟩

/-- A scanner goes on only as long as the group is open. -/
theorem not_closesGroup_of_walk? (hne : opening ≠ closing) (hstart : start ≤ i)
    (hi : i ≤ t.length)
    (hwalk : Delimiters.walk? ⟨some opening, some closing⟩ {} (t.extract start i) = some state) :
    ∀ j, j < i → ¬ClosesGroup opening closing t start j := by
  induction i, hstart using Nat.le_induction generalizing state with
  | base => exact fun j hj h => absurd h.start_le (by omega)
  | succ i hstart ih =>
      have hc : t[i]? = some t[i] := List.getElem?_eq_getElem _
      rw [walk?_extract_succ hstart hc] at hwalk
      obtain ⟨middle, hmiddle, hstep⟩ := Option.bind_eq_some_iff.1 hwalk
      have hopen := ih (by omega) hmiddle
      intro j hj hcloses
      rcases Nat.lt_succ_iff_lt_or_eq.1 hj with hj | rfl
      · exact hopen j hj hcloses
      · obtain ⟨state', hstate', htracks⟩ := walk?_tracks hne hstart (by omega) hopen
        obtain rfl : middle = state' := Option.some.inj (hmiddle.symm.trans hstate')
        rw [(htracks.step?_eq_none_iff hne hstart hc).2 hcloses] at hstep
        cases hstep

/-- The content of a group is a walk, and the position behind it is the one where it stops. -/
theorem closingIndex?_eq_some_iff :
    closingIndex? d t start = some r ↔
      start ≤ r ∧ (∃ c, t[r]? = some c ∧ d.step? {} c = none) ∧
        d.walk? {} (t.extract start r) = some {} := by
  rw [closingIndex?, Option.map_eq_some_iff]
  constructor
  · rintro ⟨⟨content, rest⟩, hgroup, rfl⟩
    obtain ⟨close, hclose, hdrop, hwalk⟩ := Delimiters.splitGroup_eq_some_iff.1 hgroup
    refine ⟨Nat.le_add_right _ _, ⟨close, ?_, hclose⟩, ?_⟩
    · rw [← List.getElem?_drop, hdrop]
      simp
    · rw [List.extract_eq_take_drop, Nat.add_sub_cancel_left, hdrop, List.take_left, hwalk]
  · rintro ⟨hstart, ⟨c, hc, hclose⟩, hwalk⟩
    obtain ⟨hr, rfl⟩ := List.getElem?_eq_some_iff.1 hc
    have hdrop : t.drop start = t.extract start r ++ t[r] :: t.drop (r + 1) := by
      rw [← List.drop_eq_getElem_cons hr, List.extract_eq_take_drop,
        ← Nat.add_sub_cancel' hstart, ← List.drop_drop, Nat.add_sub_cancel_left,
        List.take_append_drop]
    have hlength : start + (t.extract start r).length = r := by
      rw [List.extract_eq_take_drop, List.length_take, List.length_drop]
      omega
    exact ⟨(t.extract start r, t.drop (r + 1)),
      Delimiters.splitGroup_eq_some_iff.2 ⟨_, hclose, hdrop, hwalk⟩, hlength⟩

/-- A group is closed at the first position that may close it. -/
theorem closingIndex?_eq_some_iff_isLeast (hne : opening ≠ closing) :
    closingIndex? ⟨some opening, some closing⟩ t start = some r ↔
      IsLeast {r | ClosesGroup opening closing t start r} r := by
  rw [closingIndex?_eq_some_iff]
  constructor
  · rintro ⟨hstart, ⟨c, hc, hstop⟩, hwalk⟩
    have hr : r ≤ t.length := (List.getElem?_eq_some_iff.1 hc).1.le
    have hopen := not_closesGroup_of_walk? hne hstart hr hwalk
    obtain ⟨state, hstate, htracks⟩ := walk?_tracks hne hstart hr hopen
    obtain rfl : {} = state := Option.some.inj (hwalk.symm.trans hstate)
    exact ⟨(htracks.step?_eq_none_iff hne hstart hc).1 hstop,
      fun j hj => Nat.le_of_not_lt fun hlt => hopen j hlt hj⟩
  · rintro ⟨hcloses, hleast⟩
    have hstart := hcloses.start_le
    have hc := hcloses.getElem?_eq
    have hr : r ≤ t.length := (List.getElem?_eq_some_iff.1 hc).1.le
    have hopen : ∀ j, j < r → ¬ClosesGroup opening closing t start j :=
      fun j hj h => absurd (hleast h) (Nat.not_le_of_lt hj)
    obtain ⟨state, hwalk, htracks⟩ := walk?_tracks hne hstart hr hopen
    have hstop := (htracks.step?_eq_none_iff hne hstart hc).2 hcloses
    obtain rfl : state = {} := (Delimiters.step?_eq_none_iff.1 hstop).1
    exact ⟨hstart, ⟨closing, hc, hstop⟩, hwalk⟩

theorem closingIndex?_eq_none_iff (hne : opening ≠ closing) :
    closingIndex? ⟨some opening, some closing⟩ t start = none ↔
      ∀ r, ¬ClosesGroup opening closing t start r := by
  constructor
  · intro hnone r
    -- The first position that may close the group would be found.
    induction r using Nat.strongRecOn with
    | ind r ih =>
        intro hcloses
        have hleast : IsLeast {r | ClosesGroup opening closing t start r} r :=
          ⟨hcloses, fun j hj => Nat.le_of_not_lt fun hlt => ih j hlt hj⟩
        have hfound := (closingIndex?_eq_some_iff_isLeast hne).2 hleast
        rw [hnone] at hfound
        cases hfound
  · intro hopen
    refine Option.eq_none_iff_forall_ne_some.2 fun r hfound => ?_
    exact hopen r ((closingIndex?_eq_some_iff_isLeast hne).1 hfound).1

/-- A group is decided by its own characters. -/
theorem AgreeWithin.closingIndex?_eq {other : Text} (h : AgreeWithin start r t other)
    (hfound : closingIndex? d t start = some r) : closingIndex? d other start = some r := by
  obtain ⟨⟨content, rest⟩, hgroup, rfl⟩ := Option.map_eq_some_iff.1 hfound
  obtain ⟨close, hclose, hdrop, hwalk⟩ := Delimiters.splitGroup_eq_some_iff.1 hgroup
  obtain ⟨rest', hother⟩ := h.drop_eq hdrop
  rw [closingIndex?, Delimiters.splitGroup_eq_some_iff.2 ⟨close, hclose, hother, hwalk⟩]
  rfl

theorem closingIndex?_congr {other : Text} (h : ∀ i, start ≤ i → other[i]? = t[i]?) :
    closingIndex? d other start = closingIndex? d t start := by
  have hdrop : other.drop start = t.drop start := by
    apply List.ext_getElem?
    intro i
    rw [List.getElem?_drop, List.getElem?_drop]
    exact h (start + i) (Nat.le_add_right _ _)
  rw [closingIndex?, closingIndex?, hdrop]

/-- A group is closed at the first unquoted closing delimiter with as many opening as closing ones
in front of it, and it is open if there is none.  The characters of the group up to this delimiter
decide that, and those in front of the group never do. -/
theorem closingIndex?_isLeast (hne : opening ≠ closing) (t : Text) (start : Nat) :
    (∀ r, closingIndex? ⟨some opening, some closing⟩ t start = some r ↔
      IsLeast {r | ClosesGroup opening closing t start r} r) ∧
    (closingIndex? ⟨some opening, some closing⟩ t start = none ↔
      ∀ r, ¬ClosesGroup opening closing t start r) ∧
    (∀ r other, closingIndex? ⟨some opening, some closing⟩ t start = some r →
      AgreeWithin start r t other →
        closingIndex? ⟨some opening, some closing⟩ other start = some r) ∧
    ∀ other, (∀ i, start ≤ i → other[i]? = t[i]?) →
      closingIndex? ⟨some opening, some closing⟩ other start =
        closingIndex? ⟨some opening, some closing⟩ t start :=
  ⟨fun _ => closingIndex?_eq_some_iff_isLeast hne, closingIndex?_eq_none_iff hne,
    fun _ _ hfound hagree => hagree.closingIndex?_eq hfound,
    fun _ hsame => closingIndex?_congr hsame⟩

/-- Two quoted parentheses, one of them behind an escaped quote, and a group inside the group.  The
other text differs in front of the group and ends with it. -/
theorem closingIndex?_isLeast_call :
    let t : Text := "f(a, ')', \"\\\"(\", (b)) c".toList
    let other : Text := "'[a, ')', \"\\\"(\", (b))".toList
    '(' ≠ ')' ∧ closingIndex? .parens t 2 = some 20 ∧
      IsLeast {r | ClosesGroup '(' ')' t 2 r} 20 ∧ AgreeWithin 2 20 t other ∧
      closingIndex? .parens other 2 = some 20 := by
  intro t other
  have hne : '(' ≠ ')' := by decide
  have hfound : closingIndex? .parens t 2 = some 20 := by decide +kernel
  have hagree : AgreeWithin 2 20 t other := by
    unfold AgreeWithin
    decide +kernel
  obtain ⟨hleast, -, hlocal, -⟩ := closingIndex?_isLeast hne t 2
  exact ⟨hne, hfound, (hleast 20).1 hfound, hagree, hlocal 20 other hfound hagree⟩

end Groups

section Expressions

/-- The position behind the expression whose sigil stands in front of `pos`. -/
def expressionEnd (t : Text) (pos : Nat) : Nat :=
  indexOf t pos (afterExpression (t.drop pos))

/-- A character with which an expression starts. -/
def startsExpression (c : Char) : Bool :=
  c == '(' || c == '[' || isIdentifierStart c

theorem expressionEnd_eq (t : Text) (pos : Nat) :
    expressionEnd t pos = pos + (splitExpression (t.drop pos)).1.length := by
  have hlength := congrArg List.length (splitExpression_append (t.drop pos))
  rw [List.length_append] at hlength
  rw [expressionEnd, indexOf, afterExpression]
  omega

theorem splitExpression_ne_nil_iff (cs : Text) :
    (splitExpression cs).1 ≠ [] ↔ cs.head?.any startsExpression = true := by
  fun_cases splitExpression cs with
  | case1 => simp
  | case2 cs => simp [startsExpression]
  | case3 cs => simp [startsExpression]
  | case4 c cs hparen hbracket hstart after => simp [startsExpression, hstart]
  | case5 c cs hparen hbracket hstart => simp [startsExpression, hparen, hbracket, hstart]

/-- An expression ends in the text, and takes a character exactly where one starts.  If text is left
behind it, its characters and the next one decide where it ends. -/
theorem expressionEnd_within (t : Text) (pos : Nat) :
    pos ≤ expressionEnd t pos ∧ expressionEnd t pos ≤ max pos t.length ∧
    (pos < expressionEnd t pos ↔ t[pos]?.any startsExpression = true) ∧
    (expressionEnd t pos < t.length →
      ∀ other, AgreeWithin pos (expressionEnd t pos) t other →
        expressionEnd other pos = expressionEnd t pos) := by
  have hend := expressionEnd_eq t pos
  have hsplit := splitExpression_append (t.drop pos)
  have hlength := congrArg List.length hsplit
  rw [List.length_append, List.length_drop] at hlength
  refine ⟨by omega, by omega, ?_, fun hlt other hagree => ?_⟩
  · rw [← List.head?_drop, ← splitExpression_ne_nil_iff, ← List.length_pos_iff]
    omega
  · obtain ⟨c, tail, hrest⟩ : ∃ c tail, afterExpression (t.drop pos) = c :: tail := by
      apply List.exists_cons_of_ne_nil
      intro hnil
      rw [afterExpression] at hnil
      rw [hnil, List.length_nil] at hlength
      omega
    rw [hend] at hagree
    rw [← afterExpression, hrest] at hsplit
    obtain ⟨rest, hother⟩ := hagree.drop_eq hsplit.symm
    rw [hend, expressionEnd_eq, hother, splitExpression_stop hrest]

/-- Members, an index, and a call with a quoted parenthesis.  The other text differs in front of the
sigil and behind the blank. -/
theorem expressionEnd_within_call :
    let t : Text := "<p>@a.b[i](x, ')').c d</p>".toList
    let other : Text := "x y@a.b[i](x, ')').c (e".toList
    expressionEnd t 4 = 20 ∧ 20 < t.length ∧ AgreeWithin 4 20 t other ∧
      expressionEnd other 4 = 20 := by
  intro t other
  have hend : expressionEnd t 4 = 20 := by decide +kernel
  have hlt : expressionEnd t 4 < t.length := by
    rw [hend]
    decide
  have hagree : AgreeWithin 4 (expressionEnd t 4) t other := by
    rw [hend, AgreeWithin]
    decide +kernel
  obtain ⟨-, -, -, hlocal⟩ := expressionEnd_within t 4
  have hother := hlocal hlt other hagree
  rw [hend] at hlt hagree hother
  exact ⟨hend, hlt, hagree, hother⟩

end Expressions

end RazorLayout

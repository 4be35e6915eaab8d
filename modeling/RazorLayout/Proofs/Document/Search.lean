import Mathlib.Data.List.Induction
import Mathlib.Logic.Relation
import RazorLayout.Proofs.Document.Regions

/-!
# The search for member blocks, position by position

The search goes through the positions of a document.  Where no member block opens it goes one
position on, and behind a block that is closed it goes on at the end of the block.  It ends where
the document ends, or at a block that is never closed.

* `openingAt?` is the member block that opens at a position, and `blockEnd?` the position behind its
  closing brace;
* `ownsLines` says that a part of a document shares no line with anything but blanks;
* `searchNext?` is one step of the search, and `Reached` the positions that it comes to;
* `regionAt?` is the block that opens at a position, if it is closed and owns its lines;
* `Region.span` is the part of a document that a block takes up, from its sigil to its closing
  brace.

Results.  `regionsAt_eq`: what one step of the search finds.  `mem_regionsAt_iff`: the blocks that
the search finds from a position on are those that it reaches, that are closed and own their lines;
`mem_spansFrom_iff` says the same of their spans.
-/

namespace RazorLayout

section Lines

/-- The part of a text on its last line. -/
def lastLine (t : Text) : Text :=
  (t.reverse.takeWhile fun c => c != '\n').reverse

/-- The position where a line starts, counted from zero. -/
def lineStart : Text → Nat → Nat
  | _, 0 => 0
  | [], _ + 1 => 0
  | c :: cs, n + 1 => 1 + if c = '\n' then lineStart cs n else lineStart cs (n + 1)

theorem lastLine_concat (t : Text) (c : Char) :
    lastLine (t ++ [c]) = if c = '\n' then [] else lastLine t ++ [c] := by
  by_cases hc : c = '\n' <;> simp [lastLine, hc]

/-- The last line of a text stands behind a line feed or at the front. -/
theorem exists_append_lastLine (t : Text) :
    ∃ front, t = front ++ lastLine t ∧ (front = [] ∨ front.getLast? = some '\n') := by
  refine ⟨(t.reverse.dropWhile fun c => c != '\n').reverse, ?_, ?_⟩
  · rw [lastLine, ← List.reverse_append, List.takeWhile_append_dropWhile, List.reverse_reverse]
  · cases hdrop : t.reverse.dropWhile fun c => c != '\n' with
    | nil => exact Or.inl rfl
    | cons c rest =>
        have hc := Text.eq_false_of_dropWhile hdrop
        refine Or.inr ?_
        simpa using hc

theorem count_lastLine (t : Text) : (lastLine t).count '\n' = 0 := by
  rw [lastLine, List.count_reverse]
  exact count_lineRest t.reverse

/-- A line starts behind as many line feeds as its number says. -/
theorem lineStart_append {front : Text} (h : front = [] ∨ front.getLast? = some '\n')
    (rest : Text) : lineStart (front ++ rest) (front.count '\n') = front.length := by
  induction front with
  | nil => simp [lineStart]
  | cons c front ih =>
      have hlast : front = [] ∨ front.getLast? = some '\n' := by
        cases front with
        | nil => exact Or.inl rfl
        | cons d front => simpa using h
      by_cases hc : c = '\n'
      · simp [hc, lineStart, ih hlast]
        omega
      · -- The line feed at the end is not the first character.
        have hmem : '\n' ∈ front := by
          rcases hlast with rfl | hlast
          · simp [hc] at h
          · exact List.mem_of_getLast? hlast
        obtain ⟨n, hn⟩ := Nat.exists_eq_succ_of_ne_zero (List.count_pos_iff.2 hmem).ne'
        have ih := ih hlast
        rw [hn] at ih
        simp [hc, hn, lineStart, ih]
        omega

end Lines

section Positions

/-- The cursor of a search that has come to a position. -/
def cursorAt (t : Text) (p : Nat) : Cursor :=
  Cursor.advance {} (t.take p)

/-- Whether the part of a text between two positions shares no line with anything but blanks. -/
def ownsLines (t : Text) (p q : Nat) : Bool :=
  Text.isBlankText (lastLine (t.take p)) && Text.isBlankText (lineRest (t.drop q))

/-- The member block that opens at a position, and the text behind its opening brace. -/
def openingAt? (t : Text) (p : Nat) : Option (Keyword × Text) :=
  memberAt? (cursorAt t p) (t.drop p)

/-- The position behind the closing brace of the member block that opens at a position. -/
def blockEnd? (t : Text) (p : Nat) : Option Nat :=
  (openingAt? t p).bind fun opening =>
    (splitGroup .braces opening.2).map fun group => t.length - group.2.length

/-- The position that the search goes to next. -/
def searchNext? (t : Text) (p : Nat) : Option Nat :=
  match openingAt? t p with
  | none => if p < t.length then some (p + 1) else none
  | some _ => blockEnd? t p

/-- The search comes from one position to the other. -/
def ReachedFrom (t : Text) : Nat → Nat → Prop :=
  Relation.ReflTransGen fun p q => searchNext? t p = some q

/-- The search comes to a position. -/
def Reached (t : Text) (p : Nat) : Prop :=
  ReachedFrom t 0 p

/-- The part of a document that a member block takes up: from the first character of its first line
to the last one of its last line, blanks apart. -/
def Region.span (t : Text) (region : Region) : Nat × Nat :=
  let first := lineStart t region.startLine
  let last := lineStart t region.endLine
  (first + ((t.drop first).takeWhile isBlank).length,
    last + (Text.stripEnd (lineRest (t.drop last))).length)

theorem blankSoFar_advance (t : Text) :
    (Cursor.advance {} t).blankSoFar = Text.isBlankText (lastLine t) := by
  induction t using List.reverseRecOn with
  | nil => rfl
  | append_singleton t c ih =>
      have hstep : Cursor.advance {} (t ++ [c]) = (Cursor.advance {} t).step c :=
        Cursor.advance_append {} t [c]
      rw [hstep, lastLine_concat]
      by_cases hc : c = '\n'
      · simp [hc, Cursor.step, Text.isBlankText]
      · simp [hc, Cursor.step, ih, Text.isBlankText]

theorem cursorAt_advance_front {t : Text} {p q : Nat} (hpq : p ≤ q) (hq : q ≤ t.length) :
    (cursorAt t p).advance (Text.front (t.drop p) (t.drop q)) = cursorAt t q := by
  have hfront : Text.front (t.drop p) (t.drop q) = (t.drop p).take (q - p) := by
    rw [Text.front, List.length_drop, List.length_drop]
    congr 1
    omega
  have htake : t.take p ++ (t.drop p).take (q - p) = t.take q := by
    rw [← List.take_add]
    congr 1
    omega
  rw [hfront, cursorAt, ← Cursor.advance_append, htake, cursorAt]

/-- The line of a position starts in front of it, and what stands between is the last line of the
text in front of the position. -/
theorem lineStart_cursorAt {t : Text} {p : Nat} (hp : p ≤ t.length) :
    lineStart t (cursorAt t p).line + (lastLine (t.take p)).length = p ∧
      t.drop (lineStart t (cursorAt t p).line) = lastLine (t.take p) ++ t.drop p := by
  obtain ⟨front, htake, hfront⟩ := exists_append_lastLine (t.take p)
  have ht : t = front ++ (lastLine (t.take p) ++ t.drop p) := by
    rw [← List.append_assoc, ← htake, List.take_append_drop]
  have hline : (cursorAt t p).line = front.count '\n' := by
    rw [cursorAt, Cursor.line_advance]
    conv => lhs; rw [htake]
    rw [List.count_append, count_lastLine]
    exact Nat.zero_add _
  have hstart : lineStart t (front.count '\n') = front.length := by
    conv => lhs; rw [ht]
    exact lineStart_append hfront _
  have hlength : front.length + (lastLine (t.take p)).length = p := by
    rw [← List.length_append, ← htake, List.length_take, Nat.min_eq_left hp]
  rw [hline, hstart]
  refine ⟨hlength, ?_⟩
  conv => lhs; rw [ht]
  rw [List.drop_left]

/-- What it means that a block opens and is closed. -/
theorem blockEnd?_eq_some {t : Text} {p q : Nat} (h : blockEnd? t p = some q) :
    ∃ keyword inner body tail front, openingAt? t p = some (keyword, inner) ∧
      splitGroup .braces inner = some (body, t.drop q) ∧ p < q ∧ q ≤ t.length ∧
      t.drop p = '@' :: tail ∧ t.take q = front ++ ['}'] := by
  obtain ⟨⟨keyword, inner⟩, hopening, hend⟩ := Option.bind_eq_some_iff.1 h
  obtain ⟨⟨body, rest⟩, hgroup, hq⟩ := Option.map_eq_some_iff.1 hend
  simp only at hgroup hq
  subst hq
  obtain ⟨tail, htail⟩ : ∃ tail, t.drop p = '@' :: tail := by
    cases hdrop : t.drop p with
    | nil =>
        rw [openingAt?, hdrop] at hopening
        cases hopening
    | cons c cs =>
        by_cases hc : c = '@'
        · exact ⟨cs, by rw [hc]⟩
        · rw [openingAt?, hdrop, memberAt?_of_ne hc] at hopening
          cases hopening
  obtain ⟨close, hclose, hinner⟩ := splitGroup_eq hgroup
  cases hclose
  -- The text is what stands in front of the braces, the body, the brace and the rest.
  obtain ⟨front, hfront⟩ := (memberAt?_suffix hopening).trans (List.drop_suffix p t)
  have ht : t = (front ++ body ++ ['}']) ++ rest := by
    rw [← hfront, hinner]
    simp
  have hlength : t.length - rest.length = (front ++ body ++ ['}']).length := by
    rw [congrArg List.length ht, List.length_append, Nat.add_sub_cancel]
  have hdrop : t.drop (t.length - rest.length) = rest := by
    rw [hlength, ht, List.drop_left]
  have htake : t.take (t.length - rest.length) = front ++ body ++ ['}'] := by
    rw [hlength, ht, List.take_left]
  have hle := (memberAt?_suffix hopening).length_le
  have hlt := splitGroup_length_lt hgroup
  rw [List.length_drop] at hle
  refine ⟨keyword, inner, body, tail, front ++ body, hopening, by rwa [hdrop], ?_, Nat.sub_le _ _,
    htail, htake⟩
  omega

end Positions

section Steps

/-- The member block that opens at a position, provided that it is closed and owns its lines. -/
def regionAt? (t : Text) (p : Nat) : Option Region :=
  (openingAt? t p).bind fun opening =>
    (splitGroup .braces opening.2).bind fun group =>
      let q := t.length - group.2.length
      if ownsLines t p q then
        some ⟨opening.1, (cursorAt t p).line, (cursorAt t q).line, group.1⟩
      else none

/-- The member blocks that the search finds from a position on. -/
def regionsAt (t : Text) (p : Nat) : List Region :=
  regionsFrom (cursorAt t p) (t.drop p)

/-- The spans of the member blocks that the search finds from a position on. -/
def spansFrom (t : Text) (p : Nat) : List (Nat × Nat) :=
  (regionsFrom (cursorAt t p) (t.drop p)).map (Region.span t)

variable {t : Text} {p q : Nat}

theorem searchNext?_of_blockEnd? (h : blockEnd? t p = some q) : searchNext? t p = some q := by
  obtain ⟨keyword, inner, -, -, -, hopening, -⟩ := blockEnd?_eq_some h
  simp [searchNext?, hopening, h]

/-- Every step of the search goes on. -/
theorem searchNext?_advances (h : searchNext? t p = some q) : p < q ∧ q ≤ t.length := by
  unfold searchNext? at h
  split at h
  · split at h
    · cases h
      omega
    · cases h
  · obtain ⟨-, -, -, -, -, -, -, hlt, hle, -⟩ := blockEnd?_eq_some h
    exact ⟨hlt, hle⟩

/-- A block that owns its lines takes up what stands between the blanks of its first line and those
of its last one. -/
theorem span_of_ownsLines {keyword : Keyword} {body : Text} (h : blockEnd? t p = some q)
    (howns : ownsLines t p q = true) :
    Region.span t ⟨keyword, (cursorAt t p).line, (cursorAt t q).line, body⟩ = (p, q) := by
  obtain ⟨-, -, -, tail, inside, -, -, hlt, hle, htail, hinside⟩ := blockEnd?_eq_some h
  rw [ownsLines, Bool.and_eq_true] at howns
  obtain ⟨habove, hbelow⟩ := howns
  obtain ⟨hstart, hfirst⟩ := lineStart_cursorAt (t := t) (hlt.le.trans hle)
  obtain ⟨hstop, hlast⟩ := lineStart_cursorAt hle
  have hblanks : (lastLine (t.take p) ++ t.drop p).takeWhile isBlank = lastLine (t.take p) := by
    rw [List.takeWhile_append_of_pos (List.all_eq_true.1 habove), htail]
    simp [show isBlank '@' = false by decide]
  have hline : lineRest (lastLine (t.take q) ++ t.drop q) =
      lastLine (t.take q) ++ lineRest (t.drop q) := by
    apply List.takeWhile_append_of_pos
    intro c hc
    have hne : c ≠ '\n' := ne_of_mem_of_not_mem hc (List.count_eq_zero.1 (count_lastLine _))
    simpa using hne
  have hbrace : Text.stripEnd (lastLine (t.take q)) = lastLine (t.take q) := by
    refine Text.stripEnd_of_getLast (c := '}') ?_ (by decide)
    rw [hinside, lastLine_concat, if_neg (by decide), List.getLast?_concat]
  simp only [Region.span, hfirst, hlast, hblanks, hline, Text.stripEnd_append_blank hbelow, hbrace,
    hstart, hstop]

theorem regionAt?_of_closed {keyword : Keyword} {inner body : Text} (hend : blockEnd? t p = some q)
    (hopening : openingAt? t p = some (keyword, inner))
    (hgroup : splitGroup .braces inner = some (body, t.drop q)) :
    regionAt? t p =
      if ownsLines t p q then some ⟨keyword, (cursorAt t p).line, (cursorAt t q).line, body⟩
      else none := by
  obtain ⟨-, -, -, -, -, -, -, -, hle, -, -⟩ := blockEnd?_eq_some hend
  have hq : t.length - (t.drop q).length = q := by
    rw [List.length_drop]
    omega
  simp only [regionAt?, hopening, hgroup, Option.bind_some, hq]

/-- What it means that a block that owns its lines opens. -/
theorem regionAt?_eq_some {r : Region} (h : regionAt? t p = some r) :
    ∃ q inner, blockEnd? t p = some q ∧ ownsLines t p q = true ∧
      openingAt? t p = some (r.keyword, inner) ∧
      splitGroup .braces inner = some (r.body, t.drop q) ∧
      r = ⟨r.keyword, (cursorAt t p).line, (cursorAt t q).line, r.body⟩ := by
  obtain ⟨⟨keyword, inner⟩, hopening, hfound⟩ := Option.bind_eq_some_iff.1 h
  obtain ⟨⟨body, rest⟩, hgroup, -⟩ := Option.bind_eq_some_iff.1 hfound
  have hend : blockEnd? t p = some (t.length - rest.length) := by
    simp only at hgroup
    simp [blockEnd?, hopening, hgroup]
  obtain ⟨keyword', inner', body', -, -, hopening', hgroup', -⟩ := blockEnd?_eq_some hend
  cases hopening.symm.trans hopening'
  obtain ⟨rfl, -⟩ : body = body' ∧ rest = t.drop (t.length - rest.length) := by
    simpa [hgroup'] using hgroup.symm
  rw [regionAt?_of_closed hend hopening hgroup', Option.ite_none_right_eq_some] at h
  obtain ⟨howns, heq⟩ := h
  cases heq
  exact ⟨_, inner, hend, howns, hopening, hgroup', rfl⟩

/-- The search finds nothing in a text without a sigil. -/
theorem regionsFrom_append_of_not_mem {x : Text} (h : '@' ∉ x) (cursor : Cursor) (rest : Text) :
    regionsFrom cursor (x ++ rest) = regionsFrom (cursor.advance x) rest := by
  induction x generalizing cursor with
  | nil => rfl
  | cons c x ih =>
      obtain ⟨hc, hx⟩ := List.ne_and_not_mem_of_not_mem_cons h
      rw [List.cons_append, regionsFrom_of_memberAt?_eq_none (memberAt?_of_ne hc.symm _ _), ih hx]
      rfl

theorem regionsAt_of_length_le (h : t.length ≤ p) : regionsAt t p = [] := by
  rw [regionsAt, List.drop_eq_nil_of_le h, regionsFrom]

theorem regionsAt_of_openingAt?_eq_none (h : openingAt? t p = none) (hp : p < t.length) :
    regionsAt t p = regionsAt t (p + 1) := by
  have hdrop : t.drop p = t.get ⟨p, hp⟩ :: t.drop (p + 1) := List.drop_eq_getElem_cons hp
  have hcursor : cursorAt t (p + 1) = (cursorAt t p).step (t.get ⟨p, hp⟩) := by
    rw [cursorAt, List.take_add, hdrop]
    exact Cursor.advance_append {} (t.take p) [t.get ⟨p, hp⟩]
  rw [openingAt?, hdrop] at h
  rw [regionsAt, hdrop, regionsFrom_of_memberAt?_eq_none h, ← hcursor, regionsAt]

theorem regionsAt_of_unclosed {keyword : Keyword} {inner : Text}
    (h : openingAt? t p = some (keyword, inner)) (hend : blockEnd? t p = none) :
    regionsAt t p = [] := by
  have hgroup : splitGroup .braces inner = none := by
    simpa [blockEnd?, h] using hend
  cases hdrop : t.drop p with
  | nil => rw [regionsAt, hdrop, regionsFrom]
  | cons c cs =>
      rw [openingAt?, hdrop] at h
      rw [regionsAt, hdrop, regionsFrom_of_unclosed h hgroup]

/-- Behind a block that is closed the search goes on at its end.  Blanks up to the end of the line
make no difference. -/
theorem regionsAt_of_closed (hend : blockEnd? t p = some q) :
    regionsAt t p = (regionAt? t p).toList ++ regionsAt t q := by
  obtain ⟨keyword, inner, body, tail, -, hopening, hgroup, hlt, hle, htail, -⟩ :=
    blockEnd?_eq_some hend
  have hclosing : (cursorAt t p).advance (Text.front ('@' :: tail) (t.drop q)) = cursorAt t q := by
    rw [← htail]
    exact cursorAt_advance_front hlt.le hle
  have howns : ((cursorAt t p).blankSoFar && Text.isBlankText (lineRest (t.drop q))) =
      ownsLines t p q := by
    rw [cursorAt, blankSoFar_advance, ownsLines]
  have hregion := regionAt?_of_closed hend hopening hgroup
  rw [openingAt?, htail] at hopening
  have hregions := regionsFrom_of_closed hopening hgroup
  simp only [hclosing, howns] at hregions
  rw [regionsAt, htail, hregions, hregion]
  by_cases hown : ownsLines t p q = true
  · have hblank : Text.isBlankText (lineRest (t.drop q)) = true := by
      rw [ownsLines, Bool.and_eq_true] at hown
      exact hown.2
    have hsigil : '@' ∉ lineRest (t.drop q) := by
      intro hmem
      exact absurd (List.all_eq_true.1 hblank _ hmem) (by decide)
    have hline : lineRest (t.drop q) ++ (t.drop q).dropWhile (fun c => c != '\n') = t.drop q :=
      List.takeWhile_append_dropWhile
    rw [if_pos hown, if_pos hown, ← regionsFrom_append_of_not_mem hsigil, hline]
    rfl
  · rw [if_neg hown, if_neg hown]
    rfl

/-- What the search finds from a position on: the block that opens there, if it is closed and owns
its lines, and then what it finds from the next position on. -/
theorem regionsAt_eq (t : Text) (p : Nat) :
    regionsAt t p = (regionAt? t p).toList ++ (searchNext? t p).elim [] (regionsAt t) := by
  cases hopening : openingAt? t p with
  | none =>
      have hregion : regionAt? t p = none := by
        simp [regionAt?, hopening]
      by_cases hp : p < t.length
      · simp [regionsAt_of_openingAt?_eq_none hopening hp, hregion, searchNext?, hopening, hp]
      · simp [regionsAt_of_length_le (Nat.le_of_not_lt hp), hregion, searchNext?, hopening, hp]
  | some opening =>
      cases hend : blockEnd? t p with
      | none =>
          have hregion : regionAt? t p = none := by
            by_contra hsome
            obtain ⟨r, hr⟩ := Option.ne_none_iff_exists'.1 hsome
            obtain ⟨q, -, hq, -⟩ := regionAt?_eq_some hr
            cases hend.symm.trans hq
          simp [regionsAt_of_unclosed hopening hend, hregion, hend, searchNext?, hopening]
      | some q => rw [regionsAt_of_closed hend, searchNext?_of_blockEnd? hend, Option.elim_some]

theorem spansFrom_eq (t : Text) (p : Nat) :
    spansFrom t p =
      (regionAt? t p).toList.map (Region.span t) ++ (searchNext? t p).elim [] (spansFrom t) := by
  rw [spansFrom, ← regionsAt, regionsAt_eq, List.map_append]
  cases searchNext? t p <;> rfl

end Steps

section Runs

theorem ReachedFrom.le {t : Text} {p a : Nat} (h : ReachedFrom t p a) : p ≤ a := by
  induction h with
  | refl => exact Nat.le_refl p
  | tail _ hstep ih => exact ih.trans (searchNext?_advances hstep).1.le

theorem reachedFrom_iff {t : Text} {p a : Nat} :
    ReachedFrom t p a ↔ a = p ∨ ∃ q, searchNext? t p = some q ∧ ReachedFrom t q a := by
  rw [ReachedFrom, Relation.ReflTransGen.cases_head_iff, eq_comm]

/-- The search finds a block from a position on exactly when it comes to it from there. -/
theorem mem_regionsAt_iff {t : Text} {p : Nat} {r : Region} :
    r ∈ regionsAt t p ↔ ∃ a, ReachedFrom t p a ∧ regionAt? t a = some r := by
  induction hleft : t.length - p using Nat.strong_induction_on generalizing p with
  | _ left ih =>
    have hlater : r ∈ (searchNext? t p).elim [] (regionsAt t) ↔
        ∃ a, (∃ q, searchNext? t p = some q ∧ ReachedFrom t q a) ∧ regionAt? t a = some r := by
      cases hnext : searchNext? t p with
      | none => simp
      | some q =>
          obtain ⟨hlt, hle⟩ := searchNext?_advances hnext
          have hmem := ih (t.length - q) (by omega) rfl
          simp only [Option.elim_some, hmem, Option.some.injEq, exists_eq_left']
    rw [regionsAt_eq, List.mem_append, Option.mem_toList, hlater]
    constructor
    · rintro (hr | ⟨a, hnext, hr⟩)
      · exact ⟨p, Relation.ReflTransGen.refl, hr⟩
      · exact ⟨a, reachedFrom_iff.2 (Or.inr hnext), hr⟩
    · rintro ⟨a, hreached, hr⟩
      rcases reachedFrom_iff.1 hreached with rfl | hnext
      · exact Or.inl hr
      · exact Or.inr ⟨a, hnext, hr⟩

theorem span_of_regionAt? {t : Text} {a : Nat} {r : Region} (h : regionAt? t a = some r) :
    ∃ b, blockEnd? t a = some b ∧ ownsLines t a b = true ∧ r.span t = (a, b) := by
  obtain ⟨b, inner, hend, howns, -, -, hr⟩ := regionAt?_eq_some h
  exact ⟨b, hend, howns, hr ▸ span_of_ownsLines hend howns⟩

/-- The spans of what the search finds are those of the blocks that it comes to, that are closed and
own their lines. -/
theorem mem_spansFrom_iff {t : Text} {p a b : Nat} :
    (a, b) ∈ spansFrom t p ↔
      ReachedFrom t p a ∧ blockEnd? t a = some b ∧ ownsLines t a b = true := by
  rw [spansFrom, ← regionsAt, List.mem_map]
  constructor
  · rintro ⟨r, hmem, hspan⟩
    obtain ⟨a', hreached, hr⟩ := mem_regionsAt_iff.1 hmem
    obtain ⟨b', hend, howns, hspan'⟩ := span_of_regionAt? hr
    cases hspan.symm.trans hspan'
    exact ⟨hreached, hend, howns⟩
  · rintro ⟨hreached, hend, howns⟩
    obtain ⟨keyword, inner, body, -, -, hopening, hgroup, -⟩ := blockEnd?_eq_some hend
    have hr := regionAt?_of_closed hend hopening hgroup
    rw [if_pos howns] at hr
    exact ⟨_, mem_regionsAt_iff.2 ⟨a, hreached, hr⟩, span_of_ownsLines hend howns⟩

/-- The search finds the blocks in the order of the document. -/
theorem pairwise_spansFrom (t : Text) (p : Nat) :
    (spansFrom t p).Pairwise fun s s' => s.1 < s'.1 := by
  induction hleft : t.length - p using Nat.strong_induction_on generalizing p with
  | _ left ih =>
    have hhere : ∀ s ∈ (regionAt? t p).toList.map (Region.span t), s.1 = p := by
      intro s hs
      obtain ⟨r, hr, rfl⟩ := List.mem_map.1 hs
      obtain ⟨b, -, -, hspan⟩ := span_of_regionAt? (Option.mem_toList.1 hr)
      rw [hspan]
    rw [spansFrom_eq, List.pairwise_append]
    cases hnext : searchNext? t p with
    | none => cases regionAt? t p <;> simp
    | some q =>
        obtain ⟨hlt, hle⟩ := searchNext?_advances hnext
        refine ⟨?_, ih (t.length - q) (by omega) q rfl, ?_⟩
        · cases regionAt? t p <;> simp
        · intro s hs s' hs'
          rw [hhere s hs]
          exact hlt.trans_le (mem_spansFrom_iff.1 hs').1.le

/-- Every position that the search does not come to lies behind a block at which it stays, or inside
a block that it passes over. -/
theorem reachedFrom_or {t : Text} {p a : Nat} (hle : p ≤ a) (ha : a ≤ t.length) :
    ReachedFrom t p a ∨ ∃ b, ReachedFrom t p b ∧ b < a ∧ (openingAt? t b).isSome = true ∧
      ∀ q, blockEnd? t b = some q → a < q := by
  induction hleft : a - p using Nat.strong_induction_on generalizing p with
  | _ left ih =>
    rcases Nat.eq_or_lt_of_le hle with rfl | hlt
    · exact Or.inl Relation.ReflTransGen.refl
    · have hgo : ∀ q, searchNext? t p = some q → q ≤ a → ReachedFrom t p a ∨
          ∃ b, ReachedFrom t p b ∧ b < a ∧ (openingAt? t b).isSome = true ∧
            ∀ q, blockEnd? t b = some q → a < q := by
        intro q hnext hq
        have hpq := (searchNext?_advances hnext).1
        have hstep : ∀ b, ReachedFrom t q b → ReachedFrom t p b :=
          fun b hb => reachedFrom_iff.2 (Or.inr ⟨q, hnext, hb⟩)
        rcases ih (a - q) (by omega) hq rfl with hreached | ⟨b, hreached, hb⟩
        · exact Or.inl (hstep a hreached)
        · exact Or.inr ⟨b, hstep b hreached, hb⟩
      cases hopening : openingAt? t p with
      | none => exact hgo (p + 1) (by simp [searchNext?, hopening, hlt.trans_le ha]) hlt
      | some opening =>
          by_cases hclosed : ∃ q, blockEnd? t p = some q ∧ q ≤ a
          · obtain ⟨q, hend, hq⟩ := hclosed
            exact hgo q (searchNext?_of_blockEnd? hend) hq
          · refine Or.inr ⟨p, Relation.ReflTransGen.refl, hlt, by simp [hopening], ?_⟩
            intro q hend
            exact Nat.lt_of_not_le fun hq => hclosed ⟨q, hend, hq⟩

end Runs

end RazorLayout

import Mathlib.Data.Set.Basic
import Mathlib.Order.Bounds.Defs
import RazorLayout.Proofs.Token.Pass
import RazorLayout.Proofs.Token.Pieces

/-!
# Going on in the middle of a template

Input.  A template, and a place between two of its pieces.

What a reader has to remember there is very little: the name of a preserved element, if its opening
tag has just been read.  Everything else about the pieces to come is in the rest of the text.
`tokenizeAfter` goes on with that much, and one piece leads from each such place to the next
(`tokenizeAfter_eq_cons`).

Results.

* `drop_tokenize`: behind any number of pieces the others are those of the rest of the text, read
  with the name that is remembered there.
* `tokenize_inside`: running text may even be entered in the middle.
* `tokenize_resume`: both, with the closing tag of a preserved element told by its position.
-/

namespace RazorLayout

section Places

/-- The pieces of a text behind the opening tag of a preserved element, or anywhere else. -/
def tokenizeAfter : Option Text → Text → List Token
  | none, cs => tokenize cs
  | some name, cs =>
      match splitCloseTag? name cs with
      | some (content, rest) => contentToken content ++ tokenize rest
      | none => tokenize cs

/-- The preserved element whose opening tag stands in front of piece number `i`. -/
def keptName? (tokens : List Token) : Nat → Option Text
  | 0 => none
  | i + 1 => tokens[i]?.bind fun token => token.kind.preservedName?

variable {name? : Option Text} {cs rest : Text} {token : Token} {tokens : List Token}

theorem tokenize_cons (c : Char) (cs : Text) :
    tokenize (c :: cs) = (readToken c cs).1 ::
      tokenizeAfter (readToken c cs).1.kind.preservedName? (readToken c cs).2 := by
  rw [tokenize, splitContent]
  cases (readToken c cs).1.kind.preservedName? with
  | none => rfl
  | some name =>
      cases hsplit : splitCloseTag? name (readToken c cs).2 with
      | none => simp [tokenizeAfter, hsplit, contentToken]
      | some parts => simp [tokenizeAfter, hsplit]

theorem tokenize_eq_cons (h : tokenize cs = token :: tokens) :
    ∃ rest, cs = token.raw ++ rest ∧ tokens = tokenizeAfter token.kind.preservedName? rest := by
  cases cs with
  | nil =>
      rw [tokenize] at h
      cases h
  | cons c cs =>
      rw [tokenize_cons] at h
      cases h
      exact ⟨(readToken c cs).2, (readToken_cuts c cs).1, rfl⟩

/-- One piece leads to the next place: the kind of the piece is all that is remembered. -/
theorem tokenizeAfter_eq_cons (h : tokenizeAfter name? cs = token :: tokens) :
    ∃ rest, cs = token.raw ++ rest ∧ tokens = tokenizeAfter token.kind.preservedName? rest := by
  unfold tokenizeAfter at h
  split at h
  · exact tokenize_eq_cons h
  · split at h
    · rename_i content rest hsplit
      rw [splitCloseTag?_eq hsplit]
      cases content with
      | nil => exact tokenize_eq_cons h
      | cons c content =>
          cases h
          exact ⟨rest, rfl, rfl⟩
    · exact tokenize_eq_cons h

theorem tokenizeAfter_eq_append {front back : List Token}
    (h : tokenizeAfter name? cs = front ++ token :: back) :
    ∃ rest, cs = joinRaw front ++ (token.raw ++ rest) ∧
      back = tokenizeAfter token.kind.preservedName? rest := by
  -- Each step may start at another place, so the induction is for all of them.
  induction front generalizing name? cs with
  | nil => exact tokenizeAfter_eq_cons h
  | cons first front ih =>
      obtain ⟨tail, rfl, htail⟩ := tokenizeAfter_eq_cons h
      obtain ⟨rest, rfl, hback⟩ := ih htail.symm
      exact ⟨rest, by simp, hback⟩

/-- Behind any number of pieces, the others are those of the rest of the text. -/
theorem drop_tokenize (t : Text) (i : Nat) :
    (tokenize t).drop i =
      tokenizeAfter (keptName? (tokenize t) i) (t.drop (offset (tokenize t) i)) := by
  cases i with
  | zero => simp [keptName?, tokenizeAfter, offset]
  | succ i =>
      by_cases hi : i < (tokenize t).length
      · have hsplit : tokenizeAfter none t =
            (tokenize t).take i ++ (tokenize t)[i] :: (tokenize t).drop (i + 1) := by
          rw [← List.drop_eq_getElem_cons hi, List.take_append_drop]
          rfl
        obtain ⟨rest, ht, hback⟩ := tokenizeAfter_eq_append hsplit
        have hoffset : offset (tokenize t) (i + 1) =
            (joinRaw ((tokenize t).take i) ++ (tokenize t)[i].raw).length := by
          rw [offset_succ (tokenize t) ⟨i, hi⟩, List.length_append]
          rfl
        have hrest : t.drop (offset (tokenize t) (i + 1)) = rest := by
          rw [hoffset]
          conv => lhs; arg 2; rw [ht, ← List.append_assoc]
          rw [List.drop_left]
        rw [hback, hrest, keptName?, List.getElem?_eq_getElem hi]
        rfl
      · have hlength : (tokenize t).length ≤ i := Nat.le_of_not_lt hi
        have hoffset : offset (tokenize t) (i + 1) = t.length := by
          rw [offset, List.take_of_length_le (Nat.le_succ_of_le hlength), joinRaw_tokenize]
        rw [List.drop_eq_nil_of_le (Nat.le_succ_of_le hlength), hoffset, List.drop_length,
          keptName?, List.getElem?_eq_none hlength, Option.bind_none, tokenizeAfter, tokenize]

end Places

section Content

variable {name cs : Text} {n : Nat}

/-- Content runs up to the first closing tag. -/
theorem splitCloseTag?_of_first (hclose : startsCloseTag name (cs.drop n) = true)
    (hfirst : ∀ m < n, startsCloseTag name (cs.drop m) = false) :
    splitCloseTag? name cs = some (cs.take n, cs.drop n) := by
  induction cs generalizing n with
  | nil => simp [startsCloseTag] at hclose
  | cons c cs ih =>
      cases n with
      | zero =>
          rw [List.drop_zero] at hclose
          simp [splitCloseTag?, hclose]
      | succ n =>
          have hhere : startsCloseTag name (c :: cs) = false := hfirst 0 (Nat.succ_pos n)
          have htail := ih hclose fun m hm => hfirst (m + 1) (Nat.succ_lt_succ hm)
          simp [splitCloseTag?, hhere, htail]

theorem splitCloseTag?_eq_none (h : ∀ n, startsCloseTag name (cs.drop n) = false) :
    splitCloseTag? name cs = none := by
  induction cs with
  | nil => rfl
  | cons c cs ih =>
      have hhere : startsCloseTag name (c :: cs) = false := h 0
      have htail := ih fun n => h (n + 1)
      simp [splitCloseTag?, hhere, htail]

/-- Where the closing tags of an element start, from a position of a text on. -/
def closings (name t : Text) (start : Nat) : Set Nat :=
  { q | start ≤ q ∧ startsCloseTag name (t.drop q) = true }

theorem splitCloseTag?_of_isLeast {t : Text} {start q : Nat}
    (h : IsLeast (closings name t start) q) :
    splitCloseTag? name (t.drop start) = some (t.slice start q, t.drop q) := by
  obtain ⟨⟨hle, hclose⟩, hleast⟩ := h
  have hdrop : (t.drop start).drop (q - start) = t.drop q := by
    rw [List.drop_drop, Nat.add_sub_cancel' hle]
  rw [splitCloseTag?_of_first (n := q - start), hdrop]
  · rfl
  · rw [hdrop]
    exact hclose
  · intro m hm
    by_contra hother
    have hmem : start + m ∈ closings name t start :=
      ⟨Nat.le_add_right start m, by simpa using hother⟩
    have := hleast hmem
    omega

theorem splitCloseTag?_of_closings_eq_empty {t : Text} {start : Nat}
    (h : closings name t start = ∅) : splitCloseTag? name (t.drop start) = none := by
  apply splitCloseTag?_eq_none
  intro n
  by_contra hclose
  have hmem : start + n ∈ closings name t start :=
    ⟨Nat.le_add_right start n, by simpa using hclose⟩
  rw [h] at hmem
  exact hmem

/-- Whether piece number `i` is the content that is kept for a preserved element: there is a closing
tag, but not yet at the start of the piece. -/
def IsKept (t : Text) (i : Nat) : Prop :=
  ∃ name, keptName? (tokenize t) i = some name ∧
    (closings name t (offset (tokenize t) i)).Nonempty ∧
    offset (tokenize t) i ∉ closings name t (offset (tokenize t) i)

/-- Pieces that are not kept content are found without memory. -/
theorem tokenize_drop_of_not_isKept {t : Text} {i : Nat} (h : ¬ IsKept t i) :
    tokenize (t.drop (offset (tokenize t) i)) = (tokenize t).drop i := by
  rw [drop_tokenize]
  cases hname : keptName? (tokenize t) i with
  | none => rfl
  | some name =>
      -- Nothing is kept if the closing tag comes at once, or never.
      by_cases hclosing : (closings name t (offset (tokenize t) i)).Nonempty
      · have hhere : offset (tokenize t) i ∈ closings name t (offset (tokenize t) i) := by
          by_contra hhere
          exact h ⟨name, hname, hclosing, hhere⟩
        have hleast : IsLeast (closings name t (offset (tokenize t) i)) (offset (tokenize t) i) :=
          ⟨hhere, fun q hq => hq.1⟩
        simp [tokenizeAfter, splitCloseTag?_of_isLeast hleast, Text.slice, contentToken]
      · have hnone := splitCloseTag?_of_closings_eq_empty (Set.not_nonempty_iff_eq_empty.1 hclosing)
        simp [tokenizeAfter, hnone]

theorem exists_readToken_of_not_isKept {t : Text} (i : Fin (tokenize t).length)
    (h : ¬ IsKept t i) :
    ∃ c cs rest, t.drop (offset (tokenize t) i) = c :: cs ∧
      readToken c cs = ((tokenize t).get i, rest) ∧
      (tokenize t).drop (i + 1) = tokenizeAfter ((tokenize t).get i).kind.preservedName? rest := by
  have hread := tokenize_drop_of_not_isKept h
  rw [List.drop_eq_getElem_cons i.isLt] at hread
  cases hrest : t.drop (offset (tokenize t) i) with
  | nil =>
      rw [hrest, tokenize] at hread
      cases hread
  | cons c cs =>
      rw [hrest, tokenize_cons] at hread
      obtain ⟨hfirst, hothers⟩ := List.cons.inj hread
      refine ⟨c, cs, (readToken c cs).2, rfl, Prod.ext hfirst rfl, ?_⟩
      rw [← hothers, hfirst]
      rfl

end Content

section RunningText

variable {c d : Char} {cs x y z rest : Text}

/-- A comment, a document type declaration or a tag. -/
def readMarkup? (cs : Text) : Option (Token × Text) :=
  (readComment? cs).or <| (readDoctype? cs).or <| (readCloseTag? cs).or (readOpenTag? cs)

theorem head?_of_readMarkup? {piece : Token × Text} (h : readMarkup? cs = some piece) :
    cs.head? = some '<' := by
  simp only [readMarkup?, Option.or_eq_some_iff] at h
  rcases h with h | ⟨-, h | ⟨-, h | ⟨-, h⟩⟩⟩
  · obtain ⟨inner, hinner, -⟩ := Option.map_eq_some_iff.1 h
    rw [Text.after?_eq_some_iff.1 hinner]
    rfl
  · by_contra hhead
    rw [readDoctype?_eq_none] at h
    · cases h
    · rintro ⟨rest, rfl⟩
      exact hhead rfl
  · obtain ⟨inner, hinner, -⟩ := Option.map_eq_some_iff.1 h
    rw [Text.after?_eq_some_iff.1 hinner]
    rfl
  · unfold readOpenTag? at h
    split at h
    · rfl
    · cases h

theorem readConstruct?_eq (cs : Text) :
    readConstruct? cs = (readBlock? cs).or ((readDirective? cs).or (readMarkup? cs)) :=
  rfl

/-- Where running text does not stop, no construct is read. -/
theorem readConstruct?_of_startsConstruct_eq_false (h : startsConstruct (c :: cs) = false) :
    readConstruct? (c :: cs) = none := by
  by_cases hrunning : isRunning c = true
  · exact readConstruct?_eq_none hrunning cs
  by_cases hsigil : c = '@'
  · subst hsigil
    simp only [startsConstruct, Bool.or_eq_false_iff, Option.isSome_eq_false_iff,
      Option.isNone_iff_eq_none] at h
    have hmarkup : readMarkup? ('@' :: cs) = none := by
      cases hread : readMarkup? ('@' :: cs) with
      | none => rfl
      | some piece => cases head?_of_readMarkup? hread
    rw [readConstruct?_eq, readBlock?, readDirective?, h.1, h.2, hmarkup]
    rfl
  · have hangle : c = '<' := by
      simpa [isRunning, hsigil] using hrunning
    subst hangle
    cases cs with
    | nil => decide +kernel
    | cons d cs =>
        simp only [startsConstruct, Bool.or_eq_false_iff, beq_eq_false_iff_ne] at h
        obtain ⟨⟨hletter, hslash⟩, hmark⟩ := h
        have hdoctype : readDoctype? ('<' :: d :: cs) = none :=
          readDoctype?_eq_none (by simp [hmark])
        simp [readConstruct?, readBlock?, Block.read?, readDirective?, splitDirective?,
          readComment?, Text.after?, commentOpening, closeOpening, Ne.symm hmark, Ne.symm hslash,
          readCloseTag?, hdoctype, readOpenTag?, hletter]

theorem splitText_inside (h : splitText (y ++ d :: cs) = (y ++ d :: z, rest)) :
    startsConstruct (d :: cs) = false ∧ splitText cs = (z, rest) := by
  induction y with
  | nil =>
      rw [List.nil_append, splitText] at h
      split at h
      · cases h
      · rename_i hstop
        cases h
        exact ⟨by simpa using hstop, rfl⟩
  | cons c y ih =>
      rw [List.cons_append, splitText] at h
      split at h
      · cases h
      · apply ih
        simpa [Prod.ext_iff] using h

/-- A piece of text that does not start with an angle bracket is running text. -/
theorem readToken_running {token : Token} (h : readToken c cs = (token, rest))
    (hkind : token.kind = .text) (hangle : token.raw.head? ≠ some '<') :
    readConstruct? (c :: cs) = none ∧ token.raw = c :: (splitText cs).1 ∧
      rest = (splitText cs).2 := by
  obtain ⟨tail, hraw, -⟩ := exists_raw_eq_cons h
  unfold readToken at h
  split at h
  · rename_i piece hread
    subst h
    rw [readConstruct?_eq, Option.or_eq_some_iff, Option.or_eq_some_iff] at hread
    rcases hread with hread | ⟨-, hread | ⟨-, hread⟩⟩
    · obtain ⟨block, -, he⟩ := Option.map_eq_some_iff.1 hread
      cases he
      cases hkind
    · obtain ⟨parts, -, he⟩ := Option.map_eq_some_iff.1 hread
      cases he
      cases hkind
    · rw [hraw] at hangle
      exact absurd (head?_of_readMarkup? hread) hangle
  · rename_i hnone
    cases h
    exact ⟨hnone, rfl, rfl⟩

theorem tokenize_running (h : readConstruct? (c :: cs) = none) :
    tokenize (c :: cs) = ⟨.text, c :: (splitText cs).1⟩ :: tokenize (splitText cs).2 := by
  have hread : readToken c cs = (⟨.text, c :: (splitText cs).1⟩, (splitText cs).2) := by
    simp [readToken, h]
  exact tokenize_of_readToken hread rfl

/-- Running text may be entered at any of its characters. -/
theorem tokenize_inside (h : readConstruct? (c :: cs) = none) {j : Nat}
    (hj : j < (c :: (splitText cs).1).length) :
    tokenize ((c :: cs).drop j) =
      ⟨.text, (c :: (splitText cs).1).drop j⟩ :: tokenize (splitText cs).2 := by
  cases j with
  | zero => exact tokenize_running h
  | succ j =>
      obtain ⟨x, rest, hsplit⟩ : ∃ x rest, splitText cs = (x, rest) := ⟨_, _, rfl⟩
      have hcs : x ++ rest = cs := by
        rw [← splitText_append cs, hsplit]
      rw [hsplit, List.length_cons, Nat.succ_lt_succ_iff] at hj
      have hx : x = x.take j ++ x[j] :: x.drop (j + 1) := by simp
      have hdrop : x.drop j = x[j] :: x.drop (j + 1) := List.drop_eq_getElem_cons hj
      have hinside : splitText (x.take j ++ x[j] :: (x.drop (j + 1) ++ rest)) =
          (x.take j ++ x[j] :: x.drop (j + 1), rest) := by
        rw [← hx, ← List.cons_append, ← List.append_assoc, ← hx, hcs, hsplit]
      obtain ⟨hstart, htail⟩ := splitText_inside hinside
      rw [hsplit, List.drop_succ_cons, List.drop_succ_cons, ← hcs,
        List.drop_append_of_le_length hj.le, hdrop, List.cons_append,
        tokenize_running (readConstruct?_of_startsConstruct_eq_false hstart), htail]

end RunningText

/-- A template can be read on from the start of any of its pieces.

Behind the opening tag of a preserved element, everything up to the first closing tag of the element
is one piece of text, or no piece if there is nothing; without a closing tag, and behind every other
piece, the pieces to come are those of the rest of the text.  Text that is neither kept content nor
starts with an angle bracket can be entered at any character: the rest of it is one piece, and the
pieces behind it are the same. -/
theorem tokenize_resume (t : Text) :
    (∀ k, keptName? (tokenize t) k = none →
      tokenize (t.drop (offset (tokenize t) k)) = (tokenize t).drop k) ∧
    (∀ k name, keptName? (tokenize t) k = some name →
      (∀ q, IsLeast (closings name t (offset (tokenize t) k)) q →
        (tokenize t).drop k =
          contentToken (t.slice (offset (tokenize t) k) q) ++ tokenize (t.drop q)) ∧
      (closings name t (offset (tokenize t) k) = ∅ →
        (tokenize t).drop k = tokenize (t.drop (offset (tokenize t) k)))) ∧
    ∀ i : Fin (tokenize t).length, ((tokenize t).get i).kind = .text →
      ((tokenize t).get i).raw.head? ≠ some '<' → ¬ IsKept t i →
      ∀ j < ((tokenize t).get i).raw.length,
        tokenize (t.drop (offset (tokenize t) i + j)) =
          ⟨.text, ((tokenize t).get i).raw.drop j⟩ :: (tokenize t).drop (i + 1) := by
  refine ⟨fun k hname => ?_, fun k name hname => ⟨fun q hq => ?_, fun hnone => ?_⟩,
    fun i hkind hangle hkept j hj => ?_⟩
  · rw [drop_tokenize, hname, tokenizeAfter]
  · rw [drop_tokenize, hname, tokenizeAfter, splitCloseTag?_of_isLeast hq]
  · rw [drop_tokenize, hname, tokenizeAfter, splitCloseTag?_of_closings_eq_empty hnone]
  · obtain ⟨c, cs, rest, hrest, hread, hothers⟩ := exists_readToken_of_not_isKept i hkept
    obtain ⟨hnone, hraw, hbehind⟩ := readToken_running hread hkind hangle
    rw [hothers, hkind, ← List.drop_drop, hrest, hraw, hbehind]
    rw [hraw] at hj
    exact tokenize_inside hnone hj

/-- A preserved element whose content looks like a tag and like its own closing tag, and a word with
a sigil behind it. -/
def keptSample : Text :=
  "<Pre>a <b</pret</PRE>c@d".toList

theorem tokenize_resume_keptSample :
    (keptName? (tokenize keptSample) 1 = some "pre".toList ∧
      IsLeast (closings "pre".toList keptSample (offset (tokenize keptSample) 1)) 15 ∧
      (tokenize keptSample).drop 1 =
        ⟨.text, "a <b</pret".toList⟩ :: tokenize "</PRE>c@d".toList) ∧
    (¬ IsKept keptSample 3 ∧ tokenize "@d".toList = [⟨.text, "@d".toList⟩]) := by
  have htokens : tokenize keptSample =
      [⟨.openTag ⟨"Pre".toList, []⟩, "<Pre>".toList⟩, ⟨.text, "a <b</pret".toList⟩,
        ⟨.closeTag "PRE".toList, "</PRE>".toList⟩, ⟨.text, "c@d".toList⟩] := by
    decide +kernel
  have hfirst : ∀ q < 15, startsCloseTag "pre".toList (keptSample.drop q) = false := by
    decide
  obtain ⟨-, hcontent, htext⟩ := tokenize_resume keptSample
  rw [htokens] at hcontent htext ⊢
  have hleast : IsLeast (closings "pre".toList keptSample 5) 15 := by
    refine ⟨⟨by decide, by decide⟩, fun q hq => ?_⟩
    by_contra hlt
    have hclose := hq.2
    rw [hfirst q (Nat.lt_of_not_le hlt)] at hclose
    cases hclose
  have hkept : ¬ IsKept keptSample 3 := by
    rintro ⟨name, hname, -⟩
    rw [htokens] at hname
    cases hname
  constructor
  · exact ⟨rfl, hleast, (hcontent 1 _ rfl).1 15 hleast⟩
  · exact ⟨hkept, htext ⟨3, by decide⟩ rfl (by decide) hkept 1 (by decide)⟩

end RazorLayout
